import ResourceSafety.Proofs.Source.Rendering
import ResourceSafety.Proofs.Violation

/-!
# Findings told apart by their keys

A unit reports one finding for each key, so a key should tell a finding from every other of its
file.  The key joins seven parts with bars, and a name, a tag or an obligation may hold bars of its
own.  Then two findings can have one key (`Violation.key_of_tags_with_bars`), and the later of them
is not reported.

Where names and tags hold no bars the key tells all there is to tell (`Violation.key_eq_iff`).  The
file may have bars in its name, for both keys write it alike.  Only the missing conflict needs care:
it leaves two bars side by side, which a file name that begins with a bar can imitate, and then one
of the obligations has a bar more than the other.
-/

namespace ResourceSafety.Violation

variable {v w : Violation} {file : String}

/-- Both places of a finding begin in the file. -/
structure LiesIn (file : String) (v : Violation) : Prop where
  span : v.span.start.file = file
  conflict : ∀ c ∈ v.conflict, c.start.file = file

/-- Names and tags hold no bars.  An obligation holds none if the file name begins with one. -/
structure Separated (file : String) (v : Violation) : Prop where
  binding : '|' ∉ v.binding.toList
  earlier : '|' ∉ v.threads.1.toList
  later : '|' ∉ v.threads.2.toList
  obligation : (Span.heading file).head? = some '|' → '|' ∉ v.obligation.toList

/-- The two findings say the same about the same places, counted in lines and columns. -/
structure Agrees (v w : Violation) : Prop where
  kind : v.kind = w.kind
  binding : v.binding = w.binding
  span : v.span.places = w.span.places
  conflict : v.conflict.map Span.places = w.conflict.map Span.places
  threads : v.threads = w.threads
  obligation : v.obligation = w.obligation

/-! ## The parts of a key -/

/-- What the key says of a place. -/
def placeText (file : String) (s : Span) : List Char := Span.heading file ++ s.renderRange.toList

/-- What the key says of the conflict. -/
def conflictText (file : String) (v : Violation) : List Char :=
  match v.conflict with
  | none => []
  | some c => placeText file c

/-- What the key says after the conflict. -/
def tailText (v : Violation) : List Char :=
  v.threads.1.toList ++ '|' :: (v.threads.2.toList ++ '|' :: v.obligation.toList)

theorem toList_key_of_liesIn (lies : v.LiesIn file) :
    v.key.toList = (toString v.kind.number).toList ++ '|' :: (v.binding.toList ++ '|' ::
      (placeText file v.span ++ '|' :: (v.conflictText file ++ '|' :: v.tailText))) := by
  have conflict : ((v.conflict.map Span.render).getD "").toList = v.conflictText file := by
    unfold conflictText
    cases given : v.conflict with
    | none => rfl
    | some c =>
      rw [Option.map_some, Option.getD_some, Span.toList_render, lies.conflict c given]
      rfl
  have span : v.span.render.toList = placeText file v.span := by
    rw [Span.toList_render, lies.span]
    rfl
  rw [toList_key, parts]
  simp only [List.map_cons, List.map_nil, conflict, span, tailText, List.intercalate_cons_cons,
    List.intercalate_singleton, List.append_assoc, List.singleton_append]

/-! ## What the parts tell -/

theorem bar_notMem_renderRange (s : Span) : '|' ∉ s.renderRange.toList :=
  Span.notMem_renderRange rfl (by decide) (by decide) s

/-- In one file, a place ends at the first bar after its heading. -/
theorem placeText_inj {s t : Span} {rest rest' : List Char}
    (same : placeText file s ++ '|' :: rest = placeText file t ++ '|' :: rest') :
    s.places = t.places ∧ rest = rest' := by
  rw [placeText, placeText, List.append_assoc, List.append_assoc] at same
  obtain ⟨ranges, rests⟩ := Text.append_cons_inj (bar_notMem_renderRange s)
    (bar_notMem_renderRange t) (List.append_cancel_left same)
  exact ⟨Span.renderRange_inj.mp (String.toList_injective ranges), rests⟩

theorem tailText_inj (hv : v.Separated file) (hw : w.Separated file)
    (same : v.tailText = w.tailText) : v.threads = w.threads ∧ v.obligation = w.obligation := by
  obtain ⟨first, rest⟩ := Text.append_cons_inj hv.earlier hw.earlier same
  obtain ⟨second, obligation⟩ := Text.append_cons_inj hv.later hw.later rest
  exact ⟨Prod.ext (String.toList_injective first) (String.toList_injective second),
    String.toList_injective obligation⟩

/-- The bars of the tail are the two that the key sets and those of the obligation. -/
theorem count_tailText (hv : v.Separated file) :
    v.tailText.count '|' = 2 + v.obligation.toList.count '|' := by
  simp only [tailText, List.count_append, List.count_cons_self,
    List.count_eq_zero.mpr hv.earlier, List.count_eq_zero.mpr hv.later]
  omega

/-- A missing conflict is not taken for a place. -/
theorem bar_tailText_ne_placeText (hv : v.Separated file) (hw : w.Separated file) (c : Span) :
    '|' :: v.tailText ≠ placeText file c ++ '|' :: w.tailText := by
  intro same
  cases heading : Span.heading file with
  | nil =>
    rw [placeText, heading, List.nil_append, Span.toList_renderRange, Span.placeChars,
      List.append_assoc, List.append_assoc] at same
    exact Text.cons_ne_toString_append rfl (by decide) _ _ _ same
  | cons d ds =>
    have bar : (Span.heading file).head? = some '|' := by
      rw [placeText, heading] at same
      rw [heading, List.head?_cons, ← (List.cons.inj same).1]
    -- The heading brings a bar that the obligation of `v` would have to make up for.
    have counts := congrArg (List.count '|') same
    rw [List.count_cons_self, count_tailText hv, List.count_append, List.count_cons_self,
      count_tailText hw, List.count_eq_zero.mpr (hv.obligation bar)] at counts
    have some : 0 < (placeText file c).count '|' :=
      List.count_pos_iff.mpr (List.mem_append_left _ (List.mem_of_mem_head? bar))
    omega

theorem conflictText_inj (hv : v.Separated file) (hw : w.Separated file)
    (same : v.conflictText file ++ '|' :: v.tailText = w.conflictText file ++ '|' :: w.tailText) :
    v.conflict.map Span.places = w.conflict.map Span.places ∧ v.tailText = w.tailText := by
  unfold conflictText at same
  cases hc : v.conflict with
  | none =>
    cases hd : w.conflict with
    | none =>
      rw [hc, hd] at same
      exact ⟨rfl, (List.cons.inj same).2⟩
    | some d =>
      rw [hc, hd] at same
      exact absurd same (bar_tailText_ne_placeText hv hw d)
  | some c =>
    cases hd : w.conflict with
    | none =>
      rw [hc, hd] at same
      exact absurd same.symm (bar_tailText_ne_placeText hw hv c)
    | some d =>
      rw [hc, hd] at same
      obtain ⟨places, tails⟩ := placeText_inj same
      exact ⟨congrArg some places, tails⟩

/-! ## Keys -/

/-- Findings of one file that agree have one key. -/
theorem Agrees.key (agrees : v.Agrees w) (hv : v.LiesIn file) (hw : w.LiesIn file) :
    v.key = w.key := by
  have place {s t : Span} (same : s.places = t.places) : placeText file s = placeText file t := by
    rw [placeText, placeText, Span.renderRange_inj.mpr same]
  have conflict : v.conflictText file = w.conflictText file := by
    have places := agrees.conflict
    unfold conflictText
    cases hc : v.conflict <;> cases hd : w.conflict <;> rw [hc, hd] at places
    · cases places
    · cases places
    · exact place (Option.some.inj places)
  have tail : v.tailText = w.tailText := by
    rw [tailText, tailText, agrees.threads, agrees.obligation]
  apply String.toList_injective
  rw [toList_key_of_liesIn hv, toList_key_of_liesIn hw, agrees.kind, agrees.binding,
    place agrees.span, conflict, tail]

/-- Findings of one file whose names and tags hold no bars have one key if and only if they
agree. -/
theorem key_eq_iff (lies : v.LiesIn file) (lies' : w.LiesIn file) (hv : v.Separated file)
    (hw : w.Separated file) : v.key = w.key ↔ v.Agrees w := by
  constructor
  · intro same
    have chars := congrArg String.toList same
    rw [toList_key_of_liesIn lies, toList_key_of_liesIn lies'] at chars
    obtain ⟨-, rest⟩ := Text.append_cons_inj (Int64.bar_notMem_toString _)
      (Int64.bar_notMem_toString _) chars
    obtain ⟨bindings, rest⟩ := Text.append_cons_inj hv.binding hw.binding rest
    obtain ⟨span, rest⟩ := placeText_inj rest
    obtain ⟨conflict, rest⟩ := conflictText_inj hv hw rest
    obtain ⟨threads, obligation⟩ := tailText_inj hv hw rest
    exact ⟨kind_eq_of_key_eq same, String.toList_injective bindings, span, conflict, threads,
      obligation⟩
  · exact fun agrees => agrees.key lies lies'

/-- Two unsynchronized uses of a capability, by threads with the given tags. -/
def race (file : String) (earlier later : ThreadTag) (conflict : Option Span) : Violation :=
  { kind := .concurrentUse, binding := "s", span := .point file 3 1, conflict,
    threads := (earlier, later) }

theorem liesIn_race (file : String) (earlier later : ThreadTag) (line column : Int64) :
    (race file earlier later (some (.point file line column))).LiesIn file := by
  refine ⟨rfl, fun c given => ?_⟩
  cases given
  rfl

/-- The file name is a bar, and one of the findings has no conflict. -/
theorem key_eq_iff_barredFile :
    (race "|" "a" "b" none).LiesIn "|" ∧
      (race "|" "a" "b" (some (.point "|" 2 1))).LiesIn "|" ∧
      (∀ conflict, (race "|" "a" "b" conflict).Separated "|") ∧
      (race "|" "a" "b" none).key ≠ (race "|" "a" "b" (some (.point "|" 2 1))).key := by
  have alone : (race "|" "a" "b" none).LiesIn "|" := ⟨rfl, fun c given => by cases given⟩
  have against := liesIn_race "|" "a" "b" 2 1
  have plain (conflict : Option Span) : (race "|" "a" "b" conflict).Separated "|" := by
    have binding : '|' ∉ "s".toList := by decide
    have earlier : '|' ∉ "a".toList := by decide
    have later : '|' ∉ "b".toList := by decide
    exact ⟨binding, earlier, later, fun _ => List.not_mem_nil⟩
  refine ⟨alone, against, plain, fun same => ?_⟩
  have agrees := (key_eq_iff alone against (plain _) (plain _)).mp same
  cases agrees.conflict

/-- A bar in a tag moves the border between the tags, and races of different threads have one
key. -/
theorem key_of_tags_with_bars :
    (race "bars" "a|b" "c" (some (.point "bars" 2 1))).LiesIn "bars" ∧
      (race "bars" "a" "b|c" (some (.point "bars" 2 1))).LiesIn "bars" ∧
      (race "bars" "a|b" "c" (some (.point "bars" 2 1))).key =
        (race "bars" "a" "b|c" (some (.point "bars" 2 1))).key ∧
      ¬(race "bars" "a|b" "c" (some (.point "bars" 2 1))).Agrees
        (race "bars" "a" "b|c" (some (.point "bars" 2 1))) :=
  ⟨liesIn_race "bars" "a|b" "c" 2 1, liesIn_race "bars" "a" "b|c" 2 1, by cbv,
    fun agrees => absurd agrees.threads (by decide)⟩

end ResourceSafety.Violation
