import ResourceSafety.Path
import ResourceSafety.Text.Parts

/-!
# Clean paths

The elements of a path that was read are *clean*: they are names, and `..` stands before all names
and only in a path that is not rooted (`piled_ofString`).  A clean path reads back from its text
(`ofString_render`).

A *way down* is a path text that does not start at the root and has no part `..`.  A directory
joined with a way down has the elements of both (`under_of_descends`), and each path with more
elements than the directory is such a path.
-/

namespace ResourceSafety.Path

open Text (parts)

/-! ## Parts -/

theorem split_eq_splitOn (cs : List Char) : split cs = cs.splitOn '/' := by
  induction cs with
  | nil => rfl
  | cons c cs ih =>
    rw [split, List.splitOn_cons_eq_if_modifyHead, ih]
    split
    · rfl
    · cases found : cs.splitOn '/' with
      | nil => exact absurd found (List.splitOn_ne_nil _ _)
      | cons e es => rfl

/-- The text starts at the root. -/
def isRooted (s : String) : Bool := s.toList.head? == some '/'

/-- A path is read part by part. -/
theorem ofString_eq (s : String) :
    ofString s = ⟨isRooted s, ((parts '/' s).foldl (step (isRooted s)) []).reverse⟩ := by
  rw [ofString, split_eq_splitOn]
  rfl

/-! ## Elements -/

/-- The name of a file or directory. -/
structure IsName (e : String) : Prop where
  empty : e ≠ ""
  here : e ≠ "."
  up : e ≠ ".."
  slash : '/' ∉ e.toList

/-- What reading piles up, the last element first: names, and below them `..` in a path that is not
rooted. -/
inductive Piled (rooted : Bool) : List String → Prop
  | empty : Piled rooted []
  | up {seen : List String} : rooted = false → (∀ e ∈ seen, e = "..") → Piled rooted (".." :: seen)
  | name {e : String} {seen : List String} : IsName e → Piled rooted seen → Piled rooted (e :: seen)

variable {rooted : Bool} {e : String} {seen es : List String}

namespace Piled

theorem tail (h : Piled rooted (e :: seen)) : Piled rooted seen := by
  cases h with
  | up relative all =>
    cases seen with
    | nil => exact .empty
    | cons f seen =>
      obtain ⟨rfl, above⟩ := List.forall_mem_cons.mp all
      exact .up relative above
  | name _ rest => exact rest

/-- Reading one more element keeps the pile. -/
theorem step (h : Piled rooted seen) (slash : '/' ∉ e.toList) :
    Piled rooted (Path.step rooted seen e) := by
  unfold Path.step
  split
  next => exact h
  next other =>
    simp only [Bool.or_eq_true, beq_iff_eq, not_or] at other
    split
    next =>
      cases h with
      | empty =>
        cases rooted
        · exact .up rfl (by simp)
        · exact .empty
      | up relative all => exact .up relative (List.forall_mem_cons.mpr ⟨rfl, all⟩)
      | name known rest =>
        simp only [beq_iff_eq, known.up, if_false]
        exact rest
    next up => exact .name ⟨other.1, other.2, mt beq_iff_eq.mpr up, slash⟩ h

theorem foldl_step (h : Piled rooted seen) (slashes : ∀ e ∈ es, '/' ∉ e.toList) :
    Piled rooted (es.foldl (Path.step rooted) seen) := by
  induction es generalizing seen with
  | nil => exact h
  | cons e es ih =>
    obtain ⟨slash, slashes⟩ := List.forall_mem_cons.mp slashes
    exact ih (h.step slash) slashes

/-- An element that is added to a pile stays on it. -/
theorem step_eq (h : Piled rooted (e :: seen)) : Path.step rooted seen e = e :: seen := by
  unfold Path.step
  cases h with
  | up relative all =>
    cases seen with
    | nil => rw [relative]; rfl
    | cons f seen =>
      obtain ⟨rfl, -⟩ := List.forall_mem_cons.mp all
      rfl
  | name known _ => simp [known.empty, known.here, known.up]

/-- The elements of a pile read as they are. -/
theorem foldl_step_eq (h : Piled rooted (es.reverse ++ seen)) :
    es.foldl (Path.step rooted) seen = es.reverse ++ seen := by
  induction es generalizing seen with
  | nil => rfl
  | cons e es ih =>
    rw [List.reverse_cons, List.append_assoc] at h ⊢
    have there : Piled rooted (e :: seen) := by
      generalize es.reverse = front at h
      induction front with
      | nil => exact h
      | cons _ _ ih => exact ih h.tail
    rw [List.foldl_cons, there.step_eq]
    exact ih h

/-- No element of a pile is empty or holds a slash. -/
theorem solid (h : Piled rooted seen) : ∀ e ∈ seen, e ≠ "" ∧ '/' ∉ e.toList := by
  induction h with
  | empty => simp
  | up _ all =>
    rintro e mem
    obtain rfl : e = ".." := by
      obtain rfl | mem := List.mem_cons.mp mem
      · rfl
      · exact all e mem
    decide
  | name known _ ih => exact List.forall_mem_cons.mpr ⟨⟨known.empty, known.slash⟩, ih⟩

/-- An element other than `..` is a name, and so are all above it. -/
theorem names {front : List String} (h : Piled rooted (front ++ e :: seen)) (other : e ≠ "..") :
    ∀ f ∈ e :: front, IsName f := by
  induction front with
  | nil =>
    cases h with
    | up => exact absurd rfl other
    | name known _ => simpa using known
  | cons f front ih =>
    cases h with
    | up _ all => exact absurd (all e (by simp)) other
    | name known rest =>
      obtain ⟨here, above⟩ := List.forall_mem_cons.mp (ih rest)
      exact List.forall_mem_cons.mpr ⟨here, List.forall_mem_cons.mpr ⟨known, above⟩⟩

theorem names_of_head? (h : Piled rooted (es.reverse ++ seen)) (other : es.head? ≠ some "..") :
    ∀ e ∈ es, IsName e := by
  cases es with
  | nil => simp
  | cons e es =>
    rw [List.reverse_cons, List.append_assoc] at h
    simpa using h.names (mt (congrArg some) other)

theorem of_names (names : ∀ e ∈ seen, IsName e) : Piled rooted seen := by
  induction seen with
  | nil => exact .empty
  | cons e seen ih =>
    obtain ⟨known, names⟩ := List.forall_mem_cons.mp names
    exact .name known (ih names)

end Piled

/-- The elements of a path that was read are clean. -/
theorem piled_ofString (s : String) : Piled (ofString s).rooted (ofString s).elements.reverse := by
  rw [ofString_eq, List.reverse_reverse]
  exact Piled.empty.foldl_step fun _ => Text.notMem_of_mem_parts

/-! ## Texts of paths -/

theorem parts_root (s : String) : parts '/' ("/" ++ s) = "" :: parts '/' s :=
  Text.parts_append "" s

theorem isRooted_iff {s : String} : isRooted s = true ↔ ∃ t, s = "/" ++ t := by
  rw [isRooted, beq_iff_eq, List.head?_eq_some_iff]
  constructor
  · rintro ⟨cs, chars⟩
    exact ⟨String.ofList cs, String.toList_injective (by simp [chars])⟩
  · rintro ⟨t, rfl⟩
    exact ⟨t.toList, by simp⟩

section

variable (solid : ∀ e ∈ es, e ≠ "" ∧ '/' ∉ e.toList)

include solid

theorem isRooted_intercalate : isRooted ("/".intercalate es) = false := by
  cases es with
  | nil => rfl
  | cons e es =>
    have back := Text.parts_intercalate (fun e mem => (solid e mem).2) (List.cons_ne_nil e es)
    rw [← Bool.not_eq_true, isRooted_iff]
    rintro ⟨t, text⟩
    rw [show String.singleton '/' = "/" from rfl, text, parts_root] at back
    exact (solid e List.mem_cons_self).1 (List.cons.inj back).1.symm

theorem foldl_step_intercalate :
    (parts '/' ("/".intercalate es)).foldl (step rooted) seen = es.foldl (step rooted) seen := by
  cases es with
  | nil => rfl
  | cons e es =>
    exact congrArg _ (Text.parts_intercalate (fun e mem => (solid e mem).2) (List.cons_ne_nil e es))

end

theorem render_cons (e : String) (es : List String) :
    render ⟨false, e :: es⟩ = "/".intercalate (e :: es) := rfl

/-- A clean path reads back from its text. -/
theorem ofString_render {p : Path} (h : Piled p.rooted p.elements.reverse) :
    ofString p.render = p := by
  have solid : ∀ e ∈ p.elements, e ≠ "" ∧ '/' ∉ e.toList := fun e mem =>
    h.solid e (List.mem_reverse.mpr mem)
  have again : p.elements.foldl (step p.rooted) [] = p.elements.reverse :=
    (Piled.foldl_step_eq (by rwa [List.append_nil])).trans (List.append_nil _)
  obtain ⟨rooted, es⟩ := p
  cases rooted with
  | true =>
    have root : isRooted ("/" ++ "/".intercalate es) = true := isRooted_iff.mpr ⟨_, rfl⟩
    rw [render, if_pos rfl, ofString_eq, root, parts_root, List.foldl_cons]
    show Path.mk true ((parts '/' ("/".intercalate es)).foldl (step true) []).reverse = _
    rw [foldl_step_intercalate solid, again, List.reverse_reverse]
  | false =>
    cases es with
    | nil => rfl
    | cons e es =>
      rw [render_cons, ofString_eq, isRooted_intercalate solid, foldl_step_intercalate solid, again,
        List.reverse_reverse]

/-- Cleaning a clean text changes nothing. -/
theorem ofString_render_ofString (s : String) : ofString (ofString s).render = ofString s :=
  ofString_render (piled_ofString s)

theorem ofString_render_under (a b : String) : ofString (under a b).render = under a b := by
  unfold under
  split
  · exact ofString_render_ofString b
  · split <;> exact ofString_render_ofString _

/-! ## Ways down -/

/-- A path text that does not start at the root and never climbs. -/
structure Descends (way : String) : Prop where
  relative : isRooted way = false
  down : ".." ∉ parts '/' way

/-- Elements that do not climb leave the pile below them alone. -/
theorem foldl_step_append (down : ".." ∉ es) (rooted rooted' : Bool) (seen : List String) :
    es.foldl (step rooted) seen = es.foldl (step rooted') [] ++ seen := by
  induction es generalizing rooted seen with
  | nil => rfl
  | cons e es ih =>
    obtain ⟨other, down⟩ := not_or.mp (mt List.mem_cons.mpr down)
    have each (rooted : Bool) (seen : List String) :
        step rooted seen e = step rooted' [] e ++ seen := by
      simp only [step, beq_iff_eq, Ne.symm other, if_false]
      split <;> rfl
    rw [List.foldl_cons, List.foldl_cons, ih down rooted, ih down rooted' (step rooted' [] e),
      each rooted seen, List.append_assoc]

/-- A directory joined with a way down has the elements of both. -/
theorem under_of_descends {way : String} (h : Descends way) (a : String) :
    under a way = ⟨(ofString a).rooted, (ofString a).elements ++ (ofString way).elements⟩ := by
  by_cases here : a = ""
  · have relative : (ofString way).rooted = false := h.relative
    rw [here, under, if_pos (beq_self_eq_true _), show ofString "" = ⟨false, []⟩ from rfl,
      List.nil_append, ← relative]
  by_cases empty : way = ""
  · rw [empty, under, if_neg (mt beq_iff_eq.mp here), if_pos (beq_self_eq_true _),
      show ofString "" = ⟨false, []⟩ from rfl, List.append_nil]
  have rooted : isRooted (a ++ "/" ++ way) = isRooted a := by
    obtain ⟨c, cs, chars⟩ := List.exists_cons_of_ne_nil (mt String.toList_eq_nil_iff.mp here)
    simp [isRooted, chars]
  rw [under, if_neg (mt beq_iff_eq.mp here), if_neg (mt beq_iff_eq.mp empty), ofString_eq, rooted,
    show parts '/' (a ++ "/" ++ way) = _ from Text.parts_append a way, List.foldl_append,
    foldl_step_append h.down _ (isRooted way), List.reverse_append, ofString_eq a, ofString_eq way]

/-- Names make a way down. -/
theorem descends_render (names : ∀ e ∈ es, IsName e) : Descends (render ⟨false, es⟩) := by
  cases es with
  | nil => exact ⟨rfl, by decide⟩
  | cons e es =>
    have solid : ∀ f ∈ e :: es, f ≠ "" ∧ '/' ∉ f.toList := fun f mem =>
      ⟨(names f mem).empty, (names f mem).slash⟩
    have back : parts '/' ("/".intercalate (e :: es)) = e :: es :=
      Text.parts_intercalate (fun f mem => (solid f mem).2) (List.cons_ne_nil e es)
    rw [render_cons]
    refine ⟨isRooted_intercalate solid, fun climbs => ?_⟩
    rw [back] at climbs
    exact (names _ climbs).up rfl

/-! ## From one path to another -/

theorem relativeElements?_append (start way : List String) :
    relativeElements? start (start ++ way) = some way := by
  induction start with
  | nil => rfl
  | cons e start ih => rw [List.cons_append, relativeElements?, if_pos (beq_self_eq_true e), ih]

/-- The way from one path to another goes down, or it begins with a climb. -/
theorem eq_append_of_relativeElements? {start target way : List String}
    (found : relativeElements? start target = some way) :
    target = start ++ way ∨ way.head? = some ".." := by
  fun_induction relativeElements? start target with
  | case1 target => exact .inl (Option.some.inj found)
  | case2 b bs t ts same ih =>
    obtain rfl := beq_iff_eq.mp same
    exact (ih found).imp_left (congrArg (b :: ·))
  | case3 => cases found
  | case4 b bs t ts =>
    cases found
    exact .inr rfl
  | case5 => cases found
  | case6 b bs =>
    cases found
    exact .inr rfl

theorem startsWith_render_up (es : List String) :
    (render ⟨false, ".." :: es⟩).startsWith ".." = true := by
  rw [String.startsWith_string_iff]
  cases es with
  | nil => exact List.prefix_refl _
  | cons e es =>
    rw [render_cons, String.intercalate_cons_of_ne_nil (List.cons_ne_nil e es), String.append_assoc,
      String.toList_append]
    exact List.prefix_append _ _

end ResourceSafety.Path
