import ResourceSafety.Proofs.Logic.Formula
import ResourceSafety.Proofs.Text.Decimal

/-!
# The text of a term says which term it is

A session knows applications by their texts, so two terms with one text are one
thing to it.  On *plain* terms that does no harm: symbols are letters, digits and
underscores with a letter first, and every function is a word and has arguments.
Two plain terms with the same text are the same term (`Term.render_injective`).

Terms that are not plain can share their text.  A function without arguments is
written like a symbol.

The proof reads a text from the left.  A word ends at the first blank or
parenthesis, whatever follows.  So the statement is about texts with something
behind them that starts with a blank or a closing parenthesis
(`Term.eq_of_append`).

The text of a formula is that of a term too, with the comparisons and junctions
for functions.  So plain formulas with one text mean the same
(`Formula.holdsIn_of_render_eq`).  They need not be the same: a junction of one
formula has the text of that formula.
-/

namespace ResourceSafety.Logic

/-! ## Names and words -/

/-- A letter first, and then letters, digits and underscores. -/
def isName (name : String) : Bool :=
  match name.toList with
  | [] => false
  | c :: cs => c.isAlpha && cs.all fun c => c.isAlphanum || c == '_'

/-- A character that ends a word. -/
def isDelimiter (c : Char) : Bool := c == ' ' || c == '(' || c == ')'

/-- The text is at its end or ends the word before it. -/
def Stops : List Char → Prop
  | [] => True
  | c :: _ => isDelimiter c = true

/-- A word: characters, at least one, none of which ends it. -/
def IsWord (w : List Char) : Prop := w ≠ [] ∧ ∀ c ∈ w, isDelimiter c = false

theorem isAlpha_iff {c : Char} : c.isAlpha = true ↔
    ('A'.val ≤ c.val ∧ c.val ≤ 'Z'.val) ∨ ('a'.val ≤ c.val ∧ c.val ≤ 'z'.val) := by
  show (decide ('A'.val ≤ c.val ∧ c.val ≤ 'Z'.val) ||
    (decide ('a'.val ≤ c.val) && decide (c.val ≤ 'z'.val))) = true ↔ _
  simp only [Bool.or_eq_true, Bool.and_eq_true, decide_eq_true_eq]

theorem isDelimiter_of_isAlphanum {c : Char} (h : c.isAlphanum = true ∨ c = '_') :
    isDelimiter c = false := by
  cases hc : isDelimiter c with
  | false => rfl
  | true =>
      simp only [isDelimiter, Bool.or_eq_true, beq_iff_eq] at hc
      rcases hc with (rfl | rfl) | rfl <;> revert h <;> decide

theorem isWord_of_all {w : List Char} (some : w.isEmpty = false)
    (h : w.all (fun c => !isDelimiter c) = true) : IsWord w := by
  refine ⟨by simpa using some, fun c mem => ?_⟩
  simpa using List.all_eq_true.mp h c mem

theorem isWord_of_isName {name : String} (h : isName name = true) : IsWord name.toList := by
  unfold isName at h
  split at h
  next => cases h
  next c cs eq =>
    rw [eq]
    simp only [Bool.and_eq_true, List.all_eq_true, Bool.or_eq_true, beq_iff_eq] at h
    refine ⟨List.cons_ne_nil c cs, List.forall_mem_cons.mpr ⟨?_, fun x hx => ?_⟩⟩
    · exact isDelimiter_of_isAlphanum (Or.inl (by simp [Char.isAlphanum, h.1]))
    · exact isDelimiter_of_isAlphanum (h.2 x hx)

theorem toList_toString (n : UInt64) : (toString n).toList = Nat.toDigits 10 n.toNat :=
  Nat.toList_repr

theorem isWord_toString (n : UInt64) : IsWord (toString n).toList := by
  rw [toList_toString]
  refine ⟨Nat.toDigits_ne_nil, fun c hc => ?_⟩
  have digit := Text.isDigit_of_mem_digits hc
  exact isDelimiter_of_isAlphanum (Or.inl (by simp [Char.isAlphanum, digit]))

theorem toString_injective {m n : UInt64} (h : (toString m).toList = (toString n).toList) :
    m = n := by
  rw [toList_toString, toList_toString] at h
  have values := congrArg (Nat.ofDigitChars 10 · 0) h
  simp only [Nat.ofDigitChars_ten_toDigits] at values
  exact UInt64.toNat_inj.mp values

/-- No number is written like a name. -/
theorem toString_ne_name {n : UInt64} {name : String} (h : isName name = true) :
    (toString n).toList ≠ name.toList := by
  intro eq
  unfold isName at h
  rw [← eq, toList_toString] at h
  split at h
  next => cases h
  next c cs digits =>
    have digit : c.isDigit = true := by
      refine Text.isDigit_of_mem_digits (n := n.toNat) ?_
      rw [digits]
      exact List.mem_cons_self
    simp only [Bool.and_eq_true] at h
    have alpha := isAlpha_iff.mp h.1
    simp only [Char.isDigit, Bool.and_eq_true, decide_eq_true_eq, ge_iff_le] at digit
    simp [UInt32.le_iff_toNat_le] at digit alpha
    omega

/-- Two words end at the same place. -/
theorem IsWord.append_inj {w x r t : List Char} (hw : ∀ c ∈ w, isDelimiter c = false)
    (hx : ∀ c ∈ x, isDelimiter c = false) (hr : Stops r) (ht : Stops t) (h : w ++ r = x ++ t) :
    w = x ∧ r = t := by
  induction w generalizing x with
  | nil =>
      cases x with
      | nil => exact ⟨rfl, h⟩
      | cons c x =>
          subst h
          have := hx c List.mem_cons_self
          rw [show isDelimiter c = true from hr] at this
          cases this
  | cons c w ih =>
      cases x with
      | nil =>
          subst h
          have := hw c List.mem_cons_self
          rw [show isDelimiter c = true from ht] at this
          cases this
      | cons b x =>
          obtain ⟨rfl, rest⟩ := List.cons.inj h
          obtain ⟨rfl, rfl⟩ := ih (fun y hy => hw y (List.mem_cons_of_mem c hy))
            (fun y hy => hx y (List.mem_cons_of_mem c hy)) rest
          exact ⟨rfl, rfl⟩

/-! ## Plain terms -/

namespace Term

/-- Induction on terms. -/
@[elab_as_elim]
theorem induction {P : Term → Prop} (literal : ∀ n, P (.literal n))
    (symbol : ∀ name, P (.symbol name))
    (apply : ∀ f args, (∀ t ∈ args, P t) → P (.apply f args)) (t : Term) : P t := by
  refine @Term.rec P (fun ts => ∀ t ∈ ts, P t) literal symbol apply ?_ ?_ t
  · intro t ht
    cases ht
  · intro t ts iht ihts u hu
    rcases List.mem_cons.mp hu with rfl | hu
    · exact iht
    · exact ihts u hu

/-- A term whose symbols are names and whose functions are words with arguments. -/
inductive Plain : Term → Prop
  | literal (n : UInt64) : Plain (.literal n)
  | symbol {name : String} (h : isName name = true) : Plain (.symbol name)
  | apply {f : String} {args : List Term} (h : IsWord f.toList) (some : args ≠ [])
    (each : ∀ t ∈ args, Plain t) : Plain (.apply f args)

theorem stops_renderArgs (ts : List Term) (r : List Char) :
    Stops ((renderArgs ts).toList ++ ')' :: r) := by
  cases ts with
  | nil =>
      rw [renderArgs]
      exact (by decide : isDelimiter ')' = true)
  | cons t ts =>
      rw [renderArgs, String.toList_append, String.toList_append]
      exact (by decide : isDelimiter ' ' = true)

theorem toList_render_apply {f : String} {args : List Term} (some : args ≠ []) :
    (Term.apply f args).render.toList =
      '(' :: (f.toList ++ ((renderArgs args).toList ++ [')'])) := by
  cases args with
  | nil => exact absurd rfl some
  | cons t ts =>
      rw [render]
      simp only [String.toList_append, List.append_assoc]
      rfl

/-- The text of an application does not begin like a word. -/
theorem render_apply_ne_word {f : String} {args : List Term} (some : args ≠ [])
    {w r t : List Char} (hw : IsWord w) : (Term.apply f args).render.toList ++ r ≠ w ++ t := by
  intro h
  rw [toList_render_apply some] at h
  cases w with
  | nil => exact hw.1 rfl
  | cons c w =>
      obtain ⟨rfl, _⟩ := List.cons.inj h
      have := hw.2 '(' List.mem_cons_self
      revert this
      decide

/-- Arguments that end with a parenthesis can be read back when each of them can. -/
theorem eq_of_renderArgs {ts us : List Term} {r x : List Char}
    (each : ∀ t ∈ ts, ∀ u, u.Plain → ∀ r x, Stops r → Stops x →
      t.render.toList ++ r = u.render.toList ++ x → t = u ∧ r = x)
    (plain : ∀ u ∈ us, u.Plain)
    (h : (renderArgs ts).toList ++ ')' :: r = (renderArgs us).toList ++ ')' :: x) :
    ts = us ∧ r = x := by
  induction ts generalizing us with
  | nil =>
      cases us with
      | nil =>
          simp only [renderArgs] at h
          exact ⟨rfl, (List.cons.inj h).2⟩
      | cons u us =>
          simp only [renderArgs, String.toList_append] at h
          cases h
  | cons t ts ih =>
      cases us with
      | nil =>
          simp only [renderArgs, String.toList_append] at h
          cases h
      | cons u us =>
          simp only [renderArgs, String.toList_append, List.append_assoc] at h
          obtain ⟨rfl, rest⟩ := each t List.mem_cons_self u (plain u List.mem_cons_self) _ _
            (stops_renderArgs ts r) (stops_renderArgs us x) (List.cons.inj h).2
          obtain ⟨rfl, rfl⟩ := ih (fun v hv => each v (List.mem_cons_of_mem t hv))
            (fun v hv => plain v (List.mem_cons_of_mem t hv)) rest
          exact ⟨rfl, rfl⟩

/-- Two plain terms at the beginning of a text are the same, and end at the same
place. -/
theorem eq_of_append {t u : Term} (ht : t.Plain) (hu : u.Plain) {r x : List Char} (hr : Stops r)
    (hx : Stops x) (h : t.render.toList ++ r = u.render.toList ++ x) : t = u ∧ r = x := by
  induction t using Term.induction generalizing u r x with
  | literal n =>
      cases hu with
      | literal m =>
          obtain ⟨words, rest⟩ := IsWord.append_inj (isWord_toString n).2 (isWord_toString m).2
            hr hx h
          exact ⟨by rw [toString_injective words], rest⟩
      | symbol hname =>
          obtain ⟨words, _⟩ := IsWord.append_inj (isWord_toString n).2 (isWord_of_isName hname).2
            hr hx h
          exact absurd words (toString_ne_name hname)
      | apply _ some _ => exact absurd h.symm (render_apply_ne_word some (isWord_toString n))
  | symbol name =>
      cases ht with
      | symbol hname =>
          have word := isWord_of_isName hname
          cases hu with
          | literal m =>
              obtain ⟨words, _⟩ := IsWord.append_inj word.2 (isWord_toString m).2 hr hx h
              exact absurd words.symm (toString_ne_name hname)
          | symbol hother =>
              obtain ⟨words, rest⟩ := IsWord.append_inj word.2 (isWord_of_isName hother).2 hr hx h
              exact ⟨by rw [String.toList_inj.mp words], rest⟩
          | apply _ some _ => exact absurd h.symm (render_apply_ne_word some word)
  | apply f args ih =>
      cases ht with
      | apply hf some each =>
          cases hu with
          | literal m => exact absurd h (render_apply_ne_word some (isWord_toString m))
          | symbol hname => exact absurd h (render_apply_ne_word some (isWord_of_isName hname))
          | apply hg some' each' =>
              simp only [toList_render_apply some, toList_render_apply some', List.cons_append,
                List.append_assoc, List.nil_append] at h
              obtain ⟨names, rest⟩ := IsWord.append_inj hf.2 hg.2 (stops_renderArgs _ _)
                (stops_renderArgs _ _) (List.cons.inj h).2
              obtain ⟨rfl, rfl⟩ := eq_of_renderArgs
                (fun t ht u hu r x hr hx h => ih t ht (each t ht) hu hr hx h) each' rest
              exact ⟨by rw [String.toList_inj.mp names], rfl⟩

/-- Plain terms with the same text are the same. -/
theorem render_injective {t u : Term} (ht : t.Plain) (hu : u.Plain) (h : t.render = u.render) :
    t = u := by
  refine (eq_of_append ht hu (r := []) (x := []) trivial trivial ?_).1
  rw [h]

end Term

/-! ## Formulas as terms -/

namespace Formula

/-- The formula compares plain terms. -/
def Plain (f : Formula Term) : Prop := ∀ t ∈ f.leaves, t.Plain

mutual

/-- The term with the text of a formula. -/
def asTerm : Formula Term → Term
  | .compare op l r => .apply op.name [l, r]
  | .all [] => .symbol "true"
  | .all [f] => asTerm f
  | .all (f :: g :: fs) => .apply "and" (asTerms (f :: g :: fs))
  | .any [] => .symbol "false"
  | .any [f] => asTerm f
  | .any (f :: g :: fs) => .apply "or" (asTerms (f :: g :: fs))
  | .not f => .apply "not" [asTerm f]
  | .truth true => .symbol "true"
  | .truth false => .symbol "false"

/-- The terms with the texts of formulas. -/
def asTerms : List (Formula Term) → List Term
  | [] => []
  | f :: fs => asTerm f :: asTerms fs

end

theorem asTerms_eq (fs : List (Formula Term)) : asTerms fs = fs.map asTerm := by
  induction fs with
  | nil => rfl
  | cons f fs ih => rw [asTerms, ih, List.map_cons]

theorem renderArgs_asTerms {fs : List (Formula Term)}
    (each : ∀ f ∈ fs, f.asTerm.render = f.render) :
    Term.renderArgs (asTerms fs) = Formula.renderList fs := by
  induction fs with
  | nil => rfl
  | cons f fs ih =>
      rw [asTerms, Term.renderArgs, renderList, each f List.mem_cons_self,
        ih fun g hg => each g (List.mem_cons_of_mem f hg)]

theorem render_asTerm (f : Formula Term) : f.asTerm.render = f.render := by
  induction f using Formula.induction with
  | compare op l r =>
      rw [asTerm, render, Term.render, Term.renderArgs, Term.renderArgs, Term.renderArgs]
      simp only [String.append_assoc, String.append_empty]
  | all fs ih =>
      match fs with
      | [] => rfl
      | [f] => exact ih f List.mem_cons_self
      | f :: g :: fs =>
          have args := renderArgs_asTerms ih
          rw [asTerm, render, ← args]
          · rfl
          · exact fun h => nomatch h
  | any fs ih =>
      match fs with
      | [] => rfl
      | [f] => exact ih f List.mem_cons_self
      | f :: g :: fs =>
          have args := renderArgs_asTerms ih
          rw [asTerm, render, ← args]
          · rfl
          · exact fun h => nomatch h
  | not f ih =>
      rw [asTerm, render, Term.render, Term.renderArgs, Term.renderArgs, ih]
      simp only [String.append_assoc, String.append_empty]
      rfl
  | truth b => cases b <;> rfl

theorem toList_other_name (n : Nat) :
    (Comparison.other n).name.toList = "comparison".toList ++ Nat.toDigits 10 n := by
  show ("comparison" ++ n.repr).toList = _
  rw [String.toList_append, Nat.toList_repr]

theorem isWord_comparison (op : Comparison) : IsWord op.name.toList := by
  cases op with
  | other n =>
      have letters : IsWord "comparison".toList := isWord_of_all (by decide) (by decide)
      rw [toList_other_name]
      refine ⟨List.append_ne_nil_of_left_ne_nil letters.1 _, fun c hc => ?_⟩
      rcases List.mem_append.mp hc with hc | hc
      · exact letters.2 c hc
      · have digit := Text.isDigit_of_mem_digits hc
        exact isDelimiter_of_isAlphanum (Or.inl (by simp [Char.isAlphanum, digit]))
  | _ => exact isWord_of_all (by decide) (by decide)

theorem Plain.of_all {fs : List (Formula Term)} (h : (Formula.all fs).Plain) :
    ∀ f ∈ fs, f.Plain :=
  fun _ hf t ht => h t (mem_leaves_all hf ht)

theorem Plain.of_any {fs : List (Formula Term)} (h : (Formula.any fs).Plain) :
    ∀ f ∈ fs, f.Plain :=
  fun _ hf t ht => h t (mem_leaves_any hf ht)

theorem plain_asTerms {fs : List (Formula Term)} (each : ∀ f ∈ fs, f.asTerm.Plain) :
    ∀ t ∈ asTerms fs, t.Plain := by
  rw [asTerms_eq]
  exact List.forall_mem_map.mpr each

theorem plain_asTerm {f : Formula Term} (plain : f.Plain) : f.asTerm.Plain := by
  induction f using Formula.induction with
  | compare op l r =>
      refine .apply (isWord_comparison op) (List.cons_ne_nil _ _) fun t ht => ?_
      exact plain t ht
  | all fs ih =>
      have each := fun f hf => ih f hf (plain.of_all f hf)
      match fs with
      | [] => exact .symbol (by decide)
      | [f] => exact each f List.mem_cons_self
      | f :: g :: fs =>
        exact .apply (isWord_of_isName (by decide)) (List.cons_ne_nil _ _) (plain_asTerms each)
  | any fs ih =>
      have each := fun f hf => ih f hf (plain.of_any f hf)
      match fs with
      | [] => exact .symbol (by decide)
      | [f] => exact each f List.mem_cons_self
      | f :: g :: fs =>
        exact .apply (isWord_of_isName (by decide)) (List.cons_ne_nil _ _) (plain_asTerms each)
  | not f ih =>
      refine .apply (isWord_of_isName (by decide)) (List.cons_ne_nil _ _) fun t ht => ?_
      cases List.mem_singleton.mp ht
      exact ih plain
  | truth b => cases b <;> exact .symbol (by decide)

/-- The comparison with a name. -/
def comparisonOf (name : String) : Comparison :=
  if name = "=" then .eq else if name = "distinct" then .ne else if name = "<" then .lt
  else if name = "<=" then .le else if name = ">" then .gt else if name = ">=" then .ge
  else .other 0

mutual

/-- What a term says when it is read as a formula. -/
def truthOf (i : Interpretation) : Term → Bool
  | .literal _ => false
  | .symbol name => name == "true"
  | .apply f args =>
    if f = "and" then truthOfAll i args
    else if f = "or" || f = "not" then (f == "not") ^^ truthOfAny i args
    else
      match args with
      | [l, r] => (comparisonOf f).holds (l.value i).toNat (r.value i).toNat
      | _ => false

/-- All of the terms are true. -/
def truthOfAll (i : Interpretation) : List Term → Bool
  | [] => true
  | t :: ts => truthOf i t && truthOfAll i ts

/-- Some of the terms is true. -/
def truthOfAny (i : Interpretation) : List Term → Bool
  | [] => false
  | t :: ts => truthOf i t || truthOfAny i ts

end

/-- No other name is one of a comparison or a junction. -/
theorem other_name_ne (n : Nat) {name : String} (h : name.toList.head? ≠ some 'c') :
    (Comparison.other n).name ≠ name := by
  rintro rfl
  rw [toList_other_name] at h
  exact h rfl

theorem holds_comparisonOf (op : Comparison) (m n : Nat) :
    (comparisonOf op.name).holds m n = op.holds m n := by
  cases op with
  | other k =>
      have ne {name : String} (h : name.toList.head? ≠ some 'c') := other_name_ne k h
      unfold comparisonOf
      rw [if_neg (ne (by decide)), if_neg (ne (by decide)), if_neg (ne (by decide)),
        if_neg (ne (by decide)), if_neg (ne (by decide)), if_neg (ne (by decide))]
      rfl
  | _ => rfl

theorem truthOf_compare (i : Interpretation) (op : Comparison) (l r : Term) :
    truthOf i (.apply op.name [l, r]) = op.holds (l.value i).toNat (r.value i).toNat := by
  rw [truthOf, ← holds_comparisonOf op]
  cases op with
  | other k =>
      have notAnd : (Comparison.other k).name ≠ "and" := other_name_ne k (by decide)
      have notOr : (Comparison.other k).name ≠ "or" := other_name_ne k (by decide)
      have notNot : (Comparison.other k).name ≠ "not" := other_name_ne k (by decide)
      simp [notAnd, notOr, notNot]
  | _ => rfl

theorem truthOfAll_asTerms {i : Interpretation} {fs : List (Formula Term)}
    (each : ∀ f ∈ fs, truthOf i f.asTerm = f.holdsIn i) :
    truthOfAll i (asTerms fs) = (Formula.all fs).holdsIn i := by
  induction fs with
  | nil => rfl
  | cons f fs ih =>
      rw [asTerms, truthOfAll, each f List.mem_cons_self,
        ih fun g hg => each g (List.mem_cons_of_mem f hg)]
      rfl

theorem truthOfAny_asTerms {i : Interpretation} {fs : List (Formula Term)}
    (each : ∀ f ∈ fs, truthOf i f.asTerm = f.holdsIn i) :
    truthOfAny i (asTerms fs) = (Formula.any fs).holdsIn i := by
  induction fs with
  | nil => rfl
  | cons f fs ih =>
      rw [asTerms, truthOfAny, each f List.mem_cons_self,
        ih fun g hg => each g (List.mem_cons_of_mem f hg)]
      rfl

/-- The term with the text of a formula says what the formula says. -/
theorem truthOf_asTerm (i : Interpretation) (f : Formula Term) :
    truthOf i f.asTerm = f.holdsIn i := by
  induction f using Formula.induction with
  | compare op l r => exact truthOf_compare i op l r
  | all fs ih =>
      match fs with
      | [] => rfl
      | [f] =>
          rw [asTerm, ih f List.mem_cons_self]
          simp [holdsIn, eval, evalAll]
      | f :: g :: fs => exact truthOfAll_asTerms ih
  | any fs ih =>
      match fs with
      | [] => rfl
      | [f] =>
          rw [asTerm, ih f List.mem_cons_self]
          simp [holdsIn, eval, evalAny]
      | f :: g :: fs => exact (Bool.false_xor _).trans (truthOfAny_asTerms ih)
  | not f ih =>
      show (true ^^ (truthOf i f.asTerm || false)) = !f.holdsIn i
      rw [ih, Bool.or_false, Bool.true_xor]
  | truth b => cases b <;> rfl

/-- Plain formulas with the same text are true in the same interpretations. -/
theorem holdsIn_of_render_eq {f g : Formula Term} (hf : f.Plain) (hg : g.Plain)
    (h : f.render = g.render) (i : Interpretation) : f.holdsIn i = g.holdsIn i := by
  have same : f.asTerm = g.asTerm := by
    refine Term.render_injective (plain_asTerm hf) (plain_asTerm hg) ?_
    rw [render_asTerm, render_asTerm, h]
  rw [← truthOf_asTerm, ← truthOf_asTerm, same]

end Formula

end ResourceSafety.Logic
