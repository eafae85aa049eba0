/-!
# Piles

Open scopes and open branches are *piles*: things are put on top and taken off, each with a
number that is not used again.  So where the numbers are those of an earlier pile, the things are
the same, up to changes of the topmost one (`Pile.Since.eq_below`).
-/

namespace ResourceSafety

/-- Numbered things, the latest one first, with the number of the next one. -/
structure Pile (α : Type) where
  things : List (Nat × α)
  next : Nat

namespace Pile

variable {α : Type} {R : α → α → Prop} {p q r : Pile α} {l l' : List (Nat × α)} {i : Nat} {a : α}

/-- A thing is put on the pile, or some are taken off, or the one on top changes. -/
inductive Step (R : α → α → Prop) : Pile α → Pile α → Prop
  | push (p : Pile α) (a : α) : Step R p ⟨(p.next, a) :: p.things, p.next + 1⟩
  | pop {p : Pile α} {l : List (Nat × α)} (lower : l <:+ p.things) : Step R p ⟨l, p.next⟩
  | change {i n : Nat} {a b : α} {l : List (Nat × α)} (grows : R a b) :
      Step R ⟨(i, a) :: l, n⟩ ⟨(i, b) :: l, n⟩

theorem Step.refl (p : Pile α) : Step R p p := .pop List.suffix_rfl

/-- What remains of a pile in later ones: a lower part of it, of which the topmost thing may have
changed, under newer things. -/
inductive Remains (R : α → α → Prop) (p : Pile α) : List (Nat × α) → Prop
  | gone : Remains R p []
  | old {i : Nat} {a b : α} {l : List (Nat × α)} (lower : (i, a) :: l <:+ p.things)
      (grows : R a b) : Remains R p ((i, b) :: l)
  | new {i : Nat} {a : α} {l : List (Nat × α)} (later : p.next ≤ i) (below : Remains R p l) :
      Remains R p ((i, a) :: l)

theorem Remains.of_suffix (refl : ∀ a, R a a) (h : l <:+ p.things) : Remains R p l := by
  cases l with
  | nil => exact .gone
  | cons x l => exact .old h (refl x.2)

theorem Remains.suffix (refl : ∀ a, R a a) (h : Remains R p l) (lower : l' <:+ l) :
    Remains R p l' := by
  induction h with
  | gone =>
      rw [List.suffix_nil.mp lower]
      exact .gone
  | old here grows =>
      obtain rfl | below := List.suffix_cons_iff.mp lower
      · exact .old here grows
      · exact .of_suffix refl (below.trans ((List.suffix_cons _ _).trans here))
  | new later below ih =>
      obtain rfl | below' := List.suffix_cons_iff.mp lower
      · exact .new later below
      · exact ih below'

/-- The pile `q` came from the pile `p`. -/
structure Since (R : α → α → Prop) (p q : Pile α) : Prop where
  remains : Remains R p q.things
  later : p.next ≤ q.next

theorem Since.refl (refl : ∀ a, R a a) (p : Pile α) : Since R p p :=
  ⟨.of_suffix refl List.suffix_rfl, Nat.le_refl _⟩

theorem Since.step (refl : ∀ a, R a a) (trans : ∀ {a b c}, R a b → R b c → R a c)
    (h : Since R p q) (step : Step R q r) : Since R p r := by
  obtain ⟨remains, later⟩ := h
  cases step with
  | push a => exact ⟨.new later remains, Nat.le_succ_of_le later⟩
  | pop lower => exact ⟨remains.suffix refl lower, later⟩
  | change grows =>
      cases remains with
      | old lower grows' => exact ⟨.old lower (trans grows' grows), later⟩
      | new later' below => exact ⟨.new later' below, later⟩

/-- With the numbers of the earlier pile, the topmost thing alone may have changed. -/
theorem Since.eq_below (h : Since R p q) (top : p.things = (i, a) :: l) (older : i < p.next)
    (same : q.things.map Prod.fst = p.things.map Prod.fst) :
    ∃ b, q.things = (i, b) :: l ∧ R a b := by
  have remains := h.remains
  cases things : q.things with
  | nil => simp [things, top] at same
  | cons x rest =>
      rw [things] at remains same
      have length := congrArg List.length same
      simp only [top, List.map_cons, List.cons.injEq] at same
      cases remains with
      | old lower grows =>
          have all := lower.eq_of_length (by simpa using length)
          rw [top, List.cons.injEq, Prod.mk.injEq] at all
          obtain ⟨⟨rfl, rfl⟩, rfl⟩ := all
          exact ⟨_, rfl, grows⟩
      | new later below => exact absurd older (by rw [← same.1]; exact Nat.not_lt.mpr later)

end Pile

theorem zip_suffix {α β : Type} {l l' : List α} {m m' : List β} (left : l' <:+ l) (right : m' <:+ m)
    (length : l.length = m.length) (length' : l'.length = m'.length) :
    l'.zip m' <:+ l.zip m := by
  obtain ⟨before, rfl⟩ := left
  obtain ⟨before', rfl⟩ := right
  refine ⟨before.zip before', ?_⟩
  have same : before.length = before'.length := by
    simp only [List.length_append] at length
    omega
  rw [List.zip_append same]

end ResourceSafety
