import Mathlib.Algebra.Group.Nat.Defs
import ResourceSafety.Proofs.Logic.Circuit

/-!
# Words mean numbers

A valuation gives a word the number whose bits are the values of its literals (`Bits.value`).  The
word of a number has that number for its value, a word of new variables can have any, and the
literal of a comparison says how the values compare.

The comparison begins with the lowest bits.  After some of them its literal says how the numbers
made of these bits compare, so a higher bit matters first (`foldl_belowStep`).
-/

namespace ResourceSafety.Logic

/-! ## Numbers from bits -/

namespace Circuit

theorem natOfBits_lt (bs : List Bool) : natOfBits bs < 2 ^ bs.length := by
  induction bs with
  | nil => exact Nat.one_pos
  | cons b bs ih =>
      have bit : b.toNat ≤ 1 := b.toNat_le
      rw [natOfBits, List.length_cons, Nat.pow_succ]
      omega

theorem natOfBits_cons_inj {a b : Bool} {as bs : List Bool} :
    natOfBits (a :: as) = natOfBits (b :: bs) ↔ a = b ∧ natOfBits as = natOfBits bs := by
  rw [natOfBits, natOfBits]
  cases a <;> cases b <;> simp <;> omega

/-- The numbers of the bits in pairs are equal when the bits are. -/
theorem natOfBits_eq_iff (ps : List (Bool × Bool)) :
    natOfBits (ps.map Prod.fst) = natOfBits (ps.map Prod.snd) ↔ ps.all (fun p => p.1 == p.2) := by
  induction ps with
  | nil => simp
  | cons p ps ih =>
      rw [List.map_cons, List.map_cons, natOfBits_cons_inj, ih, List.all_cons, Bool.and_eq_true,
        beq_iff_eq]

/-- One bit of a comparison. -/
def belowStep (lt : Bool) (p : Bool × Bool) : Bool := (!p.1 && p.2) || ((p.1 == p.2) && lt)

/-- The comparison of the bits in pairs, after bits that compared as `lt`. -/
theorem foldl_belowStep (ps : List (Bool × Bool)) (lt : Bool) :
    ps.foldl belowStep lt = true ↔
      natOfBits (ps.map Prod.fst) < natOfBits (ps.map Prod.snd) ∨
        natOfBits (ps.map Prod.fst) = natOfBits (ps.map Prod.snd) ∧ lt = true := by
  induction ps generalizing lt with
  | nil => simp [natOfBits]
  | cons p ps ih =>
      obtain ⟨a, b⟩ := p
      rw [List.foldl_cons, ih]
      simp only [List.map_cons, natOfBits, belowStep]
      cases a <;> cases b <;> cases lt <;> simp <;> omega

theorem natOfBits_ofFn (k n : Nat) :
    natOfBits (List.ofFn fun i : Fin k => n.testBit i) = n % 2 ^ k := by
  induction k generalizing n with
  | zero => simp [natOfBits, Nat.mod_one]
  | succ k ih =>
      have rest := ih (n / 2)
      simp only [← Nat.testBit_succ] at rest
      rw [List.ofFn_succ, natOfBits]
      simp only [Fin.val_zero, Fin.val_succ, rest]
      rw [Nat.pow_succ', Nat.mod_mul, Nat.testBit_zero]
      cases Nat.mod_two_eq_zero_or_one n with
      | inl even => simp [even]
      | inr odd => simp [odd]

theorem ofNat_natOfBits (m : UInt64) :
    UInt64.ofNat (natOfBits (List.ofFn fun i : Fin width => m.toNat.testBit i)) = m := by
  have bound : m.toNat % 2 ^ width = m.toNat := Nat.mod_eq_of_lt m.toNat_lt
  rw [natOfBits_ofFn, bound, UInt64.ofNat_toNat]

end Circuit

/-! ## Values of words -/

namespace Bits

open Circuit

variable {n : Nat} {v u : Valuation} {w x y : Bits}

/-- The value of a word. -/
def value (v : Valuation) (w : Bits) : UInt64 := .ofNat (natOfBits (w.toList.map (·.holds v)))

/-- The variables of a word are at most `n`. -/
def Within (w : Bits) (n : Nat) : Prop := ∀ l ∈ w.toList, l.var ≤ n

theorem Within.mono {m : Nat} (h : w.Within m) (le : m ≤ n) : w.Within n :=
  fun l hl => Nat.le_trans (h l hl) le

theorem toNat_value (v : Valuation) (w : Bits) :
    (w.value v).toNat = natOfBits (w.toList.map (·.holds v)) := by
  have bound := natOfBits_lt (w.toList.map (·.holds v))
  rw [List.length_map, Vector.length_toList] at bound
  rw [value, UInt64.toNat_ofNat']
  exact Nat.mod_eq_of_lt bound

theorem value_congr (agree : AgreeUpTo n v u) (within : w.Within n) : w.value v = w.value u := by
  have bits : w.toList.map (·.holds v) = w.toList.map (·.holds u) :=
    List.map_congr_left fun l hl => agree.holds_eq (within l hl)
  rw [value, value, bits]

/-- The bits of two words side by side. -/
def pairs (v : Valuation) (x y : Bits) : List (Bool × Bool) :=
  (x.toList.zip y.toList).map fun p => (p.1.holds v, p.2.holds v)

theorem toNat_value_fst (v : Valuation) (x y : Bits) :
    natOfBits ((pairs v x y).map Prod.fst) = (x.value v).toNat := by
  have zip : (x.toList.zip y.toList).map Prod.fst = x.toList := List.map_fst_zip (by simp)
  rw [toNat_value, pairs, List.map_map, ← congrArg (List.map (·.holds v)) zip, List.map_map]
  rfl

theorem toNat_value_snd (v : Valuation) (x y : Bits) :
    natOfBits ((pairs v x y).map Prod.snd) = (y.value v).toNat := by
  have zip : (x.toList.zip y.toList).map Prod.snd = y.toList := List.map_snd_zip (by simp)
  rw [toNat_value, pairs, List.map_map, ← congrArg (List.map (·.holds v)) zip, List.map_map]
  rfl

theorem within_of_mem_zip (hx : x.Within n) (hy : y.Within n) {p : Literal × Literal}
    (hp : p ∈ x.toList.zip y.toList) : p.1.var ≤ n ∧ p.2.var ≤ n :=
  have ⟨left, right⟩ := List.of_mem_zip hp
  ⟨hx _ left, hy _ right⟩

/-! ## Numbers and new words -/

theorem value_constBits {c : Circuit} (sound : c.Sound) (hv : c.Admits v) (m : UInt64) :
    (c.constBits m).value v = m := by
  have bit (b : Bool) : Literal.holds v (if b then c.truth else c.falsity) = b := by
    cases b with
    | true => exact sound.holds_truth hv
    | false => exact sound.holds_falsity hv
  have bits : (c.constBits m).toList.map (·.holds v) =
      List.ofFn fun i : Fin width => m.toNat.testBit i := by
    rw [constBits, Vector.toList_ofFn, List.map_ofFn]
    simp only [Function.comp_def, bit]
  rw [value, bits, ofNat_natOfBits]

theorem within_constBits {c : Circuit} (sound : c.Sound) (m : UInt64) :
    (c.constBits m).Within c.nextVar := by
  intro l hl
  rw [constBits, Vector.toList_ofFn] at hl
  obtain ⟨i, rfl⟩ := List.mem_ofFn.mp hl
  split
  · exact sound.var_truth
  · exact sound.var_truth

/-- The word of the variables after `n`. -/
def after (n : Nat) : Bits := .ofFn fun i => .positive (n + 1 + i)

theorem within_after (n : Nat) : (after n).Within (n + width) := by
  intro l hl
  rw [after, Vector.toList_ofFn] at hl
  obtain ⟨i, rfl⟩ := List.mem_ofFn.mp hl
  have bound := i.isLt
  show n + 1 + i ≤ n + width
  omega

/-- A valuation with another number for the word after `n`. -/
theorem exists_value_after (v : Valuation) (n : Nat) (m : UInt64) :
    ∃ u, AgreeUpTo n v u ∧ (after n).value u = m := by
  refine ⟨fun x => if x ≤ n then v x else m.toNat.testBit (x - (n + 1)), fun x hx => ?_, ?_⟩
  · exact (if_pos hx).symm
  · have bits : (after n).toList.map (·.holds fun x =>
        if x ≤ n then v x else m.toNat.testBit (x - (n + 1))) =
          List.ofFn fun i : Fin width => m.toNat.testBit i := by
      rw [after, Vector.toList_ofFn, List.map_ofFn]
      refine congrArg List.ofFn (funext fun i => ?_)
      rw [Function.comp_apply, Literal.holds_positive, if_neg (by omega), Nat.add_sub_cancel_left]
    rw [value, bits, ofNat_natOfBits]

/-! ## Comparisons -/

theorem builds_eqBits {c : Circuit} (sound : c.Sound) (hx : x.Within c.nextVar)
    (hy : y.Within c.nextVar) :
    c.Builds Always (eqBits x y) (fun l d => d.Means l fun v => x.value v == y.value v) := by
  refine (builds_mapM (f := fun p v => p.1.holds v == p.2.holds v) _ sound
    fun p hp d sound' le => ?_).bind fun ls d sound' _ each =>
      (builds_andN sound' each.vars).imp fun l e _ more means => means.congr fun v hv => ?_
  · obtain ⟨left, right⟩ := within_of_mem_zip hx hy hp
    exact builds_iff sound' (Nat.le_trans left le) (Nat.le_trans right le)
  · have same := natOfBits_eq_iff (pairs v x y)
    rw [toNat_value_fst, toNat_value_snd, UInt64.toNat_inj, pairs, List.all_map] at same
    rw [each.all (more.admits hv), List.all_map, Bool.eq_iff_iff, beq_iff_eq, same]
    rfl

theorem builds_ultStep {c : Circuit} (sound : c.Sound) {lt : Literal} {p : Literal × Literal}
    (hlt : lt.var ≤ c.nextVar) (hp : p.1.var ≤ c.nextVar ∧ p.2.var ≤ c.nextVar) :
    c.Builds Always (ultStep lt p) (fun l d => d.Means l fun v =>
      belowStep (lt.holds v) (p.1.holds v, p.2.holds v)) := by
  obtain ⟨hx, hy⟩ := hp
  refine (builds_and2 sound (x := p.1.negation) hx hy).bind fun below d₁ sound₁ more₁ means₁ => ?_
  refine (builds_iff sound₁ (Nat.le_trans hx more₁.nextVar) (Nat.le_trans hy more₁.nextVar)).bind
    fun same d₂ sound₂ more₂ means₂ => ?_
  have le := Nat.le_trans more₁.nextVar more₂.nextVar
  refine (builds_and2 sound₂ means₂.var (Nat.le_trans hlt le)).bind
    fun equal d₃ sound₃ more₃ means₃ => ?_
  have means₁' := (means₁.extend more₂).extend more₃
  refine (builds_or2 sound₃ means₁'.var means₃.var).imp
    fun l d₄ _ more₄ means => means.congr fun v hv => ?_
  have hv₃ := more₄.admits hv
  rw [means₁'.holds v hv₃, means₃.holds v hv₃, means₂.holds v (more₃.admits hv₃),
    Literal.holds_negation]
  rfl

theorem builds_ultBits {c : Circuit} (sound : c.Sound) (hx : x.Within c.nextVar)
    (hy : y.Within c.nextVar) :
    c.Builds Always (ultBits x y) (fun l d => d.Means l fun v => x.value v < y.value v) := by
  refine .get_bind ((builds_foldlM (f := fun lt p v => belowStep lt (p.1.holds v, p.2.holds v))
    (W := fun p n => p.1.var ≤ n ∧ p.2.var ≤ n)
    (fun le h => ⟨Nat.le_trans h.1 le, Nat.le_trans h.2 le⟩)
    (fun c l p sound hl hp => builds_ultStep sound hl hp) _ sound (l := c.falsity) sound.var_truth
    fun p hp => within_of_mem_zip hx hy hp).imp
    fun l d sound' more means => means.congr fun v hv => ?_)
  have below := foldl_belowStep (pairs v x y) false
  rw [toNat_value_fst, toNat_value_snd, pairs, List.foldl_map] at below
  rw [← more.falsity, sound'.holds_falsity hv, Bool.eq_iff_iff, decide_eq_true_eq,
    UInt64.lt_iff_toNat_lt, below]
  simp

/-! ## Values in models -/

/-- The literals of a word are variables as they are. -/
def Positive (w : Bits) : Prop := ∀ l ∈ w.toList, l.isPositive = true

theorem positive_after (n : Nat) : (after n).Positive := by
  intro l hl
  rw [after, Vector.toList_ofFn] at hl
  obtain ⟨i, rfl⟩ := List.mem_ofFn.mp hl
  rfl

end Bits

namespace Circuit

variable {c : Circuit} {v : Valuation}

/-- The valuation in which variables without a clause are false. -/
def settled (c : Circuit) (v : Valuation) : Valuation := fun x => decide (x ≤ c.maxVar) && v x

theorem agreeUpTo_settled (c : Circuit) (v : Valuation) : AgreeUpTo c.maxVar v (c.settled v) := by
  intro x hx
  rw [settled, decide_eq_true hx, Bool.true_and]

theorem admits_settled (sound : c.Sound) (hv : c.Admits v) : c.Admits (c.settled v) :=
  sound.admits_of_agree (Nat.le_refl _) (c.agreeUpTo_settled v) hv

theorem literalValue_eq (sound : c.Sound) (hv : c.Admits v) {l : Literal}
    (positive : l.isPositive = true) : c.literalValue v l = l.holds (c.settled v) := by
  have settled := admits_settled sound hv
  unfold literalValue
  split
  next isTrue => rw [isTrue, sound.holds_truth settled]
  split
  next isFalse => rw [isFalse, sound.holds_falsity settled]
  split
  next free =>
    rw [Literal.holds, positive, beq_true, Circuit.settled, decide_eq_false (Nat.not_le.mpr free),
      Bool.false_and]
  next used => exact (c.agreeUpTo_settled v).holds_eq (Nat.le_of_not_lt used)

/-- The value that a model gives a word is the one in a valuation that the circuit admits. -/
theorem bitsValue_eq (sound : c.Sound) (hv : c.Admits v) {w : Bits} (positive : w.Positive) :
    c.bitsValue v w = w.value (c.settled v) := by
  have bits : w.toList.map (c.literalValue v) = w.toList.map (·.holds (c.settled v)) :=
    List.map_congr_left fun l hl => literalValue_eq sound hv (positive l hl)
  rw [bitsValue, bits, Bits.value]

end Circuit

end ResourceSafety.Logic
