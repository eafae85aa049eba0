import ResourceSafety.Text.Decimal

/-!
# Numerals read back

A number is written with the digits of `Nat.toDigits`, after a minus if it is negative.  The
readers of numerals give the number back (`Text.signed?_toString`).
-/

namespace ResourceSafety

namespace Text

theorem isDigit_of_mem_digits {n : Nat} {c : Char} (mem : c ∈ Nat.toDigits 10 n) :
    c.isDigit = true :=
  Nat.isDigit_of_mem_toDigits (by decide) (by decide) mem

theorem notMem_toDigits {n : Nat} {c : Char} (other : c.isDigit = false) :
    c ∉ Nat.toDigits 10 n := fun mem => by
  rw [isDigit_of_mem_digits mem] at other
  cases other

/-- A natural number is written with a digit first. -/
theorem exists_toDigits (n : Nat) : ∃ c cs, Nat.toDigits 10 n = c :: cs ∧ c.isDigit = true := by
  cases digits : Nat.toDigits 10 n with
  | nil => exact absurd digits Nat.toDigits_ne_nil
  | cons c cs => exact ⟨c, cs, rfl, isDigit_of_mem_digits (digits ▸ List.mem_cons_self)⟩

theorem digitValue?_of_isDigit {c : Char} (digit : c.isDigit = true) :
    digitValue? c = some (c.toNat - '0'.toNat) := by
  have within : ('0' ≤ c && c ≤ '9') = true := digit
  rw [digitValue?, if_pos within]
  rfl

theorem digitsFrom_eq_ofDigitChars {cs : List Char} (digits : ∀ c ∈ cs, c.isDigit = true)
    (acc : Nat) : digitsFrom acc cs = some (Nat.ofDigitChars 10 cs acc) := by
  induction cs generalizing acc with
  | nil => rfl
  | cons c cs ih =>
    obtain ⟨digit, digits⟩ := List.forall_mem_cons.mp digits
    rw [digitsFrom, digitValue?_of_isDigit digit, Nat.ofDigitChars_cons]
    exact ih digits _

theorem natural?_toDigits (n : Nat) : natural? (Nat.toDigits 10 n) = some n := by
  have value : digitsFrom 0 (Nat.toDigits 10 n) = some n := by
    rw [digitsFrom_eq_ofDigitChars (fun _ => isDigit_of_mem_digits), Nat.ofDigitChars_ten_toDigits]
  obtain ⟨c, cs, digits, -⟩ := exists_toDigits n
  rwa [digits] at value ⊢

/-! ## Signs -/

@[simp] theorem toList_toString_ofNat (n : Nat) :
    (toString (n : Int)).toList = Nat.toDigits 10 n := Nat.toList_repr

@[simp] theorem toList_toString_negSucc (n : Nat) :
    (toString (Int.negSucc n)).toList = '-' :: Nat.toDigits 10 (n + 1) := by
  show ("-" ++ (n + 1).repr).toList = _
  rw [String.toList_append, Nat.toList_repr]
  rfl

/-- A number is written with digits and perhaps a minus. -/
theorem notMem_toString {n : Int} {c : Char} (other : c.isDigit = false) (minus : c ≠ '-') :
    c ∉ (toString n).toList := by
  cases n with
  | ofNat n =>
    rw [Int.ofNat_eq_natCast, toList_toString_ofNat]
    exact notMem_toDigits other
  | negSucc n =>
    rw [toList_toString_negSucc, List.mem_cons, not_or]
    exact ⟨minus, notMem_toDigits other⟩

theorem integer?_toString (n : Int) : integer? (toString n).toList = some n := by
  cases n with
  | ofNat n =>
    have value := natural?_toDigits n
    show integer? (toString (n : Int)).toList = some (n : Int)
    rw [toList_toString_ofNat]
    -- The first character is a digit, and so it is no sign.
    obtain ⟨c, cs, digits, first⟩ := exists_toDigits n
    rw [digits] at value ⊢
    rw [integer?, value]
    · rfl
    · rintro cs ⟨⟩
      cases first
    · rintro cs ⟨⟩
      cases first
  | negSucc n =>
    rw [toList_toString_negSucc, integer?, natural?_toDigits]
    rfl

theorem isSigned_toInt (n : Int64) : Word.isSigned n.toInt = true := by
  have low := n.le_toInt
  have high := n.toInt_lt
  exact Bool.and_eq_true_iff.mpr ⟨decide_eq_true low, decide_eq_true high⟩

/-- A 64-bit number reads back from its text. -/
theorem signed?_toString (n : Int64) : signed? (toString n).toList = some n := by
  show (integer? (toString n.toInt).toList).bind _ = some n
  rw [integer?_toString]
  exact (if_pos (isSigned_toInt n)).trans (congrArg some (Int64.ofInt_toInt n))

end Text

/-- Different numbers have different texts. -/
theorem Int64.toString_injective {m n : Int64} (h : toString m = toString n) : m = n := by
  have values := congrArg (fun text => Text.signed? text.toList) h
  simp only [Text.signed?_toString, Option.some.injEq] at values
  exact values

end ResourceSafety
