import Mathlib.Tactic.ByContra
import ResourceSafety.Json.Reader

/-!
# JSON strings read back

Between the quotes of a JSON string every character is written as one piece: as itself, as a
backslash and a letter, or by its number.  The reader takes the pieces off again, one for each
character (`JsonValue.readPieces_escapeChar`), and a piece by itself denotes its character.  For
a character is no surrogate, so a number never joins with the number after it.
-/

namespace ResourceSafety.JsonValue

/-! ## Numbers of characters -/

theorem hexValue?_hexDigit : ∀ d < 16, hexValue? (Text.hexDigit d) = some d := by decide

theorem hexDigits_four (n : Nat) :
    Text.hexDigits 4 n =
      [Text.hexDigit (n / 16 / 16 / 16 % 16), Text.hexDigit (n / 16 / 16 % 16),
        Text.hexDigit (n / 16 % 16), Text.hexDigit (n % 16)] := rfl

/-- Four hexadecimal digits denote the number that they are the digits of. -/
theorem unit?_hexDigits {n : Nat} (small : n < 0x10000) :
    unit? (Text.hexDigit (n / 16 / 16 / 16 % 16)) (Text.hexDigit (n / 16 / 16 % 16))
      (Text.hexDigit (n / 16 % 16)) (Text.hexDigit (n % 16)) = some n := by
  have digit (m : Nat) : hexValue? (Text.hexDigit (m % 16)) = some (m % 16) :=
    hexValue?_hexDigit _ (Nat.mod_lt m (by decide))
  rw [unit?, digit, digit, digit, digit]
  show some _ = some n
  congr 1
  omega

theorem lt_of_needsCode {c : Char} (h : needsCode c = true) : c.toNat < 0x10000 := by
  simp only [needsCode, Bool.or_eq_true, decide_eq_true_eq, beq_iff_eq] at h
  obtain ((((control | rfl) | rfl) | rfl) | line) | paragraph := h
  · omega
  · decide
  · decide
  · decide
  · omega
  · omega

/-! ## Pieces -/

/-- The piece stands for the character: it is the character, or it is its number. -/
def StringPiece.Denotes (p : StringPiece) (c : Char) : Prop := p = .char c ∨ p = .unit c.toNat

/-- The number of a character is no surrogate. -/
theorem isHigh_toNat (c : Char) : isHigh c.toNat = false ∧ isLow c.toNat = false := by
  have valid : c.toNat < 0xD800 ∨ 0xDFFF < c.toNat ∧ c.toNat < 0x110000 := c.valid
  simp only [isHigh, isLow, Bool.and_eq_false_iff, decide_eq_false_iff_not]
  omega

theorem unitChar_toNat (c : Char) : unitChar c.toNat = c := by
  obtain ⟨high, low⟩ := isHigh_toNat c
  rw [unitChar, high, low]
  exact c.ofNat_toNat

theorem joinPieces_cons {p : StringPiece} {c : Char} (h : p.Denotes c) (ps : List StringPiece) :
    joinPieces (p :: ps) = c :: joinPieces ps := by
  obtain rfl | rfl := h
  · rfl
  · -- Only two numbers in a row could join, and these do not.
    obtain _ | ⟨_ | l, ps⟩ := ps
    · exact congrArg (· :: _) (unitChar_toNat c)
    · exact congrArg (· :: _) (unitChar_toNat c)
    · rw [joinPieces, (isHigh_toNat c).1, unitChar_toNat]
      rfl

theorem readPieces_letter {l c : Char} (meant : escaped? l = some c) (cs : List Char) :
    readPieces ('\\' :: l :: cs) = (readPieces cs).map fun (ps, rest) => (.char c :: ps, rest) := by
  rw [readPieces, meant]
  · cases readPieces cs with
    | none => rfl
    | some read => rfl
  · rintro _ _ _ _ _ rfl
    cases meant

theorem readPieces_code {n : Nat} (small : n < 0x10000) (cs : List Char) :
    readPieces ('\\' :: 'u' :: (Text.hexDigits 4 n ++ cs)) =
      (readPieces cs).map fun (ps, rest) => (.unit n :: ps, rest) := by
  rw [hexDigits_four, List.cons_append, List.cons_append, List.cons_append, List.cons_append,
    List.nil_append, readPieces, unit?_hexDigits small]
  cases readPieces cs with
  | none => rfl
  | some read => rfl

theorem readPieces_plain {c : Char} (quote : c ≠ '"') (backslash : c ≠ '\\')
    (visible : 0x20 ≤ c.toNat) (cs : List Char) :
    readPieces (c :: cs) = (readPieces cs).map fun (ps, rest) => (.char c :: ps, rest) := by
  rw [readPieces, if_neg (Nat.not_lt.mpr visible)]
  · rintro rfl
    exact quote rfl
  · rintro _ _ _ _ _ rfl
    exact absurd rfl backslash
  · rintro _ _ rfl
    exact absurd rfl backslash

/-- A character is read as one piece. -/
theorem readPieces_escapeChar (c : Char) : ∃ p : StringPiece, p.Denotes c ∧
    ∀ cs, readPieces (escapeChar c ++ cs) =
      (readPieces cs).map fun (ps, rest) => (p :: ps, rest) := by
  unfold escapeChar
  split
  -- Seven characters have a letter.
  iterate 7 exact ⟨_, .inl rfl, readPieces_letter rfl⟩
  case _ quote backslash _ _ _ _ _ =>
    split
    next coded => exact ⟨_, .inr rfl, readPieces_code (lt_of_needsCode coded)⟩
    next plain =>
      have visible : 0x20 ≤ c.toNat := by
        by_contra control
        exact plain (by simp [needsCode, Nat.not_le.mp control])
      exact ⟨_, .inl rfl, readPieces_plain quote backslash visible⟩

/-! ## Strings -/

theorem readPieces_escape (cs rest : List Char) :
    ∃ ps, readPieces (escape cs ++ '"' :: rest) = some (ps, rest) ∧ joinPieces ps = cs := by
  induction cs with
  | nil => exact ⟨[], rfl, rfl⟩
  | cons c cs ih =>
    obtain ⟨p, denotes, reads⟩ := readPieces_escapeChar c
    obtain ⟨ps, read, joined⟩ := ih
    refine ⟨p :: ps, ?_, ?_⟩
    · rw [escape, List.flatMap_cons, List.append_assoc, reads]
      exact congrArg (Option.map _) read
    · rw [joinPieces_cons denotes, joined]

/-- A string reads back from what stands after its opening quote. -/
theorem readString_escape (s : String) (rest : List Char) :
    readString (escape s.toList ++ '"' :: rest) = some (s, rest) := by
  obtain ⟨ps, read, joined⟩ := readPieces_escape s.toList rest
  rw [readString, read]
  show some (String.ofList (joinPieces ps), rest) = _
  rw [joined, String.ofList_toList]

end ResourceSafety.JsonValue
