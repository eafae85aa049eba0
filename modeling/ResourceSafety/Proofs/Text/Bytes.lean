import ResourceSafety.Text.Bytes

/-!
# Bytes of ASCII texts

A character of ASCII is one byte, and that byte by itself is the character again.  So an ASCII text
has the codes of its characters for bytes (`Text.Bytes.ofString_ofList`), and is what these bytes
read as (`Text.Bytes.toText_codes`).  A text put together from two has the bytes of the first and
then those of the second, whatever the characters are.
-/

namespace ResourceSafety.Text

theorem toList_loop (bytes : ByteArray) (i : Nat) (before : List UInt8) :
    ByteArray.toList.loop bytes i before = before.reverse ++ bytes.data.toList.drop i := by
  fun_induction ByteArray.toList.loop bytes i before with
  | case1 i before below ih =>
    have within : i < bytes.data.toList.length := below
    have here : bytes.get! i = bytes.data.toList[i] := getElem!_pos bytes.data i below
    rw [ih, List.drop_eq_getElem_cons within, List.reverse_cons, List.append_assoc, here]
    rfl
  | case2 i before past =>
    have beyond : bytes.data.toList.length ≤ i := Nat.not_lt.mp past
    rw [List.drop_eq_nil_of_le beyond, List.append_nil]

theorem toList_eq_data (bytes : ByteArray) : bytes.toList = bytes.data.toList :=
  toList_loop bytes 0 []

namespace Bytes

theorem ofString_append (s t : String) : ofString (s ++ t) = ofString s ++ ofString t := by
  show (s ++ t).toByteArray.toList = s.toByteArray.toList ++ t.toByteArray.toList
  rw [toList_eq_data, toList_eq_data, toList_eq_data, String.toByteArray_append,
    ByteArray.toList_data_append]

/-- The character is one of ASCII. -/
def IsAscii (c : Char) : Prop := c.toNat < 128

/-- The code of a character as a byte. -/
def code (c : Char) : UInt8 := c.toNat.toUInt8

theorem toNat_code {c : Char} (ascii : IsAscii c) : (code c).toNat = c.toNat := by
  unfold IsAscii at ascii
  rw [code, Nat.toUInt8_eq, UInt8.toNat_ofNat']
  omega

/-- An ASCII text has the codes of its characters for bytes. -/
theorem ofString_ofList {cs : List Char} (ascii : ∀ c ∈ cs, IsAscii c) :
    ofString (String.ofList cs) = cs.map code := by
  show (String.ofList cs).toByteArray.toList = _
  rw [toList_eq_data, String.toByteArray_ofList]
  induction cs with
  | nil => rfl
  | cons c cs ih =>
    obtain ⟨here, others⟩ := List.forall_mem_cons.mp ascii
    have size : c.utf8Size = 1 := by
      rw [Char.utf8Size_eq_one_iff, UInt32.le_iff_toNat_le]
      exact Nat.le_of_lt_succ here
    rw [List.utf8Encode_cons, ByteArray.toList_data_append, ih others,
      List.utf8Encode_singleton, List.toList_data_toByteArray,
      String.utf8EncodeChar_eq_singleton size]
    rfl

theorem head?_code {c : Char} (ascii : IsAscii c) (rest : Bytes) :
    Bytes.head? (code c :: rest) = some (c, rest) := by
  have small : code c < 0x80 := by
    rw [UInt8.lt_iff_toNat_lt, toNat_code ascii]
    exact ascii
  refine (if_pos small).trans ?_
  rw [toNat_code ascii, Char.ofNat_toNat]

/-- The codes of ASCII characters read as these characters. -/
theorem toText_codes {cs : List Char} (ascii : ∀ c ∈ cs, IsAscii c) :
    Bytes.toText (cs.map code) = String.ofList cs := by
  have pieces : Bytes.pieces (cs.map code) = cs.map .char := by
    unfold Bytes.pieces
    induction cs with
    | nil => rfl
    | cons c cs ih =>
      obtain ⟨here, others⟩ := List.forall_mem_cons.mp ascii
      rw [List.map_cons, List.length_cons, Bytes.piecesUpTo, head?_code here, List.map_cons,
        ← ih others]
  rw [Bytes.toText, pieces, List.map_map]
  exact congrArg String.ofList (List.map_id cs)

end Bytes

end ResourceSafety.Text
