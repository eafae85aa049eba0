import Mathlib.Data.List.Basic
import ResourceSafety.Proofs.Json.Strings
import ResourceSafety.Proofs.Text.Decimal

/-!
# JSON values read back

The program writes null, truth values, whole numbers, strings, and lists and objects of these.
It reads the value back that it wrote, when no more lists and objects are nested than the reader
may open (`JsonValue.ofString?_render`).

A number ends where the text goes on with something else, so the statement is about texts with
something behind them: a comma or a line end (`JsonValue.Ends`).  The induction is on the nesting.
One value after the other is taken off the text of a list or an object.
-/

namespace ResourceSafety.JsonValue

variable {room fuel level : Nat} {cs rest : List Char} {v : JsonValue}

/-- What may follow a value: a comma or a line end. -/
def Ends (cs : List Char) : Prop := ∃ c rest, cs = c :: rest ∧ (c = ',' ∨ c = '\n')

theorem ends_comma : Ends (',' :: cs) := ⟨',', cs, rfl, .inl rfl⟩

theorem ends_newline : Ends (newline level ++ cs) := ⟨'\n', _, rfl, .inr rfl⟩

/-! ## Blanks -/

theorem skip_newline (level : Nat) (cs : List Char) : skip (newline level ++ cs) = skip cs := by
  refine List.dropWhile_append_of_pos fun c mem => ?_
  obtain rfl | blank := List.mem_cons.mp mem
  · rfl
  · rw [List.eq_of_mem_replicate blank]
    rfl

/-- The readers look at a text after its blanks. -/
theorem readValue_congr {cs' : List Char} (same : skip cs = skip cs') :
    readValue fuel room cs = readValue fuel room cs' := by
  cases fuel with
  | zero => rfl
  | succ fuel => simp only [readValue, same]

theorem readItems_congr {cs' : List Char} (same : skip cs = skip cs') :
    readItems fuel room cs = readItems fuel room cs' := by
  cases fuel with
  | zero => rfl
  | succ fuel => simp only [readItems, readValue_congr same]

theorem readFields_congr {cs' : List Char} (same : skip cs = skip cs') :
    readFields fuel room cs = readFields fuel room cs' := by
  cases fuel with
  | zero => rfl
  | succ fuel => simp only [readFields, same]

/-! ## Numbers -/

theorem readDigits_append {ds : List Char} (digits : ∀ c ∈ ds, c.isDigit = true) (ne : ds ≠ [])
    (ends : Ends rest) : readDigits (ds ++ rest) = some (ds, rest) := by
  have all : ∀ c ∈ ds, isDigit c = true := digits
  have none : rest.takeWhile isDigit = [] ∧ rest.dropWhile isDigit = rest := by
    obtain ⟨c, rest, rfl, rfl | rfl⟩ := ends
    · exact ⟨rfl, rfl⟩
    · exact ⟨rfl, rfl⟩
  rw [readDigits, List.takeWhile_append_of_pos all, List.dropWhile_append_of_pos all, none.1, none.2,
    List.append_nil]
  exact if_neg (by simpa using ne)

/-- Only zero is written with a zero first. -/
theorem eq_zero_of_head? {n : Nat} (zero : (Nat.toDigits 10 n).head? = some '0') : n = 0 := by
  induction n using Nat.strongRecOn with
  | _ n ih =>
    by_cases small : n < 10
    · have digit : ∀ n < 10, n.digitChar = '0' → n = 0 := by decide
      rw [Nat.toDigits_of_lt_base small, List.head?_cons, Option.some.injEq] at zero
      exact digit n small zero
    · rw [Nat.toDigits_of_base_le (by decide) (Nat.not_lt.mp small),
        List.head?_append_of_ne_nil _ Nat.toDigits_ne_nil] at zero
      have shorter := ih (n / 10) (by omega) zero
      omega

theorem readWhole_toDigits (n : Nat) (ends : Ends rest) :
    readWhole (Nat.toDigits 10 n ++ rest) = some (Nat.toDigits 10 n, rest) := by
  have read := readDigits_append (fun _ => Text.isDigit_of_mem_digits (n := n)) Nat.toDigits_ne_nil ends
  by_cases zero : n = 0
  · rw [zero]
    rfl
  · obtain ⟨c, cs, digits, -⟩ := Text.exists_toDigits n
    have leading : c ≠ '0' := by
      rintro rfl
      exact zero (eq_zero_of_head? (congrArg List.head? digits))
    rw [digits] at read ⊢
    rw [List.cons_append, readWhole]
    · exact read
    · rintro rest ⟨⟩
      exact leading rfl

theorem readNumber_int (n : Int) (ends : Ends rest) :
    readNumber ((toString n).toList ++ rest) = some (int n, rest) := by
  have fraction : readFraction rest = some ([], rest) := by
    obtain ⟨c, rest, rfl, rfl | rfl⟩ := ends
    · rfl
    · rfl
  have exponent : readExponent rest = some ([], rest) := by
    obtain ⟨c, rest, rfl, rfl | rfl⟩ := ends
    · rfl
    · rfl
  have text : number (String.ofList (toString n).toList) = int n :=
    congrArg number String.ofList_toList
  cases n with
  | ofNat n =>
    have whole := readWhole_toDigits n ends
    rw [Int.ofNat_eq_natCast, Text.toList_toString_ofNat] at text ⊢
    -- The first character is a digit, and so it is no sign.
    obtain ⟨c, cs, digits, first⟩ := Text.exists_toDigits n
    have sign : c ≠ '-' := by
      rintro rfl
      cases first
    rw [digits, List.cons_append] at whole
    rw [digits] at text ⊢
    simp [readNumber, sign, whole, fraction, exponent, ← text]
  | negSucc n =>
    have whole := readWhole_toDigits (n + 1) ends
    rw [Text.toList_toString_negSucc] at text ⊢
    rw [← text]
    simp [readNumber, whole, fraction, exponent]

/-! ## Values -/

/-- The values that the program writes, with at most `room` lists and objects nested. -/
inductive Readable : (room : Nat) → JsonValue → Prop
  | null {room : Nat} : Readable room null
  | bool {room : Nat} (b : Bool) : Readable room (bool b)
  | int {room : Nat} (n : Int) : Readable room (int n)
  | string {room : Nat} (s : String) : Readable room (string s)
  | list {room : Nat} {vs : List JsonValue} (items : ∀ v ∈ vs, Readable room v) :
      Readable (room + 1) (list vs)
  | object {room : Nat} {fs : List (String × JsonValue)} (fields : ∀ f ∈ fs, Readable room f.2) :
      Readable (room + 1) (object fs)

/-- The value is read off a text that starts with it. -/
def Reads (room : Nat) (v : JsonValue) : Prop :=
  ∀ level fuel rest, (renderAt level v).length ≤ fuel → Ends rest →
    readValue fuel room (renderAt level v ++ rest) = some (v, rest)

theorem reads_string (s : String) : Reads room (string s) := by
  intro level fuel rest enough ends
  obtain _ | fuel := fuel
  · cases enough
  · show (readString ((escape s.toList ++ ['"']) ++ rest)).map _ = _
    rw [List.append_assoc]
    show (readString (escape s.toList ++ '"' :: rest)).map _ = _
    rw [readString_escape]
    rfl

/-- A digit or a minus. -/
def StartsNumber (c : Char) : Prop := c.isDigit = true ∨ c = '-'

theorem exists_toString (n : Int) : ∃ c cs, (toString n).toList = c :: cs ∧ StartsNumber c := by
  cases n with
  | ofNat n =>
    rw [Int.ofNat_eq_natCast, Text.toList_toString_ofNat]
    obtain ⟨c, cs, digits, first⟩ := Text.exists_toDigits n
    exact ⟨c, cs, digits, .inl first⟩
  | negSucc n => exact ⟨'-', _, Text.toList_toString_negSucc n, .inr rfl⟩

theorem StartsNumber.ne {c d : Char} (starts : StartsNumber c) (other : d.isDigit = false)
    (minus : d ≠ '-') : c ≠ d := by
  rintro rfl
  obtain digit | rfl := starts
  · rw [digit] at other
    cases other
  · exact minus rfl

theorem StartsNumber.isSpace {c : Char} (starts : StartsNumber c) : isSpace c = false := by
  simp only [JsonValue.isSpace, Bool.or_eq_false_iff, beq_eq_false_iff_ne]
  exact ⟨⟨⟨starts.ne rfl (by decide), starts.ne rfl (by decide)⟩, starts.ne rfl (by decide)⟩,
    starts.ne rfl (by decide)⟩

theorem skip_cons {c : Char} (solid : isSpace c = false) (cs : List Char) :
    skip (c :: cs) = c :: cs := List.dropWhile_cons_of_neg (by simp [solid])

theorem readValue_number {c : Char} (starts : StartsNumber c) (cs : List Char) :
    readValue (fuel + 1) room (c :: cs) = readNumber (c :: cs) := by
  have n : c ≠ 'n' := starts.ne rfl (by decide)
  have t : c ≠ 't' := starts.ne rfl (by decide)
  have f : c ≠ 'f' := starts.ne rfl (by decide)
  have quote : c ≠ '"' := starts.ne rfl (by decide)
  have bracket : c ≠ '[' := starts.ne rfl (by decide)
  have brace : c ≠ '\x7b' := starts.ne rfl (by decide)
  simp [readValue, skip_cons starts.isSpace, n, t, f, quote, bracket, brace]

theorem reads_int (n : Int) : Reads room (int n) := by
  intro level fuel rest enough ends
  obtain ⟨c, cs, text, starts⟩ := exists_toString n
  have read := readNumber_int n ends
  show readValue fuel room ((toString n).toList ++ rest) = _
  have enough : (toString n).toList.length ≤ fuel := enough
  rw [text] at enough read ⊢
  obtain _ | fuel := fuel
  · cases enough
  · exact (readValue_number starts _).trans read

/-! ## Lists -/

theorem readItems_last {outer : Nat}
    (read : readValue fuel room cs = some (v, newline outer ++ ']' :: rest)) :
    readItems (fuel + 1) room cs = some ([v], rest) := by
  have after : skip (newline outer ++ ']' :: rest) = ']' :: rest := skip_newline outer _
  rw [readItems, read]
  simp only [Option.bind_eq_bind, Option.bind_some, after]

theorem readItems_more {cs' : List Char} {vs : List JsonValue}
    (read : readValue fuel room cs = some (v, ',' :: newline level ++ cs'))
    (others : readItems fuel room cs' = some (vs, rest)) :
    readItems (fuel + 1) room cs = some (v :: vs, rest) := by
  rw [readItems, read]
  show (readItems fuel room (newline level ++ cs')).bind _ = _
  rw [readItems_congr (skip_newline level cs'), others]
  rfl

theorem readItems_render {vs : List JsonValue} (reads : ∀ w ∈ v :: vs, Reads room w) (outer : Nat)
    (rest : List Char) (enough : (renderAt level v ++ renderItems level vs).length < fuel) :
    readItems fuel room
      (renderAt level v ++ (renderItems level vs ++ (newline outer ++ ']' :: rest))) =
        some (v :: vs, rest) := by
  -- Every item after the first follows a comma, and one more call of the reader takes it.
  induction vs generalizing v fuel with
  | nil =>
    obtain _ | fuel := fuel
    · cases enough
    · have first := reads v List.mem_cons_self
      rw [renderItems, List.append_nil] at enough
      rw [renderItems, List.nil_append]
      exact readItems_last (first level fuel _ (Nat.lt_succ_iff.mp enough) ends_newline)
  | cons w ws ih =>
    obtain ⟨first, others⟩ := List.forall_mem_cons.mp reads
    obtain _ | fuel := fuel
    · cases enough
    · simp only [renderItems, List.length_append, List.length_cons] at enough
      have left : (renderAt level w ++ renderItems level ws).length < fuel := by
        rw [List.length_append]
        omega
      simp only [renderItems, List.append_assoc]
      exact readItems_more (first level fuel _ (by omega) ends_comma) (ih others left)

theorem readValue_list {vs : List JsonValue} {c : Char} {cs : List Char} (solid : isSpace c = false)
    (other : c ≠ ']') (read : readItems fuel room (c :: cs) = some (vs, rest)) :
    readValue (fuel + 1) (room + 1) ('[' :: (newline level ++ c :: cs)) = some (list vs, rest) := by
  have after : skip (newline level ++ c :: cs) = c :: cs :=
    (skip_newline level _).trans (skip_cons solid cs)
  have opened : skip ('[' :: (newline level ++ c :: cs)) = '[' :: (newline level ++ c :: cs) :=
    skip_cons rfl _
  simp [readValue, opened, after, other, read]

/-- A value does not start with a blank, nor with the end of a list. -/
theorem Readable.exists_renderAt (h : Readable room v) (level : Nat) :
    ∃ c cs, renderAt level v = c :: cs ∧ isSpace c = false ∧ c ≠ ']' := by
  cases h with
  | null => exact ⟨_, _, rfl, rfl, by decide⟩
  | bool b => cases b <;> exact ⟨_, _, rfl, rfl, by decide⟩
  | int n =>
    obtain ⟨c, cs, text, starts⟩ := exists_toString n
    exact ⟨c, cs, text, starts.isSpace, starts.ne rfl (by decide)⟩
  | string s => exact ⟨_, _, rfl, rfl, by decide⟩
  | @list _ vs _ => cases vs <;> exact ⟨_, _, rfl, rfl, by decide⟩
  | @object _ fs _ => cases fs <;> exact ⟨_, _, rfl, rfl, by decide⟩

theorem reads_list {vs : List JsonValue} (items : ∀ v ∈ vs, Readable room v)
    (reads : ∀ v ∈ vs, Reads room v) : Reads (room + 1) (list vs) := by
  intro level fuel rest enough ends
  obtain _ | fuel := fuel
  · cases vs <;> cases enough
  cases vs with
  | nil => rfl
  | cons v vs =>
    -- The first character tells the list from an empty one.
    obtain ⟨c, cs, text, solid, other⟩ := (items v List.mem_cons_self).exists_renderAt (level + 1)
    simp only [renderAt, List.length_cons, List.length_append] at enough
    have left : (renderAt (level + 1) v ++ renderItems (level + 1) vs).length < fuel := by
      rw [List.length_append]
      omega
    have read := readItems_render reads level rest left
    rw [text, List.cons_append] at read
    simp only [renderAt, List.cons_append, List.append_assoc, text, List.nil_append]
    exact readValue_list solid other read

/-! ## Objects -/

/-- A field is read, and the text after it says whether there are more. -/
theorem readFields_field {k : String} {cs' : List Char}
    (read : readValue fuel room cs = some (v, cs')) :
    readFields (fuel + 1) room (renderString k ++ ':' :: ' ' :: cs) =
      match skip cs' with
      | ',' :: rest => do
        let (fs, rest) ← readFields fuel room rest
        some ((k, v) :: fs, rest)
      | '\x7d' :: rest => some ([(k, v)], rest)
      | _ => none := by
  -- The key ends at its quote, and a colon and a blank stand before the value.
  have key : readString (escape k.toList ++ ['"'] ++ ':' :: ' ' :: cs) =
      some (k, ':' :: ' ' :: cs) := by
    rw [List.append_assoc]
    exact readString_escape k _
  have value : readValue fuel room (' ' :: cs) = some (v, cs') := by
    rw [← read]
    exact readValue_congr rfl
  rw [readFields]
  show (readString (escape k.toList ++ ['"'] ++ ':' :: ' ' :: cs)).bind _ = _
  rw [key]
  show (readValue fuel room (' ' :: cs)).bind _ = _
  rw [value]
  rfl

theorem readFields_last {k : String} {outer : Nat}
    (read : readValue fuel room cs = some (v, newline outer ++ '\x7d' :: rest)) :
    readFields (fuel + 1) room (renderString k ++ ':' :: ' ' :: cs) = some ([(k, v)], rest) := by
  rw [readFields_field read, skip_newline]
  rfl

theorem readFields_more {k : String} {cs' : List Char} {fs : List (String × JsonValue)}
    (read : readValue fuel room cs = some (v, ',' :: newline level ++ cs'))
    (others : readFields fuel room cs' = some (fs, rest)) :
    readFields (fuel + 1) room (renderString k ++ ':' :: ' ' :: cs) = some ((k, v) :: fs, rest) := by
  rw [readFields_field read]
  show (readFields fuel room (newline level ++ cs')).bind _ = _
  rw [readFields_congr (skip_newline level cs'), others]
  rfl

theorem readFields_render {k : String} {fs : List (String × JsonValue)} (first : Reads room v)
    (others : ∀ f ∈ fs, Reads room f.2) (outer : Nat) (rest : List Char)
    (enough : (renderAt level v ++ renderFields level fs).length < fuel) :
    readFields fuel room (renderString k ++ ':' :: ' ' ::
      (renderAt level v ++ (renderFields level fs ++ (newline outer ++ '\x7d' :: rest)))) =
        some ((k, v) :: fs, rest) := by
  induction fs generalizing k v fuel with
  | nil =>
    obtain _ | fuel := fuel
    · cases enough
    · rw [renderFields, List.append_nil] at enough
      rw [renderFields, List.nil_append]
      exact readFields_last (first level fuel _ (Nat.lt_succ_iff.mp enough) ends_newline)
  | cons f fs ih =>
    obtain ⟨second, later⟩ := List.forall_mem_cons.mp others
    obtain _ | fuel := fuel
    · cases enough
    · simp only [renderFields, List.length_append, List.length_cons] at enough
      have left : (renderAt level f.2 ++ renderFields level fs).length < fuel := by
        rw [List.length_append]
        omega
      simp only [renderFields, List.append_assoc, List.cons_append]
      exact readFields_more (first level fuel _ (by omega) ends_comma) (ih second later left)

theorem readValue_object {k : String} {fs : List (String × JsonValue)}
    (read : readFields fuel room (renderString k ++ cs) = some (fs, rest)) :
    readValue (fuel + 1) (room + 1) ('\x7b' :: (newline level ++ (renderString k ++ cs))) =
      some (object fs, rest) := by
  have after : skip (newline level ++ (renderString k ++ cs)) = renderString k ++ cs :=
    skip_newline level _
  have opened : skip ('\x7b' :: (newline level ++ (renderString k ++ cs))) =
      '\x7b' :: (newline level ++ (renderString k ++ cs)) := skip_cons rfl _
  simp only [readValue, opened, after]
  exact congrArg (Option.map _) read

theorem reads_object {fs : List (String × JsonValue)} (reads : ∀ f ∈ fs, Reads room f.2) :
    Reads (room + 1) (object fs) := by
  intro level fuel rest enough ends
  obtain _ | fuel := fuel
  · cases fs <;> cases enough
  cases fs with
  | nil => rfl
  | cons f fs =>
    obtain ⟨first, others⟩ := List.forall_mem_cons.mp reads
    simp only [renderAt, List.length_cons, List.length_append] at enough
    have left : (renderAt (level + 1) f.2 ++ renderFields (level + 1) fs).length < fuel := by
      rw [List.length_append]
      omega
    have read := readFields_render (k := f.1) first others level rest left
    simp only [renderAt, List.cons_append, List.append_assoc, List.nil_append]
    exact readValue_object read

/-! ## The whole text -/

/-- One case for each kind of value. -/
theorem Readable.reads (h : Readable room v) : Reads room v := by
  induction h with
  | null =>
    rintro level (_ | fuel) rest enough ends
    · cases enough
    · rfl
  | bool b =>
    rintro level (_ | fuel) rest enough ends
    · cases b <;> cases enough
    · cases b <;> rfl
  | int n => exact reads_int n
  | string s => exact reads_string s
  | list items ih => exact reads_list items ih
  | object fields ih => exact reads_object ih

/-- A value reads back from its text. -/
theorem ofString?_render (h : Readable depthLimit v) : ofString? v.render = some v := by
  have enough : (renderAt 0 v).length ≤ 2 * v.render.length + 2 := by
    rw [render, String.length_ofList, List.length_append]
    omega
  have read := h.reads 0 _ ['\n'] enough ⟨'\n', [], rfl, .inr rfl⟩
  rw [ofString?]
  show (readValue _ depthLimit (String.ofList (renderAt 0 v ++ ['\n'])).toList).map Prod.fst = _
  rw [String.toList_ofList, read]
  rfl

end ResourceSafety.JsonValue
