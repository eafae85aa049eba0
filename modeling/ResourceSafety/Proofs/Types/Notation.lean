import Mathlib
import ResourceSafety.Proofs.Source.Compact
import ResourceSafety.Proofs.Text.Bytes
import ResourceSafety.Types.Reader

/-!
# Types read back

The reader of types takes more texts than the printer writes: spaces before every token, any blanks
around a bound, leading zeros.  The printer writes one text for each type, and the reader gives the
type back from it (`Ty.ofBytes_render`).

Not every type reads back.  A declared type under the name of a scalar type, bounds the wrong way
round, or a shared reference to a declared type `mut` would be written as something else.  The types
that do are the *formed* ones (`Ty.Formed`), and the reader gives no others
(`Ty.formed_of_read`).  For references this needs the name that a notation begins with
(`Ty.leadingName`): the reader takes `mut` after the sign for the word of the mutable ones, so the
target of a shared reference begins with another name, in the text that was read and in the one that
is written.

The notation of a part stands before a comma, a closing bracket or the end, and there it stops
(`Ty.Stops`).  That carries the induction over the types (`Ty.Formed.readsBack`).
-/

namespace ResourceSafety.Ty

open Text (Bytes)

variable {total fuel : Nat} {name after rest bs : Bytes} {t : Ty}

/-! ## Tokens -/

theorem bytes_unit : Bytes.ofString "()" = [0x28, 0x29] := by cbv

theorem bytes_reference : Bytes.ofString "&" = [0x26] := by cbv

theorem bytes_mut : Bytes.ofString "mut" = [0x6D, 0x75, 0x74] := by cbv

theorem bytes_open : Bytes.ofString "<" = [0x3C] := by cbv

theorem bytes_close : Bytes.ofString ">" = [0x3E] := by cbv

theorem bytes_comma : Bytes.ofString "," = [0x2C] := by cbv

theorem bytes_bracket : Bytes.ofString "[" = [0x5B] := by cbv

/-- Every reader of tokens looks at the bytes after leading spaces. -/
theorem accept?_congr {bs' : Bytes} (same : skipSpaces bs = skipSpaces bs') (token : String) :
    accept? token bs = accept? token bs' := by
  rw [accept?, accept?, same]

theorem takeName_congr {bs' : Bytes} (same : skipSpaces bs = skipSpaces bs') :
    takeName bs = takeName bs' := by
  rw [takeName, takeName, same]

theorem skipSpaces_of_head? (head : List.head? bs ≠ some 0x20) : skipSpaces bs = bs := by
  cases bs with
  | nil => rfl
  | cons b bs =>
    refine List.dropWhile_cons_of_neg fun space => head ?_
    rw [beq_iff_eq.mp space]
    rfl

theorem accept?_append (token : String) {tok : Bytes} (bytes : Bytes.ofString token = tok)
    (head : List.head? (tok ++ rest) ≠ some 0x20) : accept? token (tok ++ rest) = some rest := by
  have starts : tok.isPrefixOf (tok ++ rest) = true :=
    List.isPrefixOf_iff_prefix.mpr (List.prefix_append tok rest)
  rw [accept?, bytes, skipSpaces_of_head? head, if_pos starts, List.drop_left]

theorem accept?_cons (token : String) {b : UInt8} (bytes : Bytes.ofString token = [b])
    (solid : b ≠ 0x20) : accept? token (b :: rest) = some rest :=
  accept?_append token bytes fun space => solid (Option.some.inj space)

theorem accept?_eq_none (token : String) {b : UInt8} {tok : Bytes}
    (bytes : Bytes.ofString token = b :: tok) (head : List.head? bs ≠ some 0x20)
    (other : List.head? bs ≠ some b) : accept? token bs = none := by
  have differs : ¬(b :: tok).isPrefixOf bs = true := by
    intro starts
    obtain ⟨more, rfl⟩ := List.isPrefixOf_iff_prefix.mp starts
    exact other rfl
  rw [accept?, bytes, skipSpaces_of_head? head, if_neg differs]

/-! ## Names -/

/-- The bytes are those of a name. -/
structure IsName (name : Bytes) : Prop where
  ne_nil : name ≠ []
  bytes : ∀ b ∈ name, isNameByte b = true

/-- The bytes do not begin with one of a name. -/
def EndsName (bs : Bytes) : Prop := ∀ b ∈ List.head? bs, isNameByte b = false

theorem not_isNameByte_of_mem {b : UInt8}
    (mem : b ∈ [0x20, 0x28, 0x26, 0x3C, 0x3E, 0x2C, 0x5B]) : isNameByte b = false := by
  simp only [List.mem_cons, List.not_mem_nil, or_false] at mem
  obtain rfl | rfl | rfl | rfl | rfl | rfl | rfl := mem <;> rfl

theorem EndsName.takeWhile (ends : EndsName bs) : bs.takeWhile isNameByte = [] := by
  cases bs with
  | nil => rfl
  | cons b bs => exact List.takeWhile_cons_of_neg (by simp [ends b rfl])

theorem EndsName.dropWhile (ends : EndsName bs) : bs.dropWhile isNameByte = bs := by
  cases bs with
  | nil => rfl
  | cons b bs => exact List.dropWhile_cons_of_neg (by simp [ends b rfl])

theorem IsName.head?_ne (proper : IsName name) {b : UInt8} (other : isNameByte b = false)
    (after : Bytes) : List.head? (name ++ after) ≠ some b := by
  obtain ⟨c, cs, rfl⟩ := List.exists_cons_of_ne_nil proper.ne_nil
  rintro ⟨⟩
  have := proper.bytes b List.mem_cons_self
  rw [other] at this
  cases this

/-- A name ends where the text goes on with something else. -/
theorem IsName.takeName (proper : IsName name) (ends : EndsName after) :
    takeName (name ++ after) = (name, after) := by
  rw [Ty.takeName, skipSpaces_of_head? (proper.head?_ne (not_isNameByte_of_mem (by decide)) after),
    List.takeWhile_append_of_pos proper.bytes, List.dropWhile_append_of_pos proper.bytes,
    ends.takeWhile, ends.dropWhile, List.append_nil]

theorem isName_takeName (nonempty : (takeName bs).1 ≠ []) : IsName (takeName bs).1 :=
  ⟨nonempty, fun _ => (List.all_eq_true.mp List.all_takeWhile _ ·)⟩

/-- Before another token there is no name. -/
theorem takeName_of_accept? {token : String} {b : UInt8} {tok : Bytes}
    (bytes : Bytes.ofString token = b :: tok) (other : isNameByte b = false)
    (taken : accept? token bs = some rest) : (takeName bs).1 = [] := by
  rw [accept?, bytes] at taken
  split at taken
  next starts =>
    obtain ⟨more, eq⟩ := List.isPrefixOf_iff_prefix.mp starts
    rw [takeName, ← eq]
    exact List.takeWhile_cons_of_neg (by simp [other])
  next => cases taken

/-! ## The three forms of a type -/

theorem readTy_unit (sign : accept? "()" bs = some rest) :
    readTy total (fuel + 1) bs = readRange total unit rest := by
  rw [readTy, sign]

theorem readTy_reference (other : accept? "()" bs = none) (sign : accept? "&" bs = some rest) :
    readTy total (fuel + 1) bs =
      (readTy total fuel
        (if (takeName rest).1 == Bytes.ofString "mut" then (takeName rest).2 else rest)).bind
      fun read => .ok (reference ((takeName rest).1 == Bytes.ofString "mut") read.1, read.2) := by
  rw [readTy, other]
  dsimp only
  rw [sign]
  rfl

/-- A type with a name first is read as the name, what its brackets hold, and its bounds. -/
theorem readTy_name (unit : accept? "()" bs = none) (sign : accept? "&" bs = none)
    (nonempty : (takeName bs).1 ≠ []) :
    readTy total (fuel + 1) bs =
      (match accept? "<" (takeName bs).2 with
        | some inner => readArgs total fuel inner
        | none => .ok ([], skipSpaces (takeName bs).2)).bind fun read =>
      (ofName (takeName bs).1 read.1).bind fun t => readRange total t read.2 := by
  rw [readTy, unit]
  dsimp only
  rw [sign]
  dsimp only
  rw [if_neg (by simpa using nonempty)]
  cases accept? "<" (takeName bs).2 <;> rfl

/-- Arguments are read one by one, and what follows each says whether it is the last. -/
theorem readArgs_succ :
    readArgs total (fuel + 1) bs = (readTy total fuel bs).bind fun read =>
      match accept? ">" read.2 with
      | some rest => .ok ([read.1], rest)
      | none =>
        match accept? "," read.2 with
        | some rest => (readArgs total fuel rest).bind fun more => .ok (read.1 :: more.1, more.2)
        | none => .error (.expectedSeparator (total - (skipSpaces read.2).length)) := by
  rw [readArgs]
  rfl

/-! ## Types that are read -/

/-- The name that the notation of a type begins with, if it begins with one. -/
def leadingName : Ty → Bytes
  | unit | reference .. => []
  | tensor | tensorOf _ => tensorName
  | scalar _ name | named name | applied name _ | range name .. => name

/-- The types that the reader gives.  Names are proper, and those of declared types are not taken;
bounds stand on integer types and are in order; what follows a shared reference does not look like
the word of the mutable ones. -/
inductive Formed : Ty → Prop
  | unit : Formed unit
  | scalar {kind : Scalar} {name : Bytes} (known : scalar? name = some kind) :
      Formed (scalar kind name)
  | tensor : Formed tensor
  | tensorOf {element : Ty} (formed : Formed element) : Formed (tensorOf element)
  | named {name : Bytes} (proper : IsName name) (other : name ≠ tensorName)
      (free : scalar? name = none) : Formed (named name)
  | applied {name : Bytes} {args : List Ty} (proper : IsName name) (other : name ≠ tensorName)
      (free : scalar? name = none) (some : args ≠ []) (formed : ∀ t ∈ args, Formed t) :
      Formed (applied name args)
  | reference {mutable : Bool} {target : Ty} (formed : Formed target)
      (shared : mutable = false → target.leadingName ≠ Bytes.ofString "mut") :
      Formed (reference mutable target)
  | range {name : Bytes} {lo hi : UInt64} (known : scalar? name = some .int) (ordered : lo ≤ hi) :
      Formed (range name lo hi)

theorem exists_of_bind {α β : Type} {r : Except TypeError α} {f : α → Except TypeError β} {y : β}
    (h : r.bind f = .ok y) : ∃ x, r = .ok x ∧ f x = .ok y := by
  cases r with
  | error e => cases h
  | ok x => exact ⟨x, rfl, h⟩

/-- Bounds that are read are in order. -/
theorem ordered_of_readBounds {body : Bytes} {lo hi : UInt64}
    (read : readBounds body = .ok (lo, hi)) : lo ≤ hi := by
  unfold readBounds at read
  split at read
  · cases read
  · split at read
    · cases read
    · split at read
      · cases read
      · split at read
        next => cases read
        next ordered =>
          cases read
          exact UInt64.not_lt.mp ordered

theorem Formed.of_readRange {base : Ty} (formed : Formed base)
    (read : readRange total base bs = .ok (t, rest)) :
    Formed t ∧ t.leadingName = base.leadingName := by
  unfold readRange at read
  split at read
  next =>
    cases read
    exact ⟨formed, rfl⟩
  next =>
    split at read
    next name =>
      split at read
      · cases read
      · obtain ⟨⟨lo, hi⟩, bounds, h⟩ := exists_of_bind read
        cases h
        cases formed with | scalar known =>
        exact ⟨.range known (ordered_of_readBounds bounds), rfl⟩
    next => cases read

theorem formed_ofName {args : List Ty} (proper : IsName name) (formed : ∀ a ∈ args, Formed a)
    (given : ofName name args = .ok t) : Formed t ∧ t.leadingName = name := by
  unfold ofName at given
  split at given
  next same =>
    cases beq_iff_eq.mp same
    split at given
    · cases given
      exact ⟨.tensor, rfl⟩
    · cases given
      exact ⟨.tensorOf (formed _ List.mem_cons_self), rfl⟩
    · cases given
  next differs =>
    have other : name ≠ tensorName := mt beq_iff_eq.mpr differs
    split at given
    next known =>
      split at given
      · cases given
        exact ⟨.scalar known, rfl⟩
      · cases given
    next free =>
      cases given
      split
      next => exact ⟨.named proper other free, rfl⟩
      next some => exact ⟨.applied proper other free (mt List.isEmpty_iff.mpr some) formed, rfl⟩

section

variable {total fuel : Nat}
  (types : ∀ bs t rest, readTy total fuel bs = .ok (t, rest) →
    Formed t ∧ t.leadingName = (takeName bs).1)
  (arguments : ∀ bs args rest, readArgs total fuel bs = .ok (args, rest) →
    args ≠ [] ∧ ∀ t ∈ args, Formed t)

include types arguments

theorem formed_of_readTy_succ (read : readTy total (fuel + 1) bs = .ok (t, rest)) :
    Formed t ∧ t.leadingName = (takeName bs).1 := by
  cases unit : accept? "()" bs with
  | some inner =>
    rw [readTy_unit unit] at read
    rw [takeName_of_accept? bytes_unit (by decide) unit]
    exact Formed.unit.of_readRange read
  | none =>
  cases sign : accept? "&" bs with
  | some inner =>
    rw [readTy_reference unit sign] at read
    rw [takeName_of_accept? bytes_reference (by decide) sign]
    obtain ⟨⟨target, after⟩, inside, h⟩ := exists_of_bind read
    cases h
    obtain ⟨formed, leading⟩ := types _ _ _ inside
    refine ⟨.reference formed fun shared => ?_, rfl⟩
    rw [shared] at leading
    rw [leading]
    exact beq_eq_false_iff_ne.mp shared
  | none =>
  by_cases nonempty : (takeName bs).1 = []
  · rw [readTy, unit] at read
    dsimp only at read
    rw [sign] at read
    dsimp only at read
    rw [if_pos (List.isEmpty_iff.mpr nonempty)] at read
    cases read
  · rw [readTy_name unit sign nonempty] at read
    obtain ⟨⟨args, after⟩, inside, h⟩ := exists_of_bind read
    obtain ⟨base, given, bounds⟩ := exists_of_bind h
    have formed : ∀ a ∈ args, Formed a := by
      split at inside
      · exact (arguments _ _ _ inside).2
      · cases inside
        exact fun _ mem => absurd mem List.not_mem_nil
    obtain ⟨formedBase, leading⟩ := formed_ofName (isName_takeName nonempty) formed given
    rw [← leading]
    exact formedBase.of_readRange bounds

theorem formed_of_readArgs_succ {args : List Ty}
    (read : readArgs total (fuel + 1) bs = .ok (args, rest)) :
    args ≠ [] ∧ ∀ t ∈ args, Formed t := by
  rw [readArgs_succ] at read
  obtain ⟨⟨arg, after⟩, first, h⟩ := exists_of_bind read
  obtain ⟨formed, -⟩ := types _ _ _ first
  split at h
  next =>
    cases h
    exact ⟨List.cons_ne_nil _ _, List.forall_mem_singleton.mpr formed⟩
  next =>
    split at h
    next =>
      obtain ⟨⟨others, after⟩, more, h⟩ := exists_of_bind h
      cases h
      exact ⟨List.cons_ne_nil _ _, List.forall_mem_cons.mpr ⟨formed, (arguments _ _ _ more).2⟩⟩
    next => cases h

end

/-- Whatever is read is formed, and its notation begins with the name that the text begins with. -/
theorem formed_of_read (total fuel : Nat) :
    (∀ bs t rest, readTy total fuel bs = .ok (t, rest) →
      Formed t ∧ t.leadingName = (takeName bs).1) ∧
    ∀ bs args rest, readArgs total fuel bs = .ok (args, rest) →
      args ≠ [] ∧ ∀ t ∈ args, Formed t := by
  induction fuel with
  | zero =>
    constructor
    · intro bs t rest read
      cases read
    · intro bs args rest read
      cases read
  | succ fuel ih =>
    exact ⟨fun _ _ _ => formed_of_readTy_succ ih.1 ih.2,
      fun _ _ _ => formed_of_readArgs_succ ih.1 ih.2⟩

/-! ## Bounds in the notation -/

/-- The digits of a bound. -/
def digits (n : UInt64) : Bytes := (Nat.toDigits 10 n.toNat).map Bytes.code

theorem toNat_of_isDigit {c : Char} (digit : c.isDigit = true) : 48 ≤ c.toNat ∧ c.toNat ≤ 57 := by
  simpa [Char.isDigit, UInt32.le_iff_toNat_le] using digit

theorem isAscii_of_isDigit {c : Char} (digit : c.isDigit = true) : Bytes.IsAscii c :=
  Nat.lt_of_le_of_lt (toNat_of_isDigit digit).2 (by decide)

theorem isAscii_digits (n : UInt64) : ∀ c ∈ Nat.toDigits 10 n.toNat, Bytes.IsAscii c :=
  fun _ mem => isAscii_of_isDigit (Text.isDigit_of_mem_digits mem)

theorem notMem_digits {n : UInt64} {b : UInt8} (other : b.toNat < 48 ∨ 57 < b.toNat) :
    b ∉ digits n := by
  intro mem
  obtain ⟨c, written, rfl⟩ := List.mem_map.mp mem
  have digit := Text.isDigit_of_mem_digits written
  have bounds := toNat_of_isDigit digit
  rw [Bytes.toNat_code (isAscii_of_isDigit digit)] at other
  omega

theorem bytes_bounds (lo hi : UInt64) : Bytes.ofString s!"[{lo}..{hi}]" =
    0x5B :: (digits lo ++ 0x2E :: 0x2E :: digits hi ++ [0x5D]) := by
  have number (n : UInt64) : Bytes.ofString (toString n) = digits n := by
    show Bytes.ofString (String.ofList (Nat.toDigits 10 n.toNat)) = _
    exact Bytes.ofString_ofList (isAscii_digits n)
  have dots : Bytes.ofString ".." = [0x2E, 0x2E] := by cbv
  have close : Bytes.ofString "]" = [0x5D] := by cbv
  show Bytes.ofString ("[" ++ toString lo ++ ".." ++ toString hi ++ "]") = _
  simp only [Bytes.ofString_append, number, bytes_bracket, dots, close, List.append_assoc,
    List.cons_append, List.nil_append]

/-- A bound reads back from its digits. -/
theorem bound?_digits (n : UInt64) : bound? (digits n) = some n := by
  have solid : ∀ c ∈ Nat.toDigits 10 n.toNat, Text.isBlank c = false := fun c mem =>
    Span.isBlank_of_isDigit (.inl (Text.isDigit_of_mem_digits mem))
  have small : n.toNat < Word.count := n.toNat_lt
  rw [bound?, digits, Bytes.toText_codes (isAscii_digits n), String.toList_ofList,
    Text.stripWhere_of_forall solid, Text.unsigned?, Text.natural?_toDigits]
  exact (if_pos small).trans (congrArg some (UInt64.ofNat_toNat))

theorem cutDots_append {before : Bytes} (first : 0x2E ∉ before) :
    cutDots (before ++ 0x2E :: 0x2E :: after) = some (before, after) := by
  induction before with
  | nil => rfl
  | cons b before ih =>
    obtain ⟨ne, first⟩ := not_or.mp (mt List.mem_cons.mpr first)
    rw [List.cons_append, cutDots, ih first]
    · rfl
    · exact fun _ same _ => ne same.symm

/-- Bounds in order read back behind the name of an integer type. -/
theorem readRange_bounds {lo hi : UInt64} (ordered : lo ≤ hi) (total : Nat) (name rest : Bytes) :
    readRange total (scalar .int name) (Bytes.ofString s!"[{lo}..{hi}]" ++ rest) =
      .ok (range name lo hi, rest) := by
  have inner : ∀ b ∈ digits lo ++ 0x2E :: 0x2E :: digits hi, (b != 0x5D) = true := by
    intro b mem
    rw [bne_iff_ne]
    rintro rfl
    simp [notMem_digits] at mem
  have bounds : readBounds (digits lo ++ 0x2E :: 0x2E :: digits hi) = .ok (lo, hi) := by
    rw [readBounds, cutDots_append (notMem_digits (by decide))]
    dsimp only
    rw [bound?_digits, bound?_digits]
    exact if_neg (UInt64.not_lt.mpr ordered)
  rw [bytes_bounds, readRange, List.cons_append, List.append_assoc,
    accept?_cons "[" bytes_bracket (by decide)]
  dsimp only
  rw [List.dropWhile_append_of_pos inner, List.takeWhile_append_of_pos inner]
  simp [bounds, bind, Except.bind]

/-! ## Types read back -/

/-- The text is over, or goes on with what may follow an argument. -/
def Stops (rest : Bytes) : Prop := ∀ b ∈ List.head? rest, b = 0x2C ∨ b = 0x3E

theorem Stops.head?_ne (stops : Stops rest) {b : UInt8} (other : b ≠ 0x2C ∧ b ≠ 0x3E) :
    List.head? rest ≠ some b := fun head =>
  (stops b head).elim other.1 other.2

theorem Stops.endsName (stops : Stops rest) : EndsName rest := fun b head =>
  not_isNameByte_of_mem <| (stops b head).elim (fun h => by simp [h]) (fun h => by simp [h])

theorem Stops.readRange (stops : Stops rest) (base : Ty) :
    readRange total base rest = .ok (base, rest) := by
  rw [Ty.readRange, accept?_eq_none "[" bytes_bracket (stops.head?_ne (by decide))
    (stops.head?_ne (by decide)), skipSpaces_of_head? (stops.head?_ne (by decide))]

theorem isName_of_all {s : Bytes} (all : (s != [] && s.all isNameByte) = true) : IsName s := by
  obtain ⟨some, each⟩ := Bool.and_eq_true_iff.mp all
  exact ⟨bne_iff_ne.mp some, List.all_eq_true.mp each⟩

theorem isName_tensorName : IsName tensorName := isName_of_all (by cbv)

theorem isName_mut : IsName (Bytes.ofString "mut") := isName_of_all (by cbv)

theorem isName_of_scalar? {kind : Scalar} (known : scalar? name = some kind) : IsName name := by
  obtain ⟨entry, found, -⟩ := Option.map_eq_some_iff.mp known
  have every : (scalarNames.all fun entry =>
      Bytes.ofString entry.1 != [] && (Bytes.ofString entry.1).all isNameByte) = true := by cbv
  have same := List.find?_some found
  rw [← beq_iff_eq.mp same]
  exact isName_of_all (List.all_eq_true.mp every entry (List.mem_of_find?_eq_some found))

theorem ofName_tensor : ofName tensorName [] = .ok tensor := if_pos (beq_self_eq_true _)

theorem ofName_tensorOf (element : Ty) : ofName tensorName [element] = .ok (tensorOf element) :=
  if_pos (beq_self_eq_true _)

theorem ofName_of_scalar? {kind : Scalar} (known : scalar? name = some kind) :
    ofName name [] = .ok (scalar kind name) := by
  have differs : ¬(name == tensorName) = true := by
    intro same
    have free : scalar? tensorName = none := by cbv
    rw [beq_iff_eq.mp same, free] at known
    cases known
  unfold ofName
  rw [if_neg differs, known]
  rfl

theorem ofName_named (other : name ≠ tensorName) (free : scalar? name = none) :
    ofName name [] = .ok (named name) := by
  unfold ofName
  rw [if_neg (mt beq_iff_eq.mp other), free]
  rfl

theorem ofName_applied {args : List Ty} (other : name ≠ tensorName) (free : scalar? name = none)
    (some : args ≠ []) : ofName name args = .ok (applied name args) := by
  unfold ofName
  rw [if_neg (mt beq_iff_eq.mp other), free]
  dsimp only
  rw [if_neg (mt List.isEmpty_iff.mp some)]

theorem IsName.readTy (proper : IsName name) (ends : EndsName after) :
    readTy total (fuel + 1) (name ++ after) =
      (match accept? "<" after with
        | some inner => readArgs total fuel inner
        | none => .ok ([], skipSpaces after)).bind fun read =>
      (ofName name read.1).bind fun t => Ty.readRange total t read.2 := by
  have head {b : UInt8} (other : isNameByte b = false) : List.head? (name ++ after) ≠ some b :=
    proper.head?_ne other after
  have read := proper.takeName ends
  have nonempty : (Ty.takeName (name ++ after)).1 ≠ [] := by
    rw [read]
    exact proper.ne_nil
  rw [readTy_name (accept?_eq_none "()" bytes_unit (head (by decide)) (head (by decide)))
    (accept?_eq_none "&" bytes_reference (head (by decide)) (head (by decide))) nonempty, read]

/-- A name by itself is read as its type, with the bounds after it. -/
theorem IsName.readTy_alone (proper : IsName name) (ends : EndsName after)
    (space : List.head? after ≠ some 0x20) (plain : List.head? after ≠ some 0x3C) :
    Ty.readTy total (fuel + 1) (name ++ after) =
      (ofName name []).bind fun t => Ty.readRange total t after := by
  rw [proper.readTy ends, accept?_eq_none "<" bytes_open space plain, skipSpaces_of_head? space]
  rfl

/-- A name before a bracket is read with the arguments there. -/
theorem IsName.readTy_applied (proper : IsName name) {inner : Bytes} :
    Ty.readTy total (fuel + 1) (name ++ 0x3C :: inner) =
      (readArgs total fuel inner).bind fun read =>
      (ofName name read.1).bind fun t => Ty.readRange total t read.2 := by
  have ends : EndsName (0x3C :: inner) := by
    rintro b ⟨⟩
    decide
  rw [proper.readTy ends, accept?_cons "<" bytes_open (by decide)]

theorem readTy_space :
    readTy total (fuel + 1) (0x20 :: bs) = readTy total (fuel + 1) bs := by
  have same : skipSpaces (0x20 :: bs) = skipSpaces bs := rfl
  rw [readTy, readTy, accept?_congr same, accept?_congr same, takeName_congr same]

theorem readArgs_space :
    readArgs total (fuel + 2) (0x20 :: bs) = readArgs total (fuel + 2) bs := by
  rw [readArgs_succ, readArgs_succ, readTy_space]

/-- The notation of the type is read as the type, wherever it stops. -/
def ReadsBack (t : Ty) : Prop :=
  ∀ total fuel rest, (render t).length ≤ fuel → Stops rest →
    readTy total (fuel + 1) (render t ++ rest) = .ok (t, rest)

theorem stops_comma : Stops (0x2C :: rest) := by
  rintro b ⟨⟩
  exact .inl rfl

theorem stops_close : Stops (0x3E :: rest) := by
  rintro b ⟨⟩
  exact .inr rfl

theorem renderArgs_cons_cons (t u : Ty) (ts : List Ty) :
    renderArgs (t :: u :: ts) = render t ++ 0x2C :: 0x20 :: renderArgs (u :: ts) := by
  have comma : Bytes.ofString ", " = [0x2C, 0x20] := by cbv
  rw [renderArgs, comma, List.append_assoc]
  · rfl
  · rintro ⟨⟩

/-- A list of arguments is read as the list, up to its bracket. -/
theorem readArgs_renderArgs {args : List Ty} (some : args ≠ []) (back : ∀ t ∈ args, ReadsBack t)
    (enough : (renderArgs args).length < fuel) :
    readArgs total (fuel + 1) (renderArgs args ++ 0x3E :: rest) = .ok (args, rest) := by
  induction args generalizing fuel with
  | nil => exact absurd rfl some
  | cons t ts ih =>
    obtain ⟨here, others⟩ := List.forall_mem_cons.mp back
    obtain ⟨fuel, rfl⟩ := Nat.exists_eq_add_one.mpr (Nat.zero_lt_of_lt enough)
    rw [readArgs_succ]
    cases ts with
    | nil =>
      rw [renderArgs] at enough ⊢
      rw [here total fuel _ (Nat.le_of_lt_succ enough) stops_close, Except.bind,
        accept?_cons ">" bytes_close (by decide)]
    | cons u ts =>
      rw [renderArgs_cons_cons] at enough ⊢
      simp only [List.length_append, List.length_cons] at enough
      obtain ⟨fuel, rfl⟩ := Nat.exists_eq_add_one.mpr (show 0 < fuel by omega)
      rw [List.append_assoc, List.cons_append, List.cons_append,
        here total _ _ (by omega) stops_comma, Except.bind]
      dsimp only
      rw [accept?_eq_none ">" bytes_close (by rintro ⟨⟩) (by rintro ⟨⟩)]
      dsimp only
      rw [accept?_cons "," bytes_comma (by decide)]
      dsimp only
      rw [readArgs_space, ih (List.cons_ne_nil _ _) others (by omega)]
      rfl

/-- What a reference is read as, after its sign. -/
theorem readTy_sign :
    readTy total (fuel + 1) (0x26 :: bs) =
      (readTy total fuel
        (if (takeName bs).1 == Bytes.ofString "mut" then (takeName bs).2 else bs)).bind
      fun read => .ok (reference ((takeName bs).1 == Bytes.ofString "mut") read.1, read.2) :=
  readTy_reference (accept?_eq_none "()" bytes_unit (by rintro ⟨⟩) (by rintro ⟨⟩))
    (accept?_cons "&" bytes_reference (by decide))

theorem endsName_open {inner : Bytes} : EndsName (0x3C :: inner) := by
  rintro b ⟨⟩
  decide

theorem endsName_bounds {lo hi : UInt64} :
    EndsName (Bytes.ofString s!"[{lo}..{hi}]" ++ rest) := by
  rw [bytes_bounds]
  rintro b ⟨⟩
  decide

theorem brackets (name inner rest : Bytes) :
    name ++ Bytes.ofString "<" ++ inner ++ Bytes.ofString ">" ++ rest =
      name ++ 0x3C :: (inner ++ 0x3E :: rest) := by
  simp [bytes_open, bytes_close]

theorem readArgs_brackets {args : List Ty} (some : args ≠ []) (back : ∀ t ∈ args, ReadsBack t)
    (enough : (name ++ Bytes.ofString "<" ++ renderArgs args ++ Bytes.ofString ">").length ≤ fuel) :
    readArgs total fuel (renderArgs args ++ 0x3E :: rest) = .ok (args, rest) := by
  simp only [List.length_append, bytes_open, bytes_close, List.length_singleton] at enough
  obtain ⟨fuel, rfl⟩ := Nat.exists_eq_add_one.mpr (show 0 < fuel by omega)
  exact readArgs_renderArgs some back (by omega)

theorem render_reference (mutable : Bool) (target : Ty) : render (reference mutable target) =
    0x26 :: ((if mutable then Bytes.ofString "mut" ++ [0x20] else []) ++ render target) := by
  cases mutable with
  | true =>
    have sign : Bytes.ofString "&mut " = [0x26, 0x6D, 0x75, 0x74, 0x20] := by cbv
    rw [render, bytes_mut]
    exact congrArg (· ++ render target) sign
  | false =>
    rw [render]
    exact congrArg (· ++ render target) bytes_reference

/-- The notation of a formed type shows the name it begins with, wherever it stops. -/
theorem Formed.takeName_render (formed : Formed t) (stops : Stops rest) :
    (takeName (render t ++ rest)).1 = t.leadingName := by
  cases formed with
  | unit =>
    rw [render, bytes_unit]
    rfl
  | scalar known =>
    rw [render, (isName_of_scalar? known).takeName stops.endsName, leadingName]
  | tensor =>
    rw [render, isName_tensorName.takeName stops.endsName, leadingName]
  | tensorOf formed =>
    rw [render, brackets, isName_tensorName.takeName endsName_open, leadingName]
  | named proper other free =>
    rw [render, proper.takeName stops.endsName, leadingName]
  | applied proper other free some formed =>
    rw [render, brackets, proper.takeName endsName_open, leadingName]
  | reference formed shared =>
    rw [render_reference, List.cons_append]
    rfl
  | range known ordered =>
    rw [render, List.append_assoc, (isName_of_scalar? known).takeName endsName_bounds, leadingName]

/-- What follows the sign of a reference is read as its target.  The word of the mutable ones is
there exactly when it was written. -/
theorem ReadsBack.reference {mutable : Bool} {target : Ty} (back : ReadsBack target)
    (formed : Formed target)
    (shared : mutable = false → target.leadingName ≠ Bytes.ofString "mut") :
    ReadsBack (reference mutable target) := by
  intro total fuel rest enough stops
  rw [render_reference] at enough ⊢
  obtain ⟨fuel, rfl⟩ := Nat.exists_eq_add_one.mpr (Nat.zero_lt_of_lt enough)
  rw [List.cons_append, readTy_sign]
  cases mutable with
  | true =>
    have ends : EndsName (0x20 :: (render target ++ rest)) := by
      rintro b ⟨⟩
      decide
    simp only [if_true, List.length_cons, List.length_append] at enough ⊢
    rw [List.append_assoc, List.append_assoc, List.singleton_append, isName_mut.takeName ends,
      if_pos (beq_self_eq_true _), readTy_space, back total fuel rest (by omega) stops,
      beq_self_eq_true]
    rfl
  | false =>
    have other : ((Ty.takeName (render target ++ rest)).1 == Bytes.ofString "mut") = false := by
      rw [formed.takeName_render stops]
      exact beq_eq_false_iff_ne.mpr (shared rfl)
    rw [if_neg Bool.false_ne_true, List.nil_append] at enough ⊢
    rw [other, if_neg Bool.false_ne_true,
      back total fuel rest (Nat.le_of_succ_le_succ enough) stops]
    rfl

/-- A formed type reads back.  By induction on the type, since the notations of its parts stop. -/
theorem Formed.readsBack (formed : Formed t) : ReadsBack t := by
  induction formed with
  | unit =>
    intro total fuel rest enough stops
    rw [render, readTy_unit (accept?_append "()" rfl (by rw [bytes_unit]; rintro ⟨⟩)),
      stops.readRange]
  | scalar known =>
    intro total fuel rest enough stops
    rw [render, (isName_of_scalar? known).readTy_alone stops.endsName (stops.head?_ne (by decide))
      (stops.head?_ne (by decide)), ofName_of_scalar? known, Except.bind, stops.readRange]
  | tensor =>
    intro total fuel rest enough stops
    rw [render, isName_tensorName.readTy_alone stops.endsName (stops.head?_ne (by decide))
      (stops.head?_ne (by decide)), ofName_tensor, Except.bind, stops.readRange]
  | @tensorOf element formed ih =>
    intro total fuel rest enough stops
    rw [render, ← renderArgs] at enough ⊢
    have back : ∀ t ∈ [element], ReadsBack t := List.forall_mem_singleton.mpr ih
    rw [brackets, isName_tensorName.readTy_applied,
      readArgs_brackets (List.cons_ne_nil _ _) back enough, Except.bind, ofName_tensorOf,
      Except.bind, stops.readRange]
  | named proper other free =>
    intro total fuel rest enough stops
    rw [render, proper.readTy_alone stops.endsName (stops.head?_ne (by decide))
      (stops.head?_ne (by decide)), ofName_named other free, Except.bind, stops.readRange]
  | @applied name args proper other free some formed ih =>
    intro total fuel rest enough stops
    rw [render] at enough ⊢
    rw [brackets, proper.readTy_applied, readArgs_brackets some ih enough, Except.bind,
      ofName_applied other free some, Except.bind, stops.readRange]
  | reference formed shared ih => exact ih.reference formed shared
  | range known ordered =>
    intro total fuel rest enough stops
    rw [render, List.append_assoc, (isName_of_scalar? known).readTy_alone endsName_bounds,
      ofName_of_scalar? known]
    · exact readRange_bounds ordered _ _ _
    · rw [bytes_bounds]
      rintro ⟨⟩
    · rw [bytes_bounds]
      rintro ⟨⟩

/-- Whatever the reader accepts, it accepts the notation of the type it gave, and gives that type
again. -/
theorem ofBytes_render (accepted : ofBytes bs = .ok t) : ofBytes (render t) = .ok t := by
  obtain ⟨⟨t', rest⟩, read, h⟩ := exists_of_bind accepted
  have same : t' = t := by
    dsimp only at h
    split at h
    · exact Except.ok.inj h
    · cases h
  subst same
  have formed : Formed t' := ((formed_of_read _ _).1 _ _ _ read).1
  have back := formed.readsBack (render t').length (2 * (render t').length + 1) [] (by omega)
    (fun _ head => by cases head)
  rw [List.append_nil] at back
  rw [ofBytes, back]
  rfl

/-- Spaces around tokens and bounds are not written back. -/
theorem ofBytes_render_spaced :
    ∃ t, ofBytes (Bytes.ofString " & mut  Map< u32 [ 0 .. 07 ],tensor<f32> >") = .ok t ∧
      render t = Bytes.ofString "&mut Map<u32[0..7], tensor<f32>>" ∧
      ofBytes (render t) = .ok t := by
  have read : ofBytes (Bytes.ofString " & mut  Map< u32 [ 0 .. 07 ],tensor<f32> >") =
      .ok (reference true (applied (Bytes.ofString "Map")
        [range (Bytes.ofString "u32") 0 7, tensorOf (scalar .float (Bytes.ofString "f32"))])) := by
    cbv
  exact ⟨_, read, by cbv, ofBytes_render read⟩

end ResourceSafety.Ty
