import ResourceSafety.Command.Duration
import ResourceSafety.Text.Literal

/-!
# Flags

A flag is given by its name after two dashes, or by its letter after one.  Its
value follows an equals sign or is the next word.  A switch needs no value, and
several letters may follow one dash.  Two dashes alone end the flags.  All other
words are *arguments*, before, between and after the flags.

Reading a flag changes the options of the command, of type `ω`.  When a flag is
given twice the later one counts.
-/

namespace ResourceSafety

/-! ## Values -/

/-- What is wrong with the value of a flag. -/
inductive ValueError
  | badBool (text : String)
  | badUnsigned (text : String) (cause : Text.LiteralError)
  | badSigned (text : String) (cause : Text.LiteralError)
  | badDuration (cause : DurationError)
deriving Repr, DecidableEq

/-- The wording of an error. -/
def ValueError.message : ValueError → String
  | badBool text => "strconv.ParseBool: parsing " ++ Text.quote text ++ ": invalid syntax"
  | badUnsigned text cause =>
    "strconv.ParseUint: parsing " ++ Text.quote text ++ ": " ++ cause.message
  | badSigned text cause =>
    "strconv.ParseInt: parsing " ++ Text.quote text ++ ": " ++ cause.message
  | badDuration cause => cause.message

/-- The truth value of a word. -/
def readBool (text : String) : Except ValueError Bool :=
  if ["1", "t", "T", "TRUE", "true", "True"].contains text then .ok true
  else if ["0", "f", "F", "FALSE", "false", "False"].contains text then .ok false
  else .error (.badBool text)

/-- A flag of a command with options `ω`. -/
structure Flag (ω : Type) where
  /-- The name. -/
  name : String
  /-- The letter, if it has one. -/
  letter : Option Char := none
  /-- It needs no value. -/
  isSwitch : Bool := false
  /-- The options after a value was given. -/
  read : String → ω → Except ValueError ω

namespace Flag

variable {ω : Type}

/-- A switch. -/
def switch (name : String) (letter : Option Char) (set : Bool → ω → ω) : Flag ω :=
  { name, letter, isSwitch := true, read := fun s o => return set (← readBool s) o }

/-- A flag with a text. -/
def text (name : String) (letter : Option Char) (set : String → ω → ω) : Flag ω :=
  { name, letter, read := fun s o => return set s o }

/-- A flag with a 32-bit number. -/
def unsigned (name : String) (set : UInt32 → ω → ω) : Flag ω :=
  { name, read := fun s o => do
      let n ← (Text.unsignedLiteral 32 s.toList).mapError (.badUnsigned s)
      return set (UInt32.ofNat n) o }

/-- A flag with a signed number. -/
def signed (name : String) (letter : Option Char) (set : Int64 → ω → ω) : Flag ω :=
  { name, letter, read := fun s o => do
      let n ← (Text.signedLiteral s.toList).mapError (.badSigned s)
      return set (Int64.ofInt n) o }

/-- A flag with a duration. -/
def duration (name : String) (set : Int → ω → ω) : Flag ω :=
  { name, read := fun s o => return set (← (Duration.ofString s).mapError .badDuration) o }

/-- A flag as errors name it. -/
def label (f : Flag ω) : String :=
  (match f.letter with
    | some c => "-" ++ String.singleton c ++ ", "
    | none => "") ++ "--" ++ f.name

end Flag

/-! ## Reading -/

/-- What is wrong with the flags of a command. -/
inductive FlagError
  | badSyntax (word : String)
  | unknown (name : String)
  | unknownLetter (letter : Char) (letters : String)
  | noValue (word : String)
  | noLetterValue (letter : Char) (letters : String)
  | badValue (value label : String) (cause : ValueError)
deriving Repr, DecidableEq

/-- A letter between single quotes.  Of a letter outside ASCII only its first byte
counts. -/
def quotedLetter (c : Char) : String :=
  let c := ((List.head? (Text.Bytes.ofString (String.singleton c))).map fun b => Char.ofNat b.toNat).getD c
  if c == '\'' then "'\\''" else if c == '"' then "'\"'"
  else "'" ++ String.ofList (Text.quoteChar c) ++ "'"

/-- The wording of an error. -/
def FlagError.message : FlagError → String
  | badSyntax word => "bad flag syntax: " ++ word
  | unknown name => "unknown flag: --" ++ name
  | unknownLetter c letters => "unknown shorthand flag: " ++ quotedLetter c ++ " in -" ++ letters
  | noValue word => "flag needs an argument: " ++ word
  | noLetterValue c letters => "flag needs an argument: " ++ quotedLetter c ++ " in -" ++ letters
  | badValue value label cause =>
    "invalid argument " ++ Text.quote value ++ " for " ++ Text.quote label ++ " flag: " ++
      cause.message

variable {ω : Type}

/-- The options after a flag was given a value. -/
def Flag.give (f : Flag ω) (value : String) (o : ω) : Except FlagError ω :=
  (f.read value o).mapError (.badValue value f.label)

/-- A flag by its name.  `word` is the whole word, and `rest` what follows it. -/
def readLong (flags : List (Flag ω)) (word : String) (body : List Char) (rest : List String) (o : ω) :
    Except FlagError (ω × List String) := do
  match body with
  | '-' :: _ | '=' :: _ => throw (.badSyntax word)
  | _ => pure ()
  let name := String.ofList (body.takeWhile (· != '='))
  match flags.find? (·.name == name) with
  | none => throw (.unknown name)
  | some f =>
    match body.dropWhile (· != '='), rest with
    | _ :: value, _ => return (← f.give (String.ofList value) o, rest)
    | [], _ =>
      if f.isSwitch then return (← f.give "true" o, rest)
      else match rest with
        | value :: rest => return (← f.give value o, rest)
        | [] => throw (.noValue word)

/-- Flags by their letters. -/
def readLetters (flags : List (Flag ω)) (rest : List String) :
    List Char → ω → Except FlagError (ω × List String)
  | [], o => .ok (o, rest)
  | c :: more, o =>
    match flags.find? (·.letter == some c) with
    | none => .error (.unknownLetter c (String.ofList (c :: more)))
    | some f =>
      match more with
      | '=' :: v :: value => return (← f.give (String.ofList (v :: value)) o, rest)
      | _ =>
        if f.isSwitch then do
          let o ← f.give "true" o
          readLetters flags rest more o
        else if !more.isEmpty then return (← f.give (String.ofList more) o, rest)
        else match rest with
          | value :: rest => return (← f.give value o, rest)
          | [] => .error (.noLetterValue c (String.ofList (c :: more)))

/-- The options and the arguments of words.  The fuel bounds the number of
words. -/
def readWordsWith (flags : List (Flag ω)) :
    Nat → List String → ω → Except FlagError (ω × List String)
  | 0, words, o => .ok (o, words)
  | _, [], o => .ok (o, [])
  | fuel + 1, word :: rest, o =>
    match word.toList with
    | ['-', '-'] => .ok (o, rest)
    | '-' :: '-' :: body => do
      let (o, rest) ← readLong flags word body rest o
      readWordsWith flags fuel rest o
    | '-' :: c :: letters => do
      let (o, rest) ← readLetters flags rest (c :: letters) o
      readWordsWith flags fuel rest o
    | _ => do
      let (o, arguments) ← readWordsWith flags fuel rest o
      return (o, word :: arguments)

/-- The options and the arguments of words. -/
def readWords (flags : List (Flag ω)) (words : List String) (o : ω) :
    Except FlagError (ω × List String) := readWordsWith flags (words.length + 1) words o

/-! ## Finding the command -/

/-- The word is a flag whose value is the next word. -/
def takesNext (flags : List (Flag ω)) (word : String) : Bool :=
  !word.toList.contains '=' &&
    match word.toList with
    | '-' :: '-' :: name => !flags.any fun f => f.name == String.ofList name && f.isSwitch
    | ['-', c] => c.toNat < 0x80 && !flags.any fun f => f.letter == some c && f.isSwitch
    | _ => false

/-- The words that are no flags and no values, as far as the flags are known.  A
flag that takes the last word ends them. -/
def plainWords (flags : List (Flag ω)) : Nat → List String → List String
  | 0, _ => []
  | _, [] => []
  | fuel + 1, word :: rest =>
    if word == "--" then []
    else if takesNext flags word then
      if rest.length ≤ 1 then [] else plainWords flags fuel (rest.drop 1)
    else if word != "" && !word.startsWith "-" then word :: plainWords flags fuel rest
    else plainWords flags fuel rest

/-- The words without the first plain word equal to `x`. -/
def dropPlainWord (flags : List (Flag ω)) (x : String) : Nat → List String → List String
  | 0, words => words
  | _, [] => []
  | fuel + 1, word :: rest =>
    if word == "--" then word :: rest
    else if takesNext flags word then
      word :: rest.take 1 ++ dropPlainWord flags x fuel (rest.drop 1)
    else if word == x then rest
    else word :: dropPlainWord flags x fuel rest

end ResourceSafety
