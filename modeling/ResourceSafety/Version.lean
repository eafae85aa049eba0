import ResourceSafety.Text.Decimal
import ResourceSafety.Text.Quoted

/-!
# Version numbers

A version is `major.minor.patch`, followed perhaps by a prerelease after a
hyphen and by build metadata after a plus.  A leading `v` is allowed, and a
missing minor or patch is zero.  Zeros may lead the three numbers but not a
numeric part of the prerelease.

Versions are ordered by their three numbers; a prerelease comes before its
release.  The two requirements used here look at releases only.

Ledgers and solver programs are versioned.  What reads them takes the reading of
versions and the test of a requirement as a parameter (`Versions`).
-/

namespace ResourceSafety

/-- A version. -/
structure Version where
  /-- The first number. -/
  major : UInt64
  /-- The second number. -/
  minor : UInt64
  /-- The third number. -/
  patch : UInt64
  /-- The prerelease, empty for a release. -/
  pre : String := ""
  /-- The build metadata. -/
  build : String := ""
deriving Repr, DecidableEq

/-- What is wrong with a version text. -/
inductive VersionError
  /-- It is not of the form of a version. -/
  | malformed
  /-- A number that is too large. -/
  | outOfRange (digits : String)
  /-- A numeric part of the prerelease with a leading zero. -/
  | leadingZero
deriving Repr, DecidableEq

/-- The wording of an error. -/
def VersionError.message : VersionError → String
  | .malformed => "Invalid Semantic Version"
  | .outOfRange digits =>
    "Error parsing version segment: strconv.ParseUint: parsing " ++ Text.quote digits ++
      ": value out of range"
  | .leadingZero => "Version segment starts with 0"

namespace Version

/-- An ASCII digit. -/
def isDigit (c : Char) : Bool := '0' ≤ c && c ≤ '9'

/-- A character that may stand in a prerelease or in metadata. -/
def isWordChar (c : Char) : Bool :=
  isDigit c || ('a' ≤ c && c ≤ 'z') || ('A' ≤ c && c ≤ 'Z') || c == '-'

/-- The digits after a dot, with what follows; nothing when the dot or the
digits are missing. -/
def dotDigits? : List Char → Option (List Char × List Char)
  | '.' :: cs =>
    let digits := cs.takeWhile isDigit
    if digits.isEmpty then none else some (digits, cs.dropWhile isDigit)
  | _ => none

/-- The texts between the dots. -/
def dotted (cs : List Char) : List (List Char) := (cs.splitOn '.')

/-- Non-empty words divided by dots. -/
def areWords (cs : List Char) : Bool := (dotted cs).all fun w => !w.isEmpty && w.all isWordChar

/-- A number of a version. -/
def segment (digits : List Char) : Except VersionError UInt64 :=
  match Text.unsigned? digits with
  | some n => .ok n
  | none => .error (.outOfRange (String.ofList digits))

/-- A numeric word with a leading zero. -/
def hasLeadingZero (w : List Char) : Bool := w.all isDigit && 1 < w.length && w.head? == some '0'

/-- The prerelease and the metadata after the numbers. -/
def splitTail? (cs : List Char) : Option (List Char × List Char) :=
  match cs with
  | [] => some ([], [])
  | '-' :: rest =>
    let pre := rest.takeWhile (· != '+')
    match rest.dropWhile (· != '+') with
    | [] => if areWords pre then some (pre, []) else none
    | _ :: build => if areWords pre && areWords build then some (pre, build) else none
  | '+' :: build => if areWords build then some ([], build) else none
  | _ => none

/-- The version that a text denotes. -/
def ofString (s : String) : Except VersionError Version := do
  let cs := match s.toList with
    | 'v' :: cs => cs
    | cs => cs
  let major := cs.takeWhile isDigit
  if major.isEmpty then throw .malformed
  let rest := cs.dropWhile isDigit
  let (minor, rest) := (dotDigits? rest).getD (['0'], rest)
  let (patch, rest) := (dotDigits? rest).getD (['0'], rest)
  match splitTail? rest with
  | none => throw .malformed
  | some (pre, build) =>
    let major ← segment major
    let minor ← segment minor
    let patch ← segment patch
    if !pre.isEmpty && (dotted pre).any hasLeadingZero then throw .leadingZero
    return { major, minor, patch, pre := String.ofList pre, build := String.ofList build }

/-- The text of a version. -/
def render (v : Version) : String :=
  s!"{v.major}.{v.minor}.{v.patch}" ++ (if v.pre != "" then "-" ++ v.pre else "") ++
    (if v.build != "" then "+" ++ v.build else "")

/-- The release is at least `major.minor`. -/
def isAtLeast (v : Version) (major minor : UInt64) : Bool :=
  v.pre == "" && (major < v.major || (major == v.major && minor ≤ v.minor))

/-- The release has the given first number, which is positive. -/
def hasMajor (v : Version) (major : UInt64) : Bool := v.pre == "" && v.major == major

/-- The version meets a requirement, `^` before a first number or `>=` before a version. -/
def meets (v : Version) (requirement : String) : Bool :=
  match requirement.toList with
  | '^' :: major => (Text.unsigned? major).any v.hasMajor
  | '>' :: '=' :: ' ' :: least =>
    match ofString (String.ofList least) with
    | .ok least => v.isAtLeast least.major least.minor
    | .error _ => false
  | _ => false

end Version

/-- What is asked of version numbers. -/
structure Versions where
  /-- The version that a text denotes. -/
  read : String → Except VersionError Version
  /-- The version meets the requirement. -/
  meets : Version → String → Bool

/-- Version numbers as this module knows them. -/
def Versions.semantic : Versions := { read := Version.ofString, meets := Version.meets }

end ResourceSafety
