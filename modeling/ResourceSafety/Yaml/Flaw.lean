/-!
# Flaws of a YAML text

A text that cannot be read has a flaw: a problem, the line where the thing that
was being read begins, and the line where reading stopped.  Lines are counted
from zero.

The message names one line, the first of the two that is not the first line of
the text, and none when both are.  For a problem of the characters the line is
counted from one.  For a problem of the structure it is counted from zero.
-/

namespace ResourceSafety.Yaml

/-- What can be wrong with a text. -/
inductive Problem
  /-- A character that no text may hold. -/
  | control
  /-- A character that begins nothing. -/
  | noToken
  /-- A key that is not followed by a colon. -/
  | noColon
  /-- A dash where no item may stand. -/
  | strayEntry
  /-- A key where none may stand. -/
  | strayKey
  /-- A colon where no value may stand. -/
  | strayValue
  /-- Too many collections inside each other. -/
  | tooDeep
  /-- A document mark inside quotes. -/
  | quotedMark
  /-- A quote that is not closed. -/
  | unclosed
  /-- A backslash before a letter that stands for nothing. -/
  | unknownEscape
  /-- Too few digits after a backslash. -/
  | fewDigits
  /-- Digits that denote no character. -/
  | noCharacter
  /-- A tab in the indentation of a plain scalar. -/
  | plainTab
  /-- A tab in the indentation of a block scalar. -/
  | blockTab
  /-- A block scalar that asks for no indentation. -/
  | zeroIndentation
  /-- More than a comment at the end of a line. -/
  | lineRest
  /-- An anchor or an alias without a name. -/
  | noName
  /-- A percent sign without a name. -/
  | noDirective
  /-- A directive with another character in its name. -/
  | directiveName
  /-- A directive that means nothing. -/
  | unknownDirective
  /-- A version without a number. -/
  | noVersion
  /-- A version without a point. -/
  | noVersionPoint
  /-- A version with too many digits. -/
  | longVersion
  /-- A handle that does not end with an exclamation mark. -/
  | noHandleEnd
  /-- No blank between a handle and what it stands for. -/
  | noHandleGap
  /-- A tag without a name. -/
  | noTagName
  /-- A tag that is not closed. -/
  | noTagEnd
  /-- Something else right behind a tag. -/
  | tagRest
  /-- A percent sign in a tag without two digits. -/
  | tagDigits
  /-- Digits in a tag that begin no character. -/
  | tagLead
  /-- Digits in a tag that continue no character. -/
  | tagTrail
  /-- Something else in place of a key. -/
  | expectedKey
  /-- Something else in place of a dash. -/
  | expectedEntry
  /-- Something else after an item of a flow sequence. -/
  | expectedItem
  /-- Something else after a pair of a flow mapping. -/
  | expectedPair
  /-- Something else in place of a node. -/
  | expectedNode
  /-- Directives that no document follows. -/
  | expectedDocument
  /-- A second version. -/
  | secondVersion
  /-- A version that is not known. -/
  | otherVersion
  /-- A handle that stands for two things. -/
  | secondHandle
  /-- A handle that stands for nothing. -/
  | unknownHandle
  /-- An alias of nothing. -/
  | unknownAnchor (name : String)
deriving Repr, DecidableEq

namespace Problem

/-- The problem is one of the structure. -/
def isStructural : Problem → Bool
  | expectedKey | expectedEntry | expectedItem | expectedPair | expectedNode | expectedDocument
  | secondVersion | otherVersion | secondHandle | unknownHandle => true
  | _ => false

/-- The wording of a problem. -/
def message : Problem → String
  | control => "control characters are not allowed"
  | noToken => "found character that cannot start any token"
  | noColon => "could not find expected ':'"
  | strayEntry => "block sequence entries are not allowed in this context"
  | strayKey => "mapping keys are not allowed in this context"
  | strayValue => "mapping values are not allowed in this context"
  | tooDeep => "exceeded max depth of 10000"
  | quotedMark => "found unexpected document indicator"
  | unclosed => "found unexpected end of stream"
  | unknownEscape => "found unknown escape character"
  | fewDigits => "did not find expected hexdecimal number"
  | noCharacter => "found invalid Unicode character escape code"
  | plainTab => "found a tab character that violates indentation"
  | blockTab => "found a tab character where an indentation space is expected"
  | zeroIndentation => "found an indentation indicator equal to 0"
  | lineRest => "did not find expected comment or line break"
  | noName => "did not find expected alphabetic or numeric character"
  | noDirective => "could not find expected directive name"
  | directiveName => "found unexpected non-alphabetical character"
  | unknownDirective => "found unknown directive name"
  | noVersion => "did not find expected version number"
  | noVersionPoint => "did not find expected digit or '.' character"
  | longVersion => "found extremely long version number"
  | noHandleEnd => "did not find expected '!'"
  | noHandleGap => "did not find expected whitespace"
  | noTagName => "did not find expected tag URI"
  | noTagEnd => "did not find the expected '>'"
  | tagRest => "did not find expected whitespace or line break"
  | tagDigits => "did not find URI escaped octet"
  | tagLead => "found an incorrect leading UTF-8 octet"
  | tagTrail => "found an incorrect trailing UTF-8 octet"
  | expectedKey => "did not find expected key"
  | expectedEntry => "did not find expected '-' indicator"
  | expectedItem => "did not find expected ',' or ']'"
  | expectedPair => "did not find expected ',' or '\x7d'"
  | expectedNode => "did not find expected node content"
  | expectedDocument => "did not find expected <document start>"
  | secondVersion => "found duplicate %YAML directive"
  | otherVersion => "found incompatible YAML document"
  | secondHandle => "found duplicate %TAG directive"
  | unknownHandle => "found undefined tag handle"
  | unknownAnchor name => "unknown anchor '" ++ name ++ "' referenced"

end Problem

/-- Why a text cannot be read. -/
structure Flaw where
  /-- What is wrong. -/
  problem : Problem
  /-- The line where what was being read begins. -/
  start : Nat
  /-- The line where reading stopped. -/
  line : Nat
deriving Repr, DecidableEq

namespace Flaw

/-- The line that the message names. -/
def shownLine (f : Flaw) : Option Nat :=
  ([f.start, f.line].find? (· != 0)).map fun n => if f.problem.isStructural then n else n + 1

/-- The wording of a flaw. -/
def message (f : Flaw) : String :=
  match f.shownLine with
  | some n => s!"yaml: line {n}: " ++ f.problem.message
  | none => "yaml: " ++ f.problem.message

end Flaw

end ResourceSafety.Yaml
