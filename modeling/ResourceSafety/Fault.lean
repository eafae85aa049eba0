import ResourceSafety.Source.Compact
import ResourceSafety.Types.Capability
import ResourceSafety.Types.Reader

/-!
# Faults

A fault is a request the checker refuses: a name that was never declared, a
scope closed twice, an obligation it cannot state, a solver that is not there.
Findings about the checked program are violations and never faults.

Ten faults carry a *code*, a category and a fixed remark, so that callers can
tell them apart without reading their text.  `within` names the place of a
fault, and `both` keeps two faults in the order they arose.
-/

namespace ResourceSafety

open Text (Bytes quote)

/-- What is wrong with a symbolic expression. -/
inductive SExprError
  | endOfInput
  | unbalanced
  | unexpectedClose
  /-- More tokens after a whole expression. -/
  | trailing (rest : String)
deriving Repr, DecidableEq

/-- The wording of an error. -/
def SExprError.message : SExprError → String
  | .endOfInput => "unexpected end of input"
  | .unbalanced => "unbalanced parentheses"
  | .unexpectedClose => "unexpected ')'"
  | .trailing rest => "trailing input " ++ quote rest

/-- What is wrong with a reply of the external solver. -/
inductive ReplyError
  /-- The solver reports an error. -/
  | reported (text : String)
  /-- An answer that is no verdict. -/
  | notAVerdict (text : String)
  /-- A model that is no expression. -/
  | model (cause : SExprError)
  /-- A core that is no expression. -/
  | core (cause : SExprError)
  /-- A core that is no list. -/
  | coreShape (text : String)
  /-- No reply in time. -/
  | hung
deriving Repr, DecidableEq

/-- The wording of an error. -/
def ReplyError.message : ReplyError → String
  | .reported text => "z3: " ++ text
  | .notAVerdict text => "z3: unexpected check-sat response " ++ quote text
  | .model cause => "model: " ++ cause.message
  | .core cause => "unsat core: " ++ cause.message
  | .coreShape text => "unsat core: expected a list, got " ++ quote text
  | .hung => "z3 did not answer within its timeout"

/-- Why a request was refused. -/
inductive Fault
  /-- A binding that is not visible. -/
  | unknownBinding (name : String)
  /-- A binding that its scope already holds. -/
  | duplicateBinding (name : String)
  /-- A release without an outstanding borrow. -/
  | noActiveBorrow (name : String)
  /-- A part closed more often than opened. -/
  | scopeUnderflow (component : String)
  /-- An obligation about something that is neither literal nor handle. -/
  | unsupportedSubject (subject : String)
  /-- A symbol the solver session does not know. -/
  | unknownSymbol (symbol : String)
  /-- No solver, with the cause where there is one. -/
  | solverUnavailable (details : String) (cause : Option String)
  /-- A type declared twice. -/
  | duplicateType (name : String)
  /-- A type declaration that makes no sense. -/
  | invalidType (name details : String)
  /-- A request to a unit that is finished. -/
  | unitFinished (unit : String)
  /-- A fault of the surroundings under a code of its own. -/
  | system (code message : String)
  /-- The caller gave up. -/
  | cancelled
  /-- A text that is no span. -/
  | badSpan (text : String) (cause : CompactSpanError)
  /-- A text that is no type. -/
  | badType (text : String) (cause : TypeError)
  /-- A text that is no capability. -/
  | badCapability (cause : CapabilityError)
  /-- A function declared again with another number of arguments. -/
  | redeclared (function : String) (arity previous : Nat)
  /-- A function applied to the wrong number of arguments. -/
  | wrongArity (function : String) (arity given : Nat)
  /-- A comparison by a number that names none. -/
  | unknownComparison (number : Nat)
  /-- A reply of the external solver that makes no sense. -/
  | badReply (cause : ReplyError)
  /-- A handle the trace never made. -/
  | unknownHandle (name : String)
  /-- A fault with the place it arose at. -/
  | within (place : String) (cause : Fault)
  /-- Two faults in order. -/
  | both (first second : Fault)
deriving Repr, DecidableEq

/-- The four kinds of coded faults. -/
inductive FaultCategory
  | contract
  | validation
  | solver
  | system
deriving Repr, DecidableEq

/-- The name of a category. -/
def FaultCategory.name : FaultCategory → String
  | contract => "CONTRACT"
  | validation => "VALIDATION"
  | solver => "SOLVER"
  | system => "SYSTEM"

/-- What a coded fault says besides its text. -/
structure FaultCard where
  /-- The category. -/
  category : FaultCategory
  /-- The code. -/
  code : String
  /-- The sentence. -/
  message : String
  /-- The fixed remark of all faults with this code. -/
  remark : Option String
  /-- What the fault is about, as named texts. -/
  details : Option (List (String × String))
deriving Repr, DecidableEq

namespace Fault

/-- The card of a fault that has a code of its own. -/
def card? : Fault → Option FaultCard
  | unknownBinding name => some
      { category := .contract, code := "UNKNOWN_BINDING", remark := "unknown binding"
        message := "binding " ++ quote name ++ " is not defined"
        details := some [("binding", name)] }
  | duplicateBinding name => some
      { category := .contract, code := "DUPLICATE_BINDING"
        remark := "binding already defined in this scope"
        message := "binding " ++ quote name ++ " is already defined in the active scope"
        details := some [("binding", name)] }
  | noActiveBorrow name => some
      { category := .contract, code := "NO_ACTIVE_BORROW", remark := "no outstanding borrow"
        message := "binding " ++ quote name ++ " has no outstanding borrow to release"
        details := some [("binding", name)] }
  | scopeUnderflow component => some
      { category := .contract, code := "SCOPE_UNDERFLOW", remark := "scope stack underflow"
        message := component ++ ": exit without matching enter"
        details := some [("component", component)] }
  | unsupportedSubject subject => some
      { category := .validation, code := "UNSUPPORTED_SUBJECT"
        remark := "unsupported proof subject"
        message := "proof subject " ++ quote subject ++ " is neither a literal nor a resolved handle"
        details := some [("subject", subject)] }
  | unknownSymbol symbol => some
      { category := .solver, code := "UNKNOWN_SYMBOL", remark := "unknown solver symbol"
        message := "symbol " ++ quote symbol ++ " was not declared in this session"
        details := some [("symbol", symbol)] }
  | solverUnavailable what cause => some
      { category := .system, code := "SOLVER_UNAVAILABLE", remark := "solver unavailable"
        message := "solver unavailable: " ++ what
        details := some (("details", what) :: (cause.map ("cause", ·)).toList) }
  | duplicateType name => some
      { category := .contract, code := "DUPLICATE_DECL", remark := "type already declared"
        message := "type " ++ quote name ++ " is already registered"
        details := some [("type", name)] }
  | invalidType name what => some
      { category := .validation, code := "INVALID_DECL", remark := "invalid type declaration"
        message := "type " ++ quote name ++ ": " ++ what
        details := some [("type", name), ("details", what)] }
  | unitFinished unit => some
      { category := .contract, code := "UNIT_FINISHED"
        remark := "compilation unit already finished"
        message := "unit " ++ quote unit ++ " was already finished"
        details := some [("unit", unit)] }
  | system code message => some
      { category := .system, code, message, remark := none, details := none }
  | _ => none

/-- The text of a coded fault. -/
def cardText (c : FaultCard) : String := "[" ++ c.category.name ++ ":" ++ c.code ++ "] " ++ c.message

/-- The text of a fault. -/
def message : Fault → String
  | cancelled => "context canceled"
  | badSpan text cause => Span.compactErrorMessage text cause
  | badType text cause => Ty.errorMessage text cause
  | badCapability cause => cause.message
  | redeclared f arity previous => s!"smt: {f} redeclared with arity {arity}, was {previous}"
  | wrongArity f arity given => s!"smt: {f} takes {arity} arguments, got {given}"
  | unknownComparison n => s!"smt: unknown comparison {n}"
  | badReply cause => cause.message
  | unknownHandle name => "unknown handle " ++ quote name
  | within place cause => place ++ ": " ++ cause.message
  | both first second => first.message ++ "\n" ++ second.message
  | fault => (fault.card?.map cardText).getD ""

/-- The first code found inside a fault. -/
def code? : Fault → Option String
  | within _ cause => cause.code?
  | both first second => first.code? <|> second.code?
  | fault => fault.card?.map (·.code)

/-- The caller gave up somewhere inside a fault. -/
def isCancellation : Fault → Bool
  | cancelled => true
  | within _ cause => cause.isCancellation
  | both first second => first.isCancellation || second.isCancellation
  | _ => false

/-- Faults in the order they arose, as one fault. -/
def join? : List Fault → Option Fault
  | [] => none
  | [f] => some f
  | f :: fs => (join? fs).map (both f ·)

end Fault

end ResourceSafety
