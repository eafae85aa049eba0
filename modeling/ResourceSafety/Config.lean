import ResourceSafety.Checker.State
import ResourceSafety.Diagnostic.Engine
import ResourceSafety.Yaml.Decode
import ResourceSafety.Yaml.Printer

/-!
# The configuration file

A configuration is a YAML record.  Fields that are left out keep their usual
values, and a text without a document gives the usual configuration.

After reading, the names of the solver profile and of the log level are looked
up and the limit on errors is checked, in this order.
-/

namespace ResourceSafety

open Yaml (Node Document Reading)

/-! ## Log levels -/

/-- How much is logged. -/
inductive LogLevel
  | debug
  | info
  | warn
  | error
deriving Repr, DecidableEq

namespace LogLevel

/-- The name of a level. -/
def name : LogLevel → String
  | debug => "DEBUG"
  | info => "INFO"
  | warn => "WARN"
  | error => "ERROR"

/-- The level with a name, blanks and case ignored.  No name means `info`. -/
def ofName? (text : String) : Option LogLevel :=
  match Text.lower (Text.trim text) with
  | "" => some info
  | "info" => some info
  | "debug" => some debug
  | "warn" => some warn
  | "warning" => some warn
  | "error" => some error
  | _ => none

end LogLevel

/-! ## Configurations -/

/-- A configuration. -/
structure Config where
  /-- Races are reported at the access that completes them. -/
  strictMode : Bool := false
  /-- The time limit of the solver in milliseconds; zero stands for the usual one. -/
  timeout : UInt32 := 0
  /-- The name of the solver profile. -/
  profile : String := "fast"
  /-- Where the external solver is. -/
  solverPath : String := ""
  /-- The name of the log level. -/
  logLevel : String := "warn"
  /-- Warnings count as errors. -/
  warningsAsErrors : Bool := false
  /-- Undecided obligations are errors. -/
  unknownAsError : Bool := false
  /-- The limit on errors; zero stands for none. -/
  maxErrors : Int64 := 0
deriving Repr, DecidableEq

/-- What is wrong with a configuration. -/
inductive ConfigError
  /-- The text is no YAML, or its values do not fit the fields. -/
  | unreadable (cause : Yaml.LoadError)
  | unknownProfile (name : String)
  | unknownLevel (name : String)
  | negativeLimit
deriving Repr, DecidableEq

/-- The wording of an error. -/
def ConfigError.message : ConfigError → String
  | unreadable cause => "failed to parse config file: " ++ cause.message
  | unknownProfile name => "unknown solver profile " ++ Text.quote name ++ " (want fast or thorough)"
  | unknownLevel name =>
    "unknown log level " ++ Text.quote name ++ " (want debug, info, warn or error)"
  | negativeLimit => "max_errors must not be negative"

namespace Config

/-- The solver profile with a name. -/
def readProfile (name : String) : Except ConfigError Profile :=
  match Profile.ofName? name with
  | some p => .ok p
  | none => .error (.unknownProfile name)

/-- The log level with a name. -/
def readLevel (name : String) : Except ConfigError LogLevel :=
  match LogLevel.ofName? name with
  | some l => .ok l
  | none => .error (.unknownLevel name)

/-- Refuses a configuration whose values make no sense. -/
def validate (c : Config) : Except ConfigError Unit := do
  discard <| readProfile c.profile
  discard <| readLevel c.logLevel
  if c.maxErrors < 0 then throw .negativeLimit

/-! ## Reading and writing -/

/-- A configuration after one of its fields was read, if there is one of that
name. -/
def field (c : Config) (name : String) (v : Node) : Option (Reading Config) :=
  match name with
  | "strict_mode" => some (({ c with strictMode := · }) <$> v.fillBool c.strictMode)
  | "timeout_ms" =>
    some ((fun n => { c with timeout := UInt32.ofNat n }) <$> v.fillUnsigned 32 c.timeout.toNat)
  | "profile" => some (({ c with profile := · }) <$> v.fillText c.profile)
  | "z3_path" => some (({ c with solverPath := · }) <$> v.fillText c.solverPath)
  | "log_level" => some (({ c with logLevel := · }) <$> v.fillText c.logLevel)
  | "warnings_as_errors" =>
    some (({ c with warningsAsErrors := · }) <$> v.fillBool c.warningsAsErrors)
  | "unknown_as_error" => some (({ c with unknownAsError := · }) <$> v.fillBool c.unknownAsError)
  | "max_errors" =>
    some ((fun n => { c with maxErrors := Int64.ofInt n }) <$> v.fillSigned c.maxErrors.toInt)
  | _ => none

/-- A configuration from a node. -/
def ofNode (n : Node) : Reading Config :=
  (·.getD {}) <$> n.fillRecord "cli.Config" {} fun c name v _ => c.field name v

/-- The configuration in a text. -/
def ofString (text : String) : Except ConfigError Config := do
  let c ← match (Document.ofString text).load ofNode with
    | .ok c => .ok (c.getD {})
    | .error e => .error (.unreadable e)
  c.validate
  return c

/-- The line of a truth value. -/
def boolLine (b : Bool) : String := if b then "true\n" else "false\n"

/-- The text of a configuration file. -/
def save (c : Config) : String :=
  String.join <| ([("strict_mode", boolLine c.strictMode), ("timeout_ms", s!"{c.timeout}\n"),
    ("profile", Yaml.valueLine c.profile), ("z3_path", Yaml.valueLine c.solverPath),
    ("log_level", Yaml.valueLine c.logLevel), ("warnings_as_errors", boolLine c.warningsAsErrors),
    ("unknown_as_error", boolLine c.unknownAsError), ("max_errors", s!"{c.maxErrors}\n")]).map
    fun (name, line) => name ++ ": " ++ line

/-! ## What it configures -/

/-- How units are checked.  An unknown profile counts as the fast one. -/
def checker (c : Config) : CheckerConfig :=
  { strict := c.strictMode, unknownAsError := c.unknownAsError
    solver := { profile := (Profile.ofName? c.profile).getD .fast, timeout := c.timeout
                path := c.solverPath } }

/-- How diagnostics are filtered and written. -/
def engine (c : Config) : EngineConfig :=
  { maxErrors := c.maxErrors, warningsAsErrors := c.warningsAsErrors
    suggestions := true, related := true }

end Config

end ResourceSafety
