import CryptoAudit.Command.Arguments

/-!
# Requests

What a user asks for on the command line.
-/

namespace CryptoAudit.Command

/-- A request for an audit. -/
structure ScanRequest where
  path : String
  rules : Option String
  settings : Option String
  format : String
  failOn : Option String
  output : Option String
deriving DecidableEq, Inhabited

/-- A request. -/
inductive Request where
  | scan (r : ScanRequest)
  | listRules (rules : Option String) (format : String)
  | init (force : Bool)
  | version
  | help
deriving DecidableEq, Inhabited

/-- An option whose value is a path. -/
def pathOption (name : String) (letter : Char) : OptionSpec := ⟨name, some letter, true, false⟩

/-- The option for the format of the output. -/
def formatOption : OptionSpec := ⟨"format", some 'f', true, true⟩

/-- The arguments of an audit. -/
def scanUsage : Usage where
  options := [
    pathOption "rules" 'r', pathOption "config" 'c', formatOption,
    ⟨"fail-on", none, true, true⟩, pathOption "output" 'o']
  operands := 1

/-- The arguments of a list of rules. -/
def listRulesUsage : Usage := ⟨[pathOption "rules" 'r', formatOption], 0⟩

/-- The arguments of making a settings file. -/
def initUsage : Usage := ⟨[⟨"force", none, false, true⟩], 0⟩

/-- The names of the commands. -/
def commandNames : List String := ["scan", "list-rules", "init", "help"]

/-- Reads a request for an audit. -/
def readScan (args : List String) : Except Stop Request := do
  let a ← scanUsage.read args
  return .scan {
    path := a.operands.headD "."
    rules := a.value? "rules"
    settings := a.value? "config"
    format := (a.value? "format").getD "console"
    failOn := a.value? "fail-on"
    output := a.value? "output" }

/-- Reads a request for a list of rules. -/
def readListRules (args : List String) : Except Stop Request := do
  let a ← listRulesUsage.read args
  return .listRules (a.value? "rules") ((a.value? "format").getD "table")

/-- Reads a request for a settings file. -/
def readInit (args : List String) : Except Stop Request := do
  let a ← initUsage.read args
  return .init (a.has "force")

/-- Reads a request for help. -/
def readHelp : List String → Except Stop Request
  | [] => .ok .help
  | [name] => if name ∈ commandNames then .ok .help else .error .misuse
  | _ => .error .misuse

/-- Reads the options that stand in place of a command. -/
def readBare (arg : String) : Except Stop Request :=
  match arg.toList with
  | '-' :: 'V' :: _ => .ok .version
  | '-' :: 'h' :: _ => .ok .help
  | _ =>
    if arg = "--version" then .ok .version
    else if arg = "--help" then .ok .help
    else .error .misuse

/-- Reads the arguments of the program. -/
def Request.read : List String → Except Stop Request
  | [] => .error .misuse
  | "scan" :: args => readScan args
  | "list-rules" :: args => readListRules args
  | "init" :: args => readInit args
  | "help" :: args => readHelp args
  | arg :: _ => readBare arg

end CryptoAudit.Command
