import CryptoAudit.Audit
import CryptoAudit.Command.Request
import CryptoAudit.Report.Render

/-!
# Commands

What the program does for its arguments: the code with which it ends, what it writes to the
output and as messages, and the files afterwards. An audit ends with 0 if the policy is met and
with 1 if it is not; whatever fails ends with 2.
-/

namespace CryptoAudit.Command

/-- The effects of a run. -/
structure Outcome where
  code : Nat
  output : String
  /-- The lines of messages. -/
  messages : List String
  files : Files

namespace Outcome

/-- Ends with a failure. -/
def failed (fs : Files) (messages : List String) (e : Failure) : Outcome :=
  ⟨2, "", messages ++ ["Error: " ++ e.message], fs⟩

end Outcome

/-- The format that a user asks for, with a message if there is no such format. -/
def chooseFormat (name : String) : ReportFormat × List String :=
  match ReportFormat.ofUser? name with
  | some f => (f, [])
  | none => (.console, ["Warning: unknown format '" ++ name ++ "', using console"])

/-- The threshold that a user asks for, with a message if there is no such severity. -/
def chooseThreshold : Option String → Option Severity × List String
  | none => (none, [])
  | some name =>
    match Severity.ofUser? name with
    | some s => (some s, [])
    | none => (none, ["Warning: unknown severity '" ++ name ++ "', using config default"])

/-- The code that a verdict ends with. -/
def verdictCode (v : PolicyVerdict) : Nat := if v.pass then 0 else 1

/-- Audits a program and writes the report. -/
def scan (fs : Files) (stamp : Stamp) (r : ScanRequest) : Outcome :=
  let (format, formatMessages) := chooseFormat r.format
  let (failOn, thresholdMessages) := chooseThreshold r.failOn
  let messages := formatMessages ++ thresholdMessages
  match Audit.run fs r.path ⟨r.settings, r.rules, failOn⟩ with
  | .error e => .failed fs messages e
  | .ok report =>
    let text := report.render stamp format
    match r.output with
    | none => ⟨verdictCode report.verdict, text, messages, fs⟩
    | some path =>
      match fs.write path text with
      | .ok written => ⟨verdictCode report.verdict, "", messages, written⟩
      | .error e => .failed fs messages (.badFile e)

/-- A text in a column of the given width. -/
def column (width : Nat) (s : String) : String :=
  s ++ String.ofList (List.replicate (width - s.length) ' ')

/-- A row of the table of rules. -/
def row (id category severity algorithm provider api : String) : String :=
  column 10 id ++ " " ++ column 18 category ++ " " ++ column 9 severity ++ " " ++
    column 5 algorithm ++ " " ++ column 5 provider ++ " " ++ api ++ "\n"

/-- The row of a rule. -/
def ruleRow (r : Rule) : String :=
  row r.id r.category r.severity.name (toString r.algorithmIndex)
    (match r.providerIndex with | some i => toString i | none => "-") r.api

/-- The table of rules, followed by the validated providers. -/
def ruleTable (rules : RuleSet) : String :=
  row "ID" "CATEGORY" "SEVERITY" "ALG" "PROV" "API" ++
    String.ofList (List.replicate 90 '-') ++ "\n" ++
    String.join (rules.rules.map ruleRow) ++ "\n" ++
    "FIPS providers: " ++ ", ".intercalate Provider.validated ++ "\n"

/-- Lists rules. -/
def listRules (fs : Files) (path : Option String) (format : String) : Outcome :=
  match RuleSet.loadOrStandard fs path with
  | .error e => .failed fs [] e
  | .ok rules =>
    ⟨0, if format = "json" then rules.toJson.toPretty ++ "\n" else ruleTable rules, [], fs⟩

/-- Makes a settings file to start from. -/
def init (fs : Files) (force : Bool) : Outcome :=
  if fs.has Settings.fileName && !force then
    ⟨1, "", [Settings.fileName ++ " already exists. Use --force to overwrite."], fs⟩
  else
    match fs.write Settings.fileName Settings.starter with
    | .ok written => ⟨0, "Created " ++ Settings.fileName ++ "\n", [], written⟩
    | .error e => .failed fs [] (.badFile e)

/-- How the program is used. -/
def usage : String :=
  "FIPS compliance scanner for crypto API usage\n\nUsage: " ++ toolName ++ " <COMMAND>\n\n" ++
  "Commands:\n" ++
  "  scan [PATH]   Scan a program model for crypto API usage\n" ++
  "  list-rules    List the active rules\n" ++
  "  init          Generate a starter " ++ Settings.fileName ++ " config file\n"

/-- Does what a request asks for. -/
def perform (fs : Files) (stamp : Stamp) : Request → Outcome
  | .scan r => scan fs stamp r
  | .listRules path format => listRules fs path format
  | .init force => init fs force
  | .version => ⟨0, toolName ++ " " ++ toolVersion ++ "\n", [], fs⟩
  | .help => ⟨0, usage, [], fs⟩

/-- Runs the program with its arguments. -/
def run (fs : Files) (stamp : Stamp) (args : List String) : Outcome :=
  match Request.read args with
  | .ok request => perform fs stamp request
  | .error .help => perform fs stamp .help
  | .error .misuse => ⟨2, "", ["error: the arguments are not understood", usage], fs⟩

end CryptoAudit.Command
