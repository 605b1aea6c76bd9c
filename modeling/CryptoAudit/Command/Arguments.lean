/-!
# Arguments of a command

Options are written `--name value` or `--name=value`, and those with a letter also `-l value`,
`-lvalue` or `-l=value`. An option is given at most once. An argument that begins with a hyphen and
is longer than that is never the value of the option before it. After `--`, and where an argument is
no option, stand operands.
-/

namespace CryptoAudit.Command

/-- An option of a command. -/
structure OptionSpec where
  name : String
  letter : Option Char
  /-- The option has a value; otherwise it is either given or not. -/
  hasValue : Bool
  /-- The value may be empty. -/
  mayBeEmpty : Bool

/-- The arguments that a command understands. -/
structure Usage where
  options : List OptionSpec
  /-- The largest number of operands. -/
  operands : Nat

/-- The arguments that are given. -/
structure Arguments where
  /-- The values of options, by their names. -/
  values : List (String × String)
  operands : List String
deriving DecidableEq, Inhabited

/-- Why arguments are not carried out. -/
inductive Stop where
  /-- They are not understood. -/
  | misuse
  /-- They ask for help. -/
  | help
deriving DecidableEq, Inhabited

/-- The argument is an option, or a mark of options. -/
def isOption (arg : String) : Bool :=
  match arg.toList with
  | '-' :: _ :: _ => true
  | _ => false

/-- Splits an option from the value that is written in the same argument. -/
def splitValue (cs : List Char) : String × Option String :=
  match cs.dropWhile (· != '=') with
  | _ :: value => (String.ofList (cs.takeWhile (· != '=')), some (String.ofList value))
  | [] => (String.ofList cs, none)

/-- Leaves out an equals sign at the start. -/
def skipEquals : List Char → List Char
  | '=' :: cs => cs
  | cs => cs

namespace Arguments

/-- No arguments. -/
def empty : Arguments := ⟨[], []⟩

/-- The value of an option. -/
def value? (a : Arguments) (name : String) : Option String := a.values.lookup name

/-- The option is given. -/
def has (a : Arguments) (name : String) : Bool := (a.value? name).isSome

/-- Adds the value of an option. -/
def set (a : Arguments) (o : OptionSpec) (value : String) : Except Stop Arguments :=
  if a.has o.name || (o.hasValue && !o.mayBeEmpty && value = "") then .error .misuse
  else .ok { a with values := a.values ++ [(o.name, value)] }

/-- Adds an operand, which is not empty. -/
def addOperand (u : Usage) (a : Arguments) (arg : String) : Except Stop Arguments :=
  if arg = "" || u.operands ≤ a.operands.length then .error .misuse
  else .ok { a with operands := a.operands ++ [arg] }

/-- What an argument asks for. -/
inductive Reading where
  | operand
  | onlyOperands
  | option (o : OptionSpec) (value : Option String)

/-- What an option by its name asks for. -/
def readName (u : Usage) (cs : List Char) : Except Stop Reading :=
  let (name, value) := splitValue cs
  match u.options.find? (·.name = name) with
  | some o => if !o.hasValue && value.isSome then .error .misuse else .ok (.option o value)
  | none => .error (if name = "help" && value.isNone then .help else .misuse)

/-- What an option by its letter asks for. -/
def readLetter (u : Usage) (c : Char) (rest : List Char) : Except Stop Reading :=
  match u.options.find? (·.letter = some c) with
  | some o =>
    .ok (.option o (if rest.isEmpty then none else some (String.ofList (skipEquals rest))))
  | none => .error (if c = 'h' then .help else .misuse)

/-- What an argument asks for. -/
def readArgument (u : Usage) (arg : String) : Except Stop Reading :=
  match arg.toList with
  | ['-', '-'] => .ok .onlyOperands
  | '-' :: '-' :: cs => readName u cs
  | '-' :: c :: rest => readLetter u c rest
  | _ => .ok .operand

/-- Reads on in the arguments of a command. -/
def readAll (u : Usage) (a : Arguments) : List String → Except Stop Arguments
  | [] => .ok a
  | arg :: rest => do
    match ← readArgument u arg with
    | .operand => readAll u (← a.addOperand u arg) rest
    | .onlyOperands => rest.foldlM (addOperand u) a
    | .option o (some value) => readAll u (← a.set o value) rest
    | .option o none =>
      if o.hasValue then
        match rest with
        | value :: rest =>
          if isOption value then throw .misuse else readAll u (← a.set o value) rest
        | [] => throw .misuse
      else readAll u (← a.set o "") rest

end Arguments

/-- Reads the arguments of a command. -/
def Usage.read (u : Usage) (args : List String) : Except Stop Arguments :=
  Arguments.readAll u .empty args

end CryptoAudit.Command
