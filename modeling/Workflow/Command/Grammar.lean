import Workflow.Text.Split

/-!
# The grammar of arguments

A grammar lists the options and operands of a command, and `Grammar.scan` sorts arguments by it.
An option may stand anywhere, with its value attached or as the next argument; after a bare double
dash everything is an operand. The first argument that is wrong ends the reading, and so does one
that asks for help or for the version.
-/

namespace Workflow.Command

/-- How an option is given. -/
inductive Arity where
  /-- Once, without a value. -/
  | flag
  /-- Any number of times, without a value. -/
  | count
  /-- Once, with a value. -/
  | value (placeholder : String)
  /-- Any number of times, each with a value. -/
  | values (placeholder : String)
  deriving DecidableEq, Repr

/-- The name of the value of an option, if it takes one. -/
def Arity.placeholder? : Arity → Option String
  | flag | count => none
  | value name | values name => some name

structure OptionRule where
  long : String
  short : Option Char := none
  arity : Arity
  /-- Whether an empty value is refused, as one that cannot be a path. -/
  isPath : Bool := false
  summary : String

structure OperandRule where
  name : String
  /-- The texts that are taken; all are when there are none. -/
  choices : List String := []
  summary : String := ""

/-- What a command takes. -/
structure Grammar where
  name : String
  summary : String
  options : List OptionRule
  operands : List OperandRule

/-- Why arguments make no command. -/
inductive UsageError where
  | unexpected (argument : String)
  | missingValue (option : String)
  | emptyValue (option : String)
  | needlessValue (option : String)
  | repeated (option : String)
  | badChoice (operand value : String)
  | missing (operands : List String)
  | unknownCommand (name : String)
  | noCommand
  deriving DecidableEq, Repr

def UsageError.message : UsageError → String
  | unexpected argument => "unexpected argument '" ++ argument ++ "' found"
  | missingValue option =>
    "a value is required for '--" ++ option ++ "' but none was supplied"
  | emptyValue option => "a value is required for '--" ++ option ++ "' but none was supplied"
  | needlessValue option => "unexpected value for '--" ++ option ++ "' found; no more were expected"
  | repeated option => "the argument '--" ++ option ++ "' cannot be used multiple times"
  | badChoice operand value => "invalid value '" ++ value ++ "' for '<" ++ operand ++ ">'"
  | missing operands =>
    "the following required arguments were not provided: " ++
      ", ".intercalate (operands.map fun name ↦ "<" ++ name ++ ">")
  | unknownCommand name => "unrecognized subcommand '" ++ name ++ "'"
  | noCommand => "a subcommand is required but one was not provided"

/-- Why reading arguments ends early. -/
inductive Halt where
  | usage (e : UsageError)
  | help
  | version
  deriving DecidableEq, Repr

/-- What arguments give. -/
structure Given where
  /-- The options in the order in which they stand, those without values with an empty one. -/
  options : List (String × String) := []
  operands : List String := []
  deriving DecidableEq, Repr

namespace Given

def values (g : Given) (option : String) : List String :=
  (g.options.filter fun o ↦ o.1 == option).map (·.2)

def has (g : Given) (option : String) : Bool := !(g.values option).isEmpty

def value? (g : Given) (option : String) : Option String := (g.values option).getLast?

end Given

namespace Grammar

def long? (g : Grammar) (name : String) : Option OptionRule :=
  g.options.find? fun o ↦ o.long == name

def short? (g : Grammar) (c : Char) : Option OptionRule := g.options.find? fun o ↦ o.short == some c

def addOption (o : OptionRule) (value : String) (given : Given) : Except Halt Given :=
  let once := match o.arity with
    | .flag | .value _ => true
    | .count | .values _ => false
  if o.isPath && value == "" then .error (.usage (.emptyValue o.long))
  else if once && given.has o.long then .error (.usage (.repeated o.long))
  else .ok { given with options := given.options ++ [(o.long, value)] }

def addOperand (g : Grammar) (text : String) (given : Given) : Except Halt Given :=
  match g.operands[given.operands.length]? with
  | none => .error (.usage (if g.operands.isEmpty then .unknownCommand text else .unexpected text))
  | some o =>
    if o.choices.isEmpty || o.choices.contains text then
      .ok { given with operands := given.operands ++ [text] }
    else .error (.usage (.badChoice o.name text))

/-- Adds the options of a cluster of short names; none of them takes a value. -/
def addCluster (g : Grammar) (given : Given) : List Char → Except Halt Given
  | [] => .ok given
  | c :: cs =>
    match g.short? c with
    | some o => (addOption o "" given).bind fun given ↦ g.addCluster given cs
    | none =>
      if c = 'h' then .error .help
      else if c = 'V' then .error .version
      else .error (.usage (.unexpected (String.ofList ['-', c])))

/-- What a long argument says, after its dashes: a name and the value attached to it. -/
def cutLong (s : List Char) : String × Option String :=
  match Text.breakOn ['='] s with
  | some (name, value) => (String.ofList name, some (String.ofList value))
  | none => (String.ofList s, none)

/-- Whether an argument cannot be the value of an option, since it looks like an option. -/
def isOptionLike (argument : String) : Bool :=
  match argument.toList with
  | '-' :: _ :: _ => true
  | _ => false

/-- Sorts arguments, up to the name of a command if there are any commands to name. The answer has
the arguments from that name on. -/
def scan (g : Grammar) (commands : List String) :
    Bool → Given → List String → Except Halt (Given × List String)
  | _, given, [] => .ok (given, [])
  | true, given, a :: rest => do g.scan commands true (← g.addOperand a given) rest
  | false, given, a :: rest =>
    if commands.contains a then .ok (given, a :: rest)
    else
      match a.toList with
      | ['-', '-'] => g.scan commands true given rest
      | '-' :: '-' :: s => do
        let (name, attached) := cutLong s
        match g.long? name, attached with
        | some o, some value =>
          if o.arity.placeholder?.isNone then throw (.usage (.needlessValue name))
          else g.scan commands false (← addOption o value given) rest
        | some o, none =>
          if o.arity.placeholder?.isNone then
            g.scan commands false (← addOption o "" given) rest
          else
            match rest with
            | [] => throw (.usage (.missingValue name))
            | value :: rest =>
              if isOptionLike value then throw (.usage (.missingValue name))
              else g.scan commands false (← addOption o value given) rest
        | none, none =>
          if name == "help" then throw .help
          else if name == "version" then throw .version
          else throw (.usage (.unexpected a))
        | none, some _ =>
          if name == "help" || name == "version" then throw (.usage (.needlessValue name))
          else throw (.usage (.unexpected a))
      | '-' :: c :: cs => do g.scan commands false (← g.addCluster given (c :: cs)) rest
      | _ => do g.scan commands false (← g.addOperand a given) rest

/-- Sorts all arguments of a command. Every operand is required. -/
def scanAll (g : Grammar) (arguments : List String) : Except Halt Given := do
  let (given, _) ← g.scan [] false {} arguments
  let missing := g.operands.drop given.operands.length
  if missing.isEmpty then return given
  else throw (.usage (.missing (missing.map (·.name))))

end Grammar

end Workflow.Command
