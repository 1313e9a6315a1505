import Workflow.Command.Arguments

/-!
# Help

The pages that explain the program and its commands, drawn from their grammars.
-/

namespace Workflow.Command.Help

def version : String := "0.1.0"

/-- The line on the version, of the program or of one command. -/
def versionLine (command : Option String) : String :=
  programName ++ (command.map ("-" ++ ·)).getD "" ++ " " ++ version

/-- Two columns, the first as wide as it has to be. -/
def columns (rows : List (String × String)) : List String :=
  let width := (rows.map fun row ↦ row.1.length).foldl max 0
  rows.map fun (name, summary) ↦
    "  " ++ name ++ (if summary == "" then ""
      else String.ofList (List.replicate (width - name.length + 2) ' ') ++ summary)

def optionText (o : OptionRule) : String :=
  (match o.short with
    | some c => String.ofList ['-', c] ++ ", --"
    | none => "    --") ++ o.long ++
  (match o.arity with
    | .flag => ""
    | .count => "..."
    | .value name | .values name => " <" ++ name ++ ">")

/-- The options of a grammar with those that every command has. -/
def options (g : Grammar) : List String :=
  "Options:" :: columns (g.options.map (fun o ↦ (optionText o, o.summary)) ++
    [("-h, --help", "Print help"), ("-V, --version", "Print version")])

/-- What is said of an operand. -/
def operandSummary (o : OperandRule) : String :=
  o.summary ++ (if o.summary == "" || o.choices.isEmpty then "" else " ") ++
    (if o.choices.isEmpty then ""
     else "[possible values: " ++ ", ".intercalate o.choices ++ "]")

/-- What is said of the command that shows help. -/
def helpSummary : String := "Print this message or the help of the given subcommand(s)"

/-- The page on the program. -/
def program : List String :=
  [programGrammar.summary, "", "Usage: " ++ programName ++ " [OPTIONS] <COMMAND>", "",
    "Commands:"] ++
  columns (grammars.map (fun g ↦ (g.name, g.summary)) ++ [(helpName, helpSummary)]) ++
  "" :: options programGrammar

/-- How a command is used. -/
def usage (g : Grammar) : String :=
  " ".intercalate ("Usage:" :: programName :: g.name :: "[OPTIONS]" ::
    g.operands.map fun o ↦ "<" ++ o.name ++ ">")

/-- The page on a command. -/
def command (g : Grammar) : List String :=
  [g.summary, "", usage g, "", "Arguments:"] ++
  columns (g.operands.map fun o ↦ ("<" ++ o.name ++ ">", operandSummary o)) ++
  "" :: options g

/-- The page on the command that shows help. -/
def help : List String :=
  [helpSummary, "", "Usage: " ++ programName ++ " " ++ helpName ++ " [COMMAND]...", "",
    "Arguments:", "  [COMMAND]...  Print help for the subcommand(s)"]

/-- The page on the program or on one of its commands. -/
def page : Option String → List String
  | none => program
  | some name =>
    match grammar? name with
    | some g => command g
    | none => help

/-- The lines on arguments that make no command. -/
def complaint (command : Option String) (e : UsageError) : List String :=
  ["error: " ++ e.message, "",
    ((command.bind grammar?).map usage).getD
      ("Usage: " ++ programName ++ " [OPTIONS] <COMMAND>"), "",
    "For more information, try '--help'."]

end Workflow.Command.Help
