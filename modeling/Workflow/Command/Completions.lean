import Workflow.Command.Arguments

/-!
# Completions

The scripts that make shells complete the names of commands and options.
-/

namespace Workflow.Command.Completions

/-- Everything that may be completed: the commands, and the options of all of them once. -/
def words : List String :=
  let options := (grammars.flatMap fun g ↦ g.options.map fun o ↦ "--" ++ o.long) ++
    ["--help", "--version"]
  names ++ options.eraseDups

def script : Shell → List String
  | .bash => ["complete -W '" ++ " ".intercalate words ++ "' " ++ programName]
  | .zsh => ["#compdef " ++ programName, "compadd -- " ++ " ".intercalate words]
  | .fish => ["complete -c " ++ programName ++ " -f -a '" ++ " ".intercalate words ++ "'"]
  | .elvish =>
    ["set edit:completion:arg-completer[" ++ programName ++ "] = \x7b|@words| put " ++
      " ".intercalate words ++ " \x7d"]
  | .powershell =>
    ["Register-ArgumentCompleter -Native -CommandName '" ++ programName ++
      "' -ScriptBlock \x7b param($word) @('" ++ "', '".intercalate words ++
      "') | Where-Object \x7b $_ -like \"$word*\" \x7d \x7d"]

end Workflow.Command.Completions
