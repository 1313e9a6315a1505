import Workflow.Command.Completions
import Workflow.Command.Execute
import Workflow.Command.Help

/-!
# The program

What the program does with its arguments: it carries out a command, explains itself, or says what is
wrong with the arguments.
-/

namespace Workflow.Program

/-- What becomes of arguments. -/
def answer (arguments : List String) (s : Surroundings) : Outcome :=
  match Invocation.ofArguments arguments with
  | .error ⟨command, .help⟩ => { output := Command.Help.page command, files := s.files }
  | .error ⟨command, .version⟩ =>
    { output := [Command.Help.versionLine command], files := s.files }
  | .error ⟨command, .usage e⟩ =>
    { exit := 2, asides := Command.Help.complaint command e, files := s.files }
  | .ok i =>
    match i.command with
    | .completions shell =>
      { output := Command.Completions.script shell, files := s.files }
    | _ => i.execute s

end Workflow.Program
