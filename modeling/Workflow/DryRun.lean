import Workflow.Process.World

/-!
# Dry runs

A dry run dispatches nothing: every request is answered at once with a single message that says what
would have been sent, so no step has a result. `DryRun.world` is a world where nothing takes any
time and every event is kept.
-/

namespace Workflow.DryRun

open Json (Value)

/-- The answer to the request of a number, counted from one. -/
def reply (sequence : Nat) (r : Dispatch.Request) : Reply where
  messages := [.system "dry_run" (.object [("dryRun", .bool true),
    ("model", (r.options.model.map Value.string).getD .null), ("prompt", .string r.prompt),
    ("sequence", .ofNat sequence)])]

/-- What a dry run leaves behind. -/
structure Log where
  requests : Nat := 0
  events : List Audit.Event := []

/-- The world of dry runs. It has no handlers. -/
def world : World Log where
  report e log := (none, { log with events := log.events ++ [e] })
  clock _ := 0
  announce _ _ log := (none, log)
  call c _ log :=
    match c with
    | .dispatch r =>
      let log := { log with requests := log.requests + 1 }
      (.settled (.replied (reply log.requests r)), log)
    | .handler _ _ _ => (.settled (.replied {}), log)
  limit _ log := log
  settle _ log := (none, log)

end Workflow.DryRun
