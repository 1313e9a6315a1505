import Workflow.Audit
import Workflow.Instant

/-!
# Entries of the audit trail

An entry is an event with the time at which it was reported, as it is kept and handed on.
-/

namespace Workflow.Audit

open Json (Value Members RecordField)

/-- One entry of the trail. -/
structure Entry where
  step : String
  status : Status
  time : Instant
  metadata : Option (Members Value) := none
  deriving DecidableEq, Repr

namespace Entry

/-- The reason that an entry gives, if it gives one as a text. -/
def reason? (e : Entry) : Option String :=
  (e.metadata.bind (Members.get? "reason")).bind (·.string?)

/-! ## Documents -/

private def stepField : RecordField String := ⟨"step", .text, none, []⟩

private def statusField : RecordField Status := ⟨"status", .variant Status.byName, none, []⟩

private def timeField : RecordField Instant := ⟨"timestamp", Instant.decode, none, []⟩

private def metadataField : RecordField (Option (Members Value)) := .optional "metadata" .members

def decode : Json.Decoder Entry := fun v ↦ do
  let fields ← Json.Record.fields "struct AuditEntry"
    [stepField.rule, statusField.rule, timeField.rule, metadataField.rule] v
  return {
    step := ← Json.Record.get fields stepField
    status := ← Json.Record.get fields statusField
    time := ← Json.Record.get fields timeField
    metadata := ← Json.Record.get fields metadataField }

def toValue (e : Entry) : Value :=
  .object (Members.ofList (
    [("step", .string e.step), ("status", .string e.status.text),
      ("timestamp", .string e.time.text)] ++
    (e.metadata.map fun ms ↦ ("metadata", Value.object ms)).toList))

end Entry

end Workflow.Audit
