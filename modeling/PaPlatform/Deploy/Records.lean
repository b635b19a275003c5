/-
  The records of a protected workflow directory, as their owner sees them.

  A directory maps record names to JSON values.  `publish` never replaces a
  value; it may fail, before or after the new name is linked.
-/
import PaPlatform.Deploy.Values
import PaPlatform.Lib.Effect
import Mathlib.Data.List.AList

namespace PaPlatform

open Js Guard Effect

/-- What a record name holds between its digest and `.json`. -/
inductive RecordKind where
  | intent
  | entry (n : ℕ)
  | transaction (n : ℕ)
  deriving DecidableEq

/-- A name that `ProtectedWorkflowStore` accepts, up to the range of its
    number. -/
structure RecordName where
  id : Sha256
  kind : RecordKind
  deriving DecidableEq

/-- The ranges of the numbers in
    `/^[0-9a-f]{64}\.(intent|[1-9][0-9]?|transaction-[1-9][0-9]{0,2})\.json$/`. -/
def RecordName.inRange (name : RecordName) : Prop :=
  match name.kind with
  | .intent => True
  | .entry n => 1 ≤ n ∧ n ≤ 99
  | .transaction n => 1 ≤ n ∧ n ≤ 999

instance (name : RecordName) : Decidable name.inRange := by
  unfold RecordName.inRange; split <;> infer_instance

/-- The records of a directory. -/
abbrev RecordStore := AList fun _ : RecordName => Json

/-- `MAX_PROTECTED_WORKFLOW_BYTES`. -/
def maxProtectedWorkflowBytes : ℕ := 65536

/-- Where a publication fails. -/
inductive StorageFault where
  | beforeLink
  | afterLink
  deriving DecidableEq

/-- `ProtectedWorkflowStore.publish`. -/
def publish (fault : Option StorageFault) (name : RecordName) (value : Json) :
    Eff RecordStore WorkflowFailure PUnit := do
  failIf (maxProtectedWorkflowBytes < value.stringify.utf8ByteSize + 1) .workflow
  failIf (¬ name.inRange) .workflow
  match (← get).lookup name with
  | some found => failIf (found.stringify ≠ value.stringify) .workflow
  | none =>
    failIf (fault = some .beforeLink) .workflow
    modify (·.insert name value)
    failIf (fault = some .afterLink) .workflow

/-- The publication of a new name adds the record, or fails with or without
    having added it. -/
theorem wp_publish {records : RecordStore} {fault : Option StorageFault} {name : RecordName}
    {value : Json} {Q : PUnit → RecordStore → Prop} {E : WorkflowFailure → RecordStore → Prop}
    (hn : records.lookup name = none) (hQ : Q ⟨⟩ (records.insert name value))
    (hadded : ∀ e, E e (records.insert name value)) (hsame : ∀ e, E e records) :
    wp (publish fault name value) Q E records := by
  simp only [publish, wp_bind, wp_failIf, wp_get, hn, wp_modify]
  exact ⟨fun _ => hsame _, fun _ => ⟨fun _ => hsame _, fun _ => ⟨fun _ => hsame _, fun _ =>
    ⟨fun _ => hadded _, fun _ => hQ⟩⟩⟩⟩

end PaPlatform
