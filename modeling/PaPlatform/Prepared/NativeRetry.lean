/-
  The native record behind a retry (`parseNativePreparationRetry`,
  `resolveNativePreparationRetry` of `deploy/prepared-workflow.ts`).
-/
import PaPlatform.Prepared.Directory

namespace PaPlatform.Prepared

open Js

/-- `/^[0-9a-f]{8}-[0-9a-f]{4}-4[0-9a-f]{3}-[89ab][0-9a-f]{3}-[0-9a-f]{12}$/`. -/
def eventIdOk (s : String) : Bool :=
  match split s '-' with
  | [a, b, c, d, e] =>
    [a, b, c, d, e].all (fun part => part.toList.all isHex) &&
      [a, b, c, d, e].map (·.toList.length) == [8, 4, 4, 4, 12] &&
      c.toList.head? == some '4' && (d.toList.head?.any fun x => "89ab".toList.contains x)
  | _ => false

structure NativePreparationRetry where
  eventId : Text
  operationId : Sha256
  bindingIdentity : Sha256
  callerIdentity : Sha256
  deploymentId : Text
  toolCallId : Text
  preparationAttempt : ℕ
  failureSha256 : Sha256
  capturedAt : Timestamp

def NativePreparationRetry.keys : List String := ["schemaVersion", "eventId", "operationId",
  "bindingIdentity", "callerIdentity", "deploymentId", "toolCallId", "preparationAttempt",
  "failureSha256", "capturedAt"]

def NativePreparationRetry.toJson (n : NativePreparationRetry) : Json :=
  .obj (keys.zip [.str "native-preparation-retry/v1", .ofChecked n.eventId, .ofChecked n.operationId,
    .ofChecked n.bindingIdentity, .ofChecked n.callerIdentity, .ofChecked n.deploymentId,
    .ofChecked n.toolCallId, .num n.preparationAttempt, .ofChecked n.failureSha256,
    .ofChecked n.capturedAt])

/-- `parseNativePreparationRetry`. -/
def parseNativePreparationRetry (value : Json) : Option NativePreparationRetry := do
  let [schemaVersion, eventId, operationId, bindingIdentity, callerIdentity, deploymentId,
    toolCallId, preparationAttempt, failureSha256, capturedAt] ←
    Json.exactObject NativePreparationRetry.keys value | none
  let eventId ← workflowText eventId
  let deploymentId ← workflowText deploymentId
  Json.literal "native-preparation-retry/v1" schemaVersion
  Json.check (eventIdOk eventId.1 = true ∧ deploymentIdOk deploymentId.1 = true)
  let preparationAttempt ← Json.natural 1 32 preparationAttempt
  return ⟨eventId, ← workflowSha operationId, ← workflowSha bindingIdentity,
    ← workflowSha callerIdentity, deploymentId, ← workflowText toolCallId, preparationAttempt,
    ← workflowSha failureSha256, ← workflowTimestamp capturedAt⟩

/-- The version of a native retry. -/
def nativeRetryVersion : String := "native-preparation-retry/v1"

/-- `resolveNativePreparationRetry`. -/
def resolveNativePreparationRetry (sha256 : Bytes → Sha256) (d : Directory) (source : SourceVersion) :
    Option NativePreparationRetry := do
  Json.check (source.version.1 = nativeRetryVersion ∧
    source.ref.1 = "native-preparation-retry:" ++ source.sha256.1)
  let record ← (d.read ⟨source.sha256, .intent⟩).bind parseNativePreparationRetry
  Json.check (workflowDigest sha256 (record.toJson.stringify ++ "\n") = source.sha256)
  return record

end PaPlatform.Prepared
