import LapRing.Text.Record
import LapRing.Text.Quoted

/-!
# Refusals

The answers by which a request is turned down. A refusal leaves everything as
it was; its message is for people, its record for programmers.
-/
namespace LapRing

inductive Refusal
  | notPowerOfTwo (capacity : UInt64)
  | capacityTooLarge (capacity max : UInt64)
  | invalidClaim (requested capacity : UInt64)
  | invalidBatchSize (batchSize : UInt64)
  | producerTaken
  | consumerTaken
  | workerAlreadyStarted
  | workerSpawn (reason : String)
deriving DecidableEq

namespace Refusal
open Text

def message : Refusal → String
  | .notPowerOfTwo capacity => s!"capacity must be a power of two, got {capacity}"
  | .capacityTooLarge capacity max => s!"capacity {capacity} exceeds maximum {max}"
  | .invalidClaim requested capacity =>
    s!"cannot claim {requested} slots from a ring of capacity {capacity}"
  | .invalidBatchSize batchSize => s!"batch size must be greater than zero, got {batchSize}"
  | .producerTaken => "single-producer ring already has a producer"
  | .consumerTaken => "single-consumer ring already has a consumer"
  | .workerAlreadyStarted => "worker is already started"
  | .workerSpawn reason => s!"failed to spawn worker thread: {reason}"

/-- The name of the kind of refusal. -/
def kind : Refusal → String
  | .notPowerOfTwo .. => "NotPowerOfTwo"
  | .capacityTooLarge .. => "CapacityTooLarge"
  | .invalidClaim .. => "InvalidClaim"
  | .invalidBatchSize .. => "InvalidBatchSize"
  | .producerTaken => "ProducerTaken"
  | .consumerTaken => "ConsumerTaken"
  | .workerAlreadyStarted => "WorkerAlreadyStarted"
  | .workerSpawn .. => "WorkerSpawn"

/-- Whether a size was refused, rather than a handle or a worker. -/
def isConfig : Refusal → Bool
  | .notPowerOfTwo .. | .capacityTooLarge .. | .invalidClaim .. | .invalidBatchSize .. => true
  | _ => false

def inspect (refusal : Refusal) : String :=
  match refusal with
  | .notPowerOfTwo capacity => record refusal.kind [("capacity", toString capacity)]
  | .capacityTooLarge capacity max =>
    record refusal.kind [("capacity", toString capacity), ("max", toString max)]
  | .invalidClaim requested capacity =>
    record refusal.kind [("requested", toString requested), ("capacity", toString capacity)]
  | .invalidBatchSize batchSize => record refusal.kind [("batch_size", toString batchSize)]
  | .workerSpawn reason => tuple refusal.kind (quoted reason)
  | _ => refusal.kind

end Refusal

end LapRing
