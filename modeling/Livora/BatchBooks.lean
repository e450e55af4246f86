import Livora.RewardStrategies

/-! The batches of collected material. -/

namespace Livora.BatchBooks

open RewardStrategies

inductive BatchStatus where
  | open
  | inTransit
  | processing
  | partiallyAccepted
  | received
  | consolidated
  | flaggedForReview
  | disputed
  | rerouted
deriving DecidableEq

structure Batch where
  id : String
  status : BatchStatus
  collectorId : String
  destinationCenterId : Option String
  materialsActual : Option NumberRecord
  hasDiscrepancy : Bool
  discrepancyNote : Option String
  consolidatedBatchId : Option String
  ipfsCid : Option String
  txHash : Option String
  fiatSettled : Bool
  fiatSettledAt : Option ℕ
  createdAt : ℕ
  updatedAt : ℕ
deriving DecidableEq

end Livora.BatchBooks
