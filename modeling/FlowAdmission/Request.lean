import FlowAdmission.Identifier

/-!
# Requests

What routing is asked to carry, and what the store keeps about it.
-/
namespace FlowAdmission

structure Request (K : Type) where
  source : NodeId
  destination : NodeId
  /-- Bytes per second. -/
  rate : K
  /-- Bytes. -/
  burst : K
  /-- Seconds that a packet may take. -/
  deadline : K
  deriving DecidableEq

/-- A request with the path it was given, if any. -/
structure Booking (K : Type) where
  request : Request K
  path : Option Path := none
  flow : Option FlowId := none
  /-- The request that this one replaced when its flow was moved. -/
  replaces : Option RequestId := none
  deriving DecidableEq

end FlowAdmission
