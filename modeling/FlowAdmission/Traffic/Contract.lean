import FlowAdmission.Quantity

/-!
# Traffic contracts
-/
namespace FlowAdmission

/-- The token bucket that a flow promises to stay within. -/
structure Contract where
  /-- Bits per second. -/
  rate : Nat
  /-- Bytes. -/
  burst : Nat
  deriving DecidableEq

namespace Contract
variable (K : Type) [Quantity K]

def bytesPerSecond (c : Contract) : K := (c.rate : K) / ((8 : Nat) : K)

def burstBytes (c : Contract) : K := (c.burst : K)

end Contract
end FlowAdmission
