import FlowAdmission.Traffic.Address

/-!
# Packet matchings

A matching picks the packets of a flow by their addresses, ports and protocol.
-/
namespace FlowAdmission

structure Matching where
  source : Address
  destination : Address
  sourcePort : UInt16
  destinationPort : UInt16
  protocol : UInt8
  deriving DecidableEq

namespace Matching

/-- An address and a port with a colon between; the address is not bracketed. -/
def endpointText (address : Address) (port : UInt16) : List Char :=
  address.text ++ ':' :: (toString port.toNat).toList

def chars (m : Matching) : List Char :=
  endpointText m.source m.sourcePort ++ " -> ".toList ++
    endpointText m.destination m.destinationPort ++ " proto ".toList ++
    (toString m.protocol.toNat).toList

def text (m : Matching) : String := String.ofList m.chars

end Matching
end FlowAdmission
