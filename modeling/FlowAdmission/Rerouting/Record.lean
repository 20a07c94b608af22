import FlowAdmission.Identifier

/-!
# What rerouting did for one flow
-/
namespace FlowAdmission.Rerouting

structure Record where
  /-- Every flow that was tried, in order. -/
  attempts : List FlowId := []
  /-- The flows that were moved to a new path. -/
  reconfigured : List FlowId := []
  /-- The moved flow after which the blocked one fitted. -/
  successes : List FlowId := []
  deriving DecidableEq

end FlowAdmission.Rerouting
