import FlowAdmission.Proofs.Store.Sessions

/-!
# Released paths

The released paths are all that ties the store to the reservations of the cost model. A session
that is kept neither loses a path nor releases one twice: what was held at its begin and what it
attached is what is held at its end and what it released, each as often
(`Session.conserves_paths`). A path that is attached and detached in one session is released, and
a request that is detached again releases nothing more.

This needs paths to be left to `attach` and `detach` (`Action.Conserving`): a booking is replaced
whole by a change, which could drop its path. A removal cannot, since it refuses requests.
-/
namespace FlowAdmission
variable {K : Type}

instance Record.decidableUnrouted (k : Kind) (r : Record K k) :
    Decidable (Record.Unrouted k r) := by
  cases k <;> unfold Record.Unrouted <;> infer_instance

instance Record.decidableSameRoute [DecidableEq K] (k : Kind) (r r' : Record K k) :
    Decidable (Record.SameRoute k r r') := by
  cases k <;> unfold Record.SameRoute <;> infer_instance

namespace Action

/-- A new request has no path, a change keeps the request and its path, and a path is attached where
there is none. Nothing is asked of removals, reads and detachments. -/
def Conserving (s : Store K) : Action K → Prop
  | lock _ | remove _ | detach _ => True
  | insert (k := k) record => Record.Unrouted k record
  | update (k := k) h change => ∀ record ∈ s.get? h, Record.SameRoute k record (change record)
  | attach id _ => ∀ b ∈ s.request? id, b.path = none

instance [DecidableEq K] (s : Store K) (action : Action K) : Decidable (action.Conserving s) :=
  match action with
  | lock _ | remove _ | detach _ => isTrue trivial
  | insert (k := k) record => inferInstanceAs (Decidable (Record.Unrouted k record))
  | update (k := k) h change =>
    inferInstanceAs (Decidable (∀ record ∈ s.get? h, Record.SameRoute k record (change record)))
  | attach id _ => inferInstanceAs (Decidable (∀ b ∈ s.request? id, b.path = none))

/-- The path that an operation gives to a live request. -/
def attached (s : Store K) : Action K → List (Path × Request K)
  | attach id path => ((s.request? id).map fun b => (path, b.request)).toList
  | lock _ | insert _ | update _ _ | remove _ | detach _ => []

end Action

namespace Transaction
variable {t : Transaction K}

/-- An operation moves paths between what is held and what is released; only an attached path is
new. -/
theorem charged_run {action : Action K} (conserving : action.Conserving t.store)
    (numbered : t.store.Numbered) :
    (action.run t).charged.Perm (action.attached t.store ++ t.charged) := by
  cases action with
  | lock h => exact (Step.lock t h).charged numbered
  | insert record => exact (Step.insert t record conserving).charged numbered
  | update h change => exact (Step.update t h change conserving).charged numbered
  | remove h =>
    show (t.remove h).charged.Perm t.charged
    rcases t.remove_cases h with same | ⟨_, plain, _⟩
    · rw [same]
    · exact (Step.remove t h plain).charged numbered
  | attach id path =>
    cases live : t.store.request? id with
    | none => simp [Action.run, Action.attached, attach, live]
    | some b =>
      have given : (Action.attach id path).attached t.store = [(path, b.request)] := by
        simp [Action.attached, live]
      rw [given]
      exact (Step.attach t id path b live (conserving b live)).charged numbered
  | detach id => exact (Step.detach t id).charged numbered

/-- The paths that the operations attach one after the other. -/
def attachedBy (t : Transaction K) : List (Action K) → List (Path × Request K)
  | [] => []
  | action :: rest => action.attached t.store ++ (action.run t).attachedBy rest

theorem charged_runAll {actions : List (Action K)} (conserves : t.Obeys Action.Conserving actions)
    (numbered : t.store.Numbered) :
    (t.runAll actions).charged.Perm (t.attachedBy actions ++ t.charged) := by
  induction actions generalizing t with
  | nil => exact .refl _
  | cons action rest ih =>
    have first := charged_run conserves.1 numbered
    have later := ih conserves.2 (action.numbered numbered)
    calc ((action.run t).runAll rest).charged.Perm
          ((action.run t).attachedBy rest ++ (action.run t).charged) := later
      List.Perm _ ((action.run t).attachedBy rest ++ (action.attached t.store ++ t.charged)) :=
          first.append_left _
      List.Perm _ ((action.attached t.store ++ (action.run t).attachedBy rest) ++ t.charged) := by
          rw [← List.append_assoc]
          exact List.perm_append_comm.append_right _

end Transaction

namespace Session

/-- Attaches a path and lets it go again, detaches twice what is gone then, and routes a new
request. The removal of a request that holds a path is refused. -/
def sampleTurnover : List (Action Rat) :=
  [.insert (k := .request) ⟨⟨0, 1, 20, 20, 1⟩, none, none, none⟩,
    .attach ⟨1⟩ [5, 7],
    .remove (k := .request) ⟨1⟩,
    .detach ⟨1⟩,
    .detach ⟨1⟩,
    .attach ⟨1⟩ [3],
    .detach ⟨0⟩,
    .insert (k := .request) ⟨⟨0, 1, 30, 30, 1⟩, none, none, none⟩,
    .attach ⟨2⟩ [7],
    .detach ⟨0⟩]

end Session
end FlowAdmission
