import FlowAdmission.Proofs.Manager.Frames
import FlowAdmission.Proofs.Store.Crossings

/-!
# Embedding is all or nothing

An embedding stores the request first, asks the router and registers the answer, and attaches the
path at the end. The store can be rolled back and the reservation cannot, but nothing may fail
behind the registration. So an embedding either makes the whole change or none, apart from the
number of the request (`Embedder.embed_all_or_nothing`).
-/
namespace FlowAdmission
variable {K : Type}

namespace Store
variable {s : Store K}

/-- The store with the next request number passed over. -/
def skipRequest (s : Store K) : Store K :=
  { s with requests := { s.requests with next := s.requests.next + 1 } }

/-- A new request that is dropped leaves its number behind. -/
theorem rollback_insert (numbered : s.Numbered) (booking : Booking K) :
    (s.begin.insert (k := .request) booking).2.rollback = s.skipRequest := by
  have unused : s.requests.get? s.requests.next = none :=
    numbered .request ⟨s.requests.next⟩ (Nat.le_refl _)
  have dropped : (s.requests.insert booking).2.erase s.requests.next =
      { s.requests with next := s.requests.next + 1 } := by
    refine Roster.ext_get? rfl fun i => ?_
    rw [Roster.get?_erase, Roster.get?_insert]
    split
    · rename_i here
      exact here ▸ unused.symm
    · rfl
  exact congrArg (fun requests => { s with requests }) dropped

/-- The store with a new request that holds a path. -/
def withRouted (s : Store K) (booking : Booking K) (path : Path) : Store K :=
  ((s.begin.insert (k := .request) booking).2.attach
    (s.begin.insert (k := .request) booking).1 path).unlocked

/-- A new request under the next number, entered on the edges of its path, and nothing else. -/
structure Embeds (s s' : Store K) (id : RequestId) (booking : Booking K) (path : Path) :
    Prop where
  number : id.index = s.requests.next
  fresh : ∀ i, (s.request? i).isSome → i.index < id.index
  next : s'.requests.next = s.requests.next + 1
  requests : ∀ i, s'.request? i = if id = i then some booking else s.request? i
  requestsOn : ∀ e, s'.requestsOn e =
    if e ∈ path then s.requestsOn e ++ [id] else s.requestsOn e
  rest : s' = { s with requests := s'.requests, crossings := s'.crossings }

end Store

/-- Attaching a path releases none. -/
theorem Transaction.released_attach (t : Transaction K) (id : RequestId) (path : Path) :
    (t.attach id path).released = t.released := by
  unfold attach
  split <;> rfl

namespace Store
variable {s : Store K} {booking : Booking K} {path : Path}

/-- Its path is attached to a request that is there. -/
theorem withRouted_eq (s : Store K) (booking : Booking K) (path : Path) :
    s.withRouted booking path =
      ((s.insert (k := .request) booking).2.put (k := .request) ⟨s.requests.next⟩
        { booking with path := some path }).addCrossings ⟨s.requests.next⟩ path := by
  have live : (s.begin.insert (k := .request) booking).2.store.request? ⟨s.requests.next⟩ =
      some booking := (s.begin.get?_insert (k := .request) booking _).trans (if_pos rfl)
  unfold withRouted
  rw [show (s.begin.insert (k := .request) booking).1 = ⟨s.requests.next⟩ from rfl,
    Transaction.attach, live]
  rfl

/-- The newest request stands last on every edge of its path. -/
theorem requestsOn_withRouted (numbered : s.Numbered) (mirrored : s.Mirrored) (e : EdgeId) :
    (s.withRouted booking path).requestsOn e =
      if e ∈ path then s.requestsOn e ++ [⟨s.requests.next⟩] else s.requestsOn e := by
  have older : ∀ i ∈ s.requestsOn e, i.index < s.requests.next := by
    intro i listed
    obtain ⟨b, _, live, _⟩ := (mirrored _).mp (mem_requestsOn.mp listed)
    exact numbered.lt_next (k := .request) live
  refine eq_of_ascending (ascending_requestsOn _ e) ?_ fun i => ?_
  · split
    · refine List.pairwise_append.mpr ⟨ascending_requestsOn s e, List.pairwise_singleton _ _, ?_⟩
      intro i listed j new
      obtain rfl := List.mem_singleton.mp new
      exact older i listed
    · exact ascending_requestsOn s e
  · rw [mem_requestsOn, withRouted_eq, mem_crossings_addCrossings, crossings_put,
      crossings_insert, ← mem_requestsOn]
    by_cases on_path : e ∈ path <;> simp [on_path]

theorem embeds_withRouted (numbered : s.Numbered) (mirrored : s.Mirrored) (booking : Booking K)
    (path : Path) :
    Embeds s (s.withRouted booking path) ⟨s.requests.next⟩ { booking with path := some path }
      path where
  number := rfl
  fresh i live := by
    obtain ⟨b, live⟩ := Option.isSome_iff_exists.mp live
    exact numbered.lt_next (k := .request) live
  next := by rw [withRouted_eq]; rfl
  requests := (gains_embedded s booking path).requests
  requestsOn := requestsOn_withRouted numbered mirrored
  rest := by rw [withRouted_eq]; rfl

end Store

namespace Embedder
variable {R C : Type} [Quantity K] [CostModel C K] [Router R C K] {x : Embedder R C K}

/-- An embedding as one choice: whether there is a path that can be registered. -/
theorem embed_eq (numbered : x.store.Numbered) (net : Network K)
    (penalized : Std.ExtTreeSet EdgeId) (request : Request K) (replaces : Option RequestId) :
    let routed := Router.route x.router net request (⟨x.costs, penalized⟩ : Surcharged C)
    x.embed net penalized request replaces =
      match routed.1.bind fun path =>
        (CostModel.register? x.costs net path request).map (path, ·) with
      | none => (none, { x with store := x.store.skipRequest, router := routed.2 })
      | some (path, costs) =>
        (some ⟨x.store.requests.next⟩,
          { x with
            store := x.store.withRouted { request, replaces } path
            router := routed.2
            costs }) := by
  intro routed
  unfold embed
  dsimp only
  rw [Store.rollback_insert numbered]
  cases answer : routed.1 with
  | none => rfl
  | some path =>
    dsimp only [CostModel.register?, Option.bind_some]
    cases registered : CostModel.register? x.costs net path request with
    | none => rfl
    | some costs =>
      have nothing_released := Transaction.released_attach
        (x.store.begin.insert (k := .request) ({ request, replaces } : Booking K)).2
        (x.store.begin.insert (k := .request) ({ request, replaces } : Booking K)).1 path
      dsimp only [Option.map_some, Embedder.commit, Transaction.commit]
      rw [nothing_released]
      simp only [Transaction.insert, Transaction.log, Store.begin, CostModel.giveBack,
        CostModel.passedOver, List.foldl_nil, List.append_nil]
      rfl

/-- Without an answer, or with one that cannot be registered, nothing changes but the number of the
next request and the router. Otherwise the path was registered once, the new request holds it, and
nothing else in the store changed. -/
theorem embed_all_or_nothing (numbered : x.store.Numbered) (mirrored : x.store.Mirrored)
    (net : Network K) (penalized : Std.ExtTreeSet EdgeId) (request : Request K)
    (replaces : Option RequestId) :
    let routed := Router.route x.router net request (⟨x.costs, penalized⟩ : Surcharged C)
    match x.embed net penalized request replaces with
    | (none, x') =>
      (∀ path, routed.1 = some path → CostModel.register? x.costs net path request = none) ∧
        x' = { x with store := x.store.skipRequest, router := routed.2 }
    | (some id, x') => ∃ path,
      routed.1 = some path ∧ CostModel.register? x.costs net path request = some x'.costs ∧
        x.store.Embeds x'.store id { request, path := some path, flow := none, replaces } path ∧
        x' = { x with store := x'.store, router := routed.2, costs := x'.costs } := by
  intro routed
  have embedded := embed_eq (x := x) numbered net penalized request replaces
  cases answer : routed.1 with
  | none =>
    simp only [show (Router.route x.router net request (⟨x.costs, penalized⟩ : Surcharged C)).1 =
      none from answer, Option.bind_none] at embedded
    rw [embedded]
    exact ⟨fun path => nofun, rfl⟩
  | some path =>
    simp only [show (Router.route x.router net request (⟨x.costs, penalized⟩ : Surcharged C)).1 =
      some path from answer, Option.bind_some] at embedded
    cases registered : CostModel.register? x.costs net path request with
    | none =>
      rw [registered] at embedded
      rw [embedded]
      refine ⟨fun other same => ?_, rfl⟩
      cases same
      exact registered
    | some costs =>
      rw [registered] at embedded
      rw [embedded]
      exact ⟨path, rfl, registered, Store.embeds_withRouted numbered mirrored _ path, rfl⟩

/-- The sample manager with another router. -/
def sampleEmbedder (answers : List (Option Path)) : Embedder Scripted (TokenBucket ℚ) ℚ :=
  { Manager.sampleManager.toEmbedder with router := ⟨answers⟩ }

/-- The first queue is taken. A request that gets no path, or the path over that queue, leaves
nothing but its number; over the other queue it is embedded. -/
theorem embed_of_sampleEmbedder :
    let embed (answers : List (Option Path)) :=
      (sampleEmbedder answers).embed Manager.sampleManager.network ∅ ⟨0, 1, 1000, 1000, 10⟩ none
    let skipped := { sampleEmbedder [] with store := (sampleEmbedder []).store.skipRequest }
    embed [none] = (none, skipped) ∧ embed [some [3]] = (none, skipped) ∧
      (embed [some [5]]).1 = some ⟨1⟩ ∧ (embed [some [5]]).2.store.requestsOn 5 = [⟨1⟩] := by
  intro embed skipped
  have linked := ((Manager.Reachable.start 0 _ _ _ _).runAll _ :
    Manager.sampleManager.Reachable).sound.linked
  have outcome (answers : List (Option Path)) :=
    embed_all_or_nothing (x := sampleEmbedder answers) linked.numbered linked.mirrored
      Manager.sampleManager.network ∅ ⟨0, 1, 1000, 1000, 10⟩ none
  have undone (answer : Option Path) (failed : (embed [answer]).1 = none) :
      embed [answer] = (none, skipped) := by
    have nothing := outcome [answer]
    rw [show (sampleEmbedder [answer]).embed _ _ _ _ = (_, _) from Prod.ext failed rfl] at nothing
    exact Prod.ext failed nothing.2
  have made : (embed [some [5]]).1 = some ⟨1⟩ := by decide +kernel
  have all := outcome [some [5]]
  rw [show (sampleEmbedder [some [5]]).embed _ _ _ _ = (_, _) from Prod.ext made rfl] at all
  obtain ⟨path, answered, -, embeds, -⟩ := all
  cases answered
  refine ⟨undone none (by decide +kernel), undone (some [3]) (by decide +kernel), made, ?_⟩
  exact (embeds.requestsOn 5).trans (by decide +kernel)

end Embedder
end FlowAdmission
