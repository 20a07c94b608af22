import FlowAdmission.Proofs.Manager.Effects

/-!
# Links between flows, machines and requests

What holds of the store between two calls (`Store.Linked`): a live flow is listed by its two
machines, flows between hosts and live requests point at each other, every live request holds a
path, and the request that another one replaced is gone.

The links are broken and mended within one call. An embedded request has no flow yet, and while a
flow is moved two requests stand for it. So the lemmas here speak of whole effects: a flow is
removed (`Linked.removeFlow`), a flow is admitted together with its request (`Linked.addFlow`), and
a flow changes from one request to the next (`Linked.moved`).
-/
namespace FlowAdmission
variable {K : Type}

namespace Store

structure Linked (s : Store K) : Prop where
  numbered : s.Numbered
  mirrored : s.Mirrored
  machines : ∀ {id f}, s.flow? id = some f → ∃ v w, s.vm? f.source = some v ∧
    s.vm? f.destination = some w ∧ id ∈ v.flows ∧ id ∈ w.flows ∧
    (f.request = none ↔ v.host = w.host)
  routed : ∀ {id f r}, s.flow? id = some f → f.request = some r →
    ∃ b, s.request? r = some b ∧ b.flow = some id
  owned : ∀ {r b}, s.request? r = some b → b.path.isSome ∧
    ∃ id f, b.flow = some id ∧ s.flow? id = some f ∧ f.request = some r
  replaced : ∀ {r b old}, s.request? r = some b → b.replaces = some old →
    old.index < r.index ∧ s.request? old = none

theorem linked_empty : (empty : Store K).Linked := by
  have no_record : ∀ (k : Kind) (h : Handle k), (empty : Store K).get? h = none := by
    intro k h
    cases k <;> simp [empty, get?, roster]
  refine ⟨numbered_empty, mirrored_empty, ?_, ?_, ?_, ?_⟩ <;>
    simp [flow?, request?, no_record]

namespace Linked
variable {s s' : Store K}

/-- A request belongs to one flow. -/
theorem flow_unique (linked : s.Linked) {id i : FlowId} {f g : Flow K} {r : RequestId}
    (live : s.flow? id = some f) (requested : f.request = some r)
    (live' : s.flow? i = some g) (requested' : g.request = some r) : id = i := by
  obtain ⟨b, found, points⟩ := linked.routed live requested
  obtain ⟨b', found', points'⟩ := linked.routed live' requested'
  rw [found] at found'
  cases found'
  rw [points] at points'
  exact Option.some.inj points'

/-- Where the machines of a flow keep their hosts and list the flow still, the flow's ends stay
as they should be. -/
theorem machines_of_kept (linked : s.Linked) {id : FlowId} {f : Flow K}
    (live : s.flow? id = some f)
    (kept : ∀ {v m}, f.source = v ∨ f.destination = v → s.vm? v = some m → id ∈ m.flows →
      ∃ m', s'.vm? v = some m' ∧ m'.host = m.host ∧ id ∈ m'.flows) :
    ∃ v w, s'.vm? f.source = some v ∧ s'.vm? f.destination = some w ∧ id ∈ v.flows ∧
      id ∈ w.flows ∧ (f.request = none ↔ v.host = w.host) := by
  obtain ⟨v, w, source, destination, listed, listed', hosts⟩ := linked.machines live
  obtain ⟨v', source', v_host, v_lists⟩ := kept (.inl rfl) source listed
  obtain ⟨w', destination', w_host, w_lists⟩ := kept (.inr rfl) destination listed'
  refine ⟨v', w', source', destination', v_lists, w_lists, ?_⟩
  rw [v_host, w_host]
  exact hosts

/-- A change that leaves flows and requests alone, and of the machines of live flows keeps the
hosts and the listed flows. -/
theorem of_machines (linked : s.Linked) (numbered : s'.Numbered) (mirrored : s'.Mirrored)
    (flows : ∀ i, s'.flow? i = s.flow? i) (requests : ∀ i, s'.request? i = s.request? i)
    (kept : ∀ {id f}, s.flow? id = some f → ∀ {v m}, f.source = v ∨ f.destination = v →
      s.vm? v = some m → id ∈ m.flows →
      ∃ m', s'.vm? v = some m' ∧ m'.host = m.host ∧ id ∈ m'.flows) : s'.Linked := by
  refine ⟨numbered, mirrored, ?_, ?_, ?_, ?_⟩
  · intro id f live
    rw [flows] at live
    exact linked.machines_of_kept live (kept live)
  · intro id f r live
    rw [flows] at live
    rw [requests]
    exact linked.routed live
  · intro r b live
    rw [requests] at live
    obtain ⟨path, id, f, points, found, requested⟩ := linked.owned live
    exact ⟨path, id, f, points, (flows id).trans found, requested⟩
  · intro r b old live
    rw [requests] at live
    rw [requests]
    exact linked.replaced live

theorem of_sameRecords (linked : s.Linked) (follows : Follows s s') (same : SameRecords s s') :
    s'.Linked :=
  linked.of_machines follows.numbered follows.mirrored (same.records .flow)
    (same.records .request)
    fun _ _ m _ found listed => ⟨m, (same.records .vm _).trans found, rfl, listed⟩

end Linked

/-- A request that waits for its flow to be stored, if the flow is routed at all. -/
structure Awaits (s s' : Store K) (request : Option RequestId) (booking : Booking K) : Prop where
  fresh : ∀ {r}, request = some r → ∀ {i b}, s.request? i = some b → i.index < r.index
  requests : ∀ i, s'.request? i = if request = some i then some booking else s.request? i
  others : ∀ (j : Kind) (i : Handle j), j ≠ .request → s'.get? i = s.get? i
  path : request.isSome → booking.path.isSome
  first : booking.replaces = none

/-- Requests that are no newer than one that was there stay when the flow is stored. -/
theorem Awaits.request?_addFlow {s : Store K} {t : Transaction K} {flow : Flow K}
    {booking b : Booking K} (awaits : Awaits s t.store flow.request booking) {i r : RequestId}
    (held : s.request? i = some b) (older : r.index ≤ i.index) :
    (t.addFlow flow).2.store.request? r = s.request? r := by
  have other : flow.request ≠ some r :=
    fun same => Nat.not_lt_of_le older (awaits.fresh same held)
  rw [t.request?_addFlow, if_neg other, awaits.requests, if_neg other]

theorem awaits_none (s : Store K) (request : Request K) : Awaits s s none { request } := by
  refine ⟨nofun, fun i => ?_, fun _ _ _ => rfl, nofun, rfl⟩
  simp

theorem Gains.awaits {s s' : Store K} {id : RequestId} {request : Request K} {path : Path}
    (gains : Gains s s' id { request, path := some path }) (numbered : s.Numbered) :
    Awaits s s' (some id) { request, path := some path } := by
  refine ⟨?_, fun i => ?_, gains.others, fun _ => rfl, rfl⟩
  · intro r same i b live
    cases same
    exact gains.fresh numbered live
  · rw [gains.requests]
    simp

/-- A flow that changes from an old request to a new one, which is the same request on another
path. -/
structure Moved (flow : FlowId) (f : Flow K) (old new : RequestId) (b : Booking K) (path : Path)
    (s s' : Store K) : Prop where
  live : s.flow? flow = some f
  requested : f.request = some old
  held : s.request? old = some b
  next : new.index = s.requests.next
  flows : ∀ i, s'.flow? i = if flow = i then some { f with request := some new } else s.flow? i
  requests : ∀ i, s'.request? i =
    if old = i then none
    else if new = i then
      some { request := b.request, path := some path, flow := some flow, replaces := some old }
    else s.request? i
  tenants : ∀ i, s'.tenant? i = s.tenant? i
  vms : ∀ i, s'.vm? i = s.vm? i

namespace Moved
variable {s s' : Store K} {flow : FlowId} {f : Flow K} {old new : RequestId} {b : Booking K}
  {path : Path}

theorem lt_new (moved : Moved flow f old new b path s s') (linked : s.Linked) {r : RequestId}
    {c : Booking K} (held : s.request? r = some c) : r.index < new.index := by
  rw [moved.next]
  exact linked.numbered.lt_next (k := .request) held

theorem ne_new (moved : Moved flow f old new b path s s') (linked : s.Linked) {r : RequestId}
    {c : Booking K} (held : s.request? r = some c) : new ≠ r := by
  rintro rfl
  exact Nat.lt_irrefl _ (moved.lt_new linked held)

/-- The requests of the other flows are not touched: the old request is not theirs, and the new one
was given out for this move. -/
theorem request?_of_other (moved : Moved flow f old new b path s s') (linked : s.Linked)
    {i : FlowId} {g : Flow K} {r : RequestId} (other : flow ≠ i) (live : s.flow? i = some g)
    (requested : g.request = some r) : s'.request? r = s.request? r := by
  obtain ⟨c, held, _⟩ := linked.routed live requested
  have not_old : old ≠ r := by
    rintro rfl
    exact other (linked.flow_unique moved.live moved.requested live requested)
  rw [moved.requests, if_neg not_old, if_neg (moved.ne_new linked held)]

end Moved

namespace Linked
variable {s s' s'' : Store K}

theorem moved {flow : FlowId} {f : Flow K} {old new : RequestId} {b : Booking K} {path : Path}
    (linked : s.Linked) (follows : Follows s s') (moved : Moved flow f old new b path s s') :
    s'.Linked := by
  refine ⟨follows.numbered, follows.mirrored, ?_, ?_, ?_, ?_⟩
  · intro i g live
    rw [moved.flows] at live
    simp only [moved.vms]
    by_cases h : flow = i
    · subst h
      rw [if_pos rfl] at live
      cases live
      obtain ⟨v, w, source, destination, listed, listed', hosts⟩ := linked.machines moved.live
      refine ⟨v, w, source, destination, listed, listed', ?_⟩
      rw [moved.requested] at hosts
      constructor
      · nofun
      · exact fun same => nomatch hosts.mpr same
    · rw [if_neg h] at live
      exact linked.machines live
  · intro i g r live requested
    rw [moved.flows] at live
    by_cases h : flow = i
    · subst h
      rw [if_pos rfl] at live
      cases live
      cases requested
      rw [moved.requests, if_neg (moved.ne_new linked moved.held).symm, if_pos rfl]
      exact ⟨_, rfl, rfl⟩
    · rw [if_neg h] at live
      rw [moved.request?_of_other linked h live requested]
      exact linked.routed live requested
  · intro r c live
    rw [moved.requests] at live
    split at live
    · cases live
    · rename_i not_old
      split at live
      · rename_i is_new
        cases live
        refine ⟨rfl, flow, { f with request := some new }, rfl, ?_, congrArg some is_new⟩
        rw [moved.flows, if_pos rfl]
      · obtain ⟨held, i, g, points, found, requested⟩ := linked.owned live
        refine ⟨held, i, g, points, ?_, requested⟩
        rw [moved.flows, if_neg]
        · exact found
        · intro same
          subst same
          rw [moved.live] at found
          cases found
          rw [moved.requested] at requested
          exact not_old (Option.some.inj requested)
  · intro r c o live replaces
    rw [moved.requests] at live
    rw [moved.requests]
    split at live
    · cases live
    · split at live
      · rename_i is_new
        subst is_new
        cases live
        cases replaces
        exact ⟨moved.lt_new linked moved.held, if_pos rfl⟩
      · obtain ⟨lower, gone⟩ := linked.replaced live replaces
        refine ⟨lower, ?_⟩
        have not_new : new ≠ o := by
          rintro rfl
          exact Nat.lt_asymm lower (moved.lt_new linked live)
        rw [if_neg not_new, gone]
        split <;> rfl

/-- A new flow enters with its request, if it has one. -/
theorem addFlow {flow : Flow K} {booking : Booking K} {v w : VirtualMachine} {t : Transaction K}
    (linked : s.Linked) (awaits : Awaits s t.store flow.request booking)
    (numbered : t.store.Numbered) (mirrored : t.store.Mirrored)
    (source : s.vm? flow.source = some v) (destination : s.vm? flow.destination = some w)
    (hosts : flow.request = none ↔ v.host = w.host) :
    (t.addFlow flow).2.store.Linked := by
  have steps := t.steps_addFlow flow
  have new_flow : s.flow? (t.addFlow flow).1 = none := by
    refine (awaits.others .flow _ nofun).symm.trans ?_
    exact numbered .flow _ (Nat.le_refl _)
  have vm? : ∀ i, t.store.vm? i = s.vm? i := fun i => awaits.others .vm i nofun
  have flow? : ∀ i, t.store.flow? i = s.flow? i := fun i => awaits.others .flow i nofun
  have request? := awaits.requests
  have kept : ∀ {i m}, s.vm? i = some m → ∃ m', (t.addFlow flow).2.store.vm? i = some m' ∧
      m'.host = m.host ∧ (∀ id ∈ m.flows, id ∈ m'.flows) ∧
      (flow.source = i ∨ flow.destination = i → (t.addFlow flow).1 ∈ m'.flows) := by
    intro i m found
    rw [t.vm?_addFlow, vm?, found]
    split
    · rename_i its_own
      exact ⟨m.addFlow _, rfl, rfl, fun id listed => mem_enlist.mpr (.inl listed),
        fun _ => mem_enlist.mpr (.inr rfl)⟩
    · rename_i foreign
      exact ⟨m, rfl, rfl, fun _ listed => listed, fun its_own => absurd its_own foreign⟩
  refine ⟨steps.numbered numbered, steps.mirrored numbered mirrored, ?_, ?_, ?_, ?_⟩
  · intro i f live
    rw [t.flow?_addFlow, flow?] at live
    split at live
    · rename_i is_new
      cases live
      obtain ⟨v', found, v_host, _, lists⟩ := kept source
      obtain ⟨w', found', w_host, _, lists'⟩ := kept destination
      rw [← is_new]
      refine ⟨v', w', found, found', lists (.inl rfl), lists' (.inr rfl), ?_⟩
      rw [v_host, w_host]
      exact hosts
    · refine linked.machines_of_kept live fun _ found listed => ?_
      obtain ⟨m', found', host, lists, _⟩ := kept found
      exact ⟨m', found', host, lists i listed⟩
  · intro i f r live requested
    rw [t.flow?_addFlow, flow?] at live
    split at live
    · rename_i is_new
      cases live
      rw [t.request?_addFlow, request?, if_pos requested, if_pos requested, ← is_new]
      exact ⟨_, rfl, rfl⟩
    · obtain ⟨b, found, points⟩ := linked.routed live requested
      rw [awaits.request?_addFlow found (Nat.le_refl _)]
      exact ⟨b, found, points⟩
  · intro r b live
    rw [t.request?_addFlow, request?] at live
    split at live
    · rename_i its_own
      cases live
      refine ⟨awaits.path (by rw [its_own]; rfl), _, flow, rfl, ?_, its_own⟩
      rw [t.flow?_addFlow, if_pos rfl]
    · obtain ⟨path, i, f, points, found, requested⟩ := linked.owned live
      refine ⟨path, i, f, points, ?_, requested⟩
      rw [t.flow?_addFlow, flow?, if_neg]
      · exact found
      · intro same
        subst same
        rw [new_flow] at found
        cases found
  · intro r b old live replaces
    rw [t.request?_addFlow, request?] at live
    split at live
    · cases live
      rw [awaits.first] at replaces
      cases replaces
    · obtain ⟨lower, gone⟩ := linked.replaced live replaces
      exact ⟨lower, (awaits.request?_addFlow live (Nat.le_of_lt lower)).trans gone⟩

/-- A flow is removed with its request. -/
theorem removeFlow {t : Transaction K} (linked : t.store.Linked) (flow : FlowId) :
    (t.removeFlow flow).store.Linked := by
  cases live : t.store.flow? flow with
  | none => rwa [t.removeFlow_of_none live]
  | some record =>
    have steps := t.steps_removeFlow flow
    have kept : ∀ {id i m}, flow ≠ id → t.store.vm? i = some m → id ∈ m.flows →
        ∃ m', (t.removeFlow flow).store.vm? i = some m' ∧ m'.host = m.host ∧ id ∈ m'.flows := by
      intro id i m other found listed
      rw [t.vm?_removeFlow live, found]
      split
      · exact ⟨m.removeFlow flow, rfl, rfl, mem_delist.mpr ⟨listed, other.symm⟩⟩
      · exact ⟨m, rfl, rfl, listed⟩
    refine ⟨steps.numbered linked.numbered, steps.mirrored linked.numbered linked.mirrored,
      ?_, ?_, ?_, ?_⟩
    · intro i f found
      rw [t.flow?_removeFlow] at found
      split at found
      · cases found
      · rename_i other
        exact linked.machines_of_kept found fun _ => kept other
    · intro i f r found requested
      rw [t.flow?_removeFlow] at found
      rw [t.request?_removeFlow live]
      split at found
      · cases found
      · rename_i other
        obtain ⟨b, held, points⟩ := linked.routed found requested
        rw [if_neg]
        · exact ⟨b, held, points⟩
        · intro same
          exact other (linked.flow_unique live same found requested)
    · intro r b held
      rw [t.request?_removeFlow live] at held
      split at held
      · cases held
      · rename_i not_its_own
        obtain ⟨path, i, f, points, found, requested⟩ := linked.owned held
        refine ⟨path, i, f, points, ?_, requested⟩
        rw [t.flow?_removeFlow, if_neg]
        · exact found
        · intro same
          subst same
          rw [live] at found
          cases found
          exact not_its_own requested
    · intro r b old held replaces
      rw [t.request?_removeFlow live] at held
      rw [t.request?_removeFlow live]
      split at held
      · cases held
      · obtain ⟨lower, gone⟩ := linked.replaced held replaces
        rw [gone]
        exact ⟨lower, by split <;> rfl⟩

end Linked
end Store
end FlowAdmission
