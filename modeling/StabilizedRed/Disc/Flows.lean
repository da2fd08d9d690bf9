import StabilizedRed.Disc.ZombieList
import StabilizedRed.Network.FlowHash

/-!
# Zombies stand for flows

Without packet filters the flow id of a packet is its hash. Where all packets that arrive are near
to each other, for example the connections of two hosts to one port, no two of their flows share an
id: every zombie stands for one flow (`run_flows`), so an arrival hits the zombies of its own flow
and no others.
-/

namespace StabilizedRed

/-- The item that arrives. -/
def Event.offered {α : Type} (e : Event α) : Option α :=
  match e.call with
  | .enqueue item => some item
  | _ => none

/-- The flow id of a packet without filters. -/
def Ipv4QueueDiscItem.flowID (x : Ipv4QueueDiscItem) : Int32 := (x.hash 0).toInt32

/-- Near packets have one flow id only if they are of one flow. -/
theorem Ipv4QueueDiscItem.flowID_eq_iff {x y : Ipv4QueueDiscItem} (h : x.flow.Near y.flow) :
    x.flowID = y.flowID ↔ x.flow = y.flow := by
  rw [← hash_eq_iff h 0]
  unfold flowID
  exact ⟨fun he => congrArg Int32.toUInt32 he, fun he => congrArg UInt32.toInt32 he⟩

namespace ZombieQueueDisc

variable {Z : Type} {K : ZombieKind Z} {a : Attributes Ipv4QueueDiscItem}
  {d : ZombieQueueDisc Z Ipv4QueueDiscItem}

theorem Steady.givenFlowID_eq (h : Steady a d) (hf : a.filters = [])
    (e : Event Ipv4QueueDiscItem) :
    d.givenFlowID e = e.offered.map Ipv4QueueDiscItem.flowID := by
  obtain ⟨now, c⟩ := e
  cases c with
  | enqueue item =>
    have hhash := flowHash_of_filters_nil (h.filters.trans hf) item
    show (flowHash d.toQueueDisc item).map UInt32.toInt32 = _
    rw [hhash]
    rfl
  | dequeue => rfl
  | peek => rfl

/-- **Run lemma.** Every zombie has the flow id of a packet that arrived. -/
theorem run_flowIDs (k : DiscKind) (hf : a.filters = []) (es : List (Event Ipv4QueueDiscItem)) :
    ∀ z ∈ ((k.machine Ipv4QueueDiscItem).run (doInitialize a) es).zombies,
      ∃ x ∈ es.filterMap Event.offered, k.kind.flowID z = x.flowID := by
  have L := k.lawful
  have h := Machine.event_invariant (M := k.machine Ipv4QueueDiscItem) (g := Event.offered)
    (I := fun d items => Steady a d ∧ ∀ z ∈ d.zombies, ∃ x ∈ items, k.kind.flowID z = x.flowID)
    ?_ ⟨steady_doInitialize a, fun _ hz => absurd hz List.not_mem_nil⟩ es
  · exact h.2
  · rintro d e items ⟨hs, hz⟩
    have hgiven {f : Int32} (hg : d.givenFlowID e = some f) :
        ∃ x ∈ items ++ e.offered.toList, f = x.flowID := by
      rw [hs.givenFlowID_eq hf] at hg
      obtain ⟨x, hx, rfl⟩ := Option.map_eq_some_iff.mp hg
      exact ⟨x, List.mem_append_right items (Option.mem_toList.mpr hx), rfl⟩
    refine ⟨hs.next e, next_zombies_forall (K := k.kind)
      (P := fun z => ∃ x ∈ items ++ e.offered.toList, k.kind.flowID z = x.flowID) ?_ ?_ ?_
      hs.length_le fun z hm => ?_⟩
    · intro f hg
      rw [L.flowID_create]
      exact hgiven hg
    · intro z hx
      rwa [L.flowID_hit]
    · intro f z hg _
      rw [L.flowID_overwrite]
      exact hgiven hg
    · obtain ⟨x, hx, he⟩ := hz z hm
      exact ⟨x, List.mem_append_left _ hx, he⟩

/-- **Every zombie stands for one flow.** Without filters, and where the packets that arrive are
near to each other, a zombie has the flow id of exactly the packets of one flow that arrived. -/
theorem run_flows (k : DiscKind) (hf : a.filters = []) {es : List (Event Ipv4QueueDiscItem)}
    (hn : ∀ x ∈ es.filterMap Event.offered, ∀ y ∈ es.filterMap Event.offered,
      x.flow.Near y.flow) :
    ∀ z ∈ ((k.machine Ipv4QueueDiscItem).run (doInitialize a) es).zombies,
      ∃ x ∈ es.filterMap Event.offered, ∀ y ∈ es.filterMap Event.offered,
        k.kind.flowID z = y.flowID ↔ y.flow = x.flow := by
  intro z hz
  obtain ⟨x, hx, he⟩ := run_flowIDs k hf es z hz
  refine ⟨x, hx, fun y hy => ?_⟩
  rw [he, Ipv4QueueDiscItem.flowID_eq_iff (hn x hx y hy), eq_comm]

theorem run_flows_twoPorts :
    let es : List (Event Ipv4QueueDiscItem) :=
      [⟨0, .enqueue (.tcp 980 49153)⟩, ⟨1, .enqueue (.tcp 480 49154)⟩]
    let d := (DiscKind.es.machine Ipv4QueueDiscItem).run (doInitialize .plain) es
    d.zombies.length = 2 ∧ ∀ z ∈ d.zombies,
      ∃ x ∈ es.filterMap Event.offered, ∀ y ∈ es.filterMap Event.offered,
        DiscKind.es.kind.flowID z = y.flowID ↔ y.flow = x.flow := by
  refine ⟨by decide, run_flows .es rfl fun x hx y hy => ?_⟩
  simp only [Event.offered, List.filterMap_cons, List.filterMap_nil, List.mem_cons,
    List.not_mem_nil, or_false] at hx hy
  rcases hx with rfl | rfl <;> rcases hy with rfl | rfl <;>
    exact Ipv4QueueDiscItem.near_tcp _ _ _ _

end ZombieQueueDisc

end StabilizedRed
