import StabilizedRed.Root.Fifo

/-!
# A root queue disc on a device with one transmission queue

Such a disc never requeues: it takes a packet out only after it has seen that the queue is not
stopped, and the packet is for this queue. So a turn of the loop of `Run` has two outcomes
(`Root.runLoop_single`): the run ends because the disc is empty or the queue is stopped, or the head
of the disc goes to the send callback.
-/

namespace StabilizedRed

variable {Z α : Type} [QueueDiscItem α]

/-- The disc is on a device with the one transmission queue `tx`, and its items are for it. -/
structure QueueDisc.OnSingle (tx : NetDeviceQueue) (d : QueueDisc α) : Prop where
  iface : d.devQueueIface.map (·.txQueues) = some [tx]
  requeued : d.requeued = none
  txq : ∀ x ∈ d.queue.packets, getTxQueueIndex (addHeader x) = 0

namespace QueueDisc

variable {tx : NetDeviceQueue} {d : QueueDisc α}

theorem OnSingle.exists_iface (h : d.OnSingle tx) :
    ∃ i, d.devQueueIface = some i ∧ i.txQueues = [tx] := by
  have hi := h.iface
  rwa [Option.map_eq_some_iff] at hi

theorem OnSingle.txStopped (h : d.OnSingle tx) : d.txStopped 0 = tx.isStopped := by
  obtain ⟨i, hi, hq⟩ := h.exists_iface
  unfold QueueDisc.txStopped NetDeviceQueueInterface.isStopped
  rw [hi, Option.any_some, hq]
  rfl

/-- **A restart on a device with one queue** does nothing if the queue is stopped or the disc is
empty, and else gives the head of the disc to the callback. -/
theorem OnSingle.restart_cases (h : d.OnSingle tx) (hc : d.queue.Counted) (hp : d.peeked = false) :
    ((tx.isStopped = true ∨ d.queue.nPackets = 0) ∧ d.restart = (none, d)) ∨
    (∃ item rest, d.queue.packets = item :: rest ∧ d.queue.nPackets ≠ 0 ∧ tx.isStopped = false ∧
      d.restart = (some (addHeader item), d.dequeueHead item rest)) := by
  obtain ⟨i, hi, hq⟩ := h.exists_iface
  have htest : d.devQueueIface.all (fun i => decide (1 < i.getNTxQueues) || !i.isStopped 0) =
      !tx.isStopped := by
    rw [hi, Option.all_some]
    unfold NetDeviceQueueInterface.getNTxQueues NetDeviceQueueInterface.isStopped
    rw [hq]
    rfl
  unfold restart dequeuePacket
  rw [h.requeued, htest]
  cases hs : tx.isStopped with
  | true => exact .inl ⟨.inl rfl, rfl⟩
  | false =>
    rcases d.doDequeue_cases hc hp with ⟨hn, he⟩ | ⟨item, rest, hpk, hn, he⟩
    · refine .inl ⟨.inr hn, ?_⟩
      simp only [Bool.not_false, if_true, dequeue_of_not_requeued h.requeued, he, Option.map_none]
    · refine .inr ⟨item, rest, hpk, hn, rfl, ?_⟩
      have hidx : getTxQueueIndex (addHeader item) = 0 := h.txq item (hpk ▸ List.mem_cons_self)
      have hstop : (d.dequeueHead item rest).txStopped 0 = false := h.txStopped.trans hs
      simp only [Bool.not_false, if_true, dequeue_of_not_requeued h.requeued, he, Option.map_some,
        hidx]
      exact if_neg (by rw [show (0 : UInt8).toNat = 0 from rfl, hstop]; exact Bool.false_ne_true)

end QueueDisc

/-- `Enqueue` leaves the device, the quota and the flag of `Run` alone. -/
theorem ZombieQueueDisc.enqueue_service (K : ZombieKind Z) (now : Time) (d : ZombieQueueDisc Z α)
    (item : α) : (d.enqueue K now item).2.devQueueIface = d.devQueueIface ∧
      (d.enqueue K now item).2.quota = d.quota ∧
      (d.enqueue K now item).2.running = d.running := by
  obtain ⟨flowID, reason, _, _, _, -, he⟩ := ZombieQueueDisc.enqueue_frame K now d item
  have hn : ((d.receive item).noteFlowID item flowID).devQueueIface = d.devQueueIface ∧
      ((d.receive item).noteFlowID item flowID).quota = d.quota ∧
      ((d.receive item).noteFlowID item flowID).running = d.running := by
    unfold QueueDisc.noteFlowID
    split <;> exact ⟨rfl, rfl, rfl⟩
  rw [he]
  rcases QueueDisc.conclude_cases ((d.receive item).noteFlowID item flowID) item reason with
    ⟨-, -, h⟩ | ⟨-, -, h⟩ | ⟨_, -, h⟩ <;> rw [h] <;> exact hn

namespace Root

variable {tx : NetDeviceQueue} {r : Root Z α} {m : QueueSize}

/-- The head of the disc goes to the send callback of a run with this much quota left. -/
def giveHead (r : Root Z α) (quota : UInt32) (item : α) (rest : List α) : Root Z α :=
  { r.onBase (r.disc.dequeueHead item rest) with
    pending := ⟨quota, addHeader item⟩ :: r.pending
    sent := r.sent ++ [addHeader item] }

/-- One turn of the loop of `Run`. -/
theorem runLoop_single (h : r.disc.OnSingle tx) (ho : InOrder m r) (quota : UInt32) :
    ((tx.isStopped = true ∨ r.disc.queue.nPackets = 0) ∧
      r.runLoop quota = r.onBase r.disc.runEnd) ∨
    (∃ item rest, r.disc.queue.packets = item :: rest ∧ r.disc.queue.nPackets ≠ 0 ∧
      tx.isStopped = false ∧ r.runLoop quota = r.giveHead quota item rest) := by
  unfold runLoop
  rcases h.restart_cases ho.counted ho.peeked with ⟨hw, he⟩ | ⟨item, rest, hpk, hn, hs, he⟩ <;>
    rw [he]
  · exact .inl ⟨hw, rfl⟩
  · exact .inr ⟨item, rest, hpk, hn, hs, rfl⟩

/-- **What one turn of `Run` does** with this quota: the run ends, because the queue is stopped, the
disc is empty or the quota is spent; or the head of the disc goes to the send callback. -/
inductive Turn (tx : NetDeviceQueue) (quota : UInt32) (spent : Prop) (r r' : Root Z α) : Prop
  | ended (why : tx.isStopped = true ∨ r.disc.queue.nPackets = 0 ∨ spent)
      (pending : r'.pending = []) (running : r'.disc.running = false) (sent : r'.sent = r.sent)
      (queue : r'.disc.queue = r.disc.queue) (quota_eq : r'.disc.quota = r.disc.quota)
  | gave (item : α) (rest : List α) (queue : r.disc.queue.packets = item :: rest)
      (rest_eq : r'.disc.queue.packets = rest) (notStopped : tx.isStopped = false)
      (pending : r'.pending = [⟨quota, addHeader item⟩]) (running : r'.disc.running = true)
      (sent : r'.sent = r.sent ++ [addHeader item]) (more : ¬ spent)
      (quota_eq : r'.disc.quota = r.disc.quota)

/-- The disc is on a device with one transmission queue, the packets it accepted have the property
`C`, and at most one call of `Run` waits for the callback, with such a packet. -/
structure Steady (m : QueueSize) (C : α → Prop) (tx : NetDeviceQueue) (r : Root Z α) : Prop where
  inOrder : InOrder m r
  single : r.disc.OnSingle tx
  accepted : ∀ x ∈ r.accepted, C (addHeader x)
  running : r.disc.running = true ↔ r.pending ≠ []
  pending : ∀ p ∈ r.pending, r.pending = [p] ∧ C p.item ∧ getTxQueueIndex p.item = 0

variable {K : ZombieKind Z} {C : α → Prop}

theorem Steady.carried (h : Steady m C tx r) : ∀ x ∈ r.disc.queue.packets, C (addHeader x) := by
  obtain ⟨left, -, hacc, -⟩ := h.inOrder.order
  exact fun x hx => h.accepted x (hacc ▸ List.mem_append_right left hx)

/-- The loop of `Run` from its head, with nothing waiting for the callback. -/
theorem Steady.runLoop (h : Steady m C tx r) (hp : r.pending = []) {b : QueueDisc α}
    (hb : b = { r.disc.toQueueDisc with running := true }) (quota : UInt32) {spent : Prop}
    (hmore : ¬ spent) :
    Steady m C tx ((r.onBase b).runLoop quota) ∧
      Turn tx quota spent r ((r.onBase b).runLoop quota) := by
  subst hb
  have ho : InOrder m (r.onBase { r.disc.toQueueDisc with running := true }) :=
    h.inOrder.onBase rfl rfl rfl fun _ ht => { ht with }
  have hs : (r.onBase { r.disc.toQueueDisc with running := true }).disc.OnSingle tx :=
    ⟨h.single.iface, h.single.requeued, h.single.txq⟩
  have hloop := ho.runLoop quota
  rcases runLoop_single hs ho quota with ⟨hw, he⟩ | ⟨item, rest, hpk, hn, hopen, he⟩ <;>
    rw [he] at hloop ⊢
  · refine ⟨⟨hloop, ⟨h.single.iface, h.single.requeued, h.single.txq⟩, h.accepted, ?_, ?_⟩, ?_⟩
    · exact iff_of_false Bool.noConfusion (not_not.mpr hp)
    · intro p hmem
      exact absurd (hp ▸ hmem) List.not_mem_nil
    · exact .ended (hw.imp_right .inl) hp rfl rfl rfl rfl
  · have hpk' : r.disc.queue.packets = item :: rest := hpk
    have hmem : ∀ x ∈ rest, x ∈ r.disc.queue.packets := fun x hx =>
      hpk' ▸ List.mem_cons_of_mem _ hx
    have hhead : item ∈ r.disc.queue.packets := hpk' ▸ List.mem_cons_self
    have hpend : ((r.onBase { r.disc.toQueueDisc with running := true }).giveHead quota item
        rest).pending = [⟨quota, addHeader item⟩] := congrArg (_ :: ·) hp
    refine ⟨⟨hloop, ⟨h.single.iface, h.single.requeued, fun x hx => h.single.txq x (hmem x hx)⟩,
      h.accepted, ?_, ?_⟩, ?_⟩
    · exact iff_of_true rfl (List.cons_ne_nil _ _)
    · intro p hp'
      rw [hpend] at hp' ⊢
      obtain rfl := List.mem_singleton.mp hp'
      exact ⟨rfl, h.carried item hhead, h.single.txq item hhead⟩
    · exact .gave item rest hpk' rfl hopen hpend rfl rfl hmore rfl

/-- A call of `Run` while none runs. -/
theorem Steady.run (h : Steady m C tx r) (hp : r.pending = []) :
    Steady m C tx (Root.next K r .run) ∧ Turn tx r.disc.quota False r (Root.next K r .run) := by
  have hr : r.disc.running = false := by
    rw [← Bool.not_eq_true, h.running, not_not]
    exact hp
  have he : Root.next K r .run =
      (r.onBase { r.disc.toQueueDisc with running := true }).runLoop r.disc.quota := by
    show r.run = _
    unfold Root.run QueueDisc.runBegin
    rw [if_neg (hr ▸ Bool.false_ne_true)]
  rw [he]
  exact h.runLoop hp rfl r.disc.quota not_false

/-- `Enqueue` appends the packet to the disc, or leaves the packets of the disc alone. -/
theorem Steady.enqueue (h : Steady m C tx r) (now : Time) {item : α} (hC : C (addHeader item))
    (hidx : getTxQueueIndex (addHeader item) = 0) :
    Steady m C tx (Root.next K r (.enqueue now item)) := by
  have ho := h.inOrder.enqueue (K := K) now item
  have hk := ZombieQueueDisc.enqueue_keeps (K := K) now r.disc item
  obtain ⟨hif, -, hrun⟩ := ZombieQueueDisc.enqueue_service K now r.disc item
  refine ⟨ho, ⟨?_, ?_, ?_⟩, ?_, ?_, h.pending⟩
  · show (r.disc.enqueue K now item).2.devQueueIface.map _ = _
    rw [hif]
    exact h.single.iface
  · exact hk.requeued.trans h.single.requeued
  · intro x hx
    have hx : x ∈ (r.disc.enqueue K now item).2.queue.packets := hx
    rw [ZombieQueueDisc.enqueue_packets, List.mem_append] at hx
    split at hx
    · rcases hx with hx | hx
      · exact h.single.txq x hx
      · rwa [List.mem_singleton.mp hx]
    · exact h.single.txq x (hx.resolve_right List.not_mem_nil)
  · intro x hx
    have hx : x ∈ if (r.disc.enqueue K now item).1 then r.accepted ++ [item] else r.accepted := hx
    split at hx
    · rcases List.mem_append.mp hx with hx | hx
      · exact h.accepted x hx
      · rwa [List.mem_singleton.mp hx]
    · exact h.accepted x hx
  · show (r.disc.enqueue K now item).2.running = true ↔ _
    rw [hrun]
    exact h.running

theorem InOrder.nPackets (h : InOrder m r) : r.disc.nPackets = r.disc.queue.nPackets := by
  obtain ⟨left, ht, -, -⟩ := h.order
  exact ht.nPackets

/-- What `Transmit` returns: another packet may go out. -/
theorem transmitReturn_eq_false_iff (h : r.disc.OnSingle tx) (ho : InOrder m r) {item : α}
    (hidx : getTxQueueIndex item = 0) :
    r.disc.transmitReturn item = false ↔ tx.isStopped = true ∨ r.disc.queue.nPackets = 0 := by
  unfold QueueDisc.transmitReturn
  rw [hidx, show (0 : UInt8).toNat = 0 from rfl, h.txStopped, ho.nPackets, Bool.not_eq_false',
    Bool.or_eq_true, beq_iff_eq, or_comm]

/-- The send callback returns to the one call of `Run` that waits for it. -/
theorem Steady.sendReturned (h : Steady m C tx r) {p : PendingRun α} (hp : r.pending = [p]) :
    Steady m C tx (Root.next K r .sendReturned) ∧
      Turn tx (p.quota - 1) (p.quota - 1 = 0) r (Root.next K r .sendReturned) := by
  have hrun : r.disc.running = true := h.running.mpr (hp ▸ List.cons_ne_nil _ _)
  obtain ⟨-, -, hidx⟩ := h.pending p (hp ▸ List.mem_cons_self)
  have hreturn := transmitReturn_eq_false_iff h.single h.inOrder hidx
  have ho : InOrder m (r.onBase r.disc.runEnd) :=
    h.inOrder.onBase rfl rfl rfl fun _ ht => { ht with }
  have hend : Steady m C tx ({ r with pending := [] }.onBase r.disc.runEnd) :=
    { inOrder := ⟨ho.peeked, ho.order⟩
      single := ⟨h.single.iface, h.single.requeued, h.single.txq⟩
      accepted := h.accepted
      running := iff_of_false Bool.noConfusion (not_not.mpr rfl)
      pending := List.forall_mem_nil _ }
  have hnext : Root.next K r .sendReturned =
      if r.disc.transmitReturn p.item then
        if p.quota - 1 ≤ 0 then { r with pending := [] }.onBase r.disc.runEnd
        else { r with pending := [] }.runLoop (p.quota - 1)
      else { r with pending := [] }.onBase r.disc.runEnd := by
    show r.sendReturned = _
    unfold Root.sendReturned
    rw [hp]
  rw [hnext]
  cases ht : r.disc.transmitReturn p.item with
  | false =>
    rw [if_neg Bool.false_ne_true]
    exact ⟨hend, .ended ((hreturn.mp ht).imp_right .inl) rfl rfl rfl rfl rfl⟩
  | true =>
    rw [if_pos rfl]
    by_cases hq : p.quota - 1 ≤ 0
    · rw [if_pos hq]
      exact ⟨hend, .ended (.inr (.inr (UInt32.le_zero_iff.mp hq))) rfl rfl rfl rfl rfl⟩
    · rw [if_neg hq]
      have hself : { r.disc.toQueueDisc with running := true } = r.disc.toQueueDisc := by
        rw [← hrun]
      have hsame : ({ r with pending := [] }.onBase r.disc.runEnd).onBase
          { r.disc.toQueueDisc with running := true } = { r with pending := [] } := by
        rw [hself]
        rfl
      obtain ⟨hsteady, hturn⟩ := hend.runLoop rfl (b := { r.disc.toQueueDisc with running := true })
        rfl (p.quota - 1) fun h0 => hq (UInt32.le_zero_iff.mpr h0)
      rw [hsame] at hsteady hturn
      refine ⟨hsteady, ?_⟩
      cases hturn with
      | ended why pending running sent queue quota =>
        exact .ended why pending running sent queue quota
      | gave item rest queue rest_eq notStopped pending running sent more quota =>
        exact .gave item rest queue rest_eq notStopped pending running sent more quota

end Root

end StabilizedRed
