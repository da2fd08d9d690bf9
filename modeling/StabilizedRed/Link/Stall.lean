import StabilizedRed.Link.Order

/-!
# A byte limit below the MTU blocks the link

The device keeps as many bytes of its queue free as the MTU. If the whole limit is less than that,
the first packet stops the transmission queue, whether it fits or not, and no dequeue wakes it: the
disc hands one packet over and no other (`run_stalls`).
-/

namespace StabilizedRed

variable {Z α : Type} [NetDeviceItem α]

/-- A limit in bytes below the MTU would always overflow. -/
theorem Queue.wouldOverflow_of_lt {β : Type} [QueueItem β] {q : Queue β} {mtu : UInt16}
    (hu : q.maxSize.unit = .bytes) (hle : q.nBytes ≤ q.maxSize.value)
    (hlt : q.maxSize.value.toNat < mtu.toNat) : q.wouldOverflow 1 mtu.toUInt32 = true := by
  have hmtu := mtu.toNat_lt
  rw [UInt32.le_iff_toNat_le] at hle
  unfold wouldOverflow
  rw [hu]
  dsimp only
  rw [decide_eq_true_eq, UInt32.lt_iff_toNat_lt, UInt32.toNat_add, UInt16.toNat_toUInt32,
    Nat.mod_eq_of_lt (by omega)]
  omega

namespace Link

variable {l : Link Z α} {K : ZombieKind Z} {tx : NetDeviceQueue} {a : Attributes α}

/-- The device's queue drops the packet, and the transmission queue is stopped. -/
def refuse (l : Link Z α) (x : α) : Link Z α :=
  { l with
    device := (l.device.traced l.agenda.now (.dropBeforeEnqueue (frame x))
      (l.device.queue.dropBeforeEnqueue (frame x))).2
    root := l.root.setTx (l.txQueue.apply .stop)
    dropped := l.dropped ++ [x] }

/-- The callback for a packet that does not fit. -/
theorem callback_refused (h : l.root.disc.OnSingle tx) {p : PendingRun α}
    {ps : List (PendingRun α)} (hp : l.root.pending = p :: ps) (hup : l.device.linkUp = true)
    (hf : ¬ l.device.queue.fits (frame p.item)) :
    callback K l = (l.refuse p.item).sendReturned K := by
  have hsend : l.device.send l.agenda.now p.item (getProtocol p.item) =
      (false, [NetDeviceQueue.Change.stop].map .change ++ [.macTxDrop p.item],
        (l.device.traced l.agenda.now (.dropBeforeEnqueue (frame p.item))
          (l.device.queue.dropBeforeEnqueue (frame p.item))).2) := by
    unfold PointToPointNetDevice.send
    rw [if_neg (by rw [hup]; exact Bool.noConfusion),
      show (⟨etherToPpp (getProtocol p.item), p.item⟩ : PppPacket α) = frame p.item from rfl,
      Queue.enqueue_of_not_fits hf]
    rfl
  unfold callback refuse
  rw [hp]
  dsimp only
  rw [hsend, txQueue_eq h]
  dsimp only
  rw [List.foldl_append, perform_traced K h]
  rfl

/-- The limit of the device's queue is in bytes and less than the MTU. -/
structure BelowMtu (a : Attributes α) : Prop where
  unit_eq : a.maxSize.unit = .bytes
  value_lt : a.maxSize.value.toNat < a.mtu.toNat

/-- The state of the device of such a link: nothing waits. -/
structure Vacant (a : Attributes α) (d : PointToPointNetDevice α) : Prop where
  maxSize_eq : d.queue.maxSize = a.maxSize
  mtu_eq : d.mtu = a.mtu
  linkUp : d.linkUp = true
  counted : d.queue.Counted
  packets_eq : d.queue.packets = []

/-- The first packet is dropped, or it goes through the device's queue; either way the transmission
queue is stopped. -/
theorem Vacant.callback (h : Vacant a l.device) (hb : BelowMtu a) (hs : l.root.disc.OnSingle tx)
    {p : PendingRun α} {ps : List (PendingRun α)} (hp : l.root.pending = p :: ps)
    (hr : l.device.txMachineState = .ready) :
    ∃ (l₁ : Link Z α) (tx₁ : NetDeviceQueue), Vacant a l₁.device ∧
      l₁.root = l.root.setTx tx₁ ∧ tx₁.stoppedByDevice = true ∧
      Link.callback K l = l₁.sendReturned K := by
  by_cases hf : l.device.queue.fits (frame p.item)
  · have hq : (l.takeIn (frame p.item)).device.queue.packets = [frame p.item] :=
      congrArg (· ++ [frame p.item]) h.packets_eq
    have hc := h.counted.insertEnd (frame p.item)
    have hn : (l.takeIn (frame p.item)).device.queue.nPackets ≠ 0 := by
      have hcount : (l.takeIn (frame p.item)).device.queue.nPackets =
          UInt32.ofNat (l.takeIn (frame p.item)).device.queue.packets.length := hc.nPackets
      rw [hcount, hq, List.length_singleton]
      decide
    have hin : (l.device.queue.insertEnd (frame p.item)).nBytes ≤ a.maxSize.value := by
      unfold Queue.fits Queue.getCurrentSize QueueSizeUnit.cost at hf
      rw [h.maxSize_eq] at hf
      simp only [hb.unit_eq] at hf
      exact hf
    refine ⟨((l.takeIn (frame p.item)).takeOut (frame p.item) []).startTransmit (frame p.item), _,
      ⟨h.maxSize_eq, h.mtu_eq, h.linkUp, hc.eraseBegin hq, rfl⟩, rfl, ?_,
      callback_ready hs hp h.linkUp hf hr hn h.packets_eq⟩
    have hunit : l.device.queue.maxSize.unit = .bytes := h.maxSize_eq ▸ hb.unit_eq
    have hlt : l.device.queue.maxSize.value.toNat < l.device.mtu.toNat := by
      rw [h.maxSize_eq, h.mtu_eq]
      exact hb.value_lt
    have hfull : (l.device.queue.insertEnd (frame p.item)).wouldOverflow 1 l.device.mtu.toUInt32 =
        true := Queue.wouldOverflow_of_lt hunit (h.maxSize_eq ▸ hin) hlt
    have hvacant : ((l.device.queue.insertEnd (frame p.item)).eraseBegin (frame p.item)
        []).wouldOverflow 1 l.device.mtu.toUInt32 = true := by
      refine Queue.wouldOverflow_of_lt hunit ?_ hlt
      rw [show ((l.device.queue.insertEnd (frame p.item)).eraseBegin (frame p.item) []).nBytes = 0
        from (hc.eraseBegin hq).nBytes]
      exact UInt32.zero_le
    unfold PointToPointNetDevice.changes
    rw [NetDeviceQueue.dequeue_stoppedByDevice, Bool.and_eq_true]
    refine ⟨?_, hvacant⟩
    show (l.txQueue.perform (NetDeviceQueue.queueTrace _ _ _ _ (.enqueue _)).1).2.stoppedByDevice =
      true
    rw [NetDeviceQueue.enqueue_stoppedByDevice, hfull, Bool.or_true]
  · exact ⟨l.refuse p.item, _,
      ⟨h.maxSize_eq, h.mtu_eq, h.linkUp, h.counted.dropBeforeEnqueue _, h.packets_eq⟩, rfl, rfl,
      callback_refused hs hp h.linkUp hf⟩

/-- At most one packet was handed over, and then the transmission queue is stopped. -/
structure Stalled (a : Attributes α) (l : Link Z α) : Prop where
  steady : Root.Steady a.disc.maxSize (fun _ => True) l.txQueue l.root
  vacant : Vacant a l.device
  pending : l.root.pending = []
  sent : l.txQueue.stoppedByDevice = true ∧ l.root.sent.length ≤ 1 ∨
    l.root.sent = [] ∧ l.device.txMachineState = .ready

theorem Stalled.runDisc (h : Stalled a l) (hb : BelowMtu a) : Stalled a (l.runDisc K) := by
  obtain ⟨hsteady, hturn⟩ := h.steady.run (K := K) h.pending
  have htx : ({ l with root := Root.next K l.root .run } : Link Z α).txQueue = l.txQueue :=
    txQueue_eq hsteady.single
  unfold Link.runDisc
  dsimp only
  cases hturn with
  | ended _ hp _ hsent =>
    rw [Function.iterate_fixed (callback_nil (l := { l with root := Root.next K l.root .run }) hp)]
    refine ⟨htx.symm ▸ hsteady, h.vacant, hp, ?_⟩
    rw [htx]
    show _ ∧ (Root.next K l.root .run).sent.length ≤ 1 ∨ (Root.next K l.root .run).sent = [] ∧ _
    rw [hsent]
    exact h.sent
  | gave item rest _ _ hopen hp _ hsent =>
    have hstop : l.txQueue.stoppedByDevice = false := (Bool.or_eq_false_iff.mp hopen).1
    obtain ⟨hnone, hready⟩ := h.sent.resolve_left fun hs =>
      Bool.false_ne_true (hstop.symm.trans hs.1)
    -- The first packet: its callback leaves the transmission queue stopped, which ends the run.
    obtain ⟨l₁, tx₁, hv₁, hroot₁, hstop₁, he⟩ := Vacant.callback (K := K)
      (l := { l with root := Root.next K l.root .run }) h.vacant hb hsteady.single hp hready
    have hsteady₁ : Root.Steady a.disc.maxSize (fun _ => True) tx₁ l₁.root := by
      rw [hroot₁]
      exact hsteady.setTx tx₁
    have hp₁ : l₁.root.pending = [⟨l.root.disc.quota, addHeader item⟩] := by
      rw [hroot₁]
      exact hp
    obtain ⟨hsteady₂, hturn₂⟩ := hsteady₁.sendReturned (K := K) hp₁
    have htx₂ : (l₁.sendReturned K).txQueue = tx₁ := txQueue_eq hsteady₂.single
    cases hturn₂ with
    | gave _ _ _ _ hopen₂ =>
      exact absurd ((Bool.or_eq_false_iff.mp hopen₂).1.symm.trans hstop₁) Bool.false_ne_true
    | ended _ hp₂ _ hsent₂ =>
      rw [Function.iterate_succ_apply, he,
        Function.iterate_fixed (callback_nil (l := l₁.sendReturned K) hp₂)]
      refine ⟨htx₂.symm ▸ hsteady₂, hv₁, hp₂, .inl ⟨htx₂ ▸ hstop₁, ?_⟩⟩
      show (Root.next K l₁.root .sendReturned).sent.length ≤ 1
      rw [hsent₂, hroot₁]
      show (Root.next K l.root .run).sent.length ≤ 1
      rw [hsent, hnone]
      exact Nat.le_refl 1

/-- **Step lemma.** -/
theorem Stalled.next [LawfulNetDeviceItem α] (h : Stalled a l) (hb : BelowMtu a) (e : Event α) :
    Stalled a ((machine K).next l e) := by
  cases e with
  | schedule delay item => exact ⟨h.steady, h.vacant, h.pending, h.sent⟩
  | processOneEvent =>
    rcases l.agenda.pop_cases with ⟨-, hpop⟩ | ⟨c, b, hpop, -, -⟩ <;>
      unfold machine Machine.next <;> dsimp only <;> rw [hpop]
    · exact h
    · have h' : Stalled a { l with agenda := b } := ⟨h.steady, h.vacant, h.pending, h.sent⟩
      cases c with
      | run => exact h'.runDisc hb
      | receive p => exact ⟨h.steady, h.vacant, h.pending, h.sent⟩
      | send x =>
        have hidx : getTxQueueIndex (addHeader (setTxQueueIndex 0 x)) = 0 := by
          rw [getTxQueueIndex_addHeader, getTxQueueIndex_set]
        have htx := txQueue_enqueue K { l with agenda := b } b.now (setTxQueueIndex 0 x)
        have hsteady := h'.steady.enqueue (K := K) b.now (C := fun _ => True) trivial hidx
        exact Stalled.runDisc ⟨htx.symm ▸ hsteady, h.vacant, h.pending, htx.symm ▸ h.sent⟩ hb
      | transmitComplete =>
        have hn : l.device.queue.nPackets = 0 := by
          rw [h.vacant.counted.nPackets, h.vacant.packets_eq]
          rfl
        show Stalled a (({ l with agenda := b } : Link Z α).invoke K .transmitComplete)
        rw [transmitComplete_empty (l := { l with agenda := b }) hn]
        exact ⟨h.steady, { h.vacant with }, h.pending, h.sent.imp_right fun hs => ⟨hs.1, rfl⟩⟩

theorem stalled_install (a : Attributes α) : Stalled a (install a : Link Z α) where
  steady :=
    { inOrder := Root.inOrder_doInitialize
        { a.disc with devQueueIface := some ⟨[{}], List.cons_ne_nil _ _⟩ }
      single := ⟨rfl, rfl, List.forall_mem_nil _⟩
      accepted := List.forall_mem_nil _
      running := iff_of_false Bool.false_ne_true (not_not.mpr rfl)
      pending := List.forall_mem_nil _ }
  vacant := ⟨rfl, rfl, rfl, ⟨rfl, rfl⟩, rfl⟩
  pending := rfl
  sent := .inr ⟨rfl, rfl⟩

/-- **A byte limit below the MTU blocks the link.** Whatever is sent and however long the simulator
goes on, the disc hands over one packet at most, and then its transmission queue is stopped. -/
theorem run_stalls [LawfulNetDeviceItem α] (k : DiscKind) (a : Attributes α) (hb : BelowMtu a)
    (es : List (Event α)) :
    let l := (k.linkMachine α).run (install a) es
    l.root.sent.length ≤ 1 ∧ (l.root.sent ≠ [] → l.txQueue.isStopped = true) := by
  have h : Stalled a ((k.linkMachine α).run (install a) es) :=
    Machine.run_invariant' (fun _ e h => h.next hb e) (stalled_install a) es
  rcases h.sent with ⟨hstop, hle⟩ | ⟨hnil, -⟩
  · refine ⟨hle, fun _ => ?_⟩
    unfold NetDeviceQueue.isStopped
    rw [hstop, Bool.true_or]
  · exact ⟨hnil ▸ Nat.zero_le 1, fun hne => absurd hnil hne⟩

/-- A device queue of 1000 bytes, less than the MTU. -/
def halfMtu : Attributes Ipv4QueueDiscItem :=
  { oneSlot with
    maxSize := { unit := .bytes, value := 1000 }
    maxSize_pos := by decide }

theorem run_stalls_fivePackets :
    let l := (DiscKind.stabilizedRed.linkMachine _).run (install halfMtu) fivePackets
    l.root.disc.queue.packets.length = 4 ∧ l.root.sent.length ≤ 1 ∧
      (l.root.sent ≠ [] → l.txQueue.isStopped = true) :=
  ⟨by decide +kernel, run_stalls .stabilizedRed halfMtu ⟨rfl, by decide⟩ fivePackets⟩

end Link

end StabilizedRed
