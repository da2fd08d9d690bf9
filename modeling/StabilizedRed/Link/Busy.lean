import StabilizedRed.Link.Order

/-!
# A link does not rest while its disc holds packets

When the device stops its transmission queue the disc keeps its packets, and a packet that leaves
the device's queue wakes the disc. The wake-up must not be lost: the run that it schedules comes
before the end of the next transmission (`RunsFirst`), and it fills the device's queue until it is
stopped again, unless its quota ends earlier (`Filling`). What has become free is at most the
reserve, so a quota of so many packets is enough (`run_busy`). On a limit in bytes and with a
smaller quota packets stay in the disc while the link rests.
-/

namespace StabilizedRed

variable {Z α : Type} [NetDeviceItem α]

/-- The packets that a call of `Run` may send: the quota is counted down before it is compared. -/
def effectiveQuota (quota : UInt32) : ℕ := if quota = 0 then 2 ^ 32 else quota.toNat

theorem effectiveQuota_pred {quota : UInt32} (h : quota - 1 ≠ 0) :
    effectiveQuota quota = effectiveQuota (quota - 1) + 1 := by
  unfold effectiveQuota
  rw [if_neg h]
  by_cases h0 : quota = 0
  · subst h0
    rfl
  · have hpos : 0 < quota.toNat := by
      rw [Nat.pos_iff_ne_zero]
      exact fun hz => h0 (UInt32.toNat_inj.mp hz)
    have hle : (1 : UInt32) ≤ quota := by
      rw [UInt32.le_iff_toNat_le]
      exact hpos
    rw [if_neg h0, UInt32.toNat_sub_of_le _ _ hle]
    show quota.toNat = quota.toNat - 1 + 1
    omega

theorem effectiveQuota_of_pred_eq_zero {quota : UInt32} (h : quota - 1 = 0) :
    effectiveQuota quota = 1 := by
  obtain rfl : quota = 1 := sub_eq_zero.mp h
  rfl

namespace Link

/-- What is said of the packets: the link can carry them, the disc's limit is exact for them, and
each takes at least `μ` of the limit of the device's queue. -/
structure Workload (a : Attributes α) (μ : ℕ) (x : α) : Prop extends Carries a x where
  bounded : Bounded a.disc.maxSize x
  takes : 0 < (a.disc.maxSize.unit.cost x).toNat
  least : μ ≤ (a.maxSize.unit.cost (frame x)).toNat

variable {a : Attributes α} {μ : ℕ} {C : α → Prop}

theorem cost_congr {x y : α} (u : QueueSizeUnit) (h : getSize y = getSize x) :
    u.cost y = u.cost x := by
  cases u
  · rfl
  · exact h

theorem bounded_congr {m : QueueSize} {x y : α} (h : getSize y = getSize x) (hb : Bounded m x) :
    Bounded m y := by
  unfold Bounded at hb ⊢
  rwa [h]

theorem Workload.congr {x y : α} (h : Workload a μ x) (hs : getSize y = getSize x)
    (hp : getProtocol y = getProtocol x) : Workload a μ y where
  protocol := hp ▸ h.protocol
  size := hs ▸ h.size
  bounded := bounded_congr hs h.bounded
  takes := by
    rw [cost_congr _ hs]
    exact h.takes
  least := by
    have hframe : getSize (frame y) = getSize (frame x) := congrArg (· + 2) hs
    rw [show a.maxSize.unit.cost (frame y) = a.maxSize.unit.cost (frame x) by
      cases a.maxSize.unit
      · rfl
      · exact hframe]
    exact h.least

theorem carriable_workload [LawfulNetDeviceItem α] (a : Attributes α) (μ : ℕ) :
    Carriable a (Workload a μ) where
  carries _ h := h.toCarries
  onTheWay x h := h.congr (by simp) (by simp)

variable {tx tx₁ : NetDeviceQueue} {u u₁ : Option Time} {given : List (PppPacket α)}
  {l : Link Z α} {K : ZombieKind Z} {agenda : Agenda Time (LinkCall α)}

/-- A disc that counts no packets holds none. -/
theorem Sound.packets_eq_nil [LawfulNetDeviceItem α] (h : Sound a (Workload a μ) tx u given l)
    (hn : l.root.disc.queue.nPackets = 0) : l.root.disc.queue.packets = [] := by
  obtain ⟨left, ht, hacc, -⟩ := h.steady.inOrder.order
  have hwork : ∀ x ∈ left ++ l.root.disc.queue.packets, Workload a μ x := fun x hx =>
    (h.steady.accepted x (hacc ▸ hx)).congr (by simp) (by simp)
  have hused := ht.limited fun x hx => (hwork x hx).bounded
  have hlen : l.root.disc.queue.packets.length ≤
      a.disc.maxSize.unit.used l.root.disc.queue.packets :=
    QueueSizeUnit.length_le_used fun x hx => (hwork x (List.mem_append_right _ hx)).takes
  have hlt := a.disc.maxSize.value.toNat_lt
  have h0 := congrArg UInt32.toNat hn
  rw [ht.counted.nPackets, UInt32.toNat_ofNat_of_lt' (by simp only [UInt32.size]; omega)] at h0
  exact List.length_eq_zero_iff.mp h0

/-! ## Wake-ups -/

/-- The runs that are scheduled are due now, and come before the end of the transmission. -/
structure RunsFirst (agenda : Agenda Time (LinkCall α)) : Prop where
  due : ∀ t, (t, .run) ∈ agenda.entries → t ≤ agenda.now
  first : agenda.entries.Pairwise fun x y => y.2 = .run → x.2 ≠ .transmitComplete

omit [NetDeviceItem α] in
theorem RunsFirst.schedule (h : RunsFirst agenda) (delay : ℕ) {c : LinkCall α} (hc : c ≠ .run) :
    RunsFirst (agenda.schedule delay c) where
  due t ht := by
    rw [Agenda.schedule_entries, Agenda.mem_insert] at ht
    rcases ht with he | ht
    · exact absurd (congrArg Prod.snd he).symm hc
    · exact h.due t ht
  first := by
    refine Agenda.pairwise_insert agenda.sorted h.first (fun _ _ _ hrun => absurd hrun hc) ?_
    rintro ⟨t, c'⟩ hy hlt rfl
    have hle := h.due t hy
    have hnow : agenda.now + (delay : ℤ) < t := hlt
    exact absurd hle (not_le.mpr (by linarith))

omit [NetDeviceItem α] in
theorem ne_transmitComplete_of_completions (h : agenda.entries.filterMap completion = [])
    {e : Time × LinkCall α} (he : e ∈ agenda.entries) : e.2 ≠ .transmitComplete := by
  intro hc
  obtain ⟨t, c⟩ := e
  obtain rfl : c = .transmitComplete := hc
  have hmem := mem_completions.mpr he
  rw [h] at hmem
  exact List.not_mem_nil hmem

omit [NetDeviceItem α] in
/-- A run is scheduled for now while no transmission is going on. -/
theorem RunsFirst.schedule_run (h : RunsFirst agenda)
    (hc : agenda.entries.filterMap completion = []) : RunsFirst (agenda.schedule 0 .run) where
  due t ht := by
    rw [Agenda.schedule_entries, Agenda.mem_insert] at ht
    rcases ht with he | ht
    · exact le_of_eq ((congrArg Prod.fst he).trans (add_zero _))
    · exact h.due t ht
  first := by
    refine Agenda.pairwise_insert agenda.sorted h.first ?_ ?_
    · exact fun y hy _ _ => ne_transmitComplete_of_completions hc hy
    · exact fun y hy _ _ he => by cases he

omit [NetDeviceItem α] in
theorem RunsFirst.runLater (h : RunsFirst agenda) (hc : agenda.entries.filterMap completion = [])
    (n : ℕ) : RunsFirst (runLater n agenda) := by
  induction n generalizing agenda with
  | zero => exact h
  | succ n ih =>
    exact ih (h.schedule_run hc) ((agenda.filterMap_schedule_none (f := completion) rfl).trans hc)

omit [NetDeviceItem α] in
theorem RunsFirst.pop (h : RunsFirst agenda) {b : Agenda Time (LinkCall α)} {c : LinkCall α}
    (he : agenda.entries = (b.now, c) :: b.entries) (hnow : agenda.now ≤ b.now) :
    RunsFirst b where
  due t ht := (h.due t (he ▸ List.mem_cons_of_mem _ ht)).trans hnow
  first := (List.pairwise_cons.mp (he ▸ h.first)).2

omit [NetDeviceItem α] in
/-- No run is left when a transmission ends. -/
theorem RunsFirst.pop_transmitComplete (h : RunsFirst agenda) {b : Agenda Time (LinkCall α)}
    (he : agenda.entries = (b.now, .transmitComplete) :: b.entries) (t : Time) :
    (t, .run) ∉ b.entries := by
  have hfirst := h.first
  rw [he, List.pairwise_cons] at hfirst
  exact fun ht => hfirst.1 _ ht rfl rfl

/-! ## The device without queue limits -/

/-- The state of a link without queue limits. -/
structure Work (a : Attributes α) (l : Link Z α) : Prop where
  queueLimits : l.device.queueLimits = none
  notLimited : l.txQueue.stoppedByQueueLimits = false
  runsFirst : RunsFirst l.agenda
  quota : l.root.disc.quota = a.disc.quota

theorem Work.takeIn (h : Work a l) {p : PppPacket α} : Work a (l.takeIn p) := by
  unfold Link.takeIn PointToPointNetDevice.traced PointToPointNetDevice.changes
  rw [h.queueLimits]
  refine ⟨?_, ?_, ?_, h.quota⟩
  · exact (NetDeviceQueue.queueTrace_none l.txQueue _).1
  · exact (NetDeviceQueue.queueTrace_none l.txQueue _).2.trans h.notLimited
  · show RunsFirst (Link.runLater (l.txQueue.perform _).1 l.agenda)
    rw [NetDeviceQueue.enqueue_runs]
    exact h.runsFirst

theorem Work.startNext (h : Work a l) (hc : l.agenda.entries.filterMap completion = [])
    {p : PppPacket α} {rest : List (PppPacket α)} :
    Work a ((l.takeOut p rest).startTransmit p) := by
  unfold takeOut PointToPointNetDevice.traced PointToPointNetDevice.changes
  rw [h.queueLimits]
  refine ⟨?_, ?_, ?_, h.quota⟩
  · exact (NetDeviceQueue.queueTrace_none l.txQueue _).1
  · exact (NetDeviceQueue.queueTrace_none l.txQueue _).2.trans h.notLimited
  · refine ((h.runsFirst.runLater hc _).schedule _ ?_).schedule _ ?_ <;> exact fun he => by cases he

theorem Work.turn (h : Work a l) {r' : Root Z α} {quota : UInt32} {spent : Prop}
    (hs : l.root.disc.OnSingle tx) (hs' : r'.disc.OnSingle tx)
    (ht : Root.Turn tx quota spent l.root r') : Work a { l with root := r' } where
  queueLimits := h.queueLimits
  notLimited := by
    rw [txQueue_eq (l := { l with root := r' }) hs', ← txQueue_eq hs]
    exact h.notLimited
  runsFirst := h.runsFirst
  quota := by
    show r'.disc.quota = _
    cases ht with
    | ended _ _ _ _ _ hq => exact hq.trans h.quota
    | gave _ _ _ _ _ _ _ _ _ hq => exact hq.trans h.quota

/-- Of the limit of the device's queue less than `n` is free beyond the reserve. -/
def Tight (a : Attributes α) (n : ℕ) (l : Link Z α) : Prop :=
  a.maxSize.value.toNat < l.device.queue.used + n + a.maxSize.unit.reserve a.mtu

theorem Sound.stopped_iff_tight (h : Sound a C tx u given l) :
    tx.stoppedByDevice = true ↔ Tight a 0 l := h.device.stopped

/-- While `Run` waits for the send callback, either the disc is empty or the quota is enough for
what is free; when it has ended, the queue is stopped or the disc is empty. -/
structure Filling (a : Attributes α) (μ : ℕ) (l : Link Z α) : Prop where
  waiting : ∀ p ∈ l.root.pending, l.root.disc.queue.packets = [] ∨
    l.device.txMachineState = .busy ∧ Tight a (effectiveQuota p.quota * μ) l
  ended : l.root.pending = [] → l.txQueue.isStopped = true ∨ l.root.disc.queue.packets = []

/-- A turn of the loop of `Run`. -/
theorem Filling.turn [LawfulNetDeviceItem α] (h : Sound a (Workload a μ) tx u [] l)
    {r' : Root Z α} {quota : UInt32} {spent : Prop}
    (hsteady : Root.Steady a.disc.maxSize (Workload a μ) tx r')
    (ht : Root.Turn tx quota spent l.root r')
    (hfew : tx.isStopped = true ∨
      l.root.disc.queue.packets.length ≤ 1 ∧ (spent → l.root.disc.queue.packets = []) ∨
      l.device.txMachineState = .busy ∧ (spent → tx.isStopped = true) ∧
        (¬ spent → Tight a (effectiveQuota quota * μ) l)) :
    Filling a μ { l with root := r' } := by
  have htx : ({ l with root := r' } : Link Z α).txQueue = tx := txQueue_eq hsteady.single
  cases ht with
  | ended why hp _ _ hq =>
    refine ⟨fun p hmem => ?_, fun _ => ?_⟩
    · rw [hp] at hmem
      exact absurd hmem List.not_mem_nil
    · rw [htx]
      show tx.isStopped = true ∨ r'.disc.queue.packets = []
      rw [hq]
      rcases why with hs | hn | hspent
      · exact .inl hs
      · exact .inr (h.packets_eq_nil hn)
      · rcases hfew with hs | ⟨-, hnil⟩ | ⟨-, hs, -⟩
        · exact .inl hs
        · exact .inr (hnil hspent)
        · exact .inl (hs hspent)
  | gave item rest hq hr hopen hp _ _ hmore =>
    refine ⟨fun p hmem => ?_, fun hnil => ?_⟩
    · have hmem : p ∈ r'.pending := hmem
      rw [hp, List.mem_singleton] at hmem
      subst hmem
      show r'.disc.queue.packets = [] ∨ _
      rcases hfew with hs | ⟨hlen, -⟩ | ⟨hb, -, htight⟩
      · exact absurd (hopen.symm.trans hs) Bool.false_ne_true
      · rw [hq, List.length_cons] at hlen
        rw [hr]
        exact .inl (List.length_eq_zero_iff.mp (by omega))
      · exact .inr ⟨hb, htight hmore⟩
    · rw [show ({ l with root := r' } : Link Z α).root.pending = r'.pending from rfl, hp] at hnil
      exact absurd hnil (List.cons_ne_nil _ _)

/-- The device's queue takes a packet, on a quota that is enough for what was free. -/
theorem Sound.takeIn_tight {x : α} (h : Sound a C tx u given l)
    (h₁ : Sound a C tx₁ u₁ [] (l.takeIn (frame x))) {quota : UInt32}
    (hleast : μ ≤ (a.maxSize.unit.cost (frame x)).toNat)
    (ht : Tight a (effectiveQuota quota * μ) l) :
    (quota - 1 = 0 → tx₁.isStopped = true) ∧
      (quota - 1 ≠ 0 → Tight a (effectiveQuota (quota - 1) * μ) (l.takeIn (frame x))) := by
  have hused : (l.takeIn (frame x)).device.queue.used =
      l.device.queue.used + (a.maxSize.unit.cost (frame x)).toNat := by
    rw [← h.device.maxSize_eq]
    exact l.device.queue.used_insertEnd (frame x)
  unfold Tight at ht
  constructor
  · intro h0
    have hstop : tx₁.stoppedByDevice = true := by
      rw [h₁.stopped_iff_tight]
      unfold Tight
      rw [effectiveQuota_of_pred_eq_zero h0, Nat.one_mul] at ht
      omega
    unfold NetDeviceQueue.isStopped
    rw [hstop, Bool.true_or]
  · intro h0
    unfold Tight
    rw [effectiveQuota_pred h0, Nat.add_mul, Nat.one_mul] at ht
    omega

/-- The send callback uses one of the quota and as much of what is free as the packet takes. -/
theorem Filling.callback [LawfulNetDeviceItem α] (hf : Filling a μ l)
    (h : Looping a (Workload a μ) l) (hw : Work a l) (hm : a.maxSize.HasRoom a.mtu) :
    Work a (Link.callback K l) ∧ Filling a μ (Link.callback K l) := by
  rcases h.callback_cases (K := K) hm (carriable_workload a μ) with
    ⟨hp, he⟩ | ⟨p, l₁, tx₁, u₁, hp, hhands, hroot, h₁, hd₁, he⟩ <;> rw [he]
  · exact ⟨hw, hf⟩
  · obtain ⟨tx, u, hl, hd, -⟩ := h
    have hmem : p ∈ l.root.pending := hp ▸ List.mem_cons_self
    have hp₁ : l₁.root.pending = [p] := by
      rw [hroot]
      exact hp
    have hq₁ : l₁.root.disc.queue = l.root.disc.queue := by
      rw [hroot]
      rfl
    have hleast := (hl.steady.pending p hmem).2.1.least
    obtain ⟨hsteady, hturn⟩ := h₁.steady.sendReturned (K := K) hp₁
    have hfill : l₁.root.disc.queue.packets = [] ∨ l.device.txMachineState = .busy ∧
        Tight a (effectiveQuota p.quota * μ) l := hq₁ ▸ hf.waiting p hmem
    rcases hfill with hnil | ⟨hbusy, htight⟩
    · have hw₁ : Work a l₁ := by
        cases hhands with
        | waits busy => exact hw.takeIn
        | leaves ready empty =>
          have hu : u = none := by
            rw [← Option.not_isSome_iff_eq_none, ← hd.busy, ready]
            exact TxMachineState.noConfusion
          subst hu
          exact hw.takeIn.startNext (hl.flight.runLater _).completions
      refine ⟨hw₁.turn h₁.steady.single hsteady.single hturn, .turn h₁ hsteady hturn ?_⟩
      exact .inr (.inl ⟨by rw [hnil]; exact Nat.zero_le 1, fun _ => hnil⟩)
    · cases hhands with
      | waits _ =>
        refine ⟨hw.takeIn.turn h₁.steady.single hsteady.single hturn, .turn h₁ hsteady hturn ?_⟩
        obtain ⟨hspent, hmore⟩ := hl.takeIn_tight h₁ hleast htight
        exact .inr (.inr ⟨hbusy, hspent, hmore⟩)
      | leaves ready empty =>
        rw [hbusy] at ready
        cases ready

theorem Filling.iterate [LawfulNetDeviceItem α] (hf : Filling a μ l)
    (h : Looping a (Workload a μ) l) (hw : Work a l) (hm : a.maxSize.HasRoom a.mtu) (n : ℕ) :
    Work a ((Link.callback K)^[n] l) ∧ Filling a μ ((Link.callback K)^[n] l) := by
  induction n generalizing l with
  | zero => exact ⟨hw, hf⟩
  | succ n ih =>
    obtain ⟨hw', hf'⟩ := hf.callback (K := K) h hw hm
    obtain ⟨hloop, -⟩ := h.callback (K := K) hm (carriable_workload a μ)
    exact ih hf' hloop hw'

/-- **A call of `Run` goes on until the queue is stopped or the disc is empty.** -/
theorem Rest.runDisc_work [LawfulNetDeviceItem α] (h : Rest a (Workload a μ) l) (hw : Work a l)
    (hm : a.maxSize.HasRoom a.mtu)
    (hμ : a.maxSize.unit.reserve a.mtu ≤ effectiveQuota a.disc.quota * μ)
    (hfew : l.txQueue.isStopped = true ∨ l.root.disc.queue.packets.length ≤ 1 ∨
      l.device.txMachineState = .busy ∧ Tight a (a.maxSize.unit.reserve a.mtu) l) :
    Work a (l.runDisc K) ∧
      ((l.runDisc K).txQueue.isStopped = true ∨ (l.runDisc K).root.disc.queue.packets = []) := by
  obtain ⟨hp, tx, u, hl, hd⟩ := h
  obtain ⟨hsteady, hturn⟩ := hl.steady.run (K := K) hp
  obtain ⟨hloop, -⟩ := hl.turn_looping hd hsteady hturn
  have hw₀ := hw.turn hl.steady.single hsteady.single hturn
  rw [txQueue_eq hl.steady.single] at hfew
  have hf₀ : Filling a μ { l with root := Root.next K l.root .run } := by
    refine .turn hl hsteady hturn (hfew.imp_right (Or.imp (fun hlen => ?_) fun htight => ?_))
    · exact ⟨hlen, fun hspent => hspent.elim⟩
    · refine ⟨htight.1, fun hspent => hspent.elim, fun _ => ?_⟩
      have := htight.2
      unfold Tight at this ⊢
      rw [hw.quota]
      omega
  have hcarry := carriable_workload a μ
  obtain ⟨-, hp'⟩ := hloop.iterate (K := K) hm hcarry (.inr (Nat.lt_succ_self _))
  obtain ⟨hw', hf'⟩ := hf₀.iterate (K := K) hloop hw₀ hm _
  exact ⟨hw', hf'.ended hp'⟩

/-! ## Between events -/

/-- The disc waits for a wake-up, or is empty, or has been woken. -/
def Woken (a : Attributes α) (l : Link Z α) : Prop :=
  l.txQueue.isStopped = true ∨ l.root.disc.queue.packets = [] ∨
    l.device.txMachineState = .busy ∧ (∃ t, (t, .run) ∈ l.agenda.entries) ∧
      Tight a (a.maxSize.unit.reserve a.mtu) l

/-- What is in the device's queue came from the disc. -/
theorem Sound.mem_queue (h : Sound a C tx u given l) {p : PppPacket α}
    (hp : p ∈ l.device.queue.packets) : ∃ x, C x ∧ p = frame x := by
  obtain ⟨left, -, hacc, hsent⟩ := h.steady.inOrder.order
  have hmem : p ∈ l.root.sent.map frame := by
    rw [h.sent]
    exact List.mem_append_left _ (List.mem_append_right _ hp)
  obtain ⟨x, hx, rfl⟩ := List.mem_map.mp hmem
  have hx' : x ∈ left.map addHeader := hsent ▸ List.mem_append_left _ hx
  obtain ⟨y, hy, rfl⟩ := List.mem_map.mp hx'
  exact ⟨_, h.steady.accepted y (hacc ▸ List.mem_append_left _ hy), rfl⟩

omit [NetDeviceItem α] in
theorem run_mem_runLater {n : ℕ} (hn : 0 < n) (A : Agenda Time (LinkCall α)) :
    ∃ t, (t, .run) ∈ (runLater n A).entries := by
  obtain ⟨n, rfl⟩ := Nat.exists_eq_succ_of_ne_zero hn.ne'
  clear hn
  induction n generalizing A with
  | zero => exact ⟨_, Agenda.mem_insert.mpr (.inl rfl)⟩
  | succ n ih => exact ih (A.schedule 0 .run)

/-- A packet leaves the device's queue for the wire: if this makes room, the disc is woken. -/
theorem Sound.startNext_woken (h : Sound a C tx none given l) (hC : Carriable a C)
    (hm : a.maxSize.HasRoom a.mtu) (hw : Work a l) {p : PppPacket α} {rest : List (PppPacket α)}
    (hq : l.device.queue.packets = p :: rest)
    (hdisc : l.txQueue.isStopped = true ∨ l.root.disc.queue.packets = []) :
    Woken a ((l.takeOut p rest).startTransmit p) := by
  obtain ⟨tx', t, hroot, h'⟩ := h.startNext hm hq
  have htx' := txQueue_eq h'.steady.single
  unfold Woken
  rw [htx']
  cases hs' : tx'.isStopped with
  | true => exact .inl rfl
  | false =>
    refine .inr (hdisc.symm.imp (fun hnil => ?_) fun hstop => ?_)
    · rw [hroot]
      exact hnil
    · have hstop : l.txQueue.stoppedByDevice = true := by
        unfold NetDeviceQueue.isStopped at hstop
        rwa [hw.notLimited, Bool.or_false] at hstop
      obtain ⟨x, hx, rfl⟩ := h.mem_queue (hq ▸ List.mem_cons_self)
      refine ⟨rfl, ?_, ?_⟩
      · have hopen : (l.txQueue.perform (l.device.changes l.agenda.now (.dequeue (frame x))
            (l.device.queue.eraseBegin (frame x) rest))).2.stoppedByDevice = false :=
          (congrArg NetDeviceQueue.stoppedByDevice htx').trans (Bool.or_eq_false_iff.mp hs').1
        unfold PointToPointNetDevice.changes at hopen
        rw [NetDeviceQueue.dequeue_stoppedByDevice, hstop, Bool.true_and] at hopen
        have hruns : 0 < (l.txQueue.perform (l.device.changes l.agenda.now (.dequeue (frame x))
            (l.device.queue.eraseBegin (frame x) rest))).1 :=
          NetDeviceQueue.dequeue_runs hstop hopen
        obtain ⟨t, ht⟩ := run_mem_runLater hruns l.agenda
        exact ⟨t, Agenda.mem_insert.mpr (.inr (Agenda.mem_insert.mpr (.inr ht)))⟩
      · have htight : Tight a 0 l := by
          rw [← h.stopped_iff_tight, ← txQueue_eq h.steady.single]
          exact hstop
        have hcost := (hC.carries x hx).cost.2
        have hused := Queue.used_eraseBegin hq
        rw [h.device.maxSize_eq] at hused
        unfold Tight at htight ⊢
        show _ < (l.device.queue.eraseBegin (frame x) rest).used + _ + _
        omega

theorem Woken.send [LawfulNetDeviceItem α] (hwk : Woken a l) (h : Rest a (Workload a μ) l)
    (hw : Work a l) (hm : a.maxSize.HasRoom a.mtu)
    (hμ : a.maxSize.unit.reserve a.mtu ≤ effectiveQuota a.disc.quota * μ) {x : α}
    (hx : Workload a μ x) : Work a (l.send K x) ∧
      ((l.send K x).txQueue.isStopped = true ∨ (l.send K x).root.disc.queue.packets = []) := by
  obtain ⟨-, hquota, -⟩ := ZombieQueueDisc.enqueue_service K l.agenda.now l.root.disc
    (setTxQueueIndex 0 x)
  have htx := txQueue_enqueue K l l.agenda.now (setTxQueueIndex 0 x)
  refine (h.enqueue (carriable_workload a μ) hx).runDisc_work ?_ hm hμ ?_
  · exact { hw with notLimited := htx ▸ hw.notLimited, quota := hquota.trans hw.quota }
  · rw [htx]
    refine hwk.imp_right (Or.imp (fun hnil => ?_) fun hb => ⟨hb.1, hb.2.2⟩)
    show (l.root.disc.enqueue K l.agenda.now (setTxQueueIndex 0 x)).2.queue.packets.length ≤ 1
    rw [ZombieQueueDisc.enqueue_packets, hnil]
    split
    · exact Nat.le_refl _
    · exact Nat.zero_le _

/-- The end of a transmission, when the device is free. -/
theorem Sound.transmitComplete_woken (h : Sound a C tx none [] l) (hC : Carriable a C)
    (hm : a.maxSize.HasRoom a.mtu) (hw : Work a l)
    (hdisc : l.txQueue.isStopped = true ∨ l.root.disc.queue.packets = []) :
    Work a (l.invoke K .transmitComplete) ∧ Woken a (l.invoke K .transmitComplete) := by
  by_cases hn : l.device.queue.nPackets = 0
  · have hq : l.device.queue.packets = [] := not_not.mp fun hne => h.device.nPackets_ne_zero hne hn
    rw [transmitComplete_empty hn]
    refine ⟨{ hw with }, .inr (.inl (hdisc.resolve_left fun hstop => ?_))⟩
    -- The device's queue is empty, so the device has not stopped the transmission queue.
    unfold NetDeviceQueue.isStopped at hstop
    rw [hw.notLimited, Bool.or_false, txQueue_eq h.steady.single, h.stopped_iff_tight] at hstop
    unfold Tight Queue.used at hstop
    rw [hq, QueueSizeUnit.used_nil] at hstop
    have := hm.reserve_le
    omega
  · obtain ⟨p, rest, hq⟩ := List.exists_cons_of_ne_nil (h.device.counted.ne_nil hn)
    rw [transmitComplete_cons h.steady.single hn hq]
    exact ⟨hw.startNext h.flight.completions, h.startNext_woken hC hm hw hq hdisc⟩

/-- An event that is no run leaves the runs. -/
theorem Woken.pop (h : Woken a l) {b : Agenda Time (LinkCall α)} {c : LinkCall α}
    (hb : l.agenda.entries = (b.now, c) :: b.entries) (hc : c ≠ .run)
    (received : List (α × UInt16)) : Woken a { l with agenda := b, received := received } := by
  refine h.imp_right (Or.imp_right fun ⟨hbusy, ⟨t, ht⟩, htight⟩ => ⟨hbusy, ⟨t, ?_⟩, htight⟩)
  rw [hb, List.mem_cons] at ht
  exact ht.resolve_left fun he => hc (congrArg Prod.snd he).symm

/-- **Step lemma.** -/
theorem Woken.next [LawfulNetDeviceItem α] (hwk : Woken a l) (h : Rest a (Workload a μ) l)
    (hw : Work a l) (hm : a.maxSize.HasRoom a.mtu)
    (hμ : a.maxSize.unit.reserve a.mtu ≤ effectiveQuota a.disc.quota * μ) {e : Event α}
    (he : e.Offers (Workload a μ)) :
    Work a ((machine K).next l e) ∧ Woken a ((machine K).next l e) := by
  cases e with
  | schedule delay item =>
    refine ⟨{ hw with runsFirst := hw.runsFirst.schedule delay fun h => by cases h }, ?_⟩
    refine hwk.imp_right (Or.imp_right fun ⟨hb, ⟨t, ht⟩, htight⟩ => ⟨hb, ⟨t, ?_⟩, htight⟩)
    exact Agenda.mem_insert.mpr (.inr ht)
  | processOneEvent =>
    rcases l.agenda.pop_cases with ⟨-, hpop⟩ | ⟨c, b, hpop, hb, hnow⟩ <;>
      unfold machine Machine.next <;> dsimp only <;> rw [hpop]
    · exact ⟨hw, hwk⟩
    · have hw' : Work a { l with agenda := b } := { hw with runsFirst := hw.runsFirst.pop hb hnow }
      cases c with
      | send x =>
        have hwk' := hwk.pop hb (fun he => by cases he) l.received
        have hr := hwk'.send (K := K) (h.pop hb hnow rfl rfl) hw' hm hμ (h.pop_send hb)
        exact ⟨hr.1, hr.2.imp_right .inl⟩
      | run =>
        have hr := (h.pop hb hnow rfl rfl).runDisc_work (K := K) hw' hm hμ
          (hwk.imp_right (Or.imp (fun hnil => ?_) fun hb => ⟨hb.1, hb.2.2⟩))
        · exact ⟨hr.1, hr.2.imp_right .inl⟩
        · show l.root.disc.queue.packets.length ≤ 1
          rw [hnil]
          exact Nat.zero_le 1
      | transmitComplete =>
        obtain ⟨tx, hfree⟩ := h.pop_transmitComplete hb
        refine hfree.transmitComplete_woken (carriable_workload a μ) hm hw'
          (hwk.imp_right (Or.resolve_right · ?_))
        rintro ⟨-, ⟨t, ht⟩, -⟩
        rw [hb, List.mem_cons] at ht
        exact hw.runsFirst.pop_transmitComplete hb t (ht.resolve_left fun he => by cases he)
      | receive p => exact ⟨{ hw' with }, hwk.pop hb (fun he => by cases he) _⟩

/-- The invariant of a link that does not lose a wake-up. -/
def Awake (a : Attributes α) (μ : ℕ) (l : Link Z α) : Prop :=
  Rest a (Workload a μ) l ∧ Work a l ∧ Woken a l

/-- **Run lemma.** -/
theorem run_awake [LawfulNetDeviceItem α] (K : ZombieKind Z) (hm : a.maxSize.HasRoom a.mtu)
    (hnone : a.queueLimits = none)
    (hμ : a.maxSize.unit.reserve a.mtu ≤ effectiveQuota a.disc.quota * μ) {es : List (Event α)}
    (hes : ∀ e ∈ es, e.Offers (Workload a μ)) : Awake a μ ((machine K).run (install a) es) := by
  have hw : Work a (install a : Link Z α) :=
    { queueLimits := by
        show a.queueLimits.map _ = none
        rw [hnone]
        rfl
      notLimited := rfl
      runsFirst := ⟨fun _ h => absurd h List.not_mem_nil, .nil⟩
      quota := rfl }
  refine Machine.run_invariant (P := fun _ e => e.Offers (Workload a μ)) (fun l e he h => ?_)
    ⟨rest_install a hm, hw, .inr (.inl rfl)⟩ (Machine.along_of_forall hes)
  obtain ⟨hrest, hw, hwk⟩ := h
  exact ⟨hrest.next hm (carriable_workload a μ) he, hwk.next hrest hw hm hμ he⟩

theorem Awake.busy (h : Awake a μ l) (hm : a.maxSize.HasRoom a.mtu)
    (hne : l.root.disc.queue.packets ≠ []) : l.device.txMachineState = .busy := by
  obtain ⟨⟨-, tx, u, hl, hd⟩, hw, hwk⟩ := h
  rcases hwk with hstop | hnil | ⟨hb, -, -⟩
  · refine hd.busy.mpr (hd.waiting fun hq => ?_)
    unfold NetDeviceQueue.isStopped at hstop
    rw [hw.notLimited, Bool.or_false, txQueue_eq hl.steady.single, hl.stopped_iff_tight] at hstop
    unfold Tight Queue.used at hstop
    rw [hq, QueueSizeUnit.used_nil] at hstop
    have := hm.reserve_le
    omega
  · exact absurd hnil hne
  · exact hb

/-- **A link does not rest while its disc holds packets.** Without queue limits, and where the quota
of a run is enough for the reserve, the device transmits in every state in which the disc holds a
packet, and the end of the transmission is scheduled. -/
theorem run_busy [LawfulNetDeviceItem α] (k : DiscKind) (a : Attributes α) (μ : ℕ)
    (hm : a.maxSize.HasRoom a.mtu) (hnone : a.queueLimits = none)
    (hμ : a.maxSize.unit.reserve a.mtu ≤ effectiveQuota a.disc.quota * μ) {es : List (Event α)}
    (hes : ∀ e ∈ es, e.Offers (Workload a μ)) :
    let l := (k.linkMachine α).run (install a) es
    l.root.disc.queue.packets ≠ [] →
      l.device.txMachineState = .busy ∧ ∃ t, (t, .transmitComplete) ∈ l.agenda.entries := by
  intro l hne
  have h : Awake a μ l := run_awake k.kind hm hnone hμ hes
  have hb := h.busy hm hne
  obtain ⟨⟨-, tx, u, hl, hd⟩, -, -⟩ := h
  obtain ⟨t, rfl⟩ := Option.isSome_iff_exists.mp (hd.busy.mp hb)
  refine ⟨hb, t, mem_completions.mp ?_⟩
  rw [hl.flight.completions]
  exact List.mem_singleton_self t

instance (m : QueueSize) (x : α) : Decidable (Bounded m x) :=
  match m with
  | ⟨.packets, _⟩ => inferInstanceAs (Decidable (_ ∧ _))
  | ⟨.bytes, _⟩ => inferInstanceAs (Decidable (_ < _))

instance (a : Attributes α) (μ : ℕ) (x : α) : Decidable (Workload a μ x) :=
  decidable_of_iff (Carries a x ∧ Bounded a.disc.maxSize x ∧
    0 < (a.disc.maxSize.unit.cost x).toNat ∧ μ ≤ (a.maxSize.unit.cost (frame x)).toNat)
    ⟨fun h => ⟨h.1, h.2.1, h.2.2.1, h.2.2.2⟩, fun h => ⟨h.toCarries, h.bounded, h.takes, h.least⟩⟩

theorem run_busy_fivePackets :
    let l := (DiscKind.es.linkMachine _).run (install oneSlot) fivePackets
    l.root.disc.queue.packets.length = 2 ∧ l.device.txMachineState = .busy ∧
      ∃ t, (t, .transmitComplete) ∈ l.agenda.entries :=
  ⟨by decide +kernel, run_busy .es oneSlot 1 ⟨by decide, by decide⟩ rfl (by decide) (by decide)
    (by decide +kernel)⟩

/-- A device queue of 1600 bytes, on which a run may send two packets. -/
def smallQuota : Attributes Ipv4QueueDiscItem :=
  { oneSlot with
    disc := { oneSlot.disc with quota := 2 }
    maxSize := { unit := .bytes, value := 1600 }
    maxSize_pos := by decide }

-- Eight small packets behind three large ones: the link comes to rest with six packets in the disc.
example :
    let l := (DiscKind.es.linkMachine _).run (install smallQuota)
      (List.replicate 3 (.schedule 0 (.tcp 1380 1)) ++ List.replicate 8 (.schedule 0 (.tcp 0 1)) ++
        List.replicate 40 .processOneEvent)
    l.agenda.entries.length = 0 ∧ l.device.txMachineState = .ready ∧ l.txQueue.isStopped = false ∧
      l.root.disc.queue.packets.length = 6 := by decide +kernel

end Link

end StabilizedRed
