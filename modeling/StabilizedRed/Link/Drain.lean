import StabilizedRed.Link.Busy

/-!
# A link delivers every packet that its disc accepts

`backlog` counts what the simulator has still to do for the packets of a link. A packet that is
scheduled adds five to it, and each event that is processed takes at least one off
(`backlog_next`), so the simulator comes to an end (`run_finishes`). A link that does not lose a
wake-up has then delivered everything (`run_drained`).
-/

namespace StabilizedRed

variable {Z α : Type} [NetDeviceItem α]

/-- What is to be done for a call, at most: a packet that is sent goes through the disc, and its
departure can schedule two runs, the end of its transmission and its arrival. -/
def LinkCall.weight : LinkCall α → ℕ
  | .send _ => 5
  | _ => 1

namespace Link

/-- The weight of the calls that are scheduled. -/
def load (agenda : Agenda Time (LinkCall α)) : ℕ :=
  (agenda.entries.map fun e => LinkCall.weight e.2).sum

/-- What is to be done for the calls that are scheduled and the packets that are queued. -/
def held (l : Link Z α) : ℕ :=
  load l.agenda + 4 * l.root.disc.queue.packets.length + 4 * l.device.queue.packets.length

/-- The same with the packets for which `Run` waits. -/
def backlog (l : Link Z α) : ℕ := l.held + 4 * l.root.pending.length

variable {a : Attributes α} {C : α → Prop} {tx tx₁ : NetDeviceQueue} {u u₁ : Option Time}
  {l l₁ : Link Z α} {K : ZombieKind Z} {agenda : Agenda Time (LinkCall α)}

omit [NetDeviceItem α] in
@[simp] theorem load_schedule (delay : ℕ) (c : LinkCall α) :
    load (agenda.schedule delay c) = LinkCall.weight c + load agenda :=
  ((Agenda.insert_perm _ c agenda.entries).map _).sum_eq

omit [NetDeviceItem α] in
@[simp] theorem load_runLater (n : ℕ) : load (runLater n agenda) = n + load agenda := by
  induction n generalizing agenda with
  | zero => exact (Nat.zero_add _).symm
  | succ n ih =>
    show load (runLater n (agenda.schedule 0 .run)) = _
    rw [ih, load_schedule]
    exact (Nat.add_assoc n 1 _).symm

omit [NetDeviceItem α] in
theorem load_pop {b : Agenda Time (LinkCall α)} {e : Time × LinkCall α}
    (he : agenda.entries = e :: b.entries) : load agenda = LinkCall.weight e.2 + load b := by
  unfold load
  rw [he, List.map_cons, List.sum_cons]

theorem held_takeIn (p : PppPacket α) : (l.takeIn p).held = l.held + 4 := by
  have hruns : (l.takeIn p).agenda = l.agenda := by
    unfold takeIn PointToPointNetDevice.changes
    dsimp only
    rw [NetDeviceQueue.enqueue_runs]
    rfl
  unfold held
  rw [hruns]
  show _ + 4 * (l.device.queue.packets ++ [p]).length = _
  rw [List.length_append, List.length_singleton, Nat.mul_add, ← Nat.add_assoc]
  rfl

theorem held_startNext {p : PppPacket α} {rest : List (PppPacket α)}
    (hq : l.device.queue.packets = p :: rest) :
    ((l.takeOut p rest).startTransmit p).held ≤ l.held := by
  have hruns : (l.txQueue.perform (l.device.changes l.agenda.now (.dequeue p)
      (l.device.queue.eraseBegin p rest))).1 ≤ 2 := NetDeviceQueue.dequeue_runs_le l.txQueue
  have hload : load ((l.takeOut p rest).startTransmit p).agenda =
      1 + (1 + ((l.txQueue.perform (l.device.changes l.agenda.now (.dequeue p)
        (l.device.queue.eraseBegin p rest))).1 + load l.agenda)) := by
    unfold startTransmit
    rw [load_schedule, load_schedule]
    unfold takeOut
    dsimp only
    rw [load_runLater]
    rfl
  unfold held
  rw [hload, hq, List.length_cons]
  show _ + 4 * l.root.disc.queue.packets.length + 4 * rest.length ≤ _
  omega

theorem Hands.held_le {x : α} (h : Hands l x l₁) : l₁.held ≤ l.held + 4 := by
  cases h with
  | waits _ => exact (held_takeIn _).le
  | leaves _ hq =>
    have hq₁ : (l.takeIn (frame x)).device.queue.packets = [frame x] :=
      congrArg (· ++ [frame x]) hq
    exact (held_startNext hq₁).trans (held_takeIn _).le

/-- A turn of the loop of `Run` takes a packet out of the disc at most. -/
theorem backlog_turn {r' : Root Z α} {quota : UInt32} {spent : Prop}
    (ht : Root.Turn tx quota spent l.root r') :
    ({ l with root := r' } : Link Z α).backlog = l.held := by
  unfold backlog held
  show load l.agenda + 4 * r'.disc.queue.packets.length + 4 * l.device.queue.packets.length +
    4 * r'.pending.length = _
  cases ht with
  | ended _ hp _ _ hq =>
    rw [hp, hq]
    rfl
  | gave item rest hq hr _ hp =>
    rw [hp, hr, hq]
    simp only [List.length_cons, List.length_nil]
    omega

theorem backlog_callback (h : Looping a C l) (hm : a.maxSize.HasRoom a.mtu) (hC : Carriable a C) :
    (callback K l).backlog ≤ l.backlog := by
  rcases h.callback_cases (K := K) hm hC with
    ⟨-, he⟩ | ⟨p, l₁, tx₁, u₁, hp, hhands, hroot, h₁, -, he⟩ <;> rw [he]
  have hp₁ : l₁.root.pending = [p] := by
    rw [hroot]
    exact hp
  obtain ⟨-, hturn⟩ := h₁.steady.sendReturned (K := K) hp₁
  rw [show (l₁.sendReturned K).backlog = l₁.held from backlog_turn hturn]
  unfold backlog
  rw [hp]
  exact hhands.held_le

theorem backlog_iterate (h : Looping a C l) (hm : a.maxSize.HasRoom a.mtu) (hC : Carriable a C)
    (n : ℕ) : ((callback K)^[n] l).backlog ≤ l.backlog := by
  induction n generalizing l with
  | zero => exact Nat.le_refl _
  | succ n ih => exact (ih (h.callback hm hC).1).trans (backlog_callback h hm hC)

theorem backlog_runDisc (h : Rest a C l) (hm : a.maxSize.HasRoom a.mtu) (hC : Carriable a C) :
    (l.runDisc K).backlog ≤ l.backlog := by
  obtain ⟨hp, tx, u, hl, hd⟩ := h
  obtain ⟨hsteady, hturn⟩ := hl.steady.run (K := K) hp
  obtain ⟨hloop, -⟩ := hl.turn_looping hd hsteady hturn
  refine (backlog_iterate hloop hm hC _).trans ?_
  rw [backlog_turn hturn]
  exact Nat.le_add_right _ _

theorem backlog_send [LawfulNetDeviceItem α] (h : Rest a C l) (hm : a.maxSize.HasRoom a.mtu)
    (hC : Carriable a C) {x : α} (hx : C x) : (l.send K x).backlog ≤ l.backlog + 4 := by
  refine (backlog_runDisc (h.enqueue hC hx) hm hC).trans ?_
  have hlen : (l.root.disc.enqueue K l.agenda.now (setTxQueueIndex 0 x)).2.queue.packets.length ≤
      l.root.disc.queue.packets.length + 1 := by
    rw [ZombieQueueDisc.enqueue_packets, List.length_append]
    refine Nat.add_le_add_left ?_ _
    split
    · exact Nat.le_refl _
    · exact Nat.zero_le _
  unfold backlog held
  show load l.agenda + 4 * (l.root.disc.enqueue K l.agenda.now
    (setTxQueueIndex 0 x)).2.queue.packets.length + 4 * l.device.queue.packets.length +
    4 * l.root.pending.length ≤ _
  omega

theorem backlog_transmitComplete (h : Sound a C tx none [] l) :
    (l.invoke K .transmitComplete).backlog ≤ l.backlog := by
  by_cases hn : l.device.queue.nPackets = 0
  · rw [transmitComplete_empty hn]
    exact Nat.le_refl _
  · obtain ⟨p, rest, hq⟩ := List.exists_cons_of_ne_nil (h.device.counted.ne_nil hn)
    rw [transmitComplete_cons h.steady.single hn hq]
    exact Nat.add_le_add_right (held_startNext hq) _

/-- **Each event takes something off the backlog.** -/
theorem backlog_next [LawfulNetDeviceItem α] (h : Rest a C l) (hm : a.maxSize.HasRoom a.mtu)
    (hC : Carriable a C) (hne : l.agenda.entries ≠ []) :
    ((machine K).next l .processOneEvent).backlog < l.backlog := by
  rcases l.agenda.pop_cases with ⟨hnil, -⟩ | ⟨c, b, hpop, hb, hnow⟩
  · exact absurd hnil hne
  · unfold machine Machine.next
    dsimp only
    rw [hpop]
    have hload : l.backlog = c.weight + ({ l with agenda := b } : Link Z α).backlog := by
      unfold backlog held
      rw [load_pop hb]
      dsimp only
      omega
    rw [hload]
    cases c with
    | send x =>
      have hle := backlog_send (K := K) (h.pop hb hnow rfl rfl) hm hC (h.pop_send hb)
      show (({ l with agenda := b } : Link Z α).send K x).backlog < 5 + _
      omega
    | run =>
      have hle := backlog_runDisc (K := K) (h.pop hb hnow rfl rfl) hm hC
      show (({ l with agenda := b } : Link Z α).runDisc K).backlog < 1 + _
      omega
    | transmitComplete =>
      obtain ⟨tx, hfree⟩ := h.pop_transmitComplete hb
      have hle := backlog_transmitComplete (K := K) hfree
      show (({ l with agenda := b } : Link Z α).invoke K .transmitComplete).backlog < 1 + _
      omega
    | receive p => exact Nat.lt_add_of_pos_left Nat.one_pos

/-! ## The end of a simulation -/

theorem next_of_idle (h : l.agenda.entries = []) : (machine K).next l .processOneEvent = l := by
  rcases l.agenda.pop_cases with ⟨-, hpop⟩ | ⟨c, b, -, hb, -⟩
  · unfold machine Machine.next
    dsimp only
    rw [hpop]
  · rw [h] at hb
    cases hb

/-- The packet that an event schedules. -/
def Event.scheduled : Event α → Option α
  | .schedule _ item => some item
  | .processOneEvent => none

theorem backlog_run [LawfulNetDeviceItem α] (K : ZombieKind Z) (hm : a.maxSize.HasRoom a.mtu)
    (hC : Carriable a C) {es : List (Event α)} (hes : ∀ e ∈ es, e.Offers C) :
    ((machine K).run (install a) es).backlog ≤ 5 * (es.filterMap Event.scheduled).length := by
  have h := Machine.observe_invariant (M := machine K) (f := fun _ e => Event.scheduled e)
    (P := fun _ e => e.Offers C) (I := fun l H => Rest a C l ∧ l.backlog ≤ 5 * H.length) (H := [])
    ?_ ⟨rest_install a hm, Nat.le_refl _⟩ (Machine.along_of_forall hes)
  · rw [Machine.observe_event, List.nil_append] at h
    exact h.2
  · rintro l e H he ⟨hrest, hle⟩
    refine ⟨hrest.next hm hC he, ?_⟩
    cases e with
    | schedule delay item =>
      have hadd : ((machine K).next l (.schedule delay item)).backlog = l.backlog + 5 := by
        unfold backlog held
        show load (l.agenda.schedule delay (.send item)) + 4 * l.root.disc.queue.packets.length +
          4 * l.device.queue.packets.length + 4 * l.root.pending.length = _
        rw [load_schedule, show (LinkCall.send item).weight = 5 from rfl]
        omega
      rw [hadd, List.length_append]
      show _ ≤ 5 * (H.length + 1)
      omega
    | processOneEvent =>
      show _ ≤ 5 * (H ++ []).length
      rw [List.append_nil]
      by_cases hne : l.agenda.entries = []
      · rwa [next_of_idle hne]
      · exact (backlog_next hrest hm hC hne).le.trans hle

/-- So many events leave nothing to be done. -/
theorem Rest.finishes [LawfulNetDeviceItem α] (h : Rest a C l) (hm : a.maxSize.HasRoom a.mtu)
    (hC : Carriable a C) {n : ℕ} (hn : l.agenda.entries = [] ∨ l.backlog ≤ n) :
    ((machine K).run l (List.replicate n .processOneEvent)).agenda.entries = [] := by
  induction n generalizing l with
  | zero =>
    refine hn.elim id fun h0 => ?_
    by_contra hne
    exact Nat.not_lt_zero _ ((backlog_next (K := K) h hm hC hne).trans_le h0)
  | succ n ih =>
    rw [List.replicate_succ, Machine.run_cons]
    refine ih (h.next hm hC trivial) ?_
    by_cases hne : l.agenda.entries = []
    · rw [next_of_idle hne]
      exact .inl hne
    · have hlt := backlog_next (K := K) h hm hC hne
      exact .inr (Nat.le_of_lt_succ (hlt.trans_le (hn.resolve_left hne)))

/-- **The simulator comes to an end**: five events for each packet that was scheduled leave nothing
to be done, with any attributes and queue limits. -/
theorem run_finishes [LawfulNetDeviceItem α] (K : ZombieKind Z) (hm : a.maxSize.HasRoom a.mtu)
    (hC : Carriable a C) {es : List (Event α)} (hes : ∀ e ∈ es, e.Offers C) :
    ((machine K).run (install a) (es ++ List.replicate (5 * (es.filterMap Event.scheduled).length)
      .processOneEvent)).agenda.entries = [] := by
  rw [Machine.run_append]
  exact (run_rest K hm hC hes).finishes hm hC (.inr (backlog_run K hm hC hes))

/-- What a link has delivered when nothing is left to be done. -/
theorem Awake.delivered [LawfulNetDeviceItem α] {μ : ℕ} (h : Awake a μ l)
    (hm : a.maxSize.HasRoom a.mtu) (hnil : l.agenda.entries = []) :
    l.received = l.root.accepted.map toDeliver := by
  have hbusy := mt (h.busy hm)
  obtain ⟨⟨-, tx, u, hl, hd⟩, -, -⟩ := h
  have hu : u = none := by
    have hc := hl.flight.completions
    rw [hnil] at hc
    exact Option.toList_eq_nil_iff.mp hc.symm
  subst hu
  have hready : l.device.txMachineState ≠ .busy := fun hb => Bool.false_ne_true (hd.busy.mp hb)
  have hqueue : l.device.queue.packets = [] :=
    not_not.mp fun hne => Bool.false_ne_true (hd.waiting hne)
  have hdisc : l.root.disc.queue.packets = [] := not_not.mp (hbusy hready)
  have hflying : flying l.agenda = [] := congrArg (List.filterMap arrival) hnil
  rw [hl.delivers (carriable_workload a μ), hqueue, hdisc, hflying]
  simp only [List.map_nil, List.append_nil]

/-- **A link delivers every packet that its disc accepts.** Without queue limits, and where the
quota of a run is enough for the reserve, the simulator comes to an end, and then the packets that
have arrived are the accepted ones, in their order. -/
theorem run_drained [LawfulNetDeviceItem α] (k : DiscKind) (a : Attributes α) (μ : ℕ)
    (hm : a.maxSize.HasRoom a.mtu) (hnone : a.queueLimits = none)
    (hμ : a.maxSize.unit.reserve a.mtu ≤ effectiveQuota a.disc.quota * μ) {es : List (Event α)}
    (hes : ∀ e ∈ es, e.Offers (Workload a μ)) :
    let l := (k.linkMachine α).run (install a)
      (es ++ List.replicate (5 * (es.filterMap Event.scheduled).length) .processOneEvent)
    l.agenda.entries = [] ∧ l.received = l.root.accepted.map toDeliver := by
  have hnil := run_finishes k.kind hm (carriable_workload a μ) hes
  have hall : ∀ e ∈ es ++ List.replicate (5 * (es.filterMap Event.scheduled).length)
      .processOneEvent, e.Offers (Workload a μ) := by
    refine List.forall_mem_append.mpr ⟨hes, fun e he => ?_⟩
    rw [List.eq_of_mem_replicate he]
    trivial
  have hawake : Awake a μ _ := run_awake k.kind hm hnone hμ hall
  exact ⟨hnil, hawake.delivered hm hnil⟩

theorem run_drained_fivePackets :
    let l := (DiscKind.stabilizedRed.linkMachine _).run (install oneSlot) (fivePackets ++
      List.replicate (5 * (fivePackets.filterMap Event.scheduled).length) .processOneEvent)
    l.agenda.entries = [] ∧ l.received = l.root.accepted.map toDeliver :=
  run_drained .stabilizedRed oneSlot 1 ⟨by decide, by decide⟩ rfl (by decide) (by decide)

example : ((DiscKind.stabilizedRed.linkMachine _).run (install oneSlot)
    (fivePackets ++ List.replicate 25 .processOneEvent)).received.length = 5 := by decide +kernel

end Link

end StabilizedRed
