import StabilizedRed.Link.Order

/-!
# A link keeps to its data rate

Whatever the disc and the device's queue do, the device transmits one packet at a time
(`PointToPointNetDevice.Dispatched`), so a packet arrives no sooner after the one before it than its
own transmission and the interframe gap take (`run_spaced`). What arrives in a stretch of time is
therefore bounded by the data rate (`run_rate`).
-/

namespace StabilizedRed

variable {Z α : Type} [NetDeviceItem α]

namespace PointToPointNetDevice

/-- What an operation can do on a device in this state: the transmission goes on or the device stays
idle, or an idle device starts one transmission, last of all. -/
inductive Dispatched (d : PointToPointNetDevice α) :
    List (DeviceEffect α) → PointToPointNetDevice α → Prop where
  | stays (cs : List NetDeviceQueue.Change) (drops : List α) (d' : PointToPointNetDevice α)
      (bps : d'.bps = d.bps) (gap : d'.tInterframeGap = d.tInterframeGap)
      (state : d'.txMachineState = d.txMachineState) :
    Dispatched d (cs.map .change ++ drops.map .macTxDrop) d'
  | starts (cs : List NetDeviceQueue.Change) (p : PppPacket α) (d' : PointToPointNetDevice α)
      (bps : d'.bps = d.bps) (gap : d'.tInterframeGap = d.tInterframeGap)
      (ready : d.txMachineState = .ready) (state : d'.txMachineState = .busy) :
    Dispatched d (cs.map .change ++
      [.transmit p (calculateBytesTxTime d.bps (getSize p)) d.tInterframeGap]) d'

/-- Changes of the transmission queue may come first. -/
theorem Dispatched.changes_append {d d₁ d' : PointToPointNetDevice α} {es : List (DeviceEffect α)}
    (h : Dispatched d₁ es d') (hbps : d₁.bps = d.bps) (hgap : d₁.tInterframeGap = d.tInterframeGap)
    (hstate : d₁.txMachineState = d.txMachineState) (cs : List NetDeviceQueue.Change) :
    Dispatched d (cs.map .change ++ es) d' := by
  cases h with
  | stays cs' drops d' hb hg hs =>
    rw [← List.append_assoc, ← List.map_append]
    exact .stays _ drops d' (hb.trans hbps) (hg.trans hgap) (hs.trans hstate)
  | starts cs' p d' hb hg hr hs =>
    rw [← List.append_assoc, ← List.map_append, hbps, hgap]
    exact .starts _ p d' (hb.trans hbps) (hg.trans hgap) (hstate ▸ hr) hs

theorem dispatched_transmitNext (now : Time) {d : PointToPointNetDevice α}
    (hr : d.txMachineState = .ready) :
    Dispatched d (d.transmitNext now).1 (d.transmitNext now).2 := by
  unfold transmitNext
  rcases d.queue.dequeue with ⟨_ | ⟨p, trace⟩, queue⟩
  · exact .stays [] [] _ rfl rfl rfl
  · exact .starts _ p _ rfl rfl hr rfl

theorem dispatched_send (now : Time) (d : PointToPointNetDevice α) (x : α) (proto : UInt16) :
    Dispatched d (d.send now x proto).2.1 (d.send now x proto).2.2 := by
  unfold send
  split
  · exact .stays [] [x] d rfl rfl rfl
  · rcases d.queue.enqueue ⟨etherToPpp proto, x⟩ with ⟨_ | _, trace, queue⟩
    · exact .stays _ [x] _ rfl rfl rfl
    · dsimp only
      split
      · rename_i hready
        exact (dispatched_transmitNext now hready).changes_append (d := d) rfl rfl rfl
          (d.changes now trace queue)
      · have h := Dispatched.stays (d := d) (d.changes now trace queue) []
          (d.traced now trace queue).2 rfl rfl rfl
        rwa [List.map_nil, List.append_nil] at h

end PointToPointNetDevice

namespace Link

variable {K : ZombieKind Z} {l : Link Z α} {a : Attributes α} {u u' : Option Time}
  {ds : List (Time × PppPacket α)} {delay : ℕ} {agenda : Agenda Time (LinkCall α)}

/-- A packet and the date of its arrival. -/
def delivery : Time × LinkCall α → Option (Time × PppPacket α)
  | (t, .receive p) => some (t, p)
  | _ => none

/-- The packets on the wire, with the dates of their arrivals. -/
def deliveries (agenda : Agenda Time (LinkCall α)) : List (Time × PppPacket α) :=
  agenda.entries.filterMap delivery

/-- The time that the line is taken by a packet. -/
def slot (a : Attributes α) (p : PppPacket α) : ℕ :=
  calculateBytesTxTime a.bps (getSize p) + a.tInterframeGap

/-- `y` arrives after `x`, and no sooner than its own slot takes. -/
def Spaced (a : Attributes α) (x y : Time × PppPacket α) : Prop := x.1 + (slot a y.2 : ℤ) ≤ y.1

/-- The packets delivered so far and those on the wire are spaced, and none of them arrives later
than one that would leave when the device is free, less its slot. -/
structure Pace (a : Attributes α) (ds : List (Time × PppPacket α)) (u : Option Time) (delay : ℕ)
    (agenda : Agenda Time (LinkCall α)) : Prop where
  spaced : (ds ++ deliveries agenda).IsChain (Spaced a)
  last : ∀ x ∈ ds ++ deliveries agenda,
    x.1 + (a.tInterframeGap : ℤ) ≤ u.getD agenda.now + (delay : ℤ)

omit [NetDeviceItem α] in
theorem deliveries_schedule (delay : ℕ) {c : LinkCall α} (hc : ∀ t, delivery (t, c) = none) :
    deliveries (agenda.schedule delay c) = deliveries agenda :=
  agenda.filterMap_schedule_none (hc _)

omit [NetDeviceItem α] in
@[simp] theorem deliveries_runLater (n : ℕ) :
    deliveries (runLater n agenda) = deliveries agenda := by
  induction n generalizing agenda with
  | zero => rfl
  | succ n ih => exact ih.trans (deliveries_schedule 0 fun _ => rfl)

theorem Pace.schedule (h : Pace a ds u delay agenda) (d : ℕ) {c : LinkCall α}
    (hc : ∀ t, delivery (t, c) = none) : Pace a ds u delay (agenda.schedule d c) := by
  obtain ⟨hs, hl⟩ := h
  rw [← deliveries_schedule d hc] at hs hl
  exact ⟨hs, hl⟩

theorem Pace.runLater (h : Pace a ds u delay agenda) (n : ℕ) :
    Pace a ds u delay (runLater n agenda) := by
  obtain ⟨hs, hl⟩ := h
  constructor
  · rwa [deliveries_runLater]
  · rwa [deliveries_runLater, runLater_now]

/-- A packet that leaves a free device arrives last. -/
theorem deliveries_start
    (harr : ∀ e ∈ agenda.entries, (arrival e).isSome → e.1 ≤ agenda.now + (delay : ℤ))
    (p : PppPacket α) :
    deliveries ((agenda.schedule (slot a p) .transmitComplete).schedule
        (calculateBytesTxTime a.bps (getSize p) + delay) (.receive p)) =
      deliveries agenda ++
        [(agenda.now + (calculateBytesTxTime a.bps (getSize p) + delay : ℕ), p)] := by
  unfold deliveries
  rw [Agenda.filterMap_schedule_some (f := delivery) _ rfl,
    Agenda.filterMap_schedule_none (f := delivery) agenda rfl]
  · rfl
  · intro e he hs
    rw [Agenda.schedule_entries, Agenda.mem_insert] at he
    rcases he with rfl | he
    · exact absurd hs Bool.false_ne_true
    · have hle := harr e he (by obtain ⟨t, c⟩ := e; cases c <;> simp_all [delivery, arrival])
      simp only [Agenda.schedule_now]
      push_cast
      linarith

/-- **A packet that leaves a free device is spaced from those before it.** -/
theorem Pace.start (h : Pace a ds none delay agenda)
    (harr : ∀ e ∈ agenda.entries, (arrival e).isSome → e.1 ≤ agenda.now + (delay : ℤ))
    (p : PppPacket α) :
    Pace a ds (some (agenda.now + (slot a p : ℤ))) delay
      ((agenda.schedule (slot a p) .transmitComplete).schedule
        (calculateBytesTxTime a.bps (getSize p) + delay) (.receive p)) := by
  have hnew := deliveries_start (a := a) harr p
  constructor
  · rw [hnew, ← List.append_assoc, List.isChain_append]
    refine ⟨h.spaced, List.isChain_singleton _, fun x hx y hy => ?_⟩
    obtain rfl : y = _ := (Option.mem_some.mp hy).symm
    have hlast := h.last x (List.mem_of_getLast? hx)
    simp only [Option.getD_none] at hlast
    unfold Spaced slot
    push_cast
    linarith
  · intro x hx
    rw [hnew, ← List.append_assoc, List.mem_append, List.mem_singleton] at hx
    simp only [Option.getD_some]
    unfold slot
    push_cast
    rcases hx with hx | rfl
    · have hlast := h.last x hx
      simp only [Option.getD_none] at hlast
      linarith
    · push_cast
      linarith

section Pop

variable {b : Agenda Time (LinkCall α)} {c : LinkCall α}

/-- The next event is no arrival. -/
theorem Pace.pop (h : Pace a ds u delay agenda) (hb : agenda.entries = (b.now, c) :: b.entries)
    (hc : delivery (b.now, c) = none) (hu : u.getD agenda.now ≤ u'.getD b.now) :
    Pace a ds u' delay b := by
  have he : deliveries agenda = deliveries b := by
    unfold deliveries
    rw [hb, List.filterMap_cons_none hc]
  obtain ⟨hs, hl⟩ := h
  rw [he] at hs hl
  exact ⟨hs, fun x hx => (hl x hx).trans (Int.add_le_add_right hu _)⟩

/-- An arrival. -/
theorem Pace.pop_receive (h : Pace a ds u delay agenda) {p : PppPacket α}
    (hb : agenda.entries = (b.now, .receive p) :: b.entries) (hnow : agenda.now ≤ b.now) :
    Pace a (ds ++ [(b.now, p)]) u delay b := by
  have he : deliveries agenda = (b.now, p) :: deliveries b := by
    unfold deliveries
    rw [hb, List.filterMap_cons_some (show delivery (b.now, .receive p) = some (b.now, p) from rfl)]
  have hu : u.getD agenda.now ≤ u.getD b.now := by
    cases u with
    | none => exact hnow
    | some t => exact le_rfl
  obtain ⟨hs, hl⟩ := h
  rw [he, List.append_cons] at hs hl
  exact ⟨hs, fun x hx => (hl x hx).trans (Int.add_le_add_right hu _)⟩

end Pop

/-! ## The link -/

/-- The invariant of a link that has delivered `ds`: it is free, or not before `u`. -/
structure Paced (a : Attributes α) (ds : List (Time × PppPacket α)) (u : Option Time)
    (l : Link Z α) : Prop where
  bps : l.device.bps = a.bps
  gap : l.device.tInterframeGap = a.tInterframeGap
  flight : Flight u l.delay l.agenda l.wire l.received
  pace : Pace a ds u l.delay l.agenda
  busy : l.device.txMachineState = .busy ↔ u.isSome

/-- Changes of the transmission queue, carried out on any link. -/
theorem perform_changes_any (K : ZombieKind Z) (l : Link Z α) (cs : List NetDeviceQueue.Change) :
    ∃ root n, (cs.map DeviceEffect.change).foldl (perform K) l =
      { l with root := root, agenda := runLater n l.agenda } := by
  induction cs generalizing l with
  | nil => exact ⟨l.root, 0, rfl⟩
  | cons c cs ih =>
    obtain ⟨root, n, he⟩ := ih (perform K l (.change c))
    rw [List.map_cons, List.foldl_cons, he]
    by_cases hr : l.txQueue.requestsRun c = true
    · refine ⟨root, n + 1, ?_⟩
      simp only [perform, hr, if_true]
      rfl
    · refine ⟨root, n, ?_⟩
      simp only [perform, hr]
      rfl

theorem perform_drops (K : ZombieKind Z) (l : Link Z α) (drops : List α) :
    (drops.map DeviceEffect.macTxDrop).foldl (perform K) l =
      { l with dropped := l.dropped ++ drops } := by
  induction drops generalizing l with
  | nil => simp
  | cons x drops ih =>
    rw [List.map_cons, List.foldl_cons, ih]
    simp [perform]

/-- An operation of the device, on a link whose device is free if its state says so. -/
theorem Paced.dispatched (h : Paced a ds u l) (K : ZombieKind Z) {d : PointToPointNetDevice α}
    (hbps : d.bps = a.bps) (hgap : d.tInterframeGap = a.tInterframeGap)
    (hd : d.txMachineState = .busy ↔ u.isSome) {es : List (DeviceEffect α)}
    {d' : PointToPointNetDevice α} (hes : PointToPointNetDevice.Dispatched d es d') :
    ∃ u', Paced a ds u' (es.foldl (perform K) { l with device := d' }) := by
  cases hes with
  | stays cs drops d' hb hg hs =>
    obtain ⟨root, n, he⟩ := perform_changes_any K { l with device := d' } cs
    rw [List.foldl_append, he, perform_drops]
    exact ⟨u, hb.trans hbps, hg.trans hgap, h.flight.runLater n, h.pace.runLater n, hs ▸ hd⟩
  | starts cs p d' hb hg hr hs =>
    obtain ⟨root, n, he⟩ := perform_changes_any K { l with device := d' } cs
    rw [List.foldl_append, he, hbps, hgap]
    have hu : u = none := by
      rw [← Option.not_isSome_iff_eq_none, ← hd, hr]
      exact TxMachineState.noConfusion
    subst hu
    have hflight := h.flight.runLater n
    have hpace := (h.pace.runLater n).start hflight.arrivals_le p
    exact ⟨_, hb.trans hbps, hg.trans hgap, hflight.start _ _ p, hpace, iff_of_true hs rfl⟩

theorem Paced.callback (h : Paced a ds u l) (K : ZombieKind Z) :
    ∃ u', Paced a ds u' (Link.callback K l) := by
  unfold Link.callback
  cases l.root.pending with
  | nil => exact ⟨u, h⟩
  | cons p ps =>
    have hes := PointToPointNetDevice.dispatched_send l.agenda.now l.device p.item
      (getProtocol p.item)
    obtain ⟨u', h'⟩ := h.dispatched K h.bps h.gap h.busy hes
    exact ⟨u', { h' with }⟩

theorem Paced.iterate (h : Paced a ds u l) (K : ZombieKind Z) (n : ℕ) :
    ∃ u', Paced a ds u' ((Link.callback K)^[n] l) := by
  induction n generalizing u l with
  | zero => exact ⟨u, h⟩
  | succ n ih =>
    obtain ⟨u', h'⟩ := h.callback K
    exact ih h'

theorem Paced.runDisc (h : Paced a ds u l) (K : ZombieKind Z) :
    ∃ u', Paced a ds u' (l.runDisc K) :=
  Paced.iterate (l := { l with root := Root.next K l.root .run }) { h with } K _

/-- The packet that an event delivers. -/
def delivered (o : Option (Time × LinkCall α)) : Option (Time × PppPacket α) := o.bind delivery

section Pop

variable {b : Agenda Time (LinkCall α)} {c : LinkCall α}

/-- The next event is a call of the disc. -/
theorem Paced.pop (h : Paced a ds u l) (hb : l.agenda.entries = (b.now, c) :: b.entries)
    (hnow : l.agenda.now ≤ b.now) (hd : delivery (b.now, c) = none)
    (hc : completion (b.now, c) = none) (ha : arrival (b.now, c) = none) :
    Paced a ds u { l with agenda := b } where
  bps := h.bps
  gap := h.gap
  flight := h.flight.pop hb hnow hc ha
  pace := h.pace.pop hb hd (by cases u <;> simp [hnow])
  busy := h.busy

theorem Paced.pop_receive (h : Paced a ds u l) {p : PppPacket α}
    (hb : l.agenda.entries = (b.now, .receive p) :: b.entries) (hnow : l.agenda.now ≤ b.now) :
    Paced a (ds ++ [(b.now, p)]) u
      { l with agenda := b, received := l.received ++ [p.deliver] } where
  bps := h.bps
  gap := h.gap
  flight := h.flight.pop_receive hb hnow
  pace := h.pace.pop_receive hb hnow
  busy := h.busy

/-- The end of a transmission: the device is free and may start the next one. -/
theorem Paced.pop_transmitComplete (h : Paced a ds u l) (K : ZombieKind Z)
    (hb : l.agenda.entries = (b.now, .transmitComplete) :: b.entries) :
    ∃ u', Paced a ds u' (({ l with agenda := b } : Link Z α).invoke K .transmitComplete) := by
  obtain ⟨rfl, hflight⟩ := h.flight.pop_transmitComplete hb
  let d : PointToPointNetDevice α :=
    { l.device with txMachineState := .ready, currentPkt := none }
  have hfree : Paced a ds none { l with agenda := b, device := d } :=
    { bps := h.bps
      gap := h.gap
      flight := hflight
      pace := h.pace.pop hb rfl le_rfl
      busy := iff_of_false TxMachineState.noConfusion Bool.false_ne_true }
  have hes : PointToPointNetDevice.Dispatched d (d.transmitNext b.now).1
      (d.transmitNext b.now).2 := PointToPointNetDevice.dispatched_transmitNext b.now rfl
  exact hfree.dispatched K hfree.bps hfree.gap hfree.busy hes

end Pop

/-- **Step lemma.** -/
theorem Paced.next (h : Paced a ds u l) (K : ZombieKind Z) (e : Event α) :
    ∃ u', Paced a (ds ++ (delivered ((machine K).out l e)).toList) u' ((machine K).next l e) := by
  cases e with
  | schedule delay item =>
    refine ⟨u, h.bps, h.gap, h.flight.schedule delay (fun _ => rfl) fun _ => rfl, ?_, h.busy⟩
    show Pace a (ds ++ []) u l.delay (l.agenda.schedule delay (.send item))
    rw [List.append_nil]
    exact h.pace.schedule delay fun _ => rfl
  | processOneEvent =>
    rcases l.agenda.pop_cases with ⟨-, hpop⟩ | ⟨c, b, hpop, hb, hnow⟩ <;>
      unfold machine Machine.next Machine.out <;> dsimp only <;> rw [hpop]
    · simpa [delivered] using ⟨u, h⟩
    · dsimp only
      cases c with
      | send x =>
        obtain ⟨u', h'⟩ := Paced.runDisc
          (l := { l with
            agenda := b
            root := Root.next K l.root (.enqueue b.now (setTxQueueIndex 0 x)) })
          { h.pop hb hnow rfl rfl rfl with } K
        rw [← List.append_nil ds] at h'
        exact ⟨u', h'⟩
      | run =>
        obtain ⟨u', h'⟩ := (h.pop hb hnow rfl rfl rfl).runDisc K
        rw [← List.append_nil ds] at h'
        exact ⟨u', h'⟩
      | transmitComplete =>
        obtain ⟨u', h'⟩ := h.pop_transmitComplete K hb
        rw [← List.append_nil ds] at h'
        exact ⟨u', h'⟩
      | receive p => exact ⟨u, h.pop_receive hb hnow⟩

theorem paced_install (a : Attributes α) : Paced a [] none (install a : Link Z α) where
  bps := rfl
  gap := rfl
  flight := ⟨rfl, List.forall_mem_nil _, rfl⟩
  pace := ⟨List.isChain_nil, List.forall_mem_nil _⟩
  busy := iff_of_false TxMachineState.noConfusion Bool.false_ne_true

/-! ## Runs -/

/-- What has arrived at the other end, with the dates. -/
def arrivals (k : DiscKind) (a : Attributes α) (es : List (Event α)) :
    List (Time × PppPacket α) :=
  ((k.linkMachine α).outputs (install a) es).filterMap delivered

/-- **Run lemma.** -/
theorem run_paced (k : DiscKind) (a : Attributes α) (es : List (Event α)) :
    ∃ u, Paced a (arrivals k a es) u ((k.linkMachine α).run (install a) es) := by
  have hall : (k.linkMachine α).Along (fun _ _ => True) (install a) es :=
    Machine.along_of_forall (Q := fun _ => True) fun _ _ => trivial
  have h := Machine.observe_invariant (M := k.linkMachine α)
    (f := fun l e => delivered ((k.linkMachine α).out l e)) (I := fun l ds => ∃ u, Paced a ds u l)
    (fun l e ds _ ⟨u, hl⟩ => hl.next k.kind e) ⟨none, paced_install a⟩ hall
  rwa [List.nil_append, Machine.observe_out] at h

/-- Each packet arrives after the one before it, and no sooner than its transmission and the gap
take. -/
theorem run_spaced (k : DiscKind) (a : Attributes α) (es : List (Event α)) :
    (arrivals k a es).IsChain (Spaced a) := by
  obtain ⟨u, h⟩ := run_paced k a es
  exact h.pace.spaced.left_of_append

/-- The slots of a chain of spaced packets, the first one apart, are one after the other. -/
theorem sum_slot_le {x : Time × PppPacket α} {ys : List (Time × PppPacket α)}
    (h : (x :: ys).IsChain (Spaced a)) :
    x.1 + ((ys.map fun y => slot a y.2).sum : ℤ) ≤
      ((x :: ys).getLast (List.cons_ne_nil x ys)).1 := by
  induction ys generalizing x with
  | nil => simp
  | cons y ys ih =>
    obtain ⟨hxy, hys⟩ := List.isChain_cons_cons.mp h
    have hlast := ih hys
    unfold Spaced at hxy
    rw [List.getLast_cons (List.cons_ne_nil y ys), List.map_cons, List.sum_cons]
    push_cast at hlast ⊢
    linarith

/-- **A link keeps to its data rate.** Between two arrivals, whatever came and whatever the disc and
the queues did, the packets after the first one had their transmissions and gaps one after the
other. -/
theorem run_rate (k : DiscKind) (a : Attributes α) (es : List (Event α))
    {x : Time × PppPacket α} {ys : List (Time × PppPacket α)} (h : x :: ys <:+: arrivals k a es) :
    x.1 + ((ys.map fun y => slot a y.2).sum : ℤ) ≤
      ((x :: ys).getLast (List.cons_ne_nil x ys)).1 := by
  obtain ⟨before, after, he⟩ := h
  have hspaced := run_spaced k a es
  rw [← he] at hspaced
  exact sum_slot_le hspaced.left_of_append.right_of_append

theorem run_rate_fivePackets :
    ∃ x ys, x :: ys <:+: arrivals .stabilizedRed oneSlot
        (fivePackets ++ List.replicate 30 .processOneEvent) ∧
      ys.length = 4 ∧
      x.1 + ((ys.map fun y => slot oneSlot y.2).sum : ℤ) ≤
        ((x :: ys).getLast (List.cons_ne_nil x ys)).1 := by
  have hlen : (arrivals .stabilizedRed oneSlot
      (fivePackets ++ List.replicate 30 .processOneEvent)).length = 5 := by decide +kernel
  obtain ⟨x, ys, hds⟩ := List.exists_cons_of_length_eq_add_one hlen
  have hin : x :: ys <:+: arrivals .stabilizedRed oneSlot
      (fivePackets ++ List.replicate 30 .processOneEvent) := hds ▸ List.infix_rfl
  rw [hds, List.length_cons] at hlen
  exact ⟨x, ys, hin, Nat.succ.inj hlen, run_rate .stabilizedRed oneSlot _ hin⟩

end Link

end StabilizedRed
