import StabilizedRed.Link.Busy
import StabilizedRed.Link.Rate
import StabilizedRed.Lib.Service
import StabilizedRed.Root.Frame

/-!
# A link serves the packets that its disc accepts

A link that loses no wake-up works as long as it holds packets (`Awake.drop_wire`). So it is a
server: it transmits the accepted packets in their order, each as soon as it has been accepted and
the one before it has left (`run_serves`). Whatever the disc, its device and the simulator do in
between, the dates of the arrivals depend on the dates at which the packets were accepted and on
nothing else.

A server delays no packet for longer than the packets before it can take, so what the disc accepts
within a burst arrives within that burst, the gap and the delay of the channel aside (`run_delay`).
-/

namespace StabilizedRed

variable {Z α : Type} [NetDeviceItem α]

namespace Link

/-- The packet that the device transmits for an accepted one. -/
def outgoing (x : α) : PppPacket α := frame (addHeader x)

/-- A packet that was accepted at the date `h.1`, as a job for the device. -/
def job (a : Attributes α) (h : Time × α) : Job Time := ⟨h.1, slot a (outgoing h.2)⟩

/-- The date from which the device is free after the accepted packets. -/
def freeAt (a : Attributes α) (hs : List (Time × α)) : Time := Service.freeAt 0 (hs.map (job a))

/-- How long after the beginning of its transmission a packet arrives. -/
def transit (a : Attributes α) (p : PppPacket α) : ℕ :=
  calculateBytesTxTime a.bps (getSize p) + a.delay

/-- The arrivals of the accepted packets `hs`, on a device that is free from `free` on. -/
def servedFrom (a : Attributes α) (free : Time) (hs : List (Time × α)) :
    List (Time × PppPacket α) :=
  List.zipWith (fun h t => (t + (transit a (outgoing h.2) : ℤ), outgoing h.2)) hs
    (Service.starts free (hs.map (job a)))

/-- **The arrivals of the accepted packets**, if the link is a server. -/
def served (a : Attributes α) (hs : List (Time × α)) : List (Time × PppPacket α) :=
  servedFrom a 0 hs

/-- The packet that the disc accepts at an event, with the date. -/
def admitted (K : ZombieKind Z) (l : Link Z α) : Event α → Option (Time × α)
  | .schedule _ _ => none
  | .processOneEvent =>
    match l.agenda.pop with
    | some (.send x, agenda) =>
      if (l.root.disc.enqueue K agenda.now (setTxQueueIndex 0 x)).1 then
        some (agenda.now, setTxQueueIndex 0 x)
      else none
    | _ => none

/-- The packets that the disc has accepted, with the dates. -/
def admissions (k : DiscKind) (a : Attributes α) (es : List (Event α)) : List (Time × α) :=
  (k.linkMachine α).observe (admitted k.kind) (install a) es

variable {a : Attributes α} {hs : List (Time × α)} {ds : List (Time × PppPacket α)} {l : Link Z α}
  {K : ZombieKind Z} {agenda : Agenda Time (LinkCall α)}

theorem served_append (a : Attributes α) (hs ks : List (Time × α)) :
    served a (hs ++ ks) = served a hs ++ servedFrom a (freeAt a hs) ks := by
  unfold served servedFrom freeAt
  rw [List.map_append, Service.starts_append, List.zipWith_append (by simp)]

theorem length_served (a : Attributes α) (hs : List (Time × α)) :
    (served a hs).length = hs.length := by
  unfold served servedFrom
  rw [List.length_zipWith, Service.length_starts, List.length_map, Nat.min_self]

theorem served_concat (a : Attributes α) (hs : List (Time × α)) (h : Time × α) :
    served a (hs ++ [h]) = served a hs ++
      [(max h.1 (freeAt a hs) + (transit a (outgoing h.2) : ℤ), outgoing h.2)] :=
  served_append a hs [h]

theorem le_of_mem_servedFrom {free : Time} {x : Time × PppPacket α}
    (hx : x ∈ servedFrom a free hs) : free ≤ x.1 := by
  unfold servedFrom at hx
  rw [← List.map_uncurry_zip_eq_zipWith] at hx
  obtain ⟨⟨h, t⟩, hmem, rfl⟩ := List.mem_map.mp hx
  have hpos : ∀ j ∈ hs.map (job a), 0 ≤ j.length := by
    intro j hj
    obtain ⟨k, -, rfl⟩ := List.mem_map.mp hj
    exact Int.natCast_nonneg _
  have hstart := Service.le_of_mem_starts hpos (List.of_mem_zip hmem).2
  exact hstart.trans (le_add_of_nonneg_right (Int.natCast_nonneg _))

theorem freeAt_concat (a : Attributes α) (hs : List (Time × α)) (h : Time × α) :
    freeAt a (hs ++ [h]) = max h.1 (freeAt a hs) + (slot a (outgoing h.2) : ℤ) := by
  unfold freeAt
  rw [List.map_append, List.map_singleton, Service.freeAt_concat]
  rfl

/-! ## What a link has to do -/

variable {C : α → Prop} {tx : NetDeviceQueue} {u : Option Time} {given : List (PppPacket α)}

/-- The accepted packets are those on the wire, those on their way to it and those in the disc. -/
theorem Sound.outgoing_eq (h : Sound a C tx u given l) :
    l.wire ++ l.device.queue.packets ++ given ++ l.root.disc.queue.packets.map outgoing =
      l.root.accepted.map outgoing := by
  obtain ⟨left, -, hacc, hsent⟩ := h.steady.inOrder.order
  have hnone : l.root.disc.requeued.toList = [] := by
    rw [show l.root.disc.requeued = none from h.steady.single.requeued]
    rfl
  rw [hnone, List.append_nil] at hsent
  rw [← h.sent, hsent, hacc, List.map_append, List.map_map]
  rfl

omit [NetDeviceItem α] in
@[simp] theorem completions_runLater (n : ℕ) :
    (runLater n agenda).entries.filterMap completion = agenda.entries.filterMap completion := by
  induction n generalizing agenda with
  | zero => rfl
  | succ n ih => exact ih.trans (agenda.filterMap_schedule_none (f := completion) rfl)

/-- The invariant of a link that has accepted the packets `hs` and delivered `ds`. The device is
busy until it is free according to `hs`; when it is not busy, the next packet can begin now. -/
structure Serving (a : Attributes α) (hs : List (Time × α)) (ds : List (Time × PppPacket α))
    (l : Link Z α) : Prop where
  bps : l.device.bps = a.bps
  gap : l.device.tInterframeGap = a.tInterframeGap
  delay : l.delay = a.delay
  accepted : hs.map Prod.snd = l.root.accepted
  now : 0 ≤ l.agenda.now
  dates : ∀ h ∈ hs, 0 ≤ h.1 ∧ h.1 ≤ l.agenda.now
  delivered : ds ++ deliveries l.agenda = served a (hs.take l.wire.length)
  busy : ∀ t ∈ l.agenda.entries.filterMap completion, t = freeAt a (hs.take l.wire.length)
  idle : l.agenda.entries.filterMap completion = [] →
    freeAt a (hs.take l.wire.length) ≤ l.agenda.now ∧
      (freeAt a (hs.take l.wire.length) = l.agenda.now ∨
        ∀ h ∈ hs.drop l.wire.length, h.1 = l.agenda.now)

/-- Runs of the disc are scheduled, and the device and the transmission queue change otherwise. -/
theorem Serving.congr {l' : Link Z α} (h : Serving a hs ds l) (hbps : l'.device.bps = l.device.bps)
    (hgap : l'.device.tInterframeGap = l.device.tInterframeGap) (hdelay : l'.delay = l.delay)
    (hacc : l'.root.accepted = l.root.accepted) (hwire : l'.wire = l.wire) {n : ℕ}
    (hagenda : l'.agenda = runLater n l.agenda) : Serving a hs ds l' where
  bps := hbps.trans h.bps
  gap := hgap.trans h.gap
  delay := hdelay.trans h.delay
  accepted := h.accepted.trans hacc.symm
  now := by simpa [hagenda] using h.now
  dates := by simpa [hagenda] using h.dates
  delivered := by simpa [hagenda, hwire] using h.delivered
  busy := by simpa only [hagenda, hwire, completions_runLater] using h.busy
  idle := by simpa only [hagenda, hwire, completions_runLater, runLater_now] using h.idle

theorem Serving.takeIn (h : Serving a hs ds l) (p : PppPacket α) : Serving a hs ds (l.takeIn p) :=
  h.congr rfl rfl rfl rfl rfl rfl

theorem Serving.takeOut (h : Serving a hs ds l) (p : PppPacket α) (rest : List (PppPacket α)) :
    Serving a hs ds (l.takeOut p rest) :=
  h.congr rfl rfl rfl rfl rfl rfl

/-- **The next packet begins now.** -/
theorem Serving.startTransmit (h : Serving a hs ds l)
    (hflight : Flight none l.delay l.agenda l.wire l.received) {h₀ : Time × α}
    (hnext : hs[l.wire.length]? = some h₀) :
    Serving a hs ds (l.startTransmit (outgoing h₀.2)) := by
  obtain ⟨hfree, hnow⟩ := h.idle hflight.completions
  have hmem : h₀ ∈ hs.drop l.wire.length := by
    rw [List.mem_iff_getElem?]
    exact ⟨0, by rw [List.getElem?_drop, Nat.add_zero, hnext]⟩
  -- Either the device has become free now, or the packet was accepted now.
  have hbegin : max h₀.1 (freeAt a (hs.take l.wire.length)) = l.agenda.now := by
    rcases hnow with hnow | hnow
    · rw [hnow]
      exact max_eq_right (h.dates h₀ (List.mem_of_mem_drop hmem)).2
    · rw [hnow h₀ hmem]
      exact max_eq_left hfree
  have htake : hs.take (l.startTransmit (outgoing h₀.2)).wire.length =
      hs.take l.wire.length ++ [h₀] := by
    show hs.take (l.wire ++ [_]).length = _
    rw [List.length_append, List.length_singleton, List.take_add_one, hnext, Option.toList_some]
  have hagenda : (l.startTransmit (outgoing h₀.2)).agenda =
      (l.agenda.schedule (slot a (outgoing h₀.2)) .transmitComplete).schedule
        (transit a (outgoing h₀.2)) (.receive (outgoing h₀.2)) := by
    unfold Link.startTransmit slot transit
    rw [h.bps, h.gap, h.delay]
  have hcompl : (l.startTransmit (outgoing h₀.2)).agenda.entries.filterMap completion =
      [l.agenda.now + (slot a (outgoing h₀.2) : ℤ)] := by
    rw [hagenda, transit, ← h.delay]
    exact (hflight.start _ a.tInterframeGap (outgoing h₀.2)).completions
  refine ⟨h.bps, h.gap, h.delay, h.accepted, ?_, ?_, ?_, ?_, ?_⟩
  · simpa [hagenda] using h.now
  · simpa [hagenda] using h.dates
  · rw [htake, served_concat, hbegin, ← h.delivered, List.append_assoc, hagenda]
    have hnew := deliveries_start (a := a) hflight.arrivals_le (outgoing h₀.2)
    rw [h.delay] at hnew
    exact congrArg (ds ++ ·) hnew
  · intro t ht
    rw [hcompl, List.mem_singleton] at ht
    rw [htake, freeAt_concat, hbegin, ht]
  · intro hnil
    rw [hcompl] at hnil
    cases hnil

/-- The packet whose turn it is: the first of those in the device's queue or, if there is none, the
one that the send callback hands over. -/
theorem Sound.next_packet {p : PppPacket α} {rest : List (PppPacket α)}
    (h : Sound a C tx u given l) (hp : l.device.queue.packets ++ given = p :: rest)
    (hacc : hs.map Prod.snd = l.root.accepted) :
    ∃ h₀, hs[l.wire.length]? = some h₀ ∧ outgoing h₀.2 = p := by
  have hout := h.outgoing_eq
  rw [List.append_assoc l.wire, hp, List.append_assoc, ← hacc, List.map_map] at hout
  have hget := congrArg (·[l.wire.length]?) hout
  simp only [List.getElem?_append_right (Nat.le_refl _), Nat.sub_self, List.cons_append,
    List.getElem?_cons_zero, List.getElem?_map] at hget
  obtain ⟨h₀, hh, he⟩ := Option.map_eq_some_iff.mp hget.symm
  exact ⟨h₀, hh, he⟩

theorem Serving.sendReturned (h : Serving a hs ds l) : Serving a hs ds (l.sendReturned K) :=
  h.congr rfl rfl rfl (Root.next_accepted_of_offered_none rfl) rfl (n := 0) rfl

/-- The send callback. -/
theorem Serving.callback (h : Serving a hs ds l) (hl : Looping a C l)
    (hm : a.maxSize.HasRoom a.mtu) (hC : Carriable a C) :
    Serving a hs ds (Link.callback K l) := by
  rcases hl.callback_cases (K := K) hm hC with
    ⟨-, he⟩ | ⟨p, l₁, tx₁, u₁, hp, hhands, -, -, -, he⟩ <;> rw [he]
  · exact h
  · obtain ⟨tx, u, hsound, hd, -⟩ := hl
    refine Serving.sendReturned ?_
    cases hhands with
    | waits _ => exact h.takeIn _
    | leaves ready empty =>
      have hu : u = none := by
        rw [← Option.not_isSome_iff_eq_none, ← hd.busy, ready]
        exact TxMachineState.noConfusion
      subst hu
      rw [hp] at hsound
      have hqueue : l.device.queue.packets ++ [frame p.item] = [frame p.item] := by
        rw [empty, List.nil_append]
      obtain ⟨h₀, hnext, hout⟩ := hsound.next_packet hqueue h.accepted
      rw [← hout]
      exact ((h.takeIn _).takeOut _ _).startTransmit
        ((hsound.flight.runLater _).runLater _) hnext

theorem Serving.iterate (h : Serving a hs ds l) (hl : Looping a C l)
    (hm : a.maxSize.HasRoom a.mtu) (hC : Carriable a C) (n : ℕ) :
    Serving a hs ds ((Link.callback K)^[n] l) := by
  induction n generalizing l with
  | zero => exact h
  | succ n ih => exact ih (h.callback hl hm hC) (hl.callback hm hC).1

theorem Serving.runDisc (h : Serving a hs ds l) (hl : Rest a C l) (hm : a.maxSize.HasRoom a.mtu)
    (hC : Carriable a C) : Serving a hs ds (l.runDisc K) := by
  obtain ⟨hp, tx, u, hsound, hd⟩ := hl
  obtain ⟨hsteady, hturn⟩ := hsound.steady.run (K := K) hp
  obtain ⟨hloop, -⟩ := hsound.turn_looping hd hsteady hturn
  have hrun : Serving a hs ds { l with root := Root.next K l.root .run } :=
    h.congr rfl rfl rfl (Root.next_accepted_of_offered_none rfl) rfl (n := 0) rfl
  exact hrun.iterate hloop hm hC _

/-- The disc is given a packet, which it accepts or not. -/
theorem Serving.enqueue (h : Serving a hs ds l) (hle : l.wire.length ≤ hs.length) (x : α) :
    Serving a
      (hs ++ (if (l.root.disc.enqueue K l.agenda.now x).1 then some (l.agenda.now, x)
        else none).toList)
      ds { l with root := Root.next K l.root (.enqueue l.agenda.now x) } := by
  have hroot : (Root.next K l.root (.enqueue l.agenda.now x)).accepted =
      if (l.root.disc.enqueue K l.agenda.now x).1 then l.root.accepted ++ [x]
      else l.root.accepted := rfl
  by_cases hacc : (l.root.disc.enqueue K l.agenda.now x).1 = true
  · rw [if_pos hacc] at hroot ⊢
    have htake : (hs ++ [(l.agenda.now, x)]).take l.wire.length = hs.take l.wire.length :=
      List.take_append_of_le_length hle
    have hdrop : (hs ++ [(l.agenda.now, x)]).drop l.wire.length =
        hs.drop l.wire.length ++ [(l.agenda.now, x)] := List.drop_append_of_le_length hle
    rw [Option.toList_some]
    refine ⟨h.bps, h.gap, h.delay, ?_, h.now, ?_, ?_, ?_, ?_⟩
    · rw [hroot, ← h.accepted, List.map_append]
      rfl
    · intro y hy
      rcases List.mem_append.mp hy with hy | hy
      · exact h.dates y hy
      · rw [List.mem_singleton.mp hy]
        exact ⟨h.now, le_rfl⟩
    · rw [htake]
      exact h.delivered
    · rw [htake]
      exact h.busy
    · intro hnil
      obtain ⟨hfree, hnow⟩ := h.idle hnil
      rw [htake, hdrop]
      refine ⟨hfree, hnow.imp_right fun hwait y hy => ?_⟩
      rcases List.mem_append.mp hy with hy | hy
      · exact hwait y hy
      · rw [List.mem_singleton.mp hy]
  · rw [if_neg hacc] at hroot ⊢
    rw [Option.toList_none, List.append_nil]
    exact h.congr rfl rfl rfl hroot rfl (n := 0) rfl

/-! ## The next event -/

variable {b : Agenda Time (LinkCall α)} {c : LinkCall α} {μ : ℕ}

theorem Sound.wire_le (h : Sound a C tx u given l) (hacc : hs.map Prod.snd = l.root.accepted) :
    l.wire.length ≤ hs.length := by
  have hlen := congrArg List.length h.outgoing_eq
  simp only [List.length_append, List.length_map, ← hacc] at hlen
  omega

/-- **A link whose device is free has transmitted all that it accepted.** -/
theorem Awake.drop_wire (h : Awake a μ l) (hm : a.maxSize.HasRoom a.mtu)
    (hnil : l.agenda.entries.filterMap completion = [])
    (hacc : hs.map Prod.snd = l.root.accepted) : hs.drop l.wire.length = [] := by
  have hdisc := mt (h.busy hm)
  obtain ⟨⟨-, tx, u, hl, hd⟩, -, -⟩ := h
  have hu : u = none := by
    rw [← Option.toList_eq_nil_iff, ← hl.flight.completions]
    exact hnil
  subst hu
  have hready : ¬ l.device.txMachineState = .busy := fun hb => Bool.false_ne_true (hd.busy.mp hb)
  have hempty : l.root.disc.queue.packets = [] := not_not.mp (hdisc hready)
  have hqueue : l.device.queue.packets = [] :=
    not_not.mp fun hne => Bool.false_ne_true (hd.waiting hne)
  have hlen := congrArg List.length hl.outgoing_eq
  rw [hempty, hqueue, ← hacc] at hlen
  simp only [List.map_nil, List.append_nil, List.length_map] at hlen
  rw [hlen]
  exact List.drop_length

/-- The next event is not the end of a transmission. -/
theorem Serving.pop (h : Serving a hs ds l) {ds' : List (Time × PppPacket α)}
    (hb : l.agenda.entries = (b.now, c) :: b.entries) (hnow : l.agenda.now ≤ b.now)
    (hc : completion (b.now, c) = none)
    (hdrop : l.agenda.entries.filterMap completion = [] → hs.drop l.wire.length = [])
    (hds : ds' = ds ++ (delivery (b.now, c)).toList) (received : List (α × UInt16)) :
    Serving a hs ds' { l with agenda := b, received := received } := by
  have hcompl : l.agenda.entries.filterMap completion = b.entries.filterMap completion := by
    rw [hb, List.filterMap_cons_none hc]
  have hdel : deliveries l.agenda = (delivery (b.now, c)).toList ++ deliveries b := by
    unfold deliveries
    rw [hb, List.filterMap_cons]
    cases delivery (b.now, c) <;> rfl
  rw [hcompl] at hdrop
  refine ⟨h.bps, h.gap, h.delay, h.accepted, h.now.trans hnow, ?_, ?_, ?_, ?_⟩
  · exact fun y hy => (h.dates y hy).imp_right fun hle => hle.trans hnow
  · rw [hds, List.append_assoc, ← hdel]
    exact h.delivered
  · have hbusy := h.busy
    rwa [hcompl] at hbusy
  · intro hnil
    -- The clock goes on, but no accepted packet waits.
    refine ⟨(h.idle (hcompl.trans hnil)).1.trans hnow, .inr ?_⟩
    rw [hdrop hnil]
    exact List.forall_mem_nil _

/-- The end of a transmission: the device is free, as it should be. -/
theorem Serving.pop_transmitComplete (h : Serving a hs ds l)
    (hb : l.agenda.entries = (b.now, .transmitComplete) :: b.entries)
    (hflight : Flight none l.delay b l.wire l.received) (hnow : l.agenda.now ≤ b.now) :
    Serving a hs ds { l with agenda := b } := by
  have hfree : freeAt a (hs.take l.wire.length) = b.now := by
    refine (h.busy b.now ?_).symm
    rw [hb, List.filterMap_cons_some (show completion (b.now, .transmitComplete) = _ from rfl)]
    exact List.mem_cons_self
  have hdel : deliveries l.agenda = deliveries b := by
    unfold deliveries
    rw [hb, List.filterMap_cons_none rfl]
  refine ⟨h.bps, h.gap, h.delay, h.accepted, h.now.trans hnow, ?_, ?_, ?_, ?_⟩
  · exact fun y hy => (h.dates y hy).imp_right fun hle => hle.trans hnow
  · rw [← hdel]
    exact h.delivered
  · intro t ht
    rw [show b.entries.filterMap completion = [] from hflight.completions] at ht
    cases ht
  · exact fun _ => ⟨hfree.le, .inl hfree⟩

/-- The end of a transmission: if a packet waits in the device's queue, it begins now. -/
theorem Serving.transmitComplete (h : Serving a hs ds l) (hl : Sound a C tx none [] l) :
    Serving a hs ds (l.invoke K .transmitComplete) := by
  by_cases hn : l.device.queue.nPackets = 0
  · rw [transmitComplete_empty hn]
    exact h.congr rfl rfl rfl rfl rfl (n := 0) rfl
  · obtain ⟨p, rest, hq⟩ := List.exists_cons_of_ne_nil (hl.device.counted.ne_nil hn)
    have hqueue : l.device.queue.packets ++ [] = p :: rest := by rw [List.append_nil, hq]
    obtain ⟨h₀, hnext, rfl⟩ := hl.next_packet hqueue h.accepted
    rw [transmitComplete_cons hl.steady.single hn hq]
    exact (h.takeOut _ _).startTransmit (hl.flight.runLater _) hnext

/-- A call that is neither the end of a transmission nor an arrival. -/
theorem Serving.schedule (h : Serving a hs ds l) (delay : ℕ) (hc : ∀ t, completion (t, c) = none)
    (hd : ∀ t, delivery (t, c) = none) :
    Serving a hs ds { l with agenda := l.agenda.schedule delay c } := by
  have hcompl : (l.agenda.schedule delay c).entries.filterMap completion =
      l.agenda.entries.filterMap completion := l.agenda.filterMap_schedule_none (hc _)
  refine ⟨h.bps, h.gap, h.delay, h.accepted, h.now, h.dates, ?_, ?_, ?_⟩
  · rw [deliveries_schedule delay hd]
    exact h.delivered
  · rw [hcompl]
    exact h.busy
  · rw [hcompl]
    exact h.idle

/-- **Step lemma.** -/
theorem Serving.next [LawfulNetDeviceItem α] (h : Serving a hs ds l) (hl : Awake a μ l)
    (hm : a.maxSize.HasRoom a.mtu) (e : Event α) :
    Serving a (hs ++ (admitted K l e).toList)
      (ds ++ (Link.delivered ((machine K).out l e)).toList) ((machine K).next l e) := by
  have hC := carriable_workload a μ
  cases e with
  | schedule delay item =>
    rw [← List.append_nil hs, ← List.append_nil ds] at h
    exact h.schedule delay (fun _ => rfl) fun _ => rfl
  | processOneEvent =>
    have hdrop := fun hnil => hl.drop_wire hm hnil h.accepted
    obtain ⟨hrest, -, -⟩ := hl
    unfold admitted
    rcases l.agenda.pop_cases with ⟨-, hpop⟩ | ⟨c, b, hpop, hb, hnow⟩ <;>
      unfold machine Machine.next Machine.out <;> dsimp only <;> rw [hpop]
    · rw [← List.append_nil hs, ← List.append_nil ds] at h
      exact h
    · dsimp only
      cases c with
      | send x =>
        have hpopped := h.pop hb hnow rfl hdrop rfl l.received
        have hle : l.wire.length ≤ hs.length := by
          obtain ⟨-, tx, u, hsound, -⟩ := hrest
          exact hsound.wire_le h.accepted
        exact (hpopped.enqueue hle (setTxQueueIndex 0 x)).runDisc
          ((hrest.pop hb hnow rfl rfl).enqueue hC (hrest.pop_send hb)) hm hC
      | run =>
        have hpopped := h.pop hb hnow rfl hdrop rfl l.received
        rw [← List.append_nil hs] at hpopped
        exact hpopped.runDisc (hrest.pop hb hnow rfl rfl) hm hC
      | transmitComplete =>
        obtain ⟨tx, hfree⟩ := hrest.pop_transmitComplete hb
        rw [← List.append_nil hs, ← List.append_nil ds] at h
        exact (h.pop_transmitComplete hb hfree.flight hnow).transmitComplete hfree
      | receive p =>
        have hpopped := h.pop hb hnow rfl hdrop rfl (l.received ++ [p.deliver])
        rw [← List.append_nil hs] at hpopped
        exact hpopped

theorem serving_install (a : Attributes α) : Serving a [] [] (install a : Link Z α) where
  bps := rfl
  gap := rfl
  delay := rfl
  accepted := rfl
  now := le_rfl
  dates := List.forall_mem_nil _
  delivered := rfl
  busy := List.forall_mem_nil _
  idle _ := ⟨le_rfl, .inl rfl⟩

/-! ## Runs -/

theorem admissions_concat (k : DiscKind) (a : Attributes α) (es : List (Event α)) (e : Event α) :
    admissions k a (es ++ [e]) = admissions k a es ++
      (admitted k.kind ((k.linkMachine α).run (install a) es) e).toList := by
  unfold admissions
  rw [Machine.observe_append, Machine.observe_cons, Machine.observe_nil, List.append_nil]

theorem arrivals_concat (k : DiscKind) (a : Attributes α) (es : List (Event α)) (e : Event α) :
    arrivals k a (es ++ [e]) = arrivals k a es ++
      (delivered ((k.linkMachine α).out ((k.linkMachine α).run (install a) es) e)).toList := by
  unfold arrivals
  rw [Machine.outputs_append, List.filterMap_append, Machine.outputs_cons, Machine.outputs_nil,
    List.filterMap_cons]
  cases delivered ((k.linkMachine α).out ((k.linkMachine α).run (install a) es) e) <;> rfl

/-- **Run lemma.** -/
theorem run_serving [LawfulNetDeviceItem α] (k : DiscKind) (hm : a.maxSize.HasRoom a.mtu)
    (hnone : a.queueLimits = none)
    (hμ : a.maxSize.unit.reserve a.mtu ≤ effectiveQuota a.disc.quota * μ) {es : List (Event α)}
    (hes : ∀ e ∈ es, e.Offers (Workload a μ)) :
    Serving a (admissions k a es) (arrivals k a es) ((k.linkMachine α).run (install a) es) := by
  induction es using List.reverseRecOn with
  | nil => exact serving_install a
  | append_singleton es e ih =>
    have hfirst : ∀ e ∈ es, e.Offers (Workload a μ) :=
      fun e he => hes e (List.mem_append_left _ he)
    have hawake := run_awake k.kind hm hnone hμ hfirst
    rw [admissions_concat, arrivals_concat, Machine.run_append]
    exact (ih hfirst).next (K := k.kind) hawake hm e

/-- What has not left is not due. -/
theorem Serving.now_le (h : Serving a hs ds l)
    (hdrop : l.agenda.entries.filterMap completion = [] → hs.drop l.wire.length = [])
    {x : Time × PppPacket α}
    (hx : x ∈ servedFrom a (freeAt a (hs.take l.wire.length)) (hs.drop l.wire.length)) :
    l.agenda.now ≤ x.1 := by
  cases hc : l.agenda.entries.filterMap completion with
  | nil =>
    rw [hdrop hc] at hx
    cases hx
  | cons t ts =>
    have ht : t ∈ l.agenda.entries.filterMap completion := hc ▸ List.mem_cons_self
    have hdue : l.agenda.now ≤ t := l.agenda.due _ (mem_completions.mp ht)
    exact hdue.trans ((h.busy t ht).le.trans (le_of_mem_servedFrom hx))

omit [NetDeviceItem α] in
/-- Nor is what is on the wire. -/
theorem now_le_of_mem_deliveries {x : Time × PppPacket α} (hx : x ∈ deliveries agenda) :
    agenda.now ≤ x.1 := by
  obtain ⟨⟨t, c⟩, he, hc⟩ := List.mem_filterMap.mp hx
  have hdue : agenda.now ≤ t := agenda.due _ he
  cases c with
  | receive p =>
    obtain rfl : (t, p) = x := Option.some.inj hc
    exact hdue
  | send | run | transmitComplete => cases hc

theorem Serving.served_eq (h : Serving a hs ds l) :
    served a hs = ds ++ (deliveries l.agenda ++
      servedFrom a (freeAt a (hs.take l.wire.length)) (hs.drop l.wire.length)) := by
  rw [← List.append_assoc, h.delivered, ← served_append, List.take_append_drop]

/-- The rest of what a server delivers is not due. -/
theorem Serving.served_rest (h : Serving a hs ds l)
    (hdrop : l.agenda.entries.filterMap completion = [] → hs.drop l.wire.length = []) :
    ∃ rest, served a hs = ds ++ rest ∧ (∀ x ∈ rest, l.agenda.now ≤ x.1) ∧
      (l.agenda.entries = [] → rest = []) := by
  refine ⟨_, h.served_eq, ?_, ?_⟩
  · intro x hx
    rcases List.mem_append.mp hx with hx | hx
    · exact now_le_of_mem_deliveries hx
    · exact h.now_le hdrop hx
  · intro hnil
    rw [hdrop (by rw [hnil]; rfl), deliveries, hnil]
    rfl

/-- **A link serves the packets that its disc accepts.** What has arrived, and when, is the
beginning of what a server delivers that takes the accepted packets one after the other; the rest of
it is not due, and once nothing is scheduled there is no rest. -/
theorem run_serves [LawfulNetDeviceItem α] (k : DiscKind) (a : Attributes α) (μ : ℕ)
    (hm : a.maxSize.HasRoom a.mtu) (hnone : a.queueLimits = none)
    (hμ : a.maxSize.unit.reserve a.mtu ≤ effectiveQuota a.disc.quota * μ) {es : List (Event α)}
    (hes : ∀ e ∈ es, e.Offers (Workload a μ)) :
    let l := (k.linkMachine α).run (install a) es
    ∃ rest, served a (admissions k a es) = arrivals k a es ++ rest ∧
      (∀ x ∈ rest, l.agenda.now ≤ x.1) ∧ (l.agenda.entries = [] → rest = []) := by
  intro l
  have h : Serving a (admissions k a es) (arrivals k a es) l := run_serving k hm hnone hμ hes
  have hawake := run_awake k.kind hm hnone hμ hes
  exact h.served_rest fun hnil => hawake.drop_wire hm hnil h.accepted

theorem run_serves_fivePackets :
    let es := fivePackets ++ List.replicate 30 .processOneEvent
    let l := (DiscKind.es.linkMachine _).run (install oneSlot) es
    (arrivals .es oneSlot es).length = 5 ∧
      ∃ rest, served oneSlot (admissions .es oneSlot es) = arrivals .es oneSlot es ++ rest ∧
        (∀ x ∈ rest, l.agenda.now ≤ x.1) ∧ (l.agenda.entries = [] → rest = []) :=
  ⟨by decide +kernel, run_serves .es oneSlot 1 ⟨by decide, by decide⟩ rfl (by decide) (by decide)⟩

/-! ## Delay -/

/-- In each stretch the accepted packets take the line no longer than the stretch and `burst`. -/
def Conforms (a : Attributes α) (burst : ℕ) (hs : List (Time × α)) : Prop :=
  ∀ ks, ks <:+: hs → ∀ x ∈ ks.head?, ∀ y ∈ ks.getLast?,
    x.1 + Service.work (ks.map (job a)) ≤ y.1 + (burst : ℤ)

instance (a : Attributes α) (burst : ℕ) (hs : List (Time × α)) : Decidable (Conforms a burst hs) :=
  decidable_of_iff (∀ ls ∈ hs.inits, ∀ ks ∈ ls.tails, ∀ x ∈ ks.head?, ∀ y ∈ ks.getLast?,
    x.1 + Service.work (ks.map (job a)) ≤ y.1 + (burst : ℤ)) (by
      simp only [Conforms, List.mem_inits, List.mem_tails, List.infix_iff_suffix_prefix]
      exact ⟨fun h ks ⟨ls, hk, hl⟩ => h ls hl ks hk, fun h ls hl ks hk => h ks ⟨ls, hk, hl⟩⟩)

/-- The device is done with the last one of conforming packets after `burst`. -/
theorem Conforms.freeAt_le {burst : ℕ} {ks ls : List (Time × α)} {h : Time × α}
    (hc : Conforms a burst (ks ++ h :: ls)) (hdates : ∀ y ∈ ks ++ h :: ls, 0 ≤ y.1) :
    freeAt a (ks ++ [h]) ≤ h.1 + (burst : ℤ) := by
  have hstretch : ∀ js x ys, ks ++ [h] = js ++ x :: ys →
      x.1 + Service.work ((x :: ys).map (job a)) ≤ h.1 + (burst : ℤ) := by
    intro js x ys he
    have hin : x :: ys <:+: ks ++ h :: ls := ⟨js, ls, by rw [← he]; simp⟩
    refine hc (x :: ys) hin x rfl h ?_
    have hlast := congrArg List.getLast? he
    rw [List.getLast?_concat, List.getLast?_append_of_ne_nil _ (List.cons_ne_nil x ys)] at hlast
    exact hlast.symm
  refine Service.freeAt_le ?_ fun js j js' he => ?_
  · obtain ⟨x, ys, he⟩ := List.exists_cons_of_ne_nil (List.concat_ne_nil h ks)
    have hx := hstretch [] x ys he
    have hmem : x ∈ ks ++ [h] := he ▸ List.mem_cons_self
    have h0 : 0 ≤ x.1 := hdates x (by rw [List.append_cons]; exact List.mem_append_left _ hmem)
    rw [← he] at hx
    linarith
  · obtain ⟨bs, cs, hsplit, rfl, hcs⟩ := List.map_eq_append_iff.mp he
    obtain ⟨x, ys, rfl, rfl, rfl⟩ := List.map_eq_cons_iff.mp hcs
    exact hstretch bs x ys hsplit

/-- **Every packet is served in time.** -/
theorem Conforms.served_le {burst : ℕ} {ks ls : List (Time × α)}
    (hc : Conforms a burst (ks ++ ls)) (hdates : ∀ y ∈ ks ++ ls, 0 ≤ y.1) :
    ∀ y ∈ ls.zip (servedFrom a (freeAt a ks) ls),
      y.2.2 = outgoing y.1.2 ∧
        y.2.1 + (a.tInterframeGap : ℤ) ≤ y.1.1 + (burst : ℤ) + (a.delay : ℤ) := by
  induction ls generalizing ks with
  | nil => exact List.forall_mem_nil _
  | cons h ls ih =>
    have hfree := hc.freeAt_le hdates
    intro y hy
    have hfrom : servedFrom a (freeAt a ks) (h :: ls) =
        (max h.1 (freeAt a ks) + (transit a (outgoing h.2) : ℤ), outgoing h.2) ::
          servedFrom a (freeAt a (ks ++ [h])) ls := by
      rw [freeAt_concat]
      rfl
    rw [hfrom, List.zip_cons_cons, List.mem_cons] at hy
    rcases hy with rfl | hy
    · refine ⟨rfl, ?_⟩
      rw [freeAt_concat] at hfree
      unfold slot at hfree
      unfold transit
      push_cast at hfree ⊢
      linarith
    · rw [List.append_cons] at hc hdates
      exact ih hc hdates y hy

/-- **Conforming packets arrive in time.** Let the accepted packets conform to a burst. Each of them
is due, less the gap, at the burst and the delay of the channel after it was accepted: when it
arrives it arrives as it was accepted and not later than that, and once that date is past it has
arrived. -/
theorem run_delay [LawfulNetDeviceItem α] (k : DiscKind) (a : Attributes α) (μ burst : ℕ)
    (hm : a.maxSize.HasRoom a.mtu) (hnone : a.queueLimits = none)
    (hμ : a.maxSize.unit.reserve a.mtu ≤ effectiveQuota a.disc.quota * μ) {es : List (Event α)}
    (hes : ∀ e ∈ es, e.Offers (Workload a μ)) (hc : Conforms a burst (admissions k a es)) :
    ∀ i h, (admissions k a es)[i]? = some h →
      (∀ y, (arrivals k a es)[i]? = some y →
        y.2 = outgoing h.2 ∧ y.1 + (a.tInterframeGap : ℤ) ≤ h.1 + (burst : ℤ) + (a.delay : ℤ)) ∧
      (h.1 + (burst : ℤ) + (a.delay : ℤ) <
          ((k.linkMachine α).run (install a) es).agenda.now + (a.tInterframeGap : ℤ) →
        i < (arrivals k a es).length) := by
  intro i h hi
  have hserving := run_serving k hm hnone hμ hes
  have hawake := run_awake k.kind hm hnone hμ hes
  obtain ⟨rest, hserved, hrest, -⟩ :=
    hserving.served_rest fun hnil => hawake.drop_wire hm hnil hserving.accepted
  -- In time as a server delivers it, and the link does as the server.
  have hintime : ∀ y, (served a (admissions k a es))[i]? = some y →
      y.2 = outgoing h.2 ∧ y.1 + (a.tInterframeGap : ℤ) ≤ h.1 + (burst : ℤ) + (a.delay : ℤ) := by
    intro y hy
    have hall : Conforms a burst ([] ++ admissions k a es) := hc
    exact hall.served_le (fun z hz => (hserving.dates z hz).1) (h, y)
      (List.mem_iff_getElem?.mpr ⟨i, List.getElem?_zip_eq_some.mpr ⟨hi, hy⟩⟩)
  rw [hserved] at hintime
  constructor
  · intro y hy
    obtain ⟨hlt, -⟩ := List.getElem?_eq_some_iff.mp hy
    exact hintime y ((List.getElem?_append_left hlt).trans hy)
  · intro hpast
    by_contra hlt
    have hle : (arrivals k a es).length ≤ i := not_lt.mp hlt
    have hlen : i < (arrivals k a es ++ rest).length := by
      rw [← hserved, length_served]
      exact (List.getElem?_eq_some_iff.mp hi).1
    have hget := List.getElem?_eq_getElem hlen
    have hmem := List.mem_of_getElem? ((List.getElem?_append_right hle).symm.trans hget)
    have hdue := hrest _ hmem
    have hdate := (hintime _ hget).2
    linarith

-- Five packets at once are a burst of five slots, and the last one takes all of it.
theorem run_delay_fivePackets :
    let es := fivePackets ++ List.replicate 30 .processOneEvent
    (admissions .es oneSlot es).length = 5 ∧
    ∀ i h, (admissions .es oneSlot es)[i]? = some h →
      (∀ y, (arrivals .es oneSlot es)[i]? = some y →
        y.2 = outgoing h.2 ∧
          y.1 + (oneSlot.tInterframeGap : ℤ) ≤ h.1 + ((5110000 : ℕ) : ℤ) + (oneSlot.delay : ℤ)) ∧
      (h.1 + ((5110000 : ℕ) : ℤ) + (oneSlot.delay : ℤ) <
          ((DiscKind.es.linkMachine _).run (install oneSlot) es).agenda.now +
            (oneSlot.tInterframeGap : ℤ) →
        i < (arrivals .es oneSlot es).length) :=
  ⟨by decide +kernel, run_delay .es oneSlot 1 5110000 ⟨by decide, by decide⟩ rfl (by decide)
    (by decide) (by decide +kernel)⟩

end Link

end StabilizedRed
