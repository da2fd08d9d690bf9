import StabilizedRed.Link.Flight

/-!
# A link delivers what its disc accepts, in order

`Sound`: the device's transmission queue follows its queue, the device transmits while its queue
holds packets, and the packets that the send callback was given are those on the wire, then those in
the device's queue, then one (`given`) that the device has not got yet. It is kept by the send
callback (`Sound.callback`), so by a whole call of `Run` (`Rest.runDisc`), and by every event
(`Rest.next`). In a state that events lead to (`run_delivers`) the device has dropped nothing, and
the accepted packets are those that arrived, those on the wire, those in the device's queue and
those in the disc, in this order.
-/

namespace StabilizedRed

variable {Z α : Type} [NetDeviceItem α]

namespace Link

/-- What a link can carry: a protocol that the PPP header has a number for and, where the limit of
the device's queue is in bytes, no more than the MTU together with the header. -/
structure Carries (a : Attributes α) (x : α) : Prop where
  protocol : getProtocol x = 0x0800 ∨ getProtocol x = 0x86DD
  size : a.maxSize.unit = .bytes → (getSize x).toNat + 2 ≤ a.mtu.toNat

/-- A property of packets that the link can carry, which they keep on their way to the device. -/
structure Carriable (a : Attributes α) (C : α → Prop) : Prop where
  carries : ∀ x, C x → Carries a x
  onTheWay : ∀ x, C x → C (addHeader (setTxQueueIndex 0 x))

variable {a : Attributes α} {C : α → Prop}

theorem carriable_carries [LawfulNetDeviceItem α] (a : Attributes α) :
    Carriable a (Carries a) where
  carries _ h := h
  onTheWay x h := ⟨by simpa using h.protocol, by simpa using h.size⟩

/-- A packet takes something of the limit of the device's queue, and no more than the reserve. -/
theorem Carries.cost {x : α} (h : Carries a x) :
    0 < (a.maxSize.unit.cost (frame x)).toNat ∧
      (a.maxSize.unit.cost (frame x)).toNat ≤ a.maxSize.unit.reserve a.mtu := by
  have hsize := h.size
  cases hu : a.maxSize.unit with
  | packets => exact ⟨Nat.one_pos, Nat.le_refl _⟩
  | bytes =>
    have hle := hsize hu
    have hmtu := a.mtu.toNat_lt
    have hcost : (QueueSizeUnit.bytes.cost (frame x)).toNat = (getSize x).toNat + 2 := by
      show (getSize x + 2).toNat = _
      rw [UInt32.toNat_add]
      exact Nat.mod_eq_of_lt (by show (getSize x).toNat + 2 < 2 ^ 32; omega)
    rw [hcost]
    exact ⟨Nat.succ_pos _, hle⟩

/-- The PPP header brings the protocol back. -/
theorem Carries.deliver_frame {x : α} (h : Carries a x) : (frame x).deliver = (x, getProtocol x) :=
  congrArg (x, ·) (pppToEther_etherToPpp h.protocol)

/-- The packets that upper layers are going to send have the property `C`. -/
def Sends (C : α → Prop) (agenda : Agenda Time (LinkCall α)) : Prop :=
  ∀ t x, (t, .send x) ∈ agenda.entries → C x

/-- The invariant of a link whose device is free, or not before `u`, and whose disc has handed over
`given`, which the device has not got yet. -/
structure Sound (a : Attributes α) (C : α → Prop) (tx : NetDeviceQueue) (u : Option Time)
    (given : List (PppPacket α)) (l : Link Z α) : Prop where
  steady : Root.Steady a.disc.maxSize C tx l.root
  device : l.device.Sound a.maxSize a.mtu tx
  sends : Sends C l.agenda
  dropped : l.dropped = []
  sent : l.root.sent.map frame = l.wire ++ l.device.queue.packets ++ given
  flight : Flight u l.delay l.agenda l.wire l.received

/-- The device transmits exactly until `u`, and always while its queue holds packets. -/
structure Transmits (u : Option Time) (d : PointToPointNetDevice α) : Prop where
  busy : d.txMachineState = .busy ↔ u.isSome
  waiting : d.queue.packets ≠ [] → u.isSome

variable {tx : NetDeviceQueue} {u : Option Time} {given : List (PppPacket α)} {l : Link Z α}
  {K : ZombieKind Z} {agenda : Agenda Time (LinkCall α)}

omit [NetDeviceItem α] in
theorem Sends.schedule (h : Sends C agenda) (delay : ℕ) {c : LinkCall α}
    (hc : ∀ x, c = .send x → C x) : Sends C (agenda.schedule delay c) := by
  intro t x hmem
  rw [Agenda.schedule_entries, Agenda.mem_insert] at hmem
  rcases hmem with he | hmem
  · exact hc x (congrArg Prod.snd he).symm
  · exact h t x hmem

omit [NetDeviceItem α] in
theorem Sends.runLater (h : Sends C agenda) (n : ℕ) : Sends C (runLater n agenda) := by
  induction n generalizing agenda with
  | zero => exact h
  | succ n ih => exact ih (h.schedule 0 fun _ he => by cases he)

omit [NetDeviceItem α] in
theorem Sends.pop (h : Sends C agenda) {b : Agenda Time (LinkCall α)} {e : Time × LinkCall α}
    (he : agenda.entries = e :: b.entries) : Sends C b :=
  fun t x hmem => h t x (he ▸ List.mem_cons_of_mem e hmem)

/-! ## The device -/

/-- The device's queue takes the packet. -/
theorem Sound.takeIn {x : α} (h : Sound a C tx u [frame x] l) (hm : a.maxSize.HasRoom a.mtu)
    (hs : tx.stoppedByDevice = false) (hx : Carries a x) :
    ∃ tx', (l.takeIn (frame x)).root = l.root.setTx tx' ∧
      Sound a C tx' u [] (l.takeIn (frame x)) := by
  obtain ⟨hpos, hcost⟩ := hx.cost
  unfold Link.takeIn
  rw [txQueue_eq h.steady.single]
  refine ⟨_, rfl, ?_⟩
  exact
    { steady := h.steady.setTx _
      device := h.device.enqueue hm hs hcost hpos _
      sends := h.sends.runLater _
      dropped := h.dropped
      sent := by
        rw [List.append_nil]
        exact h.sent.trans (List.append_assoc _ _ _)
      flight := h.flight.runLater _ }

/-- A packet leaves the device's queue. -/
theorem Sound.startNext (h : Sound a C tx none given l) (hm : a.maxSize.HasRoom a.mtu)
    {p : PppPacket α} {rest : List (PppPacket α)} (hq : l.device.queue.packets = p :: rest) :
    ∃ tx' t, ((l.takeOut p rest).startTransmit p).root = l.root.setTx tx' ∧
      Sound a C tx' (some t) given ((l.takeOut p rest).startTransmit p) := by
  have hdev := h.device.dequeue hm hq l.agenda.now
  unfold takeOut
  rw [txQueue_eq h.steady.single]
  exact ⟨_, _, rfl,
    { steady := h.steady.setTx _
      device := { hdev with }
      sends := by
        refine ((h.sends.runLater _).schedule _ ?_).schedule _ ?_ <;> exact fun _ he => by cases he
      dropped := h.dropped
      sent := by
        show l.root.sent.map frame = (l.wire ++ [p]) ++ rest ++ given
        rw [h.sent, hq, List.append_cons]
      flight := (h.flight.runLater _).start _ _ p }⟩

/-! ## `Run` -/

/-- A turn of the loop of `Run` hands over a packet at most. -/
theorem Sound.turn (h : Sound a C tx u [] l) {r' : Root Z α} {quota : UInt32} {spent : Prop}
    (hsteady : Root.Steady a.disc.maxSize C tx r') (ht : Root.Turn tx quota spent l.root r') :
    Sound a C tx u (r'.pending.map fun p => frame p.item) { l with root := r' } := by
  refine { h with steady := hsteady, sent := ?_ }
  have hsent := h.sent
  rw [List.append_nil] at hsent
  show r'.sent.map frame = l.wire ++ l.device.queue.packets ++ _
  cases ht with
  | ended _ hp _ hse _ => rw [hp, hse, hsent, List.map_nil, List.append_nil]
  | gave item _ _ _ _ hp _ hse => rw [hp, hse, List.map_append, hsent]; rfl

/-- Where the loop of `Run` waits for the send callback, or has ended. -/
def Looping (a : Attributes α) (C : α → Prop) (l : Link Z α) : Prop :=
  ∃ tx u, Sound a C tx u (l.root.pending.map fun p => frame p.item) l ∧ Transmits u l.device ∧
    (l.root.pending ≠ [] → tx.isStopped = false)

/-- A turn of the loop takes a packet out of the disc, or the loop ends. -/
def Shorter (l l' : Link Z α) : Prop :=
  l'.root.pending = [] ∨
    l'.root.disc.queue.packets.length < l.root.disc.queue.packets.length

theorem Sound.turn_looping (h : Sound a C tx u [] l) (hd : Transmits u l.device) {r' : Root Z α}
    {quota : UInt32} {spent : Prop} (hsteady : Root.Steady a.disc.maxSize C tx r')
    (ht : Root.Turn tx quota spent l.root r') :
    Looping a C { l with root := r' } ∧ Shorter l { l with root := r' } := by
  refine ⟨⟨tx, u, h.turn hsteady ht, hd, ?_⟩, ?_⟩
  · cases ht with
    | ended _ hp => exact fun hne => absurd hp hne
    | gave _ _ _ _ hopen => exact fun _ => hopen
  · cases ht with
    | ended _ hp => exact .inl hp
    | gave item rest hq hr =>
      refine .inr ?_
      show r'.disc.queue.packets.length < _
      rw [hq, hr]
      exact Nat.lt_succ_self _

/-- The send callback hands `x` over, which takes `l` to `l'`: it waits in the device's queue, or
goes through it. -/
inductive Hands (l : Link Z α) (x : α) : Link Z α → Prop where
  | waits (busy : l.device.txMachineState = .busy) : Hands l x (l.takeIn (frame x))
  | leaves (ready : l.device.txMachineState = .ready) (empty : l.device.queue.packets = []) :
    Hands l x (((l.takeIn (frame x)).takeOut (frame x) []).startTransmit (frame x))

/-- The send callback returns to `Run`. -/
theorem Sound.callback {p : PendingRun α} (h : Sound a C tx u [frame p.item] l)
    (hd : Transmits u l.device) (hm : a.maxSize.HasRoom a.mtu) (hC : Carriable a C)
    (hp : l.root.pending = [p]) (hs : tx.stoppedByDevice = false) :
    ∃ l₁ tx₁ u₁, Hands l p.item l₁ ∧ l₁.root = l.root.setTx tx₁ ∧ Sound a C tx₁ u₁ [] l₁ ∧
      Transmits u₁ l₁.device ∧ callback K l = l₁.sendReturned K := by
  obtain ⟨-, hCp, -⟩ := h.steady.pending p (hp ▸ List.mem_cons_self)
  have hx := hC.carries p.item hCp
  have hf := h.device.fits hm hs hx.cost.2
  obtain ⟨tx₁, hroot₁, h₁⟩ := h.takeIn hm hs hx
  cases hstate : l.device.txMachineState with
  | busy =>
    exact ⟨_, tx₁, u, .waits hstate, hroot₁, h₁, ⟨hd.busy, fun _ => hd.busy.mp hstate⟩,
      callback_busy h.steady.single hp h.device.linkUp hf hstate⟩
  | ready =>
    have hu : ¬ u.isSome := fun hu => by
      rw [hd.busy.mpr hu] at hstate
      cases hstate
    obtain rfl : u = none := Option.not_isSome_iff_eq_none.mp hu
    have hq : l.device.queue.packets = [] := not_not.mp fun hne => hu (hd.waiting hne)
    have hq₁ : (l.takeIn (frame p.item)).device.queue.packets = [frame p.item] :=
      congrArg (· ++ [frame p.item]) hq
    have hn := h₁.device.nPackets_ne_zero (hq₁ ▸ List.cons_ne_nil (frame p.item) [])
    obtain ⟨tx₂, t, hroot₂, h₂⟩ := h₁.startNext hm hq₁
    refine ⟨_, tx₂, some t, .leaves hstate hq, ?_, h₂, ⟨iff_of_true rfl rfl, fun _ => rfl⟩,
      callback_ready h.steady.single hp h.device.linkUp hf hstate hn hq⟩
    rw [hroot₂, hroot₁]
    rfl

/-- What the send callback does, if `Run` waits for it. -/
theorem Looping.callback_cases (h : Looping a C l) (hm : a.maxSize.HasRoom a.mtu)
    (hC : Carriable a C) :
    (l.root.pending = [] ∧ callback K l = l) ∨
    ∃ p l₁ tx₁ u₁, l.root.pending = [p] ∧ Hands l p.item l₁ ∧ l₁.root = l.root.setTx tx₁ ∧
      Sound a C tx₁ u₁ [] l₁ ∧ Transmits u₁ l₁.device ∧ callback K l = l₁.sendReturned K := by
  obtain ⟨tx, u, hl, hd, hopen⟩ := h
  cases hp : l.root.pending with
  | nil => exact .inl ⟨rfl, callback_nil hp⟩
  | cons p ps =>
    obtain ⟨hps, -, -⟩ := hl.steady.pending p (hp ▸ List.mem_cons_self)
    have hs : tx.stoppedByDevice = false :=
      (Bool.or_eq_false_iff.mp (hopen (hp ▸ List.cons_ne_nil p ps))).1
    rw [hps] at hl
    obtain ⟨l₁, tx₁, u₁, h₁⟩ := hl.callback (K := K) hd hm hC hps hs
    exact .inr ⟨p, l₁, tx₁, u₁, hp ▸ hps, h₁⟩

/-- **The send callback** and the loop of `Run` up to the next one. -/
theorem Looping.callback (h : Looping a C l) (hm : a.maxSize.HasRoom a.mtu) (hC : Carriable a C) :
    Looping a C (callback K l) ∧ Shorter l (callback K l) := by
  rcases h.callback_cases (K := K) hm hC with
    ⟨hp, he⟩ | ⟨p, l₁, tx₁, u₁, hp, -, hroot, h₁, hd₁, he⟩ <;> rw [he]
  · exact ⟨h, .inl hp⟩
  · have hp₁ : l₁.root.pending = [p] := by
      rw [hroot]
      exact hp
    have hq₁ : l.root.disc.queue = l₁.root.disc.queue := by
      rw [hroot]
      rfl
    obtain ⟨hsteady, hturn⟩ := h₁.steady.sendReturned (K := K) hp₁
    unfold Shorter
    rw [hq₁]
    exact h₁.turn_looping hd₁ hsteady hturn

theorem Looping.iterate (h : Looping a C l) (hm : a.maxSize.HasRoom a.mtu) (hC : Carriable a C)
    {n : ℕ} (hn : l.root.pending = [] ∨ l.root.disc.queue.packets.length < n) :
    Looping a C ((Link.callback K)^[n] l) ∧ ((Link.callback K)^[n] l).root.pending = [] := by
  induction n generalizing l with
  | zero => exact ⟨h, hn.resolve_right (Nat.not_lt_zero _)⟩
  | succ n ih =>
    obtain ⟨hloop, hshort⟩ := h.callback (K := K) hm hC
    rw [Function.iterate_succ_apply]
    refine ih hloop ?_
    rcases hn with hp | hlt
    · rw [callback_nil hp]
      exact .inl hp
    · exact hshort.imp_right fun hs => Nat.lt_of_lt_of_le hs (Nat.le_of_lt_succ hlt)

/-! ## Between events -/

/-- The invariant between two events: no call of `Run` waits. -/
def Rest (a : Attributes α) (C : α → Prop) (l : Link Z α) : Prop :=
  l.root.pending = [] ∧ ∃ tx u, Sound a C tx u [] l ∧ Transmits u l.device

theorem Looping.rest (h : Looping a C l) (hp : l.root.pending = []) : Rest a C l := by
  obtain ⟨tx, u, hl, hd, -⟩ := h
  rw [hp] at hl
  exact ⟨hp, tx, u, hl, hd⟩

theorem Rest.runDisc (h : Rest a C l) (hm : a.maxSize.HasRoom a.mtu) (hC : Carriable a C) :
    Rest a C (l.runDisc K) := by
  obtain ⟨hp, tx, u, hl, hd⟩ := h
  obtain ⟨hsteady, hturn⟩ := hl.steady.run (K := K) hp
  obtain ⟨hloop, -⟩ := hl.turn_looping hd hsteady hturn
  obtain ⟨hloop', hp'⟩ := hloop.iterate (K := K) hm hC (.inr (Nat.lt_succ_self _))
  exact hloop'.rest hp'

theorem Rest.enqueue [LawfulNetDeviceItem α] (h : Rest a C l) (hC : Carriable a C) {x : α}
    (hx : C x) : Rest a C { l with
      root := Root.next K l.root (.enqueue l.agenda.now (setTxQueueIndex 0 x)) } := by
  obtain ⟨hp, tx, u, hl, hd⟩ := h
  have hidx : getTxQueueIndex (addHeader (setTxQueueIndex 0 x)) = 0 := by
    rw [getTxQueueIndex_addHeader, getTxQueueIndex_set]
  have hsteady := hl.steady.enqueue (K := K) l.agenda.now (hC.onTheWay x hx) hidx
  exact ⟨hp, tx, u, { hl with steady := hsteady }, hd⟩

theorem Rest.send [LawfulNetDeviceItem α] (h : Rest a C l) (hm : a.maxSize.HasRoom a.mtu)
    (hC : Carriable a C) {x : α} (hx : C x) : Rest a C (l.send K x) :=
  (h.enqueue hC hx).runDisc hm hC

/-- The end of a transmission, when the device is free. -/
theorem Sound.transmitComplete (h : Sound a C tx none [] l) (hp : l.root.pending = [])
    (hm : a.maxSize.HasRoom a.mtu) : Rest a C (l.invoke K .transmitComplete) := by
  by_cases hn : l.device.queue.nPackets = 0
  · have hq : l.device.queue.packets = [] := not_not.mp fun hne => h.device.nPackets_ne_zero hne hn
    rw [transmitComplete_empty hn]
    refine ⟨hp, tx, none, { h with device := { h.device with } }, ⟨?_, fun hne => absurd hq hne⟩⟩
    exact iff_of_false TxMachineState.noConfusion Bool.false_ne_true
  · obtain ⟨p, rest, hq⟩ := List.exists_cons_of_ne_nil (h.device.counted.ne_nil hn)
    rw [transmitComplete_cons h.steady.single hn hq]
    obtain ⟨tx', t, hroot, h'⟩ := h.startNext hm hq
    refine ⟨?_, tx', some t, h', iff_of_true rfl rfl, fun _ => rfl⟩
    rw [hroot]
    exact hp

/-- The upper layers send packets with the property `C` only. -/
def Event.Offers (C : α → Prop) : Event α → Prop
  | .schedule _ item => C item
  | .processOneEvent => True

section Pop

variable {b : Agenda Time (LinkCall α)} {c : LinkCall α}

/-- The next event is a call of `Send` or `Run`. -/
theorem Rest.pop (h : Rest a C l) (hb : l.agenda.entries = (b.now, c) :: b.entries)
    (hnow : l.agenda.now ≤ b.now) (hc : completion (b.now, c) = none)
    (ha : arrival (b.now, c) = none) : Rest a C { l with agenda := b } := by
  obtain ⟨hp, tx, u, hl, hd⟩ := h
  exact ⟨hp, tx, u, { hl with sends := hl.sends.pop hb, flight := hl.flight.pop hb hnow hc ha }, hd⟩

theorem Rest.pop_send (h : Rest a C l) {x : α}
    (hb : l.agenda.entries = (b.now, .send x) :: b.entries) : C x := by
  obtain ⟨-, _, _, hl, -⟩ := h
  exact hl.sends b.now x (hb ▸ List.mem_cons_self)

theorem Rest.pop_receive (h : Rest a C l) {p : PppPacket α}
    (hb : l.agenda.entries = (b.now, .receive p) :: b.entries) (hnow : l.agenda.now ≤ b.now) :
    Rest a C { l with agenda := b, received := l.received ++ [p.deliver] } := by
  obtain ⟨hp, tx, u, hl, hd⟩ := h
  exact ⟨hp, tx, u, { hl with
    sends := hl.sends.pop hb
    flight := hl.flight.pop_receive hb hnow }, hd⟩

/-- The next event is the end of a transmission: the device is free. -/
theorem Rest.pop_transmitComplete (h : Rest a C l)
    (hb : l.agenda.entries = (b.now, .transmitComplete) :: b.entries) :
    ∃ tx, Sound a C tx none [] { l with agenda := b } := by
  obtain ⟨-, tx, _, hl, -⟩ := h
  exact ⟨tx, { hl with
    sends := hl.sends.pop hb
    flight := (hl.flight.pop_transmitComplete hb).2 }⟩

end Pop

/-- **Step lemma.** -/
theorem Rest.next [LawfulNetDeviceItem α] (h : Rest a C l) (hm : a.maxSize.HasRoom a.mtu)
    (hC : Carriable a C) {e : Event α} (he : e.Offers C) : Rest a C ((machine K).next l e) := by
  cases e with
  | schedule delay item =>
    obtain ⟨hp, tx, u, hl, hd⟩ := h
    have hsends : Sends C (l.agenda.schedule delay (.send item)) :=
      hl.sends.schedule delay fun x hx => by cases hx; exact he
    have hflight := hl.flight.schedule delay (c := .send item) (fun _ => rfl) fun _ => rfl
    exact ⟨hp, tx, u, { hl with sends := hsends, flight := hflight }, hd⟩
  | processOneEvent =>
    rcases l.agenda.pop_cases with ⟨-, hpop⟩ | ⟨c, b, hpop, hb, hnow⟩ <;>
      unfold machine Machine.next <;> dsimp only <;> rw [hpop]
    · exact h
    · cases c with
      | send x => exact (h.pop hb hnow rfl rfl).send hm hC (h.pop_send hb)
      | run => exact (h.pop hb hnow rfl rfl).runDisc hm hC
      | transmitComplete =>
        obtain ⟨tx, hfree⟩ := h.pop_transmitComplete hb
        exact hfree.transmitComplete h.1 hm
      | receive p => exact h.pop_receive hb hnow

theorem rest_install (a : Attributes α) (hm : a.maxSize.HasRoom a.mtu) :
    Rest a C (install a : Link Z α) := by
  have hused : (install a : Link Z α).device.queue.used = 0 := a.maxSize.unit.used_nil
  refine ⟨rfl, {}, none, ?_, ?_⟩
  · exact
      { steady :=
          { inOrder := Root.inOrder_doInitialize
              { a.disc with devQueueIface := some ⟨[{}], List.cons_ne_nil _ _⟩ }
            single := ⟨rfl, rfl, List.forall_mem_nil _⟩
            accepted := List.forall_mem_nil _
            running := iff_of_false Bool.false_ne_true (not_not.mpr rfl)
            pending := List.forall_mem_nil _ }
        device :=
          { maxSize_eq := rfl
            mtu_eq := rfl
            linkUp := rfl
            counted := ⟨rfl, rfl⟩
            used_le := hused.trans_le (Nat.zero_le _)
            cost_pos := List.forall_mem_nil _
            stopped := by
              refine iff_of_false Bool.false_ne_true (Nat.not_lt.mpr ?_)
              rw [hused, Nat.zero_add]
              exact hm.reserve_le }
        sends := fun _ _ h => absurd h List.not_mem_nil
        dropped := rfl
        sent := rfl
        flight := ⟨rfl, List.forall_mem_nil _, rfl⟩ }
  · exact ⟨iff_of_false TxMachineState.noConfusion Bool.false_ne_true, fun hne => absurd rfl hne⟩

/-- **Run lemma.** -/
theorem run_rest [LawfulNetDeviceItem α] (K : ZombieKind Z) (hm : a.maxSize.HasRoom a.mtu)
    (hC : Carriable a C) {es : List (Event α)} (hes : ∀ e ∈ es, e.Offers C) :
    Rest a C ((machine K).run (install a) es) :=
  Machine.run_invariant (fun _ _ he h => h.next hm hC he) (rest_install a hm)
    (Machine.along_of_forall hes)

/-! ## What a link delivers -/

/-- A packet of the disc, as it is going to be delivered. -/
def toDeliver (x : α) : α × UInt16 := (addHeader x, getProtocol x)

theorem Sound.delivers [LawfulNetDeviceItem α] (h : Sound a C tx u [] l) (hC : Carriable a C) :
    l.root.accepted.map toDeliver =
      l.received ++ (flying l.agenda).map PppPacket.deliver ++
        l.device.queue.packets.map PppPacket.deliver ++ l.root.disc.queue.packets.map toDeliver := by
  obtain ⟨left, -, hacc, hsent⟩ := h.steady.inOrder.order
  have hnone : l.root.disc.requeued.toList = [] := by
    rw [show l.root.disc.requeued = none from h.steady.single.requeued]
    rfl
  rw [hnone, List.append_nil] at hsent
  have hleft : left.map toDeliver = (l.root.sent.map frame).map PppPacket.deliver := by
    rw [hsent, List.map_map, List.map_map]
    refine List.map_congr_left fun x hx => ?_
    have hmem : x ∈ l.root.accepted := hacc ▸ List.mem_append_left _ hx
    have hcarry := hC.carries _ (h.steady.accepted x hmem)
    show (addHeader x, getProtocol x) = (frame (addHeader x)).deliver
    rw [hcarry.deliver_frame, getProtocol_addHeader]
  rw [hacc, List.map_append, hleft, h.sent, List.append_nil, List.map_append, h.flight.wire_eq]

/-- **A link loses, repeats and reorders nothing that its disc accepts.** On a limit with room for a
packet, the device's queue drops nothing; the accepted packets are those that have arrived, then
those on the wire, then those in the device's queue, then those in the disc. This holds in every
state that events lead to, with any attributes, queue limits and dates. -/
theorem run_delivers [LawfulNetDeviceItem α] (k : DiscKind) (a : Attributes α)
    (hm : a.maxSize.HasRoom a.mtu) {es : List (Event α)} (hes : ∀ e ∈ es, e.Offers (Carries a)) :
    let l := (k.linkMachine α).run (install a) es
    l.dropped = [] ∧
      l.root.accepted.map toDeliver =
        l.received ++ (flying l.agenda).map PppPacket.deliver ++
          l.device.queue.packets.map PppPacket.deliver ++
          l.root.disc.queue.packets.map toDeliver := by
  obtain ⟨-, tx, u, h, -⟩ := run_rest k.kind hm (carriable_carries a) hes
  exact ⟨h.dropped, h.delivers (carriable_carries a)⟩

instance (a : Attributes α) (x : α) : Decidable (Carries a x) :=
  decidable_of_iff ((getProtocol x = 0x0800 ∨ getProtocol x = 0x86DD) ∧
    (a.maxSize.unit = .bytes → (getSize x).toNat + 2 ≤ a.mtu.toNat))
    ⟨fun h => ⟨h.1, h.2⟩, fun h => ⟨h.protocol, h.size⟩⟩

instance (C : α → Prop) [DecidablePred C] : (e : Event α) → Decidable (e.Offers C)
  | .schedule _ item => inferInstanceAs (Decidable (C item))
  | .processOneEvent => isTrue trivial

/-- A device queue with room for one packet, on a line of 8 Mbit/s. -/
def oneSlot : Attributes Ipv4QueueDiscItem :=
  { disc := { Attributes.plain with
      maxSize := { unit := .bytes, value := 20000 }
      maxSize_pos := by decide }
    maxSize := { unit := .packets, value := 1 }
    bps := 8000000
    delay := 1000 }

/-- Five packets at once, then nine events. -/
def fivePackets : List (Event Ipv4QueueDiscItem) :=
  (List.range 5).map (fun i => .schedule 0 (.tcp 980 (UInt16.ofNat i))) ++
    List.replicate 9 .processOneEvent

theorem run_delivers_fivePackets :
    let l := (DiscKind.stabilizedRed.linkMachine _).run (install oneSlot) fivePackets
    (l.received.length, (flying l.agenda).length, l.device.queue.packets.length,
        l.root.disc.queue.packets.length) = (1, 1, 1, 2) ∧
      l.dropped = [] ∧
      l.root.accepted.map toDeliver =
        l.received ++ (flying l.agenda).map PppPacket.deliver ++
          l.device.queue.packets.map PppPacket.deliver ++
          l.root.disc.queue.packets.map toDeliver :=
  ⟨by decide +kernel, run_delivers .stabilizedRed oneSlot ⟨by decide, by decide⟩ (by decide)⟩

end Link

end StabilizedRed
