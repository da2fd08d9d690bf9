import StabilizedRed.Link.Steps

/-!
# What is on its way

`Flight u delay agenda wire received`: the channel was given `wire`, of which `received` has
arrived, and the rest is in the agenda, in the same order; and the agenda holds the end of a
transmission, dated `u`, or none. No packet arrives later than one that would leave when the device
is free again, so a packet that leaves then arrives last (`Flight.start`).
-/

namespace StabilizedRed

variable {α : Type}

/-- What the receive callback is given for a packet. -/
def PppPacket.deliver (p : PppPacket α) : α × UInt16 := (p.packet, pppToEther p.protocol)

namespace Link

/-- The date of the end of a transmission. -/
def completion : Time × LinkCall α → Option Time
  | (t, .transmitComplete) => some t
  | _ => none

/-- The packet of an arrival. -/
def arrival : Time × LinkCall α → Option (PppPacket α)
  | (_, .receive p) => some p
  | _ => none

/-- The packets that are on the wire. -/
def flying (a : Agenda Time (LinkCall α)) : List (PppPacket α) := a.entries.filterMap arrival

structure Flight (u : Option Time) (delay : ℕ) (agenda : Agenda Time (LinkCall α))
    (wire : List (PppPacket α)) (received : List (α × UInt16)) : Prop where
  completions : agenda.entries.filterMap completion = u.toList
  arrivals_le : ∀ e ∈ agenda.entries, (arrival e).isSome → e.1 ≤ u.getD agenda.now + delay
  wire_eq : wire.map PppPacket.deliver = received ++ (flying agenda).map PppPacket.deliver

variable {u : Option Time} {delay : ℕ} {agenda : Agenda Time (LinkCall α)}
  {wire : List (PppPacket α)} {received : List (α × UInt16)}

theorem mem_completions {t : Time} :
    t ∈ agenda.entries.filterMap completion ↔ (t, .transmitComplete) ∈ agenda.entries := by
  rw [List.mem_filterMap]
  constructor
  · rintro ⟨⟨t', c⟩, he, hc⟩
    cases c with
    | transmitComplete =>
      obtain rfl : t' = t := Option.some.inj hc
      exact he
    | send | run | receive => cases hc
  · exact fun he => ⟨_, he, rfl⟩

/-- A call that is neither the end of a transmission nor an arrival. -/
theorem Flight.schedule (h : Flight u delay agenda wire received) (d : ℕ) {c : LinkCall α}
    (hc : ∀ t, completion (t, c) = none) (ha : ∀ t, arrival (t, c) = none) :
    Flight u delay (agenda.schedule d c) wire received where
  completions := by
    rw [agenda.filterMap_schedule_none (hc _)]
    exact h.completions
  arrivals_le e he hs := by
    rw [Agenda.schedule_entries, Agenda.mem_insert] at he
    rcases he with rfl | he
    · rw [ha] at hs
      exact absurd hs Bool.false_ne_true
    · exact h.arrivals_le e he hs
  wire_eq := by
    unfold flying
    rw [agenda.filterMap_schedule_none (ha _)]
    exact h.wire_eq

theorem Flight.runLater (h : Flight u delay agenda wire received) (n : ℕ) :
    Flight u delay (runLater n agenda) wire received := by
  induction n generalizing agenda with
  | zero => exact h
  | succ n ih => exact ih (h.schedule 0 (fun _ => rfl) fun _ => rfl)

/-- **A packet that leaves a free device arrives last.** -/
theorem Flight.start (h : Flight none delay agenda wire received) (txTime gap : ℕ)
    (p : PppPacket α) :
    Flight (some (agenda.now + (txTime + gap : ℕ))) delay
      ((agenda.schedule (txTime + gap) .transmitComplete).schedule (txTime + delay) (.receive p))
      (wire ++ [p]) received := by
  have hnone : agenda.entries.filterMap completion = [] := h.completions
  have hle : ∀ e ∈ agenda.entries, (arrival e).isSome → e.1 ≤ agenda.now + (delay : ℤ) :=
    h.arrivals_le
  have hentries : ∀ e ∈ (agenda.schedule (txTime + gap) .transmitComplete).entries,
      (arrival e).isSome → e.1 ≤ agenda.now + (txTime + delay : ℕ) := by
    intro e he hs
    rw [Agenda.schedule_entries, Agenda.mem_insert] at he
    rcases he with rfl | he
    · exact absurd hs Bool.false_ne_true
    · have := hle e he hs
      push_cast
      linarith
  refine ⟨?_, ?_, ?_⟩
  · rw [Agenda.filterMap_schedule_none (f := completion) _ rfl,
      Agenda.filterMap_schedule_some (f := completion) agenda rfl, hnone]
    · rfl
    · intro y hy hs
      have hmem : (completion y).get hs ∈ agenda.entries.filterMap completion :=
        List.mem_filterMap.mpr ⟨y, hy, (Option.some_get hs).symm⟩
      rw [hnone] at hmem
      exact absurd hmem List.not_mem_nil
  · intro e he hs
    rw [Agenda.schedule_entries, Agenda.mem_insert] at he
    show e.1 ≤ agenda.now + (txTime + gap : ℕ) + (delay : ℤ)
    push_cast
    rcases he with rfl | he
    · show agenda.now + ((txTime + delay : ℕ) : ℤ) ≤ _
      push_cast
      linarith
    · have := hentries e he hs
      push_cast at this
      linarith
  · unfold flying
    rw [Agenda.filterMap_schedule_some (f := arrival) _ rfl hentries,
      Agenda.filterMap_schedule_none (f := arrival) agenda rfl, List.map_append, h.wire_eq,
      List.map_append, List.append_assoc]
    rfl

/-! ## The next event -/

variable {b : Agenda Time (LinkCall α)} {c : LinkCall α}

/-- The next event is not the end of a transmission. -/
theorem Flight.tail (h : Flight u delay agenda wire received)
    (he : agenda.entries = (b.now, c) :: b.entries) (hnow : agenda.now ≤ b.now)
    (hc : completion (b.now, c) = none) :
    b.entries.filterMap completion = u.toList ∧
      ∀ e ∈ b.entries, (arrival e).isSome → e.1 ≤ u.getD b.now + delay := by
  have hcompl := h.completions
  rw [he, List.filterMap_cons_none hc] at hcompl
  refine ⟨hcompl, fun e hmem hs => (h.arrivals_le e (he ▸ List.mem_cons_of_mem _ hmem) hs).trans ?_⟩
  cases u with
  | none => exact Int.add_le_add_right hnow _
  | some t => exact le_rfl

theorem Flight.pop (h : Flight u delay agenda wire received)
    (he : agenda.entries = (b.now, c) :: b.entries) (hnow : agenda.now ≤ b.now)
    (hc : completion (b.now, c) = none) (ha : arrival (b.now, c) = none) :
    Flight u delay b wire received := by
  obtain ⟨hcompl, hle⟩ := h.tail he hnow hc
  refine ⟨hcompl, hle, ?_⟩
  have hw := h.wire_eq
  unfold flying at hw ⊢
  rwa [he, List.filterMap_cons_none ha] at hw

/-- An arrival. -/
theorem Flight.pop_receive (h : Flight u delay agenda wire received) {p : PppPacket α}
    (he : agenda.entries = (b.now, .receive p) :: b.entries) (hnow : agenda.now ≤ b.now) :
    Flight u delay b wire (received ++ [p.deliver]) := by
  obtain ⟨hcompl, hle⟩ := h.tail he hnow rfl
  refine ⟨hcompl, hle, ?_⟩
  have hw := h.wire_eq
  unfold flying at hw ⊢
  have hp : arrival (b.now, .receive p) = some p := rfl
  rw [he, List.filterMap_cons_some hp, List.map_cons] at hw
  rw [hw, List.append_assoc]
  rfl

/-- The end of a transmission: the device is free now. -/
theorem Flight.pop_transmitComplete (h : Flight u delay agenda wire received)
    (he : agenda.entries = (b.now, .transmitComplete) :: b.entries) :
    u = some b.now ∧ Flight none delay b wire received := by
  have hcompl := h.completions
  have hc : completion (b.now, (.transmitComplete : LinkCall α)) = some b.now := rfl
  rw [he, List.filterMap_cons_some hc] at hcompl
  cases u with
  | none => cases hcompl
  | some t =>
    rw [Option.toList_some, List.cons.injEq] at hcompl
    obtain ⟨rfl, hnil⟩ := hcompl
    refine ⟨rfl, hnil, fun e hmem hs => ?_, ?_⟩
    · exact h.arrivals_le e (he ▸ List.mem_cons_of_mem _ hmem) hs
    · have hw := h.wire_eq
      unfold flying at hw ⊢
      have ha : arrival (b.now, (.transmitComplete : LinkCall α)) = none := rfl
      rwa [he, List.filterMap_cons_none ha] at hw

end Link

end StabilizedRed
