import StabilizedRed.Core.Random
import StabilizedRed.Lib.Agenda
import StabilizedRed.Lib.Machine

/-!
# The event list of the simulator (`core/model/default-simulator-impl.cc`, `map-scheduler.cc`)

The simulator numbers its events in the order in which they are scheduled, keeps them in a map
ordered by time and number, and invokes the first one. The number is an `uint32_t` that starts at
`4`. `Simulator.run_agenda` says that as long as it has not wrapped, the events are those of an
`Agenda`, which has no numbers: in the order of their times, and at one time in the order in which
they were scheduled. `Simulator.run_isExpired` says that `IsExpired` is exact.

Events for the end of the simulation (`ScheduleDestroy`) and calls from other threads are left out.
-/

namespace StabilizedRed

/-- `Scheduler::EventKey`, without the context, which no comparison reads. -/
structure EventKey where
  ts : Time
  uid : UInt32
  deriving DecidableEq, Repr

/-- `operator <` of two keys. -/
def EventKey.lt (a b : EventKey) : Prop := a.ts < b.ts ∨ (a.ts = b.ts ∧ a.uid < b.uid)

instance (a b : EventKey) : Decidable (a.lt b) := inferInstanceAs (Decidable (_ ∨ _))

theorem EventKey.lt_trans {a b c : EventKey} (h : a.lt b) (h' : b.lt c) : a.lt c := by
  rcases h with h | ⟨h, hu⟩ <;> rcases h' with h' | ⟨h', hu'⟩
  · exact .inl (h.trans h')
  · exact .inl (h'.symm ▸ h)
  · exact .inl (h ▸ h')
  · exact .inr ⟨h.trans h', UInt32.lt_trans hu hu'⟩

theorem EventKey.lt_irrefl (a : EventKey) : ¬ a.lt a := by
  rintro (h | ⟨-, h⟩)
  · exact Int.lt_irrefl _ h
  · exact UInt32.lt_irrefl _ h

/-- `MapScheduler::Insert`: the code asserts that the key is new, and the map keeps what it has. -/
def MapScheduler.insert {ε : Type} (key : EventKey) (impl : ε) :
    List (EventKey × ε) → List (EventKey × ε)
  | [] => [(key, impl)]
  | y :: list =>
    if key.lt y.1 then (key, impl) :: y :: list
    else if y.1.lt key then y :: insert key impl list
    else y :: list

/-- `DefaultSimulatorImpl` with a `MapScheduler`. An event is named by its key. -/
structure Simulator (ε : Type) where
  events : List (EventKey × ε) := []
  uid : UInt32 := 4
  currentUid : UInt32 := 0
  currentTs : Time := 0
  /-- The numbers of the events with `m_cancel`. -/
  cancelled : List UInt32 := []

namespace Simulator

variable {ε : Type}

/-- The key of the event that was invoked last. -/
def current (s : Simulator ε) : EventKey := ⟨s.currentTs, s.currentUid⟩

/-- `Schedule`. The code asserts that the delay is not negative. -/
def schedule (delay : ℕ) (event : ε) (s : Simulator ε) : EventKey × Simulator ε :=
  let key : EventKey := ⟨s.currentTs + delay, s.uid⟩
  (key, { s with events := MapScheduler.insert key event s.events, uid := s.uid + 1 })

/-- `ScheduleNow`. -/
def scheduleNow (event : ε) (s : Simulator ε) : EventKey × Simulator ε := s.schedule 0 event

/-- `ProcessOneEvent`: the event whose `Notify` is called, if it is not cancelled. `Run` calls it
while there are events. -/
def processOneEvent (s : Simulator ε) : Option ε × Simulator ε :=
  match s.events with
  | [] => (none, s)
  | (key, event) :: events =>
    (if key.uid ∈ s.cancelled then none else some event,
      { s with events := events, currentTs := key.ts, currentUid := key.uid })

/-- `IsExpired`. -/
def isExpired (id : EventKey) (s : Simulator ε) : Bool :=
  decide (id.ts < s.currentTs) || (decide (id.ts = s.currentTs) && decide (id.uid ≤ s.currentUid)) ||
    decide (id.uid ∈ s.cancelled)

/-- `Cancel`. -/
def cancel (id : EventKey) (s : Simulator ε) : Simulator ε :=
  if s.isExpired id then s else { s with cancelled := id.uid :: s.cancelled }

/-- `Remove`. -/
def remove (id : EventKey) (s : Simulator ε) : Simulator ε :=
  if s.isExpired id then s
  else
    { s with
      events := s.events.filter (fun y => decide (y.1 ≠ id))
      cancelled := id.uid :: s.cancelled }

/-- The calls of the simulator. -/
inductive Call (ε : Type) where
  | schedule (delay : ℕ) (event : ε)
  | cancel (id : EventKey)
  | remove (id : EventKey)
  | processOneEvent

/-- The call takes a number. -/
def Call.isSchedule : Call ε → Bool
  | .schedule _ _ => true
  | _ => false

/-- The simulator under calls; the output is the event that is invoked, with the reading of the
clock. -/
def machine (ε : Type) : Machine (Simulator ε) (Call ε) (Option (Time × ε)) where
  step s
    | .schedule delay event => (none, (s.schedule delay event).2)
    | .cancel id => (none, s.cancel id)
    | .remove id => (none, s.remove id)
    | .processOneEvent =>
      let (event, s) := s.processOneEvent
      (event.map (s.currentTs, ·), s)

/-- An agenda under the same calls, without cancellation. -/
def agenda (ε : Type) : Machine (Agenda Time ε) (Call ε) (Option (Time × ε)) where
  step a
    | .schedule delay event => (none, a.schedule delay event)
    | .processOneEvent =>
      match a.pop with
      | none => (none, a)
      | some (event, a) => (some (a.now, event), a)
    | _ => (none, a)

/-! ## The map and the agenda -/

/-- Entries of the event list as entries of an agenda. -/
def dated (l : List (EventKey × ε)) : List (Time × (EventKey × ε)) := l.map fun y => (y.1.ts, y)

/-- A new number is the largest, so the map puts its event where an agenda does. -/
theorem dated_insert {key : EventKey} (event : ε) {l : List (EventKey × ε)}
    (h : ∀ y ∈ l, y.1.uid < key.uid) :
    dated (MapScheduler.insert key event l) = Agenda.insert key.ts (key, event) (dated l) := by
  induction l with
  | nil => rfl
  | cons y l ih =>
    obtain ⟨hy, hl⟩ := List.forall_mem_cons.mp h
    have hlt : key.lt y.1 ↔ key.ts < y.1.ts :=
      or_iff_left fun ⟨_, hu⟩ => UInt32.lt_asymm hy hu
    unfold MapScheduler.insert
    by_cases ht : key.ts < y.1.ts
    · rw [if_pos (hlt.mpr ht)]
      exact (if_pos ht).symm
    · have hgt : y.1.lt key := (not_lt.mp ht).lt_or_eq.imp_right fun he => ⟨he, hy⟩
      rw [if_neg (mt hlt.mp ht), if_pos hgt]
      show (y.1.ts, y) :: dated _ = Agenda.insert key.ts (key, event) ((y.1.ts, y) :: dated l)
      rw [ih hl]
      exact (if_neg ht).symm

theorem dated_snd (l : List (EventKey × ε)) : (dated l).map Prod.snd = l := by
  unfold dated
  rw [List.map_map]
  exact List.map_id l

theorem insert_perm {key : EventKey} (event : ε) {l : List (EventKey × ε)}
    (h : ∀ y ∈ l, y.1.uid < key.uid) :
    (MapScheduler.insert key event l).Perm ((key, event) :: l) := by
  have hp := (Agenda.insert_perm key.ts (key, event) (dated l)).map Prod.snd
  rwa [← dated_insert event h, dated_snd, List.map_cons, dated_snd] at hp

theorem pairwise_insert {key : EventKey} (event : ε) {l : List (EventKey × ε)}
    (h : ∀ y ∈ l, y.1.uid < key.uid) (hs : l.Pairwise fun x y => x.1.lt y.1) :
    (MapScheduler.insert key event l).Pairwise fun x y => x.1.lt y.1 := by
  have hd : (dated l).Pairwise fun x y => x.1 ≤ y.1 :=
    List.pairwise_map.mpr (hs.imp fun h => h.elim le_of_lt fun h => h.1.le)
  have hk : (dated l).Pairwise fun x y => x.2.1.lt y.2.1 := List.pairwise_map.mpr hs
  have hins : (dated (MapScheduler.insert key event l)).Pairwise fun x y => x.2.1.lt y.2.1 := by
    rw [dated_insert event h]
    refine Agenda.pairwise_insert hd hk ?_ ?_
    · rintro _ hmem hle
      obtain ⟨y, hy, rfl⟩ := List.mem_map.mp hmem
      exact hle.lt_or_eq.imp_right fun he => ⟨he, h y hy⟩
    · rintro _ hmem hlt
      exact .inl (by
        obtain ⟨y, hy, rfl⟩ := List.mem_map.mp hmem
        exact hlt)
  exact (List.pairwise_map (f := fun y : EventKey × ε => (y.1.ts, y))).mp hins

/-! ## What holds in every run -/

/-- The events in the list come behind the last one invoked, in strict order; and of the keys ever
issued, all smaller than the next number, each is in the list, or was passed, or is cancelled. -/
structure Valid (s : Simulator ε) (issued : List EventKey) : Prop where
  sorted : s.events.Pairwise fun x y => x.1.lt y.1
  mem_issued : ∀ x ∈ s.events, x.1 ∈ issued
  later : ∀ x ∈ s.events, s.current.lt x.1
  fresh : ∀ k ∈ issued, k.uid < s.uid
  current_lt : s.currentUid < s.uid
  settled : ∀ k ∈ issued, k ∈ s.events.map Prod.fst ∨ ¬ s.current.lt k ∨ k.uid ∈ s.cancelled

variable {s : Simulator ε} {issued : List EventKey}

theorem valid_default : Valid ({} : Simulator ε) [] where
  sorted := .nil
  mem_issued := List.forall_mem_nil _
  later := List.forall_mem_nil _
  fresh := List.forall_mem_nil _
  current_lt := show (0 : UInt32) < 4 by decide
  settled := List.forall_mem_nil _

theorem lt_add_one {u v : UInt32} (h : u < v) (hv : v.toNat + 1 < 2 ^ 32) : u < v + 1 := by
  rw [UInt32.lt_iff_toNat_lt] at h ⊢
  rw [UInt32.toNat_add, UInt32.toNat_one, Nat.mod_eq_of_lt hv]
  omega

theorem Valid.schedule (h : Valid s issued) (hu : s.uid.toNat + 1 < 2 ^ 32) (delay : ℕ)
    (event : ε) : Valid (s.schedule delay event).2 (issued ++ [(s.schedule delay event).1]) := by
  have hfresh : ∀ y ∈ s.events, y.1.uid < s.uid := fun y hy => h.fresh _ (h.mem_issued y hy)
  have hself : s.uid < s.uid + 1 := by
    rw [UInt32.lt_iff_toNat_lt, UInt32.toNat_add, UInt32.toNat_one, Nat.mod_eq_of_lt hu]
    omega
  have hperm : (MapScheduler.insert ⟨s.currentTs + delay, s.uid⟩ event s.events).Perm
      ((⟨s.currentTs + delay, s.uid⟩, event) :: s.events) := insert_perm event hfresh
  refine ⟨pairwise_insert event hfresh h.sorted, ?_, ?_, ?_, lt_add_one h.current_lt hu, ?_⟩
  · intro x hx
    rcases List.mem_cons.mp (hperm.mem_iff.mp hx) with rfl | hx
    · exact List.mem_append_right _ (List.mem_singleton_self _)
    · exact List.mem_append_left _ (h.mem_issued x hx)
  · intro x hx
    rcases List.mem_cons.mp (hperm.mem_iff.mp hx) with rfl | hx
    · rcases (Int.natCast_nonneg delay).eq_or_lt with h0 | h0
      · have hts : s.currentTs = s.currentTs + (delay : ℤ) := by rw [← h0, Int.add_zero]
        exact .inr ⟨hts, h.current_lt⟩
      · exact .inl (lt_add_of_pos_right _ h0)
    · exact h.later x hx
  · intro k hk
    rcases List.mem_append.mp hk with hk | hk
    · exact lt_add_one (h.fresh k hk) hu
    · rw [List.mem_singleton.mp hk]
      exact hself
  · intro k hk
    show k ∈ (MapScheduler.insert _ event s.events).map Prod.fst ∨ _
    rw [(hperm.map Prod.fst).mem_iff, List.map_cons, List.mem_cons]
    rcases List.mem_append.mp hk with hk | hk
    · exact (h.settled k hk).imp_left .inr
    · exact .inl (.inl (List.mem_singleton.mp hk))

theorem Valid.processOneEvent (h : Valid s issued) : Valid s.processOneEvent.2 issued := by
  unfold Simulator.processOneEvent
  split
  · exact h
  · rename_i key event events he
    have hs := he ▸ h.sorted
    rw [List.pairwise_cons] at hs
    have hlater : s.current.lt key := h.later (key, event) (he ▸ List.mem_cons_self)
    have hmem : key ∈ issued := h.mem_issued (key, event) (he ▸ List.mem_cons_self)
    refine ⟨hs.2, fun x hx => h.mem_issued x (he ▸ List.mem_cons_of_mem _ hx), hs.1, h.fresh,
      h.fresh key hmem, fun k hk => ?_⟩
    rcases h.settled k hk with hin | hpast | hc
    · rw [he, List.map_cons, List.mem_cons] at hin
      rcases hin with rfl | hin
      · exact .inr (.inl (EventKey.lt_irrefl _))
      · exact .inl hin
    · exact .inr (.inl fun hlt => hpast (EventKey.lt_trans hlater hlt))
    · exact .inr (.inr hc)

theorem Valid.cancel (h : Valid s issued) (id : EventKey) : Valid (s.cancel id) issued := by
  unfold Simulator.cancel
  split
  · exact h
  · exact { h with
      settled := fun k hk => (h.settled k hk).imp_right (.imp_right (List.mem_cons_of_mem _)) }

theorem Valid.remove (h : Valid s issued) (id : EventKey) : Valid (s.remove id) issued := by
  unfold Simulator.remove
  split
  · exact h
  · refine ⟨h.sorted.filter _, fun x hx => h.mem_issued x (List.mem_of_mem_filter hx),
      fun x hx => h.later x (List.mem_of_mem_filter hx), h.fresh, h.current_lt, fun k hk => ?_⟩
    rcases h.settled k hk with hin | hpast | hc
    · by_cases hid : k = id
      · exact .inr (.inr (hid ▸ List.mem_cons_self))
      · obtain ⟨x, hx, rfl⟩ := List.mem_map.mp hin
        exact .inl (List.mem_map_of_mem (List.mem_filter.mpr ⟨hx, decide_eq_true hid⟩))
    · exact .inr (.inl hpast)
    · exact .inr (.inr (List.mem_cons_of_mem _ hc))

/-- What `IsExpired` tests. -/
theorem isExpired_eq_true_iff (s : Simulator ε) (id : EventKey) :
    s.isExpired id = true ↔ ¬ s.current.lt id ∨ id.uid ∈ s.cancelled := by
  have hlt : ¬ s.current.lt id ↔
      id.ts < s.currentTs ∨ (id.ts = s.currentTs ∧ id.uid ≤ s.currentUid) := by
    unfold EventKey.lt current
    rw [not_or, not_and, not_lt, UInt32.not_lt]
    constructor
    · rintro ⟨hle, hu⟩
      exact hle.lt_or_eq.imp_right fun he => ⟨he, hu he.symm⟩
    · rintro (h | ⟨he, hu⟩)
      · exact ⟨h.le, fun he => absurd he h.ne'⟩
      · exact ⟨he.le, fun _ => hu⟩
  unfold isExpired
  rw [hlt]
  simp only [Bool.or_eq_true, Bool.and_eq_true, decide_eq_true_eq]

/-- An event is unexpired exactly while it waits in the list and is not cancelled. -/
theorem Valid.isExpired_eq_false_iff (h : Valid s issued) {id : EventKey} (hid : id ∈ issued) :
    s.isExpired id = false ↔ id ∈ s.events.map Prod.fst ∧ id.uid ∉ s.cancelled := by
  rw [← Bool.not_eq_true, isExpired_eq_true_iff, not_or, not_not]
  refine and_congr_left fun hc => ⟨fun hlt => ?_, fun hin => ?_⟩
  · rcases h.settled id hid with hin | hpast | hc'
    · exact hin
    · exact absurd hlt hpast
    · exact absurd hc' hc
  · obtain ⟨x, hx, rfl⟩ := List.mem_map.mp hin
    exact h.later x hx

/-- A call that takes a number finds one left. -/
def NumberLeft (s : Simulator ε) (c : Call ε) : Prop :=
  c.isSchedule = true → s.uid.toNat + 1 < 2 ^ 32

/-- There is a number left for every event of a run that schedules fewer than `2 ^ 32 - 4`. -/
theorem along_numberLeft {s : Simulator ε} {calls : List (Call ε)}
    (h : s.uid.toNat + calls.countP Call.isSchedule < 2 ^ 32) :
    (machine ε).Along NumberLeft s calls := by
  induction calls generalizing s with
  | nil => trivial
  | cons c calls ih =>
    rw [List.countP_cons] at h
    refine ⟨fun hc => ?_, ih ?_⟩
    · rw [if_pos hc] at h
      omega
    · cases c with
      | schedule delay event =>
        have h1 : s.uid.toNat + 1 < 2 ^ 32 := by
          rw [if_pos (show (Call.schedule delay event).isSchedule = true from rfl)] at h
          omega
        show (s.uid + 1).toNat + _ < 2 ^ 32
        rw [UInt32.toNat_add, UInt32.toNat_one, Nat.mod_eq_of_lt h1]
        rw [if_pos (show (Call.schedule delay event).isSchedule = true from rfl)] at h
        omega
      | cancel id =>
        have hu : ((machine ε).next s (.cancel id)).uid = s.uid := by
          show (s.cancel id).uid = s.uid
          unfold Simulator.cancel
          split <;> rfl
        rw [hu]
        omega
      | remove id =>
        have hu : ((machine ε).next s (.remove id)).uid = s.uid := by
          show (s.remove id).uid = s.uid
          unfold Simulator.remove
          split <;> rfl
        rw [hu]
        omega
      | processOneEvent =>
        have hu : ((machine ε).next s .processOneEvent).uid = s.uid := by
          show s.processOneEvent.2.uid = s.uid
          unfold Simulator.processOneEvent
          split <;> rfl
        rw [hu]
        omega

theorem along_numberLeft_default {calls : List (Call ε)}
    (h : calls.countP Call.isSchedule < 2 ^ 32 - 4) : (machine ε).Along NumberLeft {} calls := by
  have hvalid : ({} : Simulator ε).uid.toNat = 4 := rfl
  exact along_numberLeft (by omega)

/-- The key that a call gives out. -/
def issuedBy (s : Simulator ε) : Call ε → Option EventKey
  | .schedule delay event => some (s.schedule delay event).1
  | _ => none

/-- **Step lemma.** -/
theorem Valid.step (h : Valid s issued) {c : Call ε} (hc : NumberLeft s c) :
    Valid ((machine ε).next s c) (issued ++ (issuedBy s c).toList) := by
  cases c with
  | schedule delay event => exact h.schedule (hc rfl) delay event
  | cancel id => exact (List.append_nil issued).symm ▸ h.cancel id
  | remove id => exact (List.append_nil issued).symm ▸ h.remove id
  | processOneEvent => exact (List.append_nil issued).symm ▸ h.processOneEvent

/-- **`IsExpired` is exact.** In every run of a simulation that schedules fewer than `2 ^ 32 - 4`
events, with any of them cancelled or removed at any time, an event is unexpired exactly while it
waits in the event list and has not been cancelled. -/
theorem run_isExpired {calls : List (Call ε)} (h : calls.countP Call.isSchedule < 2 ^ 32 - 4) :
    let s := (machine ε).run {} calls
    ∀ id ∈ (machine ε).observe issuedBy {} calls,
      s.isExpired id = false ↔ id ∈ s.events.map Prod.fst ∧ id.uid ∉ s.cancelled := by
  intro s id hid
  have hleft := along_numberLeft_default h
  have hv := Machine.observe_invariant (f := issuedBy) (I := Valid)
    (fun s c H hc hI => Valid.step hI hc) valid_default hleft
  exact hv.isExpired_eq_false_iff hid

/-- Two events, of which the later one is cancelled and the earlier one invoked. -/
def cancelLater : List (Call ℕ) :=
  [.schedule 5 10, .schedule 3 20, .cancel ⟨5, 4⟩, .processOneEvent]

theorem run_isExpired_cancelLater :
    let s := (machine ℕ).run {} cancelLater
    ∀ id ∈ (machine ℕ).observe issuedBy {} cancelLater,
      s.isExpired id = false ↔ id ∈ s.events.map Prod.fst ∧ id.uid ∉ s.cancelled :=
  run_isExpired (by decide)

/-! ## The simulator as an agenda -/

/-- Neither `Cancel` nor `Remove`. -/
def Call.IsPlain : Call ε → Prop
  | .cancel _ | .remove _ => False
  | _ => True

/-- The simulator, with nothing cancelled, has the clock and the events of the agenda. -/
structure Follows (s : Simulator ε) (a : Agenda Time ε) : Prop where
  valid : ∃ issued, Valid s issued
  cancelled : s.cancelled = []
  now : s.currentTs = a.now
  entries : (dated s.events).map (Prod.map id Prod.snd) = a.entries

theorem follows_default : Follows ({} : Simulator ε) (.empty 0) where
  valid := ⟨[], valid_default⟩
  cancelled := rfl
  now := rfl
  entries := rfl

/-- **Step lemma.** Scheduling an event and processing one are `put` and `pop`. -/
theorem Follows.step {s : Simulator ε} {a : Agenda Time ε} (h : Follows s a) {c : Call ε}
    (hc : NumberLeft s c) (hp : c.IsPlain) :
    Follows ((machine ε).next s c) ((agenda ε).next a c) ∧
      (machine ε).out s c = (agenda ε).out a c := by
  obtain ⟨issued, hv⟩ := h.valid
  have hv' := hv.step hc
  cases c with
  | cancel id => exact hp.elim
  | remove id => exact hp.elim
  | schedule delay event =>
    refine ⟨⟨⟨_, hv'⟩, h.cancelled, h.now, ?_⟩, rfl⟩
    show (dated (MapScheduler.insert _ event s.events)).map _ = Agenda.insert _ event a.entries
    rw [dated_insert event fun y hy => hv.fresh _ (hv.mem_issued y hy), Agenda.map_insert, h.entries,
      ← h.now]
  | processOneEvent =>
    have hent := h.entries
    unfold Machine.next Machine.out machine agenda at *
    dsimp only at hv' ⊢
    unfold Simulator.processOneEvent at hv' ⊢
    rcases a.pop_cases with ⟨hnil, hpop⟩ | ⟨x, b, hpop, hcons, -⟩
    · have he : s.events = [] := by
        rw [hnil, List.map_eq_nil_iff] at hent
        exact List.map_eq_nil_iff.mp hent
      rw [hpop, he]
      exact ⟨h, rfl⟩
    · rw [hpop]
      cases he : s.events with
      | nil =>
        rw [he, hcons] at hent
        exact absurd hent (List.cons_ne_nil _ _).symm
      | cons y rest =>
        rw [he, hcons] at hent
        obtain ⟨hy, hrest⟩ := List.cons_eq_cons.mp hent
        obtain ⟨hts, hx⟩ := Prod.mk.injEq .. ▸ hy
        rw [he] at hv'
        refine ⟨⟨⟨_, hv'⟩, h.cancelled, hts, hrest⟩, ?_⟩
        dsimp only
        rw [if_neg (h.cancelled ▸ List.not_mem_nil)]
        exact congrArg some hy

/-- **The numbers only keep the order.** In every run that schedules fewer than `2 ^ 32 - 4` events
and cancels none, the simulator invokes what the agenda gives, at the same times: earlier events
first, and events of one time in the order in which they were scheduled. -/
theorem run_agenda {calls : List (Call ε)} (hp : ∀ c ∈ calls, c.IsPlain)
    (h : calls.countP Call.isSchedule < 2 ^ 32 - 4) :
    (machine ε).outputs {} calls = (agenda ε).outputs (.empty 0) calls ∧
      ((machine ε).run {} calls).currentTs = ((agenda ε).run (.empty 0) calls).now ∧
      ((machine ε).run {} calls).events.map (fun y => (y.1.ts, y.2)) =
        ((agenda ε).run (.empty 0) calls).entries := by
  have hE : List.Forall₂ (fun c c' : Call ε => c = c' ∧ c.IsPlain) calls calls :=
    List.forall₂_same.mpr fun c hc => ⟨rfl, hp c hc⟩
  have hstep : ∀ s a (c c' : Call ε), Follows s a → c = c' ∧ c.IsPlain → NumberLeft s c →
      Follows ((machine ε).next s c) ((agenda ε).next a c') ∧
        (machine ε).out s c = (agenda ε).out a c' := by
    rintro s a c _ hs ⟨rfl, hc⟩ hleft
    exact hs.step hleft hc
  obtain ⟨hrun, hout⟩ := Machine.run_sim (O := Eq) hstep follows_default hE
    (along_numberLeft_default h)
  refine ⟨List.forall₂_eq_eq_eq ▸ hout, hrun.now, ?_⟩
  rw [← hrun.entries]
  unfold dated
  rw [List.map_map]
  rfl

/-- Three events, two of them at one time, and a fourth that is scheduled between them. -/
def fourEvents : List (Call ℕ) :=
  [.schedule 5 10, .schedule 3 20, .schedule 5 30, .processOneEvent, .schedule 2 40,
    .processOneEvent, .processOneEvent, .processOneEvent]

theorem run_agenda_fourEvents :
    (machine ℕ).outputs {} fourEvents = (agenda ℕ).outputs (.empty 0) fourEvents ∧
      ((machine ℕ).run {} fourEvents).currentTs = ((agenda ℕ).run (.empty 0) fourEvents).now ∧
      ((machine ℕ).run {} fourEvents).events.map (fun y => (y.1.ts, y.2)) =
        ((agenda ℕ).run (.empty 0) fourEvents).entries :=
  run_agenda (by simp [fourEvents, Call.IsPlain]) (by decide)

example : ((machine ℕ).outputs {} fourEvents).filterMap id =
    [(3, 20), (5, 10), (5, 30), (5, 40)] := by decide

end Simulator

end StabilizedRed
