import StabilizedRed.Disc.WarmUp
import StabilizedRed.Lib.SlotLog

/-!
# What the zombie list remembers

The zombie list is a table of at most 1000 slots, and `access` says which slot an arrival writes or
hits: a new slot in warm-up, later the sampled one on a hit or an overwrite. `next_remembers` is the
step lemma: the list goes on showing what the log of all accesses says (`View.Remembers`). So each
zombie has the flow id of the last arrival that wrote its slot, the number of hits since then and,
in ESRED, the time of the last write or hit (`run_remembered`).
-/

namespace StabilizedRed

open ExtRat (fin)

/-- What the operations do to the fields of a zombie. `stamped z t` says that `z` carries the time
`t`. -/
structure ZombieKind.Lawful {Z : Type} (K : ZombieKind Z) (stamped : Z → Time → Prop) : Prop where
  flowID_create (f : Int32) (t : Time) : K.flowID (K.create f t) = f
  count_create (f : Int32) (t : Time) : K.count (K.create f t) = 0
  stamped_create (f : Int32) (t : Time) : stamped (K.create f t) t
  flowID_hit (t : Time) (z : Z) : K.flowID (K.hit t z) = K.flowID z
  count_hit (t : Time) (z : Z) : K.count (K.hit t z) = K.count z + 1
  stamped_hit (t : Time) (z : Z) : stamped (K.hit t z) t
  flowID_overwrite (f : Int32) (t : Time) (z : Z) : K.flowID (K.overwrite f t z) = f
  count_overwrite (f : Int32) (t : Time) (z : Z) : K.count (K.overwrite f t z) = 0
  stamped_overwrite (f : Int32) (t : Time) (z : Z) : stamped (K.overwrite f t z) t

/-- The zombie carries the time, if the disc keeps a time in its zombies. -/
def DiscKind.stamped : (k : DiscKind) → k.Zombie → Time → Prop
  | .stabilizedRed, _, _ => True
  | .es, z, t => EZombie.time z = t

theorem DiscKind.lawful (k : DiscKind) : k.kind.Lawful k.stamped := by
  cases k <;> exact
    { flowID_create := fun _ _ => rfl
      count_create := fun _ _ => rfl
      stamped_create := fun _ _ => by trivial
      flowID_hit := fun _ _ => rfl
      count_hit := fun _ _ => rfl
      stamped_hit := fun _ _ => by trivial
      flowID_overwrite := fun _ _ _ => rfl
      count_overwrite := fun _ _ _ => rfl
      stamped_overwrite := fun _ _ _ => by trivial }

/-- How a zombie shows the flow id, the count of hits and the time. -/
def ZombieKind.view {Z : Type} (K : ZombieKind Z) (stamped : Z → Time → Prop) :
    View Z Int32 Time where
  value := K.flowID
  counted z n := K.count z = Int32.ofNat n
  stamped := stamped

/-- The event is an arrival. -/
def Event.isArrival {α : Type} (e : Event α) : Bool :=
  match e.call with
  | .enqueue _ => true
  | _ => false

namespace ZombieQueueDisc

variable {Z α : Type} [QueueDiscItem α] {K : ZombieKind Z} {d : ZombieQueueDisc Z α}

/-! ## One call -/

/-- A miss overwrites the sampled zombie. -/
def overwrites (K : ZombieKind Z) (d : ZombieQueueDisc Z α) : Bool :=
  d.sampled.any fun z => fin d.uv.advance.getValue.1 < K.overwriteProbability d.pOverwrite z

/-- The slot that a call writes or hits. -/
def access (K : ZombieKind Z) (d : ZombieQueueDisc Z α) (e : Event α) :
    Option (Access Int32 Time) :=
  (d.givenFlowID e).bind fun flowID =>
    if d.Full then
      if d.hits K flowID then some (.hit d.sampleIndex.toNat e.now)
      else if d.overwrites K then some (.write d.sampleIndex.toNat flowID e.now)
      else none
    else some (.write d.zombies.length flowID e.now)

/-- **Step lemma.** After a call the list shows what the log says with the access of the call. -/
theorem next_remembers {stamped : Z → Time → Prop} (L : K.Lawful stamped)
    (hl : d.zombies.length ≤ maxZombieListSize) {log : List (Access Int32 Time)}
    (h : (K.view stamped).Remembers d.zombies log) (e : Event α) :
    (K.view stamped).Remembers ((machine K).next d e).zombies
      (log ++ (access K d e).toList) := by
  cases hg : d.givenFlowID e with
  | none =>
    rw [next_zombies_of_none hg, access, hg]
    simpa using h
  | some flowID =>
    rw [next_zombies_of_some hg, access, hg, Option.bind_some]
    by_cases hf : d.Full
    · obtain ⟨z, hz⟩ := exists_sampled hf hl
      have hlt := sampleIndex_lt hf hl
      rw [recordArrival_of_full hf, if_pos hf]
      unfold hits overwrites
      rw [hz, Option.any_some, Option.any_some]
      rcases sampleZombie_cases K e.now flowID hz with ⟨hid, he⟩ | ⟨hid, hr, he⟩ | ⟨hid, hr, he⟩
      · rw [he, decide_eq_true hid, if_pos rfl]
        refine h.hit hz (L.flowID_hit _ z) (fun n hn => ?_) (L.stamped_hit _ z)
        show K.count _ = _
        rw [L.count_hit, hn, Int32.ofNat_add]
        rfl
      · rw [he, decide_eq_false hid, decide_eq_true hr, if_neg Bool.false_ne_true, if_pos rfl]
        exact h.overwrite hlt (L.flowID_overwrite _ _ z) (L.count_overwrite _ _ z)
          (L.stamped_overwrite _ _ z)
      · rw [he, decide_eq_false hid, decide_eq_false hr, if_neg Bool.false_ne_true,
          if_neg Bool.false_ne_true]
        simpa using h
    · rw [recordArrival_of_not_full hf, if_neg hf]
      exact h.concat (L.flowID_create _ _) (L.count_create _ _) (L.stamped_create _ _)

/-- The list grows by one slot for each arrival with a flow id until it is full. -/
theorem next_length (hl : d.zombies.length ≤ maxZombieListSize) (e : Event α) :
    ((machine K).next d e).zombies.length =
      min maxZombieListSize (d.zombies.length + (d.givenFlowID e).toList.length) := by
  cases hg : d.givenFlowID e with
  | none =>
    rw [next_zombies_of_none hg]
    exact (Nat.min_eq_right hl).symm
  | some flowID =>
    rw [next_zombies_of_some hg, Option.toList_some, List.length_singleton]
    by_cases hf : d.Full
    · obtain ⟨zombies, uv, hlen, he⟩ := sampleZombie_frame K e.now flowID d
      rw [recordArrival_of_full hf, he]
      have : ¬ d.zombies.length < maxZombieListSize := hf
      dsimp only
      omega
    · have : d.zombies.length < maxZombieListSize := not_not.mp hf
      rw [recordArrival_of_not_full hf, List.length_append, List.length_singleton]
      omega

/-! ## Runs -/

/-- The flow ids that the arrivals of a run are given. -/
def givenFlowIDs (K : ZombieKind Z) (a : Attributes α) (es : List (Event α)) : List Int32 :=
  (machine K).observe givenFlowID (doInitialize a) es

/-- The accesses to the zombie list in a run. -/
def accesses (K : ZombieKind Z) (a : Attributes α) (es : List (Event α)) :
    List (Access Int32 Time) :=
  (machine K).observe (access K) (doInitialize a) es

theorem run_length (K : ZombieKind Z) (a : Attributes α) (es : List (Event α)) :
    ((machine K).run (doInitialize a) es).zombies.length =
      min maxZombieListSize (givenFlowIDs K a es).length := by
  refine Machine.observe_invariant (f := givenFlowID) (P := fun _ _ => True)
    (I := fun d ids => d.zombies.length = min maxZombieListSize ids.length) ?_ (H := []) rfl
    (Machine.along_of_forall (Q := fun _ => True) fun _ _ => trivial)
  rintro d e ids - hd
  rw [next_length (by rw [hd]; exact Nat.min_le_left _ _), hd, List.length_append]
  omega

theorem run_remembers {K : ZombieKind Z} {stamped : Z → Time → Prop} (L : K.Lawful stamped)
    (a : Attributes α) (es : List (Event α)) :
    (K.view stamped).Remembers ((machine K).run (doInitialize a) es).zombies (accesses K a es) := by
  refine (Machine.observe_invariant (f := access K) (P := fun _ _ => True)
    (I := fun d log => Steady a d ∧ (K.view stamped).Remembers d.zombies log) ?_ (H := [])
    ⟨steady_doInitialize a, View.remembers_nil⟩
    (Machine.along_of_forall (Q := fun _ => True) fun _ _ => trivial)).2
  rintro d e log - ⟨hs, hr⟩
  exact ⟨hs.next e, next_remembers L hs.length_le hr e⟩

/-- Only arrivals access the list. -/
theorem length_accesses_le (K : ZombieKind Z) (a : Attributes α) (es : List (Event α)) :
    (accesses K a es).length ≤ es.countP Event.isArrival := by
  refine Machine.length_observe_le (machine K) (fun d e he => ?_) _ es
  obtain ⟨now, c⟩ := e
  cases c with
  | enqueue item => rfl
  | dequeue => cases he
  | peek => cases he

/-- The time of an access is a reading of the clock. -/
theorem time_le_of_mem_observe (K : ZombieKind Z) (d : ZombieQueueDisc Z α) {es : List (Event α)}
    {now : Time} (h : ∀ e ∈ es, e.now ≤ now) :
    ∀ x ∈ (machine K).observe (access K) d es, x.time ≤ now := by
  induction es generalizing d with
  | nil => exact nofun
  | cons e es ih =>
    intro x hx
    rcases List.mem_append.mp hx with hx | hx
    · have hacc : access K d e = some x := Option.mem_toList.mp hx
      obtain ⟨flowID, -, hx⟩ := Option.bind_eq_some_iff.mp hacc
      have ht : x.time = e.now := by
        split at hx
        · split at hx
          · cases hx
            rfl
          · split at hx <;> cases hx
            rfl
        · cases hx
          rfl
      rw [ht]
      exact h e (by simp)
    · exact ih _ (fun f hf => h f (by simp [hf])) x hx

section Comparing

variable {a : Attributes α} {u : U01} {z : Z}

/-- The access to the slot that the draw `u` selects, where it holds `z`. -/
def slotAccess (K : ZombieKind Z) (a : Attributes α) (u : U01) (z : Z) (e : Event α) :
    Option (Access Int32 Time) :=
  (e.flowIDOf a).bind fun f =>
    let i := ((UniformRandomVariable.constant u).getInteger 0 999).1.toNat
    if K.flowID z = f then some (.hit i e.now)
    else if fin u.val < K.overwriteProbability a.overwriteProbability z then
      some (.write i f e.now)
    else none

/-- The accesses to that slot. -/
def slotAccesses (K : ZombieKind Z) (a : Attributes α) (u : U01) :
    Z → List (Event α) → List (Access Int32 Time)
  | _, [] => []
  | z, e :: es =>
    (slotAccess K a u z e).toList ++ slotAccesses K a u ((e.flowIDOf a).elim z fun f =>
      K.compare a.overwriteProbability u.val e.now f z) es

theorem Comparing.access_eq (h : Comparing a u z d) (e : Event α) :
    access K d e = slotAccess K a u z e := by
  unfold access slotAccess hits overwrites
  rw [h.givenFlowID, h.sampled, Option.any_some, h.repeats.advance.getValue, h.sampleIndex,
    h.steady.pOverwrite]
  simp only [if_pos h.full, Option.any_some, decide_eq_true_iff]

/-- **Under constant draws a full list is one slot.** -/
theorem Comparing.observe_access (h : Comparing a u z d) (es : List (Event α)) :
    (machine K).observe (access K) d es = slotAccesses K a u z es := by
  induction es generalizing d z with
  | nil => rfl
  | cons e es ih => rw [Machine.observe_cons, h.access_eq, ih (h.next e), slotAccesses]

end Comparing

/-- What the zombie list remembers after the calls `es`, and what the next call may do to it. -/
structure Remembered (k : DiscKind) (a : Attributes α) (es : List (Event α))
    (d : ZombieQueueDisc k.Zombie α) : Prop where
  length_eq : d.zombies.length = min 1000 (givenFlowIDs k.kind a es).length
  flowID : ∀ i z, d.zombies[i]? = some z →
    Access.lastWrite i (accesses k.kind a es) = some (k.kind.flowID z)
  count : ∀ i z, d.zombies[i]? = some z →
    (k.kind.count z).toInt = Access.hitsSince i (accesses k.kind a es)
  time : ∀ i z, d.zombies[i]? = some z → ∃ t, k.stamped z t ∧
    Access.lastTouch i (accesses k.kind a es) = some t ∧ ∀ now, (∀ e ∈ es, e.now ≤ now) → t ≤ now
  index_lt : d.Full → d.sampleIndex.toNat < d.zombies.length
  hits_iff : d.Full → ∀ flowID, d.hits k.kind flowID ↔
    Access.lastWrite d.sampleIndex.toNat (accesses k.kind a es) = some flowID
  grows : ∀ e, d.zombies.length ≤ ((k.machine α).next d e).zombies.length
  unchanged : ∀ e, d.givenFlowID e = none → ((k.machine α).next d e).zombies = d.zombies

/-- **What the zombie list remembers.** -/
theorem run_remembered (k : DiscKind) (a : Attributes α) (es : List (Event α))
    (hn : es.countP Event.isArrival < 2 ^ 31) :
    Remembered k a es ((k.machine α).run (doInitialize a) es) := by
  have hs := run_steady k.kind a es
  have hlen := run_length k.kind a es
  have hr := run_remembers k.lawful a es
  have hle := length_accesses_le k.kind a es
  have htime := fun now (h : ∀ e ∈ es, e.now ≤ now) =>
    time_le_of_mem_observe k.kind (doInitialize a) h
  generalize (k.machine α).run (doInitialize a) es = d at hs hlen hr ⊢
  refine ⟨hlen, fun i z hz => (hr.shows i z hz).value, fun i z hz => ?_, fun i z hz => ?_,
    fun hf => sampleIndex_lt hf hs.length_le, fun hf flowID => ?_, fun e => ?_,
    fun e => next_zombies_of_none⟩
  · have hc : k.kind.count z = Int32.ofNat _ := (hr.shows i z hz).counted
    have hlog := Access.hitsSince_le_length i (accesses k.kind a es)
    rw [hc, Int32.toInt_ofNat_of_lt (by omega)]
  · obtain ⟨t, ht, hst⟩ := (hr.shows i z hz).stamped
    refine ⟨t, hst, ht, fun now h => ?_⟩
    obtain ⟨x, hx, rfl⟩ := Access.exists_of_lastTouch ht
    exact htime now h x hx
  · obtain ⟨z, hz⟩ := exists_sampled hf hs.length_le
    rw [(hr.shows _ z hz).value, hits, hz, Option.any_some, decide_eq_true_iff, Option.some.injEq]
    rfl
  · rw [next_length hs.length_le]
    have := hs.length_le
    omega

/-- On ESRED's full list a packet hits, one of another flow overwrites the zombie at two seconds and
another one is refused at four seconds, since the probability is `1 / 3` by then. The second flow
hits at six seconds. All of this is remembered. -/
theorem run_remembered_hitAndMiss :
    let es := hitAndMiss 2000000000 (Ipv4QueueDiscItem.tcp 0 49153) (.tcp 0 49154)
    let M := DiscKind.es.machine Ipv4QueueDiscItem
    let d := M.run (doInitialize alwaysOverwrite) es
    Remembered .es alwaysOverwrite es d ∧ d.Full ∧
      M.observe (access DiscKind.es.kind) (M.run (doInitialize alwaysOverwrite) oneFlow)
        (afterWarmUp 2000000000 (.tcp 0 49153) (.tcp 0 49154)) =
        [.hit 500 0, .write 500 flowB 2000000000, .hit 500 6000000000] := by
  intro es M d
  have h := comparing_oneFlow .es
  refine ⟨run_remembered .es _ es ?_, ?_, ?_⟩
  · refine List.countP_le_length.trans_lt ?_
    rw [length_hitAndMiss]
    decide
  · obtain ⟨_, hd⟩ := h.run (K := DiscKind.es.kind)
      (afterWarmUp 2000000000 (.tcp 0 49153) (.tcp 0 49154))
    rw [← Machine.run_append] at hd
    exact hd.full
  · rw [h.observe_access]
    decide +kernel

end ZombieQueueDisc

end StabilizedRed
