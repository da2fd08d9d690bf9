import StabilizedRed.Root.Basic
import StabilizedRed.Disc.Calls
import StabilizedRed.TrafficControl.Stats

/-!
# What one event does to a root queue disc

An arrival is a call of `Enqueue`. Every other event leaves the zombies and the records of drops
alone, and moves at most one item: out of the requeue slot, or from the head of the internal queue
out or into the slot (`Moved`). `next_of_offered_none` says this once for all of them; from it every
reachable state is `Configured` (`run_configured`).
-/

namespace StabilizedRed

/-- What can happen to the internal queue and the requeue slot without an arrival. -/
inductive Moved {α : Type} [QueueDiscItem α] (q : Queue α) :
    Option α → Queue α → Option α → Prop where
  | stay (slot : Option α) : Moved q slot q slot
  | release (item : α) : Moved q (some item) q none
  | leave (item : α) (rest : List α) (hq : q.packets = item :: rest) :
    Moved q none (q.eraseBegin item rest) none
  | requeue (item : α) (rest : List α) (hq : q.packets = item :: rest) :
    Moved q none (q.eraseBegin item rest) (some (addHeader item))

namespace Moved

variable {α : Type} [QueueDiscItem α] {q q' : Queue α} {slot slot' : Option α}

theorem maxSize (h : Moved q slot q' slot') : q'.maxSize = q.maxSize := by
  cases h <;> rfl

theorem counted (h : Moved q slot q' slot') (hc : q.Counted) : q'.Counted := by
  cases h with
  | stay | release => exact hc
  | leave _ _ hq | requeue _ _ hq => exact hc.eraseBegin hq

/-- A requeued item was there before, or it is an item of the queue with its header. -/
theorem mem_slot (h : Moved q slot q' slot') {x : α} (hx : x ∈ slot') :
    x ∈ slot ∨ ∃ y ∈ q.packets, x = addHeader y := by
  cases h with
  | stay => exact .inl hx
  | release | leave => cases hx
  | requeue item rest hq =>
    cases hx
    exact .inr ⟨item, by rw [hq]; exact List.mem_cons_self, rfl⟩

/-- No item comes into the queue. -/
theorem sublist (h : Moved q slot q' slot') : q'.packets.Sublist q.packets := by
  cases h with
  | stay | release => exact List.Sublist.refl _
  | leave item rest hq | requeue item rest hq =>
    rw [hq]
    exact List.sublist_cons_self item rest

end Moved

namespace QueueDisc

variable {α : Type} [QueueDiscItem α]

/-- No item has arrived and none was dropped between the two states. -/
structure Quiet (d d' : QueueDisc α) : Prop where
  filters : d'.filters = d.filters
  peeked : d'.peeked = d.peeked
  dropTrace : d'.dropTrace = d.dropTrace
  stats : d'.stats.ofArrivals = d.stats.ofArrivals
  moved : Moved d.queue d.requeued d'.queue d'.requeued

variable {d : QueueDisc α}

theorem Quiet.refl (d : QueueDisc α) : Quiet d d := ⟨rfl, rfl, rfl, rfl, .stay _⟩

theorem quiet_dequeue (hc : d.queue.Counted) (hp : d.peeked = false) : Quiet d d.dequeue.2 := by
  cases hr : d.requeued with
  | some item =>
    have he : d.dequeue = (some item, { d with requeued := none }) := by
      unfold dequeue
      rw [hr]
      simp only [hp, Bool.false_eq_true, if_false]
    rw [he]
    refine ⟨rfl, rfl, rfl, rfl, ?_⟩
    show Moved d.queue d.requeued d.queue none
    rw [hr]
    exact .release item
  | none =>
    rw [dequeue_of_not_requeued hr]
    rcases doDequeue_cases hc hp with ⟨-, he⟩ | ⟨item, rest, hq, -, he⟩ <;> rw [he]
    · exact .refl d
    · refine ⟨rfl, rfl, rfl, rfl, ?_⟩
      show Moved d.queue d.requeued (d.queue.eraseBegin item rest) d.requeued
      rw [hr]
      exact .leave item rest hq

theorem quiet_restart (hc : d.queue.Counted) (hp : d.peeked = false) : Quiet d d.restart.2 := by
  rcases restart_cases hc hp with he | ⟨item, hr, he⟩ | ⟨item, rest, hr, hq, -, he⟩ |
    ⟨item, rest, hr, hq, -, he⟩ <;> rw [he]
  · exact .refl d
  · refine ⟨rfl, rfl, rfl, rfl, ?_⟩
    show Moved d.queue d.requeued d.queue none
    rw [hr]
    exact .release item
  · refine ⟨rfl, rfl, rfl, rfl, ?_⟩
    show Moved d.queue d.requeued (d.queue.eraseBegin item rest) (some (addHeader item))
    rw [hr]
    exact .requeue item rest hq
  · refine ⟨rfl, rfl, rfl, rfl, ?_⟩
    show Moved d.queue d.requeued (d.queue.eraseBegin item rest) d.requeued
    rw [hr]
    exact .leave item rest hq

end QueueDisc

/-- An event offers nothing, or it is an arrival. -/
theorem RootEvent.offered_cases {α : Type} (e : RootEvent α) :
    e.offered = none ∨ ∃ now item, e = .enqueue now item := by
  cases e with
  | enqueue now item => exact .inr ⟨now, item, rfl⟩
  | _ => exact .inl rfl

theorem RootEvent.offered_enqueue {α : Type} (now : Time) (item : α) :
    (RootEvent.enqueue now item).offered = some item := rfl

/-- A call as an event of a root queue disc. -/
def RootEvent.ofEvent {α : Type} (e : Event α) : RootEvent α :=
  match e.call with
  | .enqueue item => .enqueue e.now item
  | .dequeue => .dequeue
  | .peek => .peek

theorem RootEvent.offered_ofEvent {α : Type} {e : Event α} {item : α} :
    (RootEvent.ofEvent e).offered = some item ↔ e.call = .enqueue item := by
  obtain ⟨now, c⟩ := e
  cases c <;> simp [RootEvent.ofEvent, RootEvent.offered]

namespace Root

open ZombieQueueDisc (Configured configured_doInitialize)

variable {Z α : Type} [QueueDiscItem α] {K : ZombieKind Z} {a : Attributes α} {r : Root Z α}

theorem runLoop_quiet (hc : r.disc.queue.Counted) (hp : r.disc.peeked = false) (quota : UInt32) :
    ∃ b, (r.runLoop quota).disc = { r.disc with toQueueDisc := b } ∧
      QueueDisc.Quiet r.disc.toQueueDisc b := by
  have h := QueueDisc.quiet_restart hc hp
  unfold runLoop
  cases hr : r.disc.restart with
  | mk item b =>
    rw [hr] at h
    cases item with
    | none => exact ⟨b.runEnd, rfl, { h with }⟩
    | some item => exact ⟨b, rfl, h⟩

theorem run_quiet (hc : r.disc.queue.Counted) (hp : r.disc.peeked = false) :
    ∃ b, r.run.disc = { r.disc with toQueueDisc := b } ∧
      QueueDisc.Quiet r.disc.toQueueDisc b := by
  unfold Root.run QueueDisc.runBegin
  by_cases hr : r.disc.running = true
  · rw [if_pos hr]
    exact ⟨_, rfl, .refl _⟩
  · rw [if_neg hr]
    obtain ⟨b, he, h⟩ := runLoop_quiet (r := r.onBase { r.disc.toQueueDisc with running := true })
      hc hp r.disc.quota
    exact ⟨b, he, { h with }⟩

theorem sendReturned_quiet (hc : r.disc.queue.Counted) (hp : r.disc.peeked = false) :
    ∃ b, r.sendReturned.disc = { r.disc with toQueueDisc := b } ∧
      QueueDisc.Quiet r.disc.toQueueDisc b := by
  have hend : QueueDisc.Quiet r.disc.toQueueDisc r.disc.runEnd := ⟨rfl, rfl, rfl, rfl, .stay _⟩
  unfold Root.sendReturned
  cases r.pending with
  | nil => exact ⟨_, rfl, .refl _⟩
  | cons p pending =>
    dsimp only
    split
    · split
      · exact ⟨_, rfl, hend⟩
      · exact runLoop_quiet (r := { r with pending := pending }) hc hp _
    · exact ⟨_, rfl, hend⟩

/-- **Frame of the events that are no arrivals.** -/
theorem next_of_offered_none (h : Configured a r.disc) {e : RootEvent α} (he : e.offered = none) :
    ∃ b, (next K r e).disc = { r.disc with toQueueDisc := b } ∧
      QueueDisc.Quiet r.disc.toQueueDisc b := by
  cases e with
  | enqueue now item => cases he
  | dequeue => exact ⟨_, rfl, QueueDisc.quiet_dequeue h.counted h.peeked⟩
  | peek => exact ⟨_, rfl, .refl _⟩
  | run => exact run_quiet h.counted h.peeked
  | sendReturned => exact sendReturned_quiet h.counted h.peeked
  | getStats => exact ⟨_, rfl, rfl, rfl, rfl, rfl, .stay _⟩
  | device txq c => exact ⟨_, rfl, rfl, rfl, rfl, rfl, .stay _⟩

omit [QueueDiscItem α] in
@[simp] theorem onBase_accepted (b : QueueDisc α) : (r.onBase b).accepted = r.accepted := rfl

@[simp] theorem runLoop_accepted (quota : UInt32) : (r.runLoop quota).accepted = r.accepted := by
  unfold Root.runLoop
  split <;> rfl

/-- Nor do they accept an item. -/
theorem next_accepted_of_offered_none {e : RootEvent α} (he : e.offered = none) :
    (next K r e).accepted = r.accepted := by
  cases e with
  | enqueue now item => cases he
  | run =>
    show r.run.accepted = _
    unfold Root.run
    split
    · rfl
    · rw [runLoop_accepted, onBase_accepted]
  | sendReturned =>
    show r.sendReturned.accepted = _
    unfold Root.sendReturned
    split
    · rfl
    · dsimp only
      split
      · split
        · rfl
        · rw [runLoop_accepted]
      · rfl
  | dequeue => rfl
  | peek => rfl
  | getStats => rfl
  | device txq c => rfl

/-- **Step lemma.** -/
theorem next_configured (h : Configured a r.disc) (e : RootEvent α) :
    Configured a (next K r e).disc := by
  rcases e.offered_cases with ho | ⟨now, item, rfl⟩
  · obtain ⟨b, he, hb⟩ := next_of_offered_none (K := K) h ho
    rw [he]
    exact h.onBase hb.filters hb.moved.maxSize hb.peeked (hb.moved.counted h.counted)
  · exact h.enqueue now item

/-- **Run lemma.** Every state that events lead to has the attributes of the disc. -/
theorem run_configured (K : ZombieKind Z) (a : Attributes α) (es : List (RootEvent α)) :
    Configured a ((machine K).run (doInitialize a) es).disc :=
  Machine.run_invariant' (M := machine K) (I := fun r => Configured a r.disc)
    (fun _ e h => next_configured h e) (configured_doInitialize a) es

/-! ## A disc under calls only -/

/-- A disc under calls goes through the states of a root queue disc where nothing else happens. -/
theorem run_ofEvent (K : ZombieKind Z) (r : Root Z α) (es : List (Event α)) :
    ((machine K).run r (es.map RootEvent.ofEvent)).disc =
      (ZombieQueueDisc.machine K).run r.disc es := by
  induction es generalizing r with
  | nil => rfl
  | cons e es ih =>
    obtain ⟨now, c⟩ := e
    rw [List.map_cons, Machine.run_cons, Machine.run_cons, ih]
    cases c <;> rfl

end Root

end StabilizedRed
