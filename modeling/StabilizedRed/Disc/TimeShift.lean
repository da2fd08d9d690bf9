import StabilizedRed.Disc.Lockstep

/-!
# ESRED on a shifted clock

The time that ESRED keeps in a zombie is a reading of the clock, and the overwrite probability is
divided by one second plus that reading: it depends on when in the simulation the zombie was
recorded or refreshed, not on how long ago. Nothing else depends on the clock. So two runs whose
clocks differ by a constant are the same run up to this constant exactly if no miss has a draw that
the two probabilities tell apart (`run_shift_iff`), and this can fail (`not_originFree`).
-/

namespace StabilizedRed

open ExtRat (fin)

/-- The zombie with a time that is larger by `δ`. -/
def EZombie.shift (δ : Time) (z : EZombie) : EZombie := { z with time := z.time + δ }

/-- The call at a reading of the clock that is larger by `δ`. -/
def Event.shift {α : Type} (δ : Time) (e : Event α) : Event α := { e with now := e.now + δ }

namespace ESRedQueueDisc

/-- The overwrite probability of the zombie on the shifted clock. -/
def shiftedProbability (δ : Time) (w : ℚ) (z : EZombie) : ExtRat :=
  zombieKind.overwriteProbability w (z.shift δ)

/-- On a shifted clock ESRED does the same to shifted zombies. -/
theorem sim_shift (δ : Time) : zombieKind.Sim zombieKind (fun t t' => t' = t + δ) Eq
    (fun z z' => z.shift δ = z') (shiftedProbability δ) where
  invalid h := by rw [h]
  flowID := by
    rintro z _ f _ rfl rfl
    exact Iff.rfl
  create := by
    rintro f _ t _ rfl rfl
    rfl
  hit := by
    rintro z _ t _ rfl rfl
    rfl
  overwrite := by
    rintro z _ f _ t _ rfl rfl rfl
    rfl
  overwriteProbability := by
    rintro w z _ rfl
    rfl

end ESRedQueueDisc

namespace ZombieQueueDisc

open ESRedQueueDisc (zombieKind shiftedProbability)

variable {α : Type} [QueueDiscItem α]

/-- The state with all times larger by `δ`. -/
def shiftTimes (δ : Time) (d : ZombieQueueDisc EZombie α) : ZombieQueueDisc EZombie α :=
  d.mapZombies (EZombie.shift δ)

/-- The run of `es` and the run with every reading of the clock larger by `δ` have equal results
and, at every point, states that are equal but for the times: those of the second are larger by
`δ`. -/
structure OriginFree (a : Attributes α) (δ : Time) (es : List (Event α)) : Prop where
  states : ∀ n, (machine zombieKind).run (doInitialize a) ((es.map (Event.shift δ)).take n) =
    shiftTimes δ ((machine zombieKind).run (doInitialize a) (es.take n))
  outputs : (machine zombieKind).outputs (doInitialize a) (es.map (Event.shift δ)) =
    (machine zombieKind).outputs (doInitialize a) es

omit [QueueDiscItem α] in
theorem forall₂_shift (δ : Time) (es : List (Event α)) :
    List.Forall₂ (EventRel (fun t t' => t' = t + δ) Eq) es (es.map (Event.shift δ)) := by
  rw [List.forall₂_map_right_iff, List.forall₂_same]
  exact fun e _ => ⟨rfl, .refl e.call⟩

theorem originFree_iff (a : Attributes α) (δ : Time) (es : List (Event α)) :
    OriginFree a δ es ↔
      (machine zombieKind).Along (MissAgrees zombieKind (shiftedProbability δ))
        (doInitialize a) es := by
  have hS := ESRedQueueDisc.sim_shift δ
  have hiff := run_mapZombies_iff (a := a) hS (forall₂_shift δ es) (fun _ _ _ => rfl)
    fun _ _ _ => rfl
  exact ⟨fun h => hiff.mp h.states,
    fun hm => ⟨hiff.mpr hm, outputs_mapZombies hS (forall₂_shift δ es) hm⟩⟩

/-- **ESRED on a shifted clock.** The two runs are the same up to the shift exactly if at each miss
the draw is on the same side of `w / (1 + t)` and of `w / (1 + t + δ)`, where `t` is the time of the
sampled zombie. On a clock that is never negative the second probability is not higher. -/
theorem run_shift_iff (a : Attributes α) {δ : Time} (hδ : 0 ≤ δ) (es : List (Event α))
    (hnow : ∀ e ∈ es, 0 ≤ e.now) :
    (OriginFree a δ es ↔
      (machine zombieKind).Along (MissAgrees zombieKind (shiftedProbability δ))
        (doInitialize a) es) ∧
    ∀ z ∈ ((machine zombieKind).run (doInitialize a) es).zombies,
      ¬ zombieKind.overwriteProbability a.overwriteProbability z <
        shiftedProbability δ a.overwriteProbability z := by
  refine ⟨originFree_iff a δ es, fun z hz => ?_⟩
  have hle : z.time ≤ (z.shift δ).time := le_add_of_nonneg_right hδ
  exact ESRedQueueDisc.overwriteProbability_not_lt (run_time_nonneg a hnow z hz)
    a.overwriteProbability_nonneg hle

/-- On the full list a hit and three misses that overwrite, at times below half a second, and the
same half a second later. -/
theorem run_shift_iff_hitAndMiss :
    let M := machine zombieKind
    OriginFree alwaysOverwrite 500000000
        (hitAndMiss 100000000 (Ipv4QueueDiscItem.tcp 0 49153) (.tcp 0 49154)) ∧
      M.observe (access zombieKind) (M.run (doInitialize alwaysOverwrite) oneFlow)
        (afterWarmUp 100000000 (.tcp 0 49153) (.tcp 0 49154)) =
        [.hit 500 0, .write 500 flowB 100000000, .write 500 flowA 200000000,
          .write 500 flowB 300000000] := by
  intro M
  have htimes : ∀ e ∈ hitAndMiss 100000000 (Ipv4QueueDiscItem.tcp 0 49153) (.tcp 0 49154),
      0 ≤ e.now ∧ e.now ≤ 300000000 := now_mem_of_mem_hitAndMiss (by decide)
  have hu := UniformRandomVariable.repeats_constant .half
  refine ⟨(run_shift_iff alwaysOverwrite (by decide) _ fun e he => (htimes e he).1).1.mpr
    (along_missAgrees (P := fun t => 0 ≤ t ∧ t ≤ 300000000) hu ?_ htimes), access_hitAndMiss⟩
  rintro z ⟨h0, h1⟩
  have hshift : (z.shift 500000000).time = z.time + 500000000 := rfl
  exact iff_of_true (half_lt_overwriteProbability h0 (by linarith))
    (half_lt_overwriteProbability (by linarith) (by linarith))

/-! ## Where the origin matters -/

/-- One flow fills the zombie list at time `0`, then a packet of another flow arrives. -/
def twoFlows : List (Event Ipv4QueueDiscItem) := oneFlow ++ [⟨0, .enqueue (.tcp 0 49154)⟩]

/-- The draw of `1 / 2` overwrites the zombie that was recorded at time `0`, but not the one that
was recorded one second later: the probabilities are `1` and `1 / 2`. -/
theorem not_originFree : ¬ OriginFree alwaysOverwrite 1000000000 twoFlows := by
  rw [originFree_iff, twoFlows, Machine.along_append]
  rintro ⟨-, hm, -⟩
  have h := comparing_warmUp
  have hg := (h.givenFlowID ⟨0, .enqueue (.tcp 0 49154)⟩).trans
    (show _ = some flowB from rfl)
  have hiff := hm _ hg h.full _ h.sampled (by decide)
  rw [h.repeats.advance.getValue, h.steady.pOverwrite] at hiff
  have hlt := hiff.mp (half_lt_overwriteProbability le_rfl (by decide))
  rw [shiftedProbability, ESRedQueueDisc.overwriteProbability_eq (by decide),
    ExtRat.fin_lt_fin] at hlt
  revert hlt
  decide +kernel

end ZombieQueueDisc

end StabilizedRed
