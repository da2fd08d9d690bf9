import StabilizedRed.Disc.Simulation
import StabilizedRed.Disc.ZombieList

/-!
# ESRED against SRED

ESRED does to its zombies what SRED does and keeps a time beside (`sim_forget`); only the overwrite
probability depends on that time. On a clock that is never negative it is at most that of SRED and
falls with the time (`overwriteProbability_inIcc`, `overwriteProbability_not_lt`), so what ESRED
does to its list SRED would do too, unless SRED overwrites where ESRED does not
(`access_forgetTimes`).

`run_lockstep`: where this never happens, the two discs give the same results and have the same
states up to the times.
-/

namespace StabilizedRed

open ExtRat (fin)

/-- The zombie without its time. -/
def EZombie.forget (z : EZombie) : Zombie := { flowID := z.flowID, count := z.count }

/-- The two discs do the same to zombies that are equal up to the time. -/
theorem sim_forget : ESRedQueueDisc.zombieKind.Sim StabilizedRedQueueDisc.zombieKind
    (fun _ _ => True) Eq (fun z z' => z.forget = z') (fun w _ => fin w) where
  invalid h := by rw [h]
  flowID := by
    rintro z _ f _ rfl rfl
    exact Iff.rfl
  create := by
    rintro f _ t t' rfl -
    rfl
  hit := by
    rintro z _ t t' rfl -
    rfl
  overwrite := by
    rintro z _ f _ t t' rfl rfl -
    rfl
  overwriteProbability _ := rfl

namespace ESRedQueueDisc

/-! ## The effective overwrite probability -/

section Probability

variable {w : ℚ} {z z' : EZombie} (h : 0 ≤ z.time)
include h

theorem one_le_divisor : 1 ≤ 1 + z.time.getSeconds :=
  le_add_of_nonneg_right (Time.getSeconds_nonneg h)

theorem overwriteProbability_eq (w : ℚ) :
    zombieKind.overwriteProbability w z = fin (w / (1 + z.time.getSeconds)) :=
  ExtRat.fin_div_fin w (zero_lt_one.trans_le (one_le_divisor h)).ne'

theorem overwriteProbability_inIcc (hw : 0 ≤ w) :
    (zombieKind.overwriteProbability w z).InIcc 0 w := by
  have hd := one_le_divisor h
  rw [overwriteProbability_eq h, ExtRat.inIcc_fin]
  exact ⟨div_nonneg hw (by linarith), div_le_self hw hd⟩

/-- A zombie with a later time has no higher probability. -/
theorem overwriteProbability_not_lt (hw : 0 ≤ w) (hz : z.time ≤ z'.time) :
    ¬ zombieKind.overwriteProbability w z < zombieKind.overwriteProbability w z' := by
  have hd := one_le_divisor h
  rw [overwriteProbability_eq h, overwriteProbability_eq (h.trans hz), ExtRat.fin_lt_fin, not_lt]
  exact div_le_div_of_nonneg_left hw (by linarith) (by linarith [Time.getSeconds_le hz])

end Probability

end ESRedQueueDisc

namespace ZombieQueueDisc

open ESRedQueueDisc (zombieKind)

variable {α : Type} [QueueDiscItem α] {a : Attributes α}

/-- The zombies have the times of calls. -/
theorem next_time {P : Time → Prop} {d : ZombieQueueDisc EZombie α} (hs : Steady a d)
    (h : ∀ z ∈ d.zombies, P (EZombie.time z)) {e : Event α} (he : P e.now) :
    ∀ z ∈ ((machine zombieKind).next d e).zombies, P (EZombie.time z) :=
  next_zombies_forall (fun _ _ => he) (fun _ _ => he) (fun _ _ _ _ => he) hs.length_le h

/-- On a clock that is never negative no zombie has a negative time. -/
theorem run_time_nonneg (a : Attributes α) {es : List (Event α)} (h : ∀ e ∈ es, 0 ≤ e.now) :
    ∀ z ∈ ((machine zombieKind).run (doInitialize a) es).zombies, 0 ≤ EZombie.time z :=
  (Machine.run_invariant (P := fun _ e => (0 : Time) ≤ e.now)
    (I := fun d => Steady a d ∧ ∀ z ∈ d.zombies, 0 ≤ EZombie.time z)
    (fun _ e he ⟨hs, hz⟩ => ⟨hs.next e, next_time hs hz he⟩)
    ⟨steady_doInitialize a, nofun⟩ (Machine.along_of_forall h)).2

/-- Under constant draws no miss tells the two probabilities apart if the number drawn does not, at
any time that the clock can show. -/
theorem along_missAgrees {p : ℚ → EZombie → ExtRat} {P : Time → Prop} {u : U01}
    (hu : a.uv.Repeats u)
    (hp : ∀ z : EZombie, P z.time →
      (fin u.val < zombieKind.overwriteProbability a.overwriteProbability z ↔
        fin u.val < p a.overwriteProbability z))
    {es : List (Event α)} (h : ∀ e ∈ es, P e.now) :
    (machine zombieKind).Along (MissAgrees zombieKind p) (doInitialize a) es := by
  refine Machine.along_of_invariant (Q := fun e => P e.now)
    (I := fun d => Steady a d ∧ d.uv.Repeats u ∧ ∀ z ∈ d.zombies, P (EZombie.time z))
    ?_ ?_ ⟨steady_doInitialize a, hu, nofun⟩ h
  · rintro d e ⟨hs, hu, hz⟩ - f - - z hsampled -
    rw [hs.pOverwrite, hu.advance.getValue]
    exact hp z (hz z (List.mem_of_getElem? hsampled))
  · rintro d e ⟨hs, hu, hz⟩ he
    exact ⟨hs.next e, hs.next_repeats hu e, next_time hs hz he⟩

/-- The state of ESRED without the times, a state of SRED. -/
def forgetTimes (d : ZombieQueueDisc EZombie α) : ZombieQueueDisc Zombie α :=
  d.mapZombies EZombie.forget

/-- From states equal up to the times, SRED appends, hits and overwrites where ESRED does. -/
theorem access_forgetTimes {d : ZombieQueueDisc EZombie α} (hs : Steady a d)
    (ht : ∀ z ∈ d.zombies, 0 ≤ z.time) {e : Event α} {x : Access Int32 Time}
    (h : access zombieKind d e = some x) :
    access StabilizedRedQueueDisc.zombieKind (forgetTimes d) e = some x := by
  have hA := alike_mapZombies EZombie.forget d
  obtain ⟨f, hf, hx⟩ := Option.bind_eq_some_iff.mp h
  refine Option.bind_eq_some_iff.mpr ⟨f, hf, ?_⟩
  by_cases hfull : d.Full
  · obtain ⟨z, hz⟩ := exists_sampled hfull hs.length_le
    obtain ⟨z', hz', rfl⟩ := hA.sampled hz
    have hhits : (forgetTimes d).hits StabilizedRedQueueDisc.zombieKind f =
        d.hits zombieKind f := by
      unfold hits forgetTimes
      rw [hz, hz']
      rfl
    have hover : d.overwrites zombieKind →
        (forgetTimes d).overwrites StabilizedRedQueueDisc.zombieKind := by
      unfold overwrites forgetTimes
      rw [hz, hz', Option.any_some, Option.any_some, decide_eq_true_iff, decide_eq_true_iff]
      intro hr
      obtain ⟨q, hq, -, hqw⟩ := ESRedQueueDisc.overwriteProbability_inIcc
        (ht z (List.mem_of_getElem? hz)) (w := d.pOverwrite)
        (hs.pOverwrite ▸ a.overwriteProbability_nonneg)
      rw [hq, ExtRat.fin_lt_fin] at hr
      exact ExtRat.fin_lt_fin.mpr (hr.trans_le hqw)
    rw [if_pos hfull] at hx
    rw [if_pos (show (forgetTimes d).Full from hA.full.mpr hfull), hhits,
      show (forgetTimes d).sampleIndex = d.sampleIndex from hA.sampleIndex]
    by_cases hh : d.hits zombieKind f
    · rwa [if_pos hh] at hx ⊢
    · rw [if_neg hh] at hx ⊢
      by_cases ho : d.overwrites zombieKind
      · rw [if_pos ho] at hx
        rw [if_pos (hover ho), hx]
      · rw [if_neg ho] at hx
        cases hx
  · rw [if_neg hfull] at hx
    rw [if_neg fun hf' : (forgetTimes d).Full => hfull (hA.full.mp hf'), ← hx]
    exact congrArg (fun n => some (Access.write n f e.now)) hA.zombies.length_eq.symm

/-- In the ESRED state `d` the effective overwrite probability of the sampled zombie is at most `w`
and falls with the time, and what ESRED does to its list SRED does too from the same state without
the times. -/
structure OverwritesLess (w : ℚ) (d : ZombieQueueDisc EZombie α) : Prop where
  one_le : ∀ z, d.sampled = some z → 1 ≤ 1 + z.time.getSeconds
  inIcc : ∀ z, d.sampled = some z → (zombieKind.overwriteProbability d.pOverwrite z).InIcc 0 w
  antitone : ∀ z z', d.sampled = some z → z.time ≤ z'.time →
    ¬ zombieKind.overwriteProbability d.pOverwrite z <
      zombieKind.overwriteProbability d.pOverwrite z'
  access : ∀ e x, access zombieKind d e = some x →
    ZombieQueueDisc.access StabilizedRedQueueDisc.zombieKind (forgetTimes d) e = some x

theorem run_overwritesLess (a : Attributes α) {es : List (Event α)} (h : ∀ e ∈ es, 0 ≤ e.now) :
    OverwritesLess a.overwriteProbability ((machine zombieKind).run (doInitialize a) es) := by
  have hs := run_steady zombieKind a es
  have ht := run_time_nonneg a h
  generalize (machine zombieKind).run (doInitialize a) es = d at hs ht
  have hz : ∀ z, d.sampled = some z → 0 ≤ z.time := fun z hz => ht z (List.mem_of_getElem? hz)
  have hw := a.overwriteProbability_nonneg
  rw [← hs.pOverwrite] at hw ⊢
  exact
    { one_le := fun z h => ESRedQueueDisc.one_le_divisor (hz z h)
      inIcc := fun z h => ESRedQueueDisc.overwriteProbability_inIcc (hz z h) hw
      antitone := fun z z' h hle => ESRedQueueDisc.overwriteProbability_not_lt (hz z h) hw hle
      access := fun e x => access_forgetTimes hs ht }

/-- **ESRED differs from SRED only in when it overwrites.** On a clock that is never negative it
overwrites no more than SRED. Where each miss has its draw on the same side of
`OverwriteProbability` and of the effective probability, ESRED has at every point the results and,
up to the times, the state of SRED. -/
theorem run_lockstep (a : Attributes α) (es : List (Event α)) (hnow : ∀ e ∈ es, 0 ≤ e.now) :
    OverwritesLess a.overwriteProbability ((machine zombieKind).run (doInitialize a) es) ∧
    ((machine zombieKind).Along (MissAgrees zombieKind fun w _ => fin w) (doInitialize a) es →
      (∀ n, (machine StabilizedRedQueueDisc.zombieKind).run (doInitialize a) (es.take n) =
        forgetTimes ((machine zombieKind).run (doInitialize a) (es.take n))) ∧
      (machine StabilizedRedQueueDisc.zombieKind).outputs (doInitialize a) es =
        (machine zombieKind).outputs (doInitialize a) es) := by
  have he : List.Forall₂ (EventRel (fun _ _ => True) Eq) es es :=
    List.forall₂_same.mpr fun e _ => ⟨trivial, .refl e.call⟩
  refine ⟨run_overwritesLess a hnow, fun hm => ⟨?_, outputs_mapZombies sim_forget he hm⟩⟩
  exact (run_mapZombies_iff sim_forget he (fun _ _ _ => rfl) fun _ _ _ => rfl).mpr hm

/-- The draw `1 / 2` overwrites a zombie with a time below one second. -/
theorem half_lt_overwriteProbability {z : EZombie} (h0 : 0 ≤ z.time) (h1 : z.time < 1000000000) :
    fin U01.half.val < zombieKind.overwriteProbability alwaysOverwrite.overwriteProbability z := by
  have hs : z.time.getSeconds < 1 := by
    unfold Time.getSeconds
    rw [div_lt_one (by norm_num)]
    exact_mod_cast h1
  have hd := ESRedQueueDisc.one_le_divisor h0
  rw [ESRedQueueDisc.overwriteProbability_eq h0, ExtRat.fin_lt_fin]
  show (1 / 2 : ℚ) < 1 / (1 + z.time.getSeconds)
  exact one_div_lt_one_div_of_lt (by linarith) (by linarith)

theorem comparing_warmUp : Comparing alwaysOverwrite .half (zombieKind.create flowA 0)
    ((machine zombieKind).run (doInitialize alwaysOverwrite) oneFlow) := comparing_oneFlow .es

/-- On the full list of ESRED a hit, and three misses that overwrite. -/
theorem access_hitAndMiss :
    (machine zombieKind).observe (access zombieKind)
      ((machine zombieKind).run (doInitialize alwaysOverwrite) oneFlow)
      (afterWarmUp 100000000 (.tcp 0 49153) (.tcp 0 49154)) =
      [.hit 500 0, .write 500 flowB 100000000, .write 500 flowA 200000000,
        .write 500 flowB 300000000] := by
  rw [comparing_warmUp.observe_access]
  decide +kernel

/-- SRED overwrites at these misses too: all times are below one second. -/
theorem run_lockstep_hitAndMiss :
    let a := alwaysOverwrite
    let es := hitAndMiss 100000000 (Ipv4QueueDiscItem.tcp 0 49153) (.tcp 0 49154)
    let M := machine zombieKind
    let M' := machine StabilizedRedQueueDisc.zombieKind
    (OverwritesLess 1 (M.run (doInitialize a) es) ∧
      (∀ n, M'.run (doInitialize a) (es.take n) = forgetTimes (M.run (doInitialize a) (es.take n))) ∧
      M'.outputs (doInitialize a) es = M.outputs (doInitialize a) es) ∧
    M.observe (access zombieKind) (M.run (doInitialize a) oneFlow)
      (afterWarmUp 100000000 (.tcp 0 49153) (.tcp 0 49154)) =
      [.hit 500 0, .write 500 flowB 100000000, .write 500 flowA 200000000,
        .write 500 flowB 300000000] := by
  intro a es M M'
  have htimes : ∀ e ∈ es, 0 ≤ e.now ∧ e.now ≤ 300000000 := now_mem_of_mem_hitAndMiss (by decide)
  have h := run_lockstep a es fun e he => (htimes e he).1
  have hu := UniformRandomVariable.repeats_constant .half
  refine ⟨⟨h.1, h.2 (along_missAgrees (P := fun t => 0 ≤ t ∧ t ≤ 300000000) hu ?_ htimes)⟩,
    access_hitAndMiss⟩
  rintro z ⟨h0, h1⟩
  refine iff_of_true (half_lt_overwriteProbability h0 (h1.trans_lt (by decide)))
    (ExtRat.fin_lt_fin.mpr ?_)
  show (1 / 2 : ℚ) < 1
  norm_num

end ZombieQueueDisc

end StabilizedRed
