import StabilizedRed.Disc.Alike
import StabilizedRed.Lib.Related

/-!
# Two discs in lockstep

`ZombieQueueDisc.Alike R I d d'`: two discs, perhaps of different kinds, with zombies that `R`
relates, items that `I` relates, and everything else equal, the random stream and its position
included. `ZombieKind.Sim` says that the two kinds do the same to related zombies; all that may then
tell the runs apart is a miss where the draw is on different sides of the two overwrite
probabilities, which `SameSide` excludes.

`Alike.next` is the step: from alike discs, related calls give related results and alike discs.
`run_alike` is the same for whole runs, and `run_alike_iff` says that nothing but such a miss makes
the discs unlike.
-/

namespace StabilizedRed

open ExtRat (fin)

/-- The kinds `K` and `K'` do the same to zombies related by `R`, at times related by `T` and for
flow ids related by `F`. `p w z` is the overwrite probability of a zombie that is related to `z`. -/
structure ZombieKind.Sim {Z Z' : Type} (K : ZombieKind Z) (K' : ZombieKind Z')
    (T : Time → Time → Prop) (F : Int32 → Int32 → Prop) (R : Z → Z' → Prop)
    (p : ℚ → Z → ExtRat) : Prop where
  invalid {f f'} : F f f' → (f' = -1 ↔ f = -1)
  flowID {z z' f f'} : R z z' → F f f' → (K'.flowID z' = f' ↔ K.flowID z = f)
  create {f f' t t'} : F f f' → T t t' → R (K.create f t) (K'.create f' t')
  hit {z z' t t'} : R z z' → T t t' → R (K.hit t z) (K'.hit t' z')
  overwrite {z z' f f' t t'} : R z z' → F f f' → T t t' →
    R (K.overwrite f t z) (K'.overwrite f' t' z')
  overwriteProbability {w z z'} : R z z' → K'.overwriteProbability w z' = p w z

namespace ZombieQueueDisc

variable {Z Z' α : Type} {K : ZombieKind Z} {K' : ZombieKind Z'} {R : Z → Z' → Prop}
  {I : α → α → Prop} {T : Time → Time → Prop} {F : Int32 → Int32 → Prop} {p : ℚ → Z → ExtRat}

/-- The two discs agree up to their items and zombies, which are related. -/
structure Alike (R : Z → Z' → Prop) (I : α → α → Prop) (d : ZombieQueueDisc Z α)
    (d' : ZombieQueueDisc Z' α) : Prop where
  base : QueueDisc.Alike I d.toQueueDisc d'.toQueueDisc
  zombies : List.Forall₂ R d.zombies d'.zombies
  pHitFreq : d'.pHitFreq = d.pHitFreq
  pOverwrite : d'.pOverwrite = d.pOverwrite
  pMax : d'.pMax = d.pMax
  alpha : d'.alpha = d.alpha
  stabilizedRedMode : d'.stabilizedRedMode = d.stabilizedRedMode
  uv : d'.uv = d.uv

variable {d : ZombieQueueDisc Z α} {d' : ZombieQueueDisc Z' α}

/-! ## Sampling -/

theorem Alike.full (h : Alike R I d d') : d'.Full ↔ d.Full := by
  unfold Full
  rw [h.zombies.length_eq]

theorem Alike.sampleIndex (h : Alike R I d d') : d'.sampleIndex = d.sampleIndex := by
  unfold ZombieQueueDisc.sampleIndex
  rw [h.uv, h.zombies.length_eq]

/-- Alike discs sample related zombies. -/
theorem Alike.sampled (h : Alike R I d d') {z : Z} (hz : d.sampled = some z) :
    ∃ z', d'.sampled = some z' ∧ R z z' := by
  have hrel := h.zombies.getElem? d.sampleIndex.toNat
  rw [show d.zombies[d.sampleIndex.toNat]? = some z from hz, ← h.sampleIndex] at hrel
  exact Option.exists_of_rel_some hrel

theorem Alike.probabilityZap (h : Alike R I d d') : d'.probabilityZap = d.probabilityZap := by
  simp only [ZombieQueueDisc.probabilityZap, calculateProbabilityStabilizedRed,
    calculateProbabilityZapSimple, calculateProbabilityZap, h.base.maxSize, h.base.queue_nBytes,
    h.pMax, h.pHitFreq, h.stabilizedRedMode]

/-- The draw of a miss is on the same side of the disc's overwrite probability and of `p`. -/
def SameSide (K : ZombieKind Z) (p : ℚ → Z → ExtRat) (d : ZombieQueueDisc Z α) (flowID : Int32) :
    Prop :=
  ∀ z, d.sampled = some z → K.flowID z ≠ flowID →
    (fin d.uv.advance.getValue.1 < K.overwriteProbability d.pOverwrite z ↔
      fin d.uv.advance.getValue.1 < p d.pOverwrite z)

section Arrival

variable (h : Alike R I d d') (S : K.Sim K' T F R p) {now now' : Time} {f f' : Int32}
  (hT : T now now') (hF : F f f') (hl : d.zombies.length ≤ maxZombieListSize)
include h S hT hF hl

/-- Alike discs stay alike when they sample. -/
theorem Alike.sampleZombie (hf : d.Full) (hside : SameSide K p d f) :
    Alike R I (d.sampleZombie K now f) (d'.sampleZombie K' now' f') := by
  obtain ⟨z, hz⟩ := exists_sampled hf hl
  obtain ⟨z', hz', hR⟩ := h.sampled hz
  have hid := S.flowID hR hF
  by_cases he : K.flowID z = f
  · rw [sampleZombie_of_hit hz now he, sampleZombie_of_hit hz' now' (hid.mpr he)]
    exact
      { h with
        zombies := by rw [h.sampleIndex]; exact h.zombies.set _ (S.hit hR hT)
        pHitFreq := by simp only [h.alpha, h.pHitFreq]
        uv := by simp only [h.uv] }
  · have he' := fun he' => he (hid.mp he')
    have hdraw : fin d'.uv.advance.getValue.1 < K'.overwriteProbability d'.pOverwrite z' ↔
        fin d.uv.advance.getValue.1 < K.overwriteProbability d.pOverwrite z := by
      rw [h.uv, h.pOverwrite, S.overwriteProbability hR, hside z hz he]
    by_cases hr : fin d.uv.advance.getValue.1 < K.overwriteProbability d.pOverwrite z
    · rw [sampleZombie_of_overwrite hz now he hr,
        sampleZombie_of_overwrite hz' now' he' (hdraw.mpr hr)]
      exact
        { h with
          zombies := by rw [h.sampleIndex]; exact h.zombies.set _ (S.overwrite hR hF hT)
          pHitFreq := by simp only [h.alpha, h.pHitFreq]
          uv := by simp only [h.uv] }
    · rw [sampleZombie_of_refused hz now he hr,
        sampleZombie_of_refused hz' now' he' fun hr' => hr (hdraw.mp hr')]
      exact
        { h with
          pHitFreq := by simp only [h.alpha, h.pHitFreq]
          uv := by simp only [h.uv] }

/-- Alike discs record related arrivals, and stay alike. -/
theorem Alike.recordArrival (hside : d.Full → SameSide K p d f) :
    Alike R I (d.recordArrival K now f) (d'.recordArrival K' now' f') := by
  by_cases hf : d.Full
  · have hs := h.sampleZombie S hT hF hl hf (hside hf)
    rw [recordArrival_of_full hf, recordArrival_of_full (h.full.mpr hf)]
    exact { hs with uv := by simp only [hs.uv] }
  · rw [recordArrival_of_not_full hf, recordArrival_of_not_full fun hf' => hf (h.full.mp hf')]
    exact { h with zombies := List.rel_append h.zombies (.cons (S.create hF hT) .nil) }

/-- Alike discs come to the same decision about an item. -/
theorem Alike.dropReason [QueueDiscItem α] {x x' : α} (hs : getSize x' = getSize x)
    (hside : d.Full → SameSide K p d f) :
    d'.dropReason K' now' f' x' = d.dropReason K now f x := by
  unfold ZombieQueueDisc.dropReason
  rw [h.base.getCurrentSize, h.base.maxSize, hs]
  by_cases hf : d.Full
  · have hz := h.sampleZombie S hT hF hl hf (hside hf)
    rw [if_pos hf, if_pos (h.full.mpr hf)]
    simp only [hz.probabilityZap, hz.uv]
  · rw [if_neg hf, if_neg fun hf' => hf (h.full.mp hf')]

end Arrival

/-! ## Calls -/

/-- Two related calls. -/
inductive CallRel (I : α → α → Prop) : Call α → Call α → Prop
  | enqueue {x x' : α} (hx : I x x') : CallRel I (.enqueue x) (.enqueue x')
  | dequeue : CallRel I .dequeue .dequeue
  | peek : CallRel I .peek .peek

/-- Two related calls at related times. -/
structure EventRel (T : Time → Time → Prop) (I : α → α → Prop) (e e' : Event α) : Prop where
  now : T e.now e'.now
  call : CallRel I e.call e'.call

/-- Two related results. -/
inductive ResultRel (I : α → α → Prop) : Result α → Result α → Prop
  | enqueued (retval : Bool) : ResultRel I (.enqueued retval) (.enqueued retval)
  | dequeued {x x' : Option α} (hx : Option.Rel I x x') : ResultRel I (.dequeued x) (.dequeued x')
  | peeked {x x' : Option α} (hx : Option.Rel I x x') : ResultRel I (.peeked x) (.peeked x')

theorem CallRel.refl (c : Call α) : CallRel Eq c c := by
  cases c with
  | enqueue x => exact .enqueue rfl
  | dequeue => exact .dequeue
  | peek => exact .peek

theorem ResultRel.eq {r r' : Result α} (h : ResultRel Eq r r') : r = r' := by
  cases h with
  | enqueued => rfl
  | dequeued hx => rw [Option.rel_eq_iff.mp hx]
  | peeked hx => rw [Option.rel_eq_iff.mp hx]

variable [QueueDiscItem α] {x x' : α}

/-- Related items have the same size and related flow ids. -/
structure ItemSim (a : Attributes α) (F : Int32 → Int32 → Prop) (I : α → α → Prop) : Prop where
  getSize {x x' : α} : I x x' → getSize x' = getSize x
  flowID {x x' : α} : I x x' → Option.Rel F (flowIDOf a x) (flowIDOf a x')

/-- If the call is a miss, its draw does not tell the discs apart. -/
def MissAgrees (K : ZombieKind Z) (p : ℚ → Z → ExtRat) (d : ZombieQueueDisc Z α) (e : Event α) :
    Prop :=
  ∀ f ∈ d.givenFlowID e, d.Full → SameSide K p d f

variable {a : Attributes α}

theorem Alike.enqueue (h : Alike R I d d') (S : K.Sim K' T F R p) (SI : ItemSim a F I)
    (hs : Steady a d) (hs' : Steady a d') {now now' : Time} (hT : T now now') (hx : I x x')
    (hm : MissAgrees K p d ⟨now, .enqueue x⟩) :
    (d'.enqueue K' now' x').1 = (d.enqueue K now x).1 ∧
      Alike R I (d.enqueue K now x).2 (d'.enqueue K' now' x').2 := by
  have hsize := SI.getSize hx
  have hrel := SI.flowID hx
  rw [hs.flowIDOf_eq, hs'.flowIDOf_eq] at hrel
  cases hc : ZombieQueueDisc.flowHash d.toQueueDisc x with
  | none =>
    rw [hc] at hrel
    have hc' := Option.map_eq_none_iff.mp (Option.eq_none_of_rel_none hrel)
    rw [enqueue_of_noMatch hc, enqueue_of_noMatch hc']
    exact ⟨rfl, { h with base := (h.base.receive hsize).dropBeforeEnqueue hx hsize _ }⟩
  | some hash =>
    rw [hc] at hrel
    obtain ⟨_, hf', hF⟩ := Option.exists_of_rel_some hrel
    obtain ⟨hash', hc', rfl⟩ := Option.map_eq_some_iff.mp hf'
    have hside := hm hash.toInt32 (by simp only [givenFlowID, hc]; rfl)
    rw [enqueue_eq hc, enqueue_eq hc', h.dropReason S hT hF hs.length_le hsize hside]
    obtain ⟨hret, hb⟩ :=
      ((h.base.receive hsize).noteFlowID hx hsize (S.invalid hF)).conclude hx hsize
        (d.dropReason K now hash.toInt32 x)
    exact ⟨hret, { h.recordArrival S hT hF hs.length_le hside with base := hb }⟩

theorem Alike.dequeue (h : Alike R I d d') (hI : ∀ {x x' : α}, I x x' → getSize x' = getSize x)
    (hs : Steady a d) (hs' : Steady a d') :
    Option.Rel I d.dequeue.1 d'.dequeue.1 ∧
      QueueDisc.Alike I d.dequeue.2 d'.dequeue.2 := by
  have hp := h.base.packets
  rcases hs.dequeue_cases with ⟨h0, he⟩ | ⟨x, rest, hq, h0, he⟩
  · rcases hs'.dequeue_cases with ⟨-, he'⟩ | ⟨_, _, -, h0', -⟩
    · rw [he, he']
      exact ⟨.none, h.base⟩
    · exact absurd (h.base.queue_nPackets.trans h0) h0'
  · rcases hs'.dequeue_cases with ⟨h0', -⟩ | ⟨x', rest', hq', -, he'⟩
    · exact absurd (h.base.queue_nPackets.symm.trans h0') h0
    · rw [hq, hq', List.forall₂_cons] at hp
      rw [he, he']
      exact ⟨.some hp.1, h.base.dequeueHead (hI hp.1) hp.2⟩

/-- **Step lemma.** Related calls on alike discs have related results and leave the discs alike, if
no draw tells them apart. -/
theorem Alike.next (h : Alike R I d d') (S : K.Sim K' T F R p) (SI : ItemSim a F I)
    (hs : Steady a d) (hs' : Steady a d') {e e' : Event α} (he : EventRel T I e e')
    (hm : MissAgrees K p d e) :
    Alike R I ((machine K).next d e) ((machine K').next d' e') ∧
      ResultRel I ((machine K).out d e) ((machine K').out d' e') := by
  obtain ⟨now, c⟩ := e
  obtain ⟨now', c'⟩ := e'
  obtain ⟨hT, hc⟩ := he
  dsimp only at hT hc
  cases hc with
  | enqueue hx =>
    obtain ⟨hret, hd⟩ := h.enqueue S SI hs hs' hT hx hm
    refine ⟨hd, ?_⟩
    rw [out_enqueue, out_enqueue, hret]
    exact .enqueued _
  | dequeue =>
    obtain ⟨hret, hb⟩ := h.dequeue SI.getSize hs hs'
    exact ⟨{ h with base := hb }, .dequeued hret⟩
  | peek => exact ⟨h, .peeked h.base.peek⟩

/-- Related calls are given related flow ids. -/
theorem exists_givenFlowID (SI : ItemSim a F I) (hs : Steady a d) (hs' : Steady a d')
    {e e' : Event α} (he : EventRel T I e e') {f : Int32} (hf : d.givenFlowID e = some f) :
    ∃ f', d'.givenFlowID e' = some f' ∧ F f f' := by
  obtain ⟨now, c⟩ := e
  obtain ⟨now', c'⟩ := e'
  obtain ⟨-, hc⟩ := he
  dsimp only at hc
  cases hc with
  | @enqueue x x' hx =>
    have hrel := SI.flowID hx
    rw [hs.flowIDOf_eq, hs'.flowIDOf_eq,
      show (flowHash d.toQueueDisc x).map UInt32.toInt32 = some f from hf] at hrel
    exact Option.exists_of_rel_some hrel
  | dequeue => cases hf
  | peek => cases hf

/-- Alike discs stay alike only if no draw tells them apart: one that overwrites has the flow of the
arrival in the sampled zombie, and one that does not has another flow there. -/
theorem Alike.missAgrees (h : Alike R I d d') (S : K.Sim K' T F R p) (SI : ItemSim a F I)
    (hK : ∀ f t z, K.flowID (K.overwrite f t z) = f)
    (hK' : ∀ f t z, K'.flowID (K'.overwrite f t z) = f) (hs : Steady a d) (hs' : Steady a d')
    {e e' : Event α} (he : EventRel T I e e')
    (hn : Alike R I ((machine K).next d e) ((machine K').next d' e')) : MissAgrees K p d e := by
  intro f hf hfull z hz hid
  obtain ⟨f', hf', hF⟩ := exists_givenFlowID SI hs hs' he hf
  obtain ⟨z', hz', hR⟩ := h.sampled hz
  have hid' : K'.flowID z' ≠ f' := fun hid' => hid ((S.flowID hR hF).mp hid')
  have hzombies := hn.zombies
  rw [next_zombies_of_some hf, next_zombies_of_some hf', recordArrival_of_full hfull,
    recordArrival_of_full (h.full.mpr hfull)] at hzombies
  have hi := sampleIndex_lt hfull hs.length_le
  have hi' := h.sampleIndex ▸ h.zombies.length_eq ▸ hi
  have hdraw : fin d'.uv.advance.getValue.1 < K'.overwriteProbability d'.pOverwrite z' ↔
      fin d.uv.advance.getValue.1 < p d.pOverwrite z := by
    rw [h.uv, h.pOverwrite, S.overwriteProbability hR]
  constructor
  · intro hr
    by_contra hr'
    rw [sampleZombie_of_overwrite hz e.now hid hr,
      sampleZombie_of_refused hz' e'.now hid' fun hr => hr' (hdraw.mp hr)] at hzombies
    have hrel := hzombies.getElem? d.sampleIndex.toNat
    rw [List.getElem?_set_self hi, ← h.sampleIndex, show d'.zombies[_]? = some z' from hz'] at hrel
    cases hrel with
    | some hR' => exact hid' ((S.flowID hR' hF).mpr (hK f e.now z))
  · intro hr'
    by_contra hr
    rw [sampleZombie_of_refused hz e.now hid hr,
      sampleZombie_of_overwrite hz' e'.now hid' (hdraw.mpr hr')] at hzombies
    have hrel := hzombies.getElem? d'.sampleIndex.toNat
    rw [List.getElem?_set_self hi', h.sampleIndex, show d.zombies[_]? = some z from hz] at hrel
    cases hrel with
    | some hR' => exact hid ((S.flowID hR' hF).mp (hK' f' e'.now z'))

/-! ## Runs -/

omit [QueueDiscItem α] in
/-- The discs are alike after initialization. -/
theorem alike_doInitialize (a : Attributes α) :
    Alike R I (doInitialize a : ZombieQueueDisc Z α) (doInitialize a : ZombieQueueDisc Z' α) where
  base :=
    { packets := .nil
      queue := rfl
      filters := rfl
      nPackets := rfl
      nBytes := rfl
      stats := rfl
      quota := rfl
      devQueueIface := rfl
      running := rfl
      dropTrace := .nil }
  zombies := .nil
  pHitFreq := rfl
  pOverwrite := rfl
  pMax := rfl
  alpha := rfl
  stabilizedRedMode := rfl
  uv := rfl

/-- **Run lemma.** Two runs of related calls stay alike and have related results, if no draw of the
first tells them apart. -/
theorem run_alike (S : K.Sim K' T F R p) (SI : ItemSim a F I) {es es' : List (Event α)}
    (he : List.Forall₂ (EventRel T I) es es')
    (hm : (machine K).Along (MissAgrees K p) (doInitialize a) es) :
    Alike R I ((machine K).run (doInitialize a) es) ((machine K').run (doInitialize a) es') ∧
      List.Forall₂ (ResultRel I) ((machine K).outputs (doInitialize a) es)
        ((machine K').outputs (doInitialize a) es') := by
  obtain ⟨⟨h, -, -⟩, ho⟩ := Machine.run_sim
    (R := fun d d' => Alike R I d d' ∧ Steady a d ∧ Steady a d') (E := EventRel T I)
    (O := ResultRel I) (P := MissAgrees K p)
    (fun d d' e e' ⟨h, hs, hs'⟩ he hm =>
      have hn := h.next S SI hs hs' he hm
      ⟨⟨hn.1, hs.next e, hs'.next e'⟩, hn.2⟩)
    ⟨alike_doInitialize a, steady_doInitialize a, steady_doInitialize a⟩ he hm
  exact ⟨h, ho⟩

/-- The states are alike at every point of two runs exactly if no draw of the first tells them
apart. -/
theorem run_alike_iff (S : K.Sim K' T F R p) (SI : ItemSim a F I)
    (hK : ∀ f t z, K.flowID (K.overwrite f t z) = f)
    (hK' : ∀ f t z, K'.flowID (K'.overwrite f t z) = f) {es es' : List (Event α)}
    (he : List.Forall₂ (EventRel T I) es es') :
    (∀ n, Alike R I ((machine K).run (doInitialize a) (es.take n))
      ((machine K').run (doInitialize a) (es'.take n))) ↔
      (machine K).Along (MissAgrees K p) (doInitialize a) es := by
  have hstep : ∀ (d : ZombieQueueDisc Z α) (d' : ZombieQueueDisc Z' α) (e e' : Event α),
      (Alike R I d d' ∧ Steady a d ∧ Steady a d') → EventRel T I e e' →
      ((Alike R I ((machine K).next d e) ((machine K').next d' e') ∧
        Steady a ((machine K).next d e) ∧ Steady a ((machine K').next d' e')) ↔
        MissAgrees K p d e) := by
    rintro d d' e e' ⟨h, hs, hs'⟩ he
    exact ⟨fun hn => h.missAgrees S SI hK hK' hs hs' he hn.1,
      fun hm => ⟨(h.next S SI hs hs' he hm).1, hs.next e, hs'.next e'⟩⟩
  rw [← Machine.run_sim_iff hstep
    ⟨alike_doInitialize a, steady_doInitialize a, steady_doInitialize a⟩ he]
  exact forall_congr' fun n =>
    ⟨fun h => ⟨h, run_steady K a _, run_steady K' a _⟩, fun h => h.1⟩

/-! ## Zombies under a map -/

/-- The disc with every zombie changed by `g`. -/
def mapZombies (g : Z → Z') (d : ZombieQueueDisc Z α) : ZombieQueueDisc Z' α :=
  { d with zombies := d.zombies.map g }

theorem itemSim_eq (a : Attributes α) : ItemSim a Eq Eq where
  getSize h := by rw [h]
  flowID h := by rw [h, Option.rel_eq_iff]

omit [QueueDiscItem α] in
theorem alike_mapZombies (g : Z → Z') (d : ZombieQueueDisc Z α) :
    Alike (fun z z' => g z = z') Eq d (d.mapZombies g) where
  base := (QueueDisc.alike_eq_iff rfl rfl).mpr rfl
  zombies := by
    show List.Forall₂ _ d.zombies (d.zombies.map g)
    rw [← List.forall₂_map_left_iff, List.forall₂_eq_eq_eq]
  pHitFreq := rfl
  pOverwrite := rfl
  pMax := rfl
  alpha := rfl
  stabilizedRedMode := rfl
  uv := rfl

/-- With the same items, and zombies that are those of the other under `g`, alike means that the
states are equal under `g`. -/
theorem alike_map_iff {g : Z → Z'} (hs : Steady a d) (hs' : Steady a d') :
    Alike (fun z z' => g z = z') Eq d d' ↔ d' = d.mapZombies g := by
  constructor
  · intro h
    have hb : d.toQueueDisc = d'.toQueueDisc := (QueueDisc.alike_eq_iff
      (hs.requeued.trans hs'.requeued.symm) (hs.peeked.trans hs'.peeked.symm)).mp h.base
    have hz : d.zombies.map g = d'.zombies := by
      have := List.forall₂_map_left_iff.mpr h.zombies
      rwa [List.forall₂_eq_eq_eq] at this
    obtain ⟨-, -, hp, ho, hm, ha, hr, hu⟩ := h
    cases d
    cases d'
    simp_all [mapZombies]
  · rintro rfl
    exact alike_mapZombies g d

section Map

variable {g : Z → Z'} (S : K.Sim K' T Eq (fun z z' => g z = z') p) {es es' : List (Event α)}
  (he : List.Forall₂ (EventRel T Eq) es es')
include S he

/-- **Two runs with the same items.** The states are equal under `g` at every point exactly if no
draw tells the discs apart. -/
theorem run_mapZombies_iff (hK : ∀ f t z, K.flowID (K.overwrite f t z) = f)
    (hK' : ∀ f t z, K'.flowID (K'.overwrite f t z) = f) :
    (∀ n, (machine K').run (doInitialize a) (es'.take n) =
      ((machine K).run (doInitialize a) (es.take n)).mapZombies g) ↔
      (machine K).Along (MissAgrees K p) (doInitialize a) es := by
  rw [← run_alike_iff S (itemSim_eq a) hK hK' he]
  exact forall_congr' fun n => (alike_map_iff (run_steady K a _) (run_steady K' a _)).symm

/-- As long as no draw tells the discs apart, the results are equal. -/
theorem outputs_mapZombies (hm : (machine K).Along (MissAgrees K p) (doInitialize a) es) :
    (machine K').outputs (doInitialize a) es' = (machine K).outputs (doInitialize a) es := by
  obtain ⟨-, ho⟩ := run_alike S (itemSim_eq a) he hm
  have := ho.imp fun r r' hr => hr.eq
  rw [List.forall₂_eq_eq_eq] at this
  exact this.symm

end Map

end ZombieQueueDisc

end StabilizedRed
