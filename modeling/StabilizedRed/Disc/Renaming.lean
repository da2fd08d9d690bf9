import StabilizedRed.Disc.Simulation
import StabilizedRed.Disc.WarmUp

/-!
# Flow ids up to renaming

The discs use a flow id for one thing only, to compare it with another. So a run on arrivals whose
flow ids are renamed by an injective map is the same run with the ids in the zombie list renamed
(`run_rename`): no flow is treated differently because of the value of its hash. The one id that the
code tells from the others, `-1`, is not renamed.
-/

namespace StabilizedRed

open Function (Injective)

/-- A flow id other than `-1`. -/
abbrev FlowID := { f : Int32 // f ≠ -1 }

/-- The renaming of a flow id; `-1` keeps its name. -/
def renameID (r : FlowID → FlowID) (f : Int32) : Int32 :=
  if h : f = -1 then -1 else (r ⟨f, h⟩).val

section RenameID

variable {r : FlowID → FlowID}

theorem renameID_of_ne {f : Int32} (h : f ≠ -1) : renameID r f = (r ⟨f, h⟩).val := dif_neg h

theorem renameID_eq_neg_one_iff {f : Int32} : renameID r f = -1 ↔ f = -1 := by
  constructor
  · intro hf
    by_contra h
    rw [renameID_of_ne h] at hf
    exact (r ⟨f, h⟩).property hf
  · exact fun h => dif_pos h

theorem renameID_injective (hr : Injective r) : Injective (renameID r) := by
  intro f g hfg
  by_cases hf : f = -1
  · rw [renameID_eq_neg_one_iff.mpr hf] at hfg
    rw [hf, renameID_eq_neg_one_iff.mp hfg.symm]
  · have hg : g ≠ -1 := fun hg => hf (renameID_eq_neg_one_iff.mp
      (hfg.trans (renameID_eq_neg_one_iff.mpr hg)))
    rw [renameID_of_ne hf, renameID_of_ne hg] at hfg
    exact congrArg Subtype.val (hr (Subtype.ext hfg))

end RenameID

/-! ## Renamed zombies -/

def Zombie.rename (r : FlowID → FlowID) (z : Zombie) : Zombie :=
  { z with flowID := renameID r z.flowID }

def EZombie.rename (r : FlowID → FlowID) (z : EZombie) : EZombie :=
  { z with flowID := renameID r z.flowID }

/-- The zombie with its flow id renamed. -/
def DiscKind.rename (r : FlowID → FlowID) : (k : DiscKind) → k.Zombie → k.Zombie
  | .stabilizedRed => Zombie.rename r
  | .es => EZombie.rename r

/-- For a renamed flow a disc does the same to renamed zombies. -/
theorem DiscKind.sim_rename (k : DiscKind) {r : FlowID → FlowID} (hr : Injective r) :
    k.kind.Sim k.kind Eq (fun f f' => renameID r f = f') (fun z z' => k.rename r z = z')
      k.kind.overwriteProbability where
  invalid := by
    rintro f _ rfl
    exact renameID_eq_neg_one_iff
  flowID := by
    rintro z _ f _ rfl rfl
    cases k <;> exact (renameID_injective hr).eq_iff
  create := by
    rintro f _ t _ rfl rfl
    cases k <;> rfl
  hit := by
    rintro z _ t _ rfl rfl
    cases k <;> rfl
  overwrite := by
    rintro z _ f _ t _ rfl rfl rfl
    cases k <;> rfl
  overwriteProbability := by
    rintro w z _ rfl
    cases k <;> rfl

/-! ## Renamed arrivals -/

variable {α : Type} [QueueDiscItem α]

namespace ZombieQueueDisc

/-- The item `x'` has the size of `x` and its flow id, renamed. -/
structure Renamed (a : Attributes α) (r : FlowID → FlowID) (x x' : α) : Prop where
  getSize : getSize x' = getSize x
  flowID : flowIDOf a x' = (flowIDOf a x).map (renameID r)

theorem itemSim_renamed (a : Attributes α) (r : FlowID → FlowID) :
    ItemSim a (fun f f' => renameID r f = f') (Renamed a r) where
  getSize h := h.getSize
  flowID {x x'} h := by
    rw [h.flowID]
    cases flowIDOf a x with
    | none => exact .none
    | some f => exact .some rfl

/-- **Flow ids matter only up to renaming.** With the same draws, a run on renamed arrivals gives
the same results, and at every point the same state up to the names: the queues and the dropped
items correspond one by one with the same reasons, the zombies are the renamed ones, and all else is
equal. -/
theorem run_rename (k : DiscKind) (a : Attributes α) {r : FlowID → FlowID} (hr : Injective r)
    {es es' : List (Event α)} (he : List.Forall₂ (EventRel Eq (Renamed a r)) es es') :
    (∀ n, Alike (fun z z' => k.rename r z = z') (Renamed a r)
      ((k.machine α).run (doInitialize a) (es.take n))
      ((k.machine α).run (doInitialize a) (es'.take n))) ∧
    List.Forall₂ (ResultRel (Renamed a r)) ((k.machine α).outputs (doInitialize a) es)
      ((k.machine α).outputs (doInitialize a) es') := by
  have hm : (k.machine α).Along (MissAgrees k.kind k.kind.overwriteProbability)
      (doInitialize a) es :=
    (Machine.along_of_forall (Q := fun _ => True) fun _ _ => trivial).mono
      fun _ _ _ _ _ _ _ _ _ => Iff.rfl
  have hS := k.sim_rename hr
  have hI := itemSim_renamed a r
  have hK : ∀ f t z, k.kind.flowID (k.kind.overwrite f t z) = f := by
    cases k <;> exact fun _ _ _ => rfl
  exact ⟨(run_alike_iff hS hI hK hK he).mpr hm, (run_alike hS hI he hm).2⟩

omit [QueueDiscItem α] in
/-- Two runs of `hitAndMiss` on related packets are related. -/
theorem forall₂_hitAndMiss {I : α → α → Prop} (t : Time) {x y x' y' : α} (hx : I x x') (hy : I y y') :
    List.Forall₂ (EventRel Eq I) (hitAndMiss t x y) (hitAndMiss t x' y') := by
  refine List.rel_append ?_ ?_
  · exact List.forall₂_iff_get.mpr ⟨by simp, fun i h h' => by simpa using ⟨rfl, .enqueue hx⟩⟩
  · exact .cons ⟨rfl, .enqueue hx⟩ (.cons ⟨rfl, .enqueue hy⟩ (.cons ⟨rfl, .enqueue hx⟩
      (.cons ⟨rfl, .dequeue⟩ (.cons ⟨rfl, .enqueue hy⟩ .nil))))

/-- The two flows of `hitAndMiss` change their names. -/
theorem run_rename_swap :
    let a := alwaysOverwrite
    let es := hitAndMiss 2000000000 (Ipv4QueueDiscItem.tcp 0 49153) (.tcp 0 49154)
    let es' := hitAndMiss 2000000000 (Ipv4QueueDiscItem.tcp 0 49154) (.tcp 0 49153)
    let r : FlowID → FlowID := Equiv.swap ⟨flowA, by decide⟩ ⟨flowB, by decide⟩
    (∀ n, Alike (fun z z' => DiscKind.es.rename r z = z') (Renamed a r)
      ((DiscKind.es.machine Ipv4QueueDiscItem).run (doInitialize a) (es.take n))
      ((DiscKind.es.machine Ipv4QueueDiscItem).run (doInitialize a) (es'.take n))) ∧
    List.Forall₂ (ResultRel (Renamed a r))
      ((DiscKind.es.machine Ipv4QueueDiscItem).outputs (doInitialize a) es)
      ((DiscKind.es.machine Ipv4QueueDiscItem).outputs (doInitialize a) es') := by
  intro a es es' r
  exact run_rename .es a (Equiv.injective _)
    (forall₂_hitAndMiss 2000000000 ⟨rfl, by decide⟩ ⟨rfl, by decide⟩)

end ZombieQueueDisc

end StabilizedRed
