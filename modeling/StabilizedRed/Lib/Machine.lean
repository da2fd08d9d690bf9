import Mathlib

/-!
# Deterministic machines, their runs, and two runs side by side

A machine takes one event at a time; each event moves the state and gives an output. The library
has three kinds of rule about the runs of a machine from a state:

* `Machine.run_invariant`: what every step keeps holds at the end of a run. `Machine.Along P`
  says that each event of a run meets a state with `P`, so a rule may assume `P` at each step.
* `Machine.observe_invariant`: the same for a state together with the history of what an observer
  `f` saw (`Machine.observe`), for statements that relate a state to all that led to it;
  `Machine.event_invariant` is the case of an observer of the events alone.
* `Machine.run_sim`: a relation that every pair of steps keeps relates two whole runs, of one
  machine or of two, and their outputs. `Machine.run_sim_iff` says exactly when it does.
-/

/-- A deterministic machine: `step s e` is the output of event `e` in state `s` and the next
state. -/
structure Machine (σ ε ω : Type*) where
  step : σ → ε → ω × σ

namespace Machine

variable {σ ε ω η : Type*} (M : Machine σ ε ω)

/-- The state after the event `e`. -/
def next (s : σ) (e : ε) : σ := (M.step s e).2

/-- The output of the event `e`. -/
def out (s : σ) (e : ε) : ω := (M.step s e).1

/-- The state after the events `es`. -/
def run (s : σ) : List ε → σ
  | [] => s
  | e :: es => run (M.next s e) es

/-- The outputs of the events `es`, in order. -/
def outputs (s : σ) : List ε → List ω
  | [] => []
  | e :: es => M.out s e :: outputs (M.next s e) es

/-- Each event of the run meets a state of which `P` holds. -/
def Along (P : σ → ε → Prop) (s : σ) : List ε → Prop
  | [] => True
  | e :: es => P s e ∧ Along P (M.next s e) es

/-- What the observer `f` sees of the run, in order. -/
def observe (f : σ → ε → Option η) (s : σ) : List ε → List η
  | [] => []
  | e :: es => (f s e).toList ++ observe f (M.next s e) es

@[simp] theorem run_nil (s : σ) : M.run s [] = s := rfl

@[simp] theorem run_cons (s : σ) (e : ε) (es : List ε) :
    M.run s (e :: es) = M.run (M.next s e) es := rfl

theorem run_append (s : σ) (es fs : List ε) : M.run s (es ++ fs) = M.run (M.run s es) fs := by
  induction es generalizing s with
  | nil => rfl
  | cons e es ih => exact ih (M.next s e)

@[simp] theorem outputs_nil (s : σ) : M.outputs s [] = [] := rfl

@[simp] theorem outputs_cons (s : σ) (e : ε) (es : List ε) :
    M.outputs s (e :: es) = M.out s e :: M.outputs (M.next s e) es := rfl

@[simp] theorem along_nil (P : σ → ε → Prop) (s : σ) : M.Along P s [] := trivial

@[simp] theorem along_cons (P : σ → ε → Prop) (s : σ) (e : ε) (es : List ε) :
    M.Along P s (e :: es) ↔ P s e ∧ M.Along P (M.next s e) es := Iff.rfl

@[simp] theorem observe_nil (f : σ → ε → Option η) (s : σ) : M.observe f s [] = [] := rfl

@[simp] theorem observe_cons (f : σ → ε → Option η) (s : σ) (e : ε) (es : List ε) :
    M.observe f s (e :: es) = (f s e).toList ++ M.observe f (M.next s e) es := rfl

theorem outputs_append (s : σ) (es fs : List ε) :
    M.outputs s (es ++ fs) = M.outputs s es ++ M.outputs (M.run s es) fs := by
  induction es generalizing s with
  | nil => rfl
  | cons e es ih => exact congrArg (M.out s e :: ·) (ih (M.next s e))

theorem along_append (P : σ → ε → Prop) (s : σ) (es fs : List ε) :
    M.Along P s (es ++ fs) ↔ M.Along P s es ∧ M.Along P (M.run s es) fs := by
  induction es generalizing s with
  | nil => simp
  | cons e es ih => simp only [List.cons_append, along_cons, run_cons, ih, and_assoc]

theorem observe_append (f : σ → ε → Option η) (s : σ) (es fs : List ε) :
    M.observe f s (es ++ fs) = M.observe f s es ++ M.observe f (M.run s es) fs := by
  induction es generalizing s with
  | nil => rfl
  | cons e es ih => simp only [List.cons_append, observe_cons, run_cons, ih, List.append_assoc]

/-- An observer of the events alone does not depend on the run. -/
theorem observe_event (g : ε → Option η) (s : σ) (es : List ε) :
    M.observe (fun _ e => g e) s es = es.filterMap g := by
  induction es generalizing s with
  | nil => rfl
  | cons e es ih =>
    rw [observe_cons, ih, List.filterMap_cons]
    cases g e <;> rfl

/-- An observer of the outputs. -/
theorem observe_out (g : ω → Option η) (s : σ) (es : List ε) :
    M.observe (fun s e => g (M.out s e)) s es = (M.outputs s es).filterMap g := by
  induction es generalizing s with
  | nil => rfl
  | cons e es ih =>
    rw [observe_cons, ih, outputs_cons, List.filterMap_cons]
    cases g (M.out s e) <;> rfl

/-- An observer that sees something of events with `p` only sees no more than there are. -/
theorem length_observe_le {f : σ → ε → Option η} {p : ε → Bool}
    (h : ∀ s e, (f s e).isSome → p e = true) (s : σ) (es : List ε) :
    (M.observe f s es).length ≤ es.countP p := by
  induction es generalizing s with
  | nil => exact Nat.le_refl _
  | cons e es ih =>
    have := ih (M.next s e)
    rw [observe_cons, List.length_append, List.countP_cons]
    cases hf : f s e with
    | none =>
      rw [Option.toList_none, List.length_nil]
      omega
    | some x =>
      rw [if_pos (h s e (by rw [hf]; rfl)), Option.toList_some, List.length_singleton]
      omega

instance (P : σ → ε → Prop) [∀ s e, Decidable (P s e)] (s : σ) :
    (es : List ε) → Decidable (M.Along P s es)
  | [] => isTrue trivial
  | e :: es =>
    have : Decidable (M.Along P (M.next s e) es) := instDecidableAlong P (M.next s e) es
    inferInstanceAs (Decidable (P s e ∧ M.Along P (M.next s e) es))

variable {M}

theorem Along.mono {P Q : σ → ε → Prop} (h : ∀ s e, P s e → Q s e) {s : σ} {es : List ε}
    (hP : M.Along P s es) : M.Along Q s es := by
  induction es generalizing s with
  | nil => trivial
  | cons e es ih => exact ⟨h s e hP.1, ih hP.2⟩

/-- A condition on the events alone holds along a run exactly if all its events have it. -/
theorem along_event_iff {Q : ε → Prop} {s : σ} {es : List ε} :
    M.Along (fun _ e => Q e) s es ↔ ∀ e ∈ es, Q e := by
  induction es generalizing s with
  | nil => simp
  | cons e es ih => rw [along_cons, ih, List.forall_mem_cons]

theorem along_of_forall {Q : ε → Prop} {s : σ} {es : List ε} (h : ∀ e ∈ es, Q e) :
    M.Along (fun _ e => Q e) s es := along_event_iff.mpr h

/-! ## Invariants of one run -/

/-- **Invariant rule with a history.** `I s H` relates a state to what the observer has seen. It
holds before the run and each step that meets `P` keeps it, so it holds after the run. -/
theorem observe_invariant {f : σ → ε → Option η} {P : σ → ε → Prop} {I : σ → List η → Prop}
    (hstep : ∀ s e H, P s e → I s H → I (M.next s e) (H ++ (f s e).toList))
    {s : σ} {H : List η} (h0 : I s H) {es : List ε} (hP : M.Along P s es) :
    I (M.run s es) (H ++ M.observe f s es) := by
  induction es generalizing s H with
  | nil => simpa using h0
  | cons e es ih =>
    have := ih (hstep s e H hP.1 h0) hP.2
    simpa [List.append_assoc] using this

/-- **Invariant rule.** What each step that meets `P` keeps holds after a run along `P`. -/
theorem run_invariant {P : σ → ε → Prop} {I : σ → Prop}
    (hstep : ∀ s e, P s e → I s → I (M.next s e)) {s : σ} (h0 : I s) {es : List ε}
    (hP : M.Along P s es) : I (M.run s es) :=
  observe_invariant (f := fun _ _ => (none : Option Unit)) (I := fun s _ => I s)
    (fun s e _ hP hI => hstep s e hP hI) (H := []) h0 hP

/-- What every step keeps, without conditions. -/
theorem run_invariant' {I : σ → Prop} (hstep : ∀ s e, I s → I (M.next s e)) {s : σ} (h0 : I s)
    (es : List ε) : I (M.run s es) :=
  run_invariant (P := fun _ _ => True) (fun s e _ => hstep s e) h0
    (along_of_forall (Q := fun _ => True) fun _ _ => trivial)

/-- What the invariant and a condition on the event give holds along a run of events with that
condition. -/
theorem along_of_invariant {P : σ → ε → Prop} {Q : ε → Prop} {I : σ → Prop}
    (hP : ∀ s e, I s → Q e → P s e) (hstep : ∀ s e, I s → Q e → I (M.next s e)) {s : σ} (h0 : I s)
    {es : List ε} (hQ : ∀ e ∈ es, Q e) : M.Along P s es := by
  induction es generalizing s with
  | nil => trivial
  | cons e es ih =>
    obtain ⟨he, hes⟩ := List.forall_mem_cons.mp hQ
    exact ⟨hP s e h0 he, ih (hstep s e h0 he) hes⟩

/-- **Invariant rule with the history of the events.** What every step keeps of a state and what an
observer of the events has seen. -/
theorem event_invariant {g : ε → Option η} {I : σ → List η → Prop}
    (hstep : ∀ s e H, I s H → I (M.next s e) (H ++ (g e).toList)) {s : σ} (h0 : I s [])
    (es : List ε) : I (M.run s es) (es.filterMap g) := by
  have hall : M.Along (fun _ _ => True) s es := along_of_forall (Q := fun _ => True) fun _ _ => trivial
  have h := observe_invariant (f := fun _ e => g e) (fun s e H _ h => hstep s e H h) h0 hall
  rwa [List.nil_append, observe_event] at h

/-- Two conditions that say the same where the invariant holds, which steps with the first one keep,
hold along the same runs. -/
theorem along_congr {P Q : σ → ε → Prop} {I : σ → Prop} (hiff : ∀ s e, I s → (P s e ↔ Q s e))
    (hstep : ∀ s e, I s → P s e → I (M.next s e)) {s : σ} (h0 : I s) (es : List ε) :
    M.Along P s es ↔ M.Along Q s es := by
  induction es generalizing s with
  | nil => exact Iff.rfl
  | cons e es ih =>
    rw [along_cons, along_cons, hiff s e h0]
    refine and_congr_right fun hQ => ih (hstep s e h0 ?_)
    exact (hiff s e h0).mpr hQ

/-- Where a step keeps the invariant as long as `P` holds of it, and where `P` is then a condition
`Q` on the event alone, a run is along `P` exactly when all its events have `Q`. -/
theorem along_iff_forall {P : σ → ε → Prop} {Q : ε → Prop} {I : σ → Prop}
    (hiff : ∀ s e, I s → (P s e ↔ Q e)) (hstep : ∀ s e, I s → P s e → I (M.next s e))
    {s : σ} (h0 : I s) (es : List ε) : M.Along P s es ↔ ∀ e ∈ es, Q e :=
  (along_congr (Q := fun _ e => Q e) hiff hstep h0 es).trans along_event_iff

/-! ## Two runs -/

variable {σ' ε' ω' : Type*} {M' : Machine σ' ε' ω'}

/-- **Simulation rule.** `R` relates the states before the runs, `E` their events one by one; each
pair of steps with `P` keeps `R` and gives outputs related by `O`. Then `R` relates the states
after the runs and `O` their outputs one by one. -/
theorem run_sim {R : σ → σ' → Prop} {E : ε → ε' → Prop} {O : ω → ω' → Prop} {P : σ → ε → Prop}
    (hstep : ∀ s s' e e', R s s' → E e e' → P s e →
      R (M.next s e) (M'.next s' e') ∧ O (M.out s e) (M'.out s' e'))
    {s : σ} {s' : σ'} (h0 : R s s') {es : List ε} {es' : List ε'} (hE : List.Forall₂ E es es')
    (hP : M.Along P s es) :
    R (M.run s es) (M'.run s' es') ∧ List.Forall₂ O (M.outputs s es) (M'.outputs s' es') := by
  induction hE generalizing s s' with
  | nil => exact ⟨h0, .nil⟩
  | cons he _ ih =>
    obtain ⟨hR, hO⟩ := hstep _ _ _ _ h0 he hP.1
    obtain ⟨hR', hO'⟩ := ih hR hP.2
    exact ⟨hR', .cons hO hO'⟩

/-- Where a pair of steps from related states keeps `R` exactly if `P` holds, `R` relates the states
at every point of two runs exactly if the first is along `P`. -/
theorem run_sim_iff {R : σ → σ' → Prop} {E : ε → ε' → Prop} {P : σ → ε → Prop}
    (hstep : ∀ s s' e e', R s s' → E e e' → (R (M.next s e) (M'.next s' e') ↔ P s e))
    {s : σ} {s' : σ'} (h0 : R s s') {es : List ε} {es' : List ε'} (hE : List.Forall₂ E es es') :
    (∀ n, R (M.run s (es.take n)) (M'.run s' (es'.take n))) ↔ M.Along P s es := by
  induction hE generalizing s s' with
  | nil => exact iff_of_true (fun n => by simpa using h0) trivial
  | @cons e e' es es' he _ ih =>
    constructor
    · intro h
      have hR : R (M.next s e) (M'.next s' e') := by simpa using h 1
      exact ⟨(hstep s s' e e' h0 he).mp hR, (ih hR).mp fun n => h (n + 1)⟩
    · rintro ⟨hP, hrest⟩ n
      have hR := (hstep s s' e e' h0 he).mpr hP
      cases n with
      | zero => exact h0
      | succ n => exact (ih hR).mpr hrest n

end Machine
