import StabilizedRed.Core.Period
import StabilizedRed.Lib.Machine

/-!
# Streams for random variables (`core/model/rng-seed-manager.cc`, `random-variable-stream.cc`)

A simulation gives every random variable a stream: the next free one of the lower half of the
streams, or one of the upper half that the caller names. The seed and the run number are set before
the first variable is created, and stay.

No two draws come from the same state of the generator, neither in one simulation nor in simulations
with the same seed and different run numbers (`Variables.replications_nodup`): the replications of a
simulation are independent in this sense.
-/

namespace StabilizedRed

open Function

/-- `RngSeedManager`, with the global values `RngSeed` and `RngRun`. -/
structure RngSeedManager where
  nextStreamIndex : UInt64 := 0
  seed : UInt32 := 1
  run : UInt64 := 1

namespace RngSeedManager

/-- `GetNextStreamIndex`. -/
def getNextStreamIndex (m : RngSeedManager) : UInt64 × RngSeedManager :=
  (m.nextStreamIndex, { m with nextStreamIndex := m.nextStreamIndex + 1 })

end RngSeedManager

/-- `RandomVariableStream`. -/
structure RandomVariableStream where
  rng : RngStream
  stream : Int64

/-- The first stream for deterministic assignment. -/
def baseStream : UInt64 := (1 : UInt64) <<< 63

/-- The stream that the caller names. -/
def targetStream (stream : Int64) : UInt64 := baseStream + stream.toUInt64

/-- `RandomVariableStream::SetStream`. A failed assertion and an invalid seed are fatal. -/
def RandomVariableStream.setStream (fl : Rounding 53) (stream : Int64) (m : RngSeedManager) :
    Option (RandomVariableStream × RngSeedManager) :=
  if stream < -1 then none
  else if stream = -1 then
    let (nextStream, m) := m.getNextStreamIndex
    if nextStream ≤ baseStream then
      (RngStream.new fl m.seed nextStream m.run).map fun rng => ({ rng := rng, stream := stream }, m)
    else none
  else
    let target := targetStream stream
    (RngStream.new fl m.seed target m.run).map fun rng => ({ rng := rng, stream := stream }, m)

theorem targetStream_inj {stream stream' : Int64} (h : targetStream stream = targetStream stream') :
    stream = stream' := by
  have he : stream.toUInt64 = stream'.toUInt64 := (UInt64.add_right_inj baseStream).mp h
  simpa using congrArg UInt64.toInt64 he

theorem baseStream_le {stream : Int64} (h : 0 ≤ stream) : ¬ targetStream stream < baseStream := by
  have hlt := stream.toNatClampNeg_lt
  have hbase : baseStream.toNat = 2 ^ 63 := by decide
  rw [UInt64.lt_iff_toNat_lt, targetStream, UInt64.toNat_add, Int64.toNat_toUInt64_of_le h, hbase]
  omega

/-- The two ways to a stream. -/
theorem RandomVariableStream.setStream_cases {fl : Rounding 53} {stream : Int64}
    {m m' : RngSeedManager} {x : RandomVariableStream} (h : setStream fl stream m = some (x, m')) :
    ∃ t, RngStream.new fl m.seed t m.run = some x.rng ∧ m'.seed = m.seed ∧ m'.run = m.run ∧
      (stream = -1 ∧ t = m.nextStreamIndex ∧ m'.nextStreamIndex = m.nextStreamIndex + 1 ∨
        stream ≠ -1 ∧ 0 ≤ stream ∧ t = targetStream stream ∧
          m'.nextStreamIndex = m.nextStreamIndex) := by
  unfold setStream RngSeedManager.getNextStreamIndex at h
  dsimp only at h
  split at h
  · cases h
  rename_i hge
  split at h
  · rename_i hauto
    split at h
    · obtain ⟨r, hr, he⟩ := Option.map_eq_some_iff.mp h
      obtain ⟨rfl, rfl⟩ := Prod.mk.inj he
      exact ⟨_, hr, rfl, rfl, .inl ⟨hauto, rfl, rfl⟩⟩
    · cases h
  · rename_i hne
    obtain ⟨r, hr, he⟩ := Option.map_eq_some_iff.mp h
    obtain ⟨rfl, rfl⟩ := Prod.mk.inj he
    refine ⟨_, hr, rfl, rfl, .inr ⟨hne, ?_, rfl, rfl⟩⟩
    have h1 : (-1 : Int64).toInt = -1 := by decide
    rw [Int64.lt_iff_toInt_lt, h1] at hge
    have hne' : stream.toInt ≠ -1 := fun he => hne (Int64.toInt_inj.mp (he.trans h1.symm))
    rw [Int64.le_iff_toInt_le, Int64.toInt_zero]
    omega

/-- What a simulation does with its random variables. -/
inductive Command where
  /-- `SetStream`, which the creation of a variable calls with `-1`. -/
  | setStream (v : ℕ) (stream : Int64)
  /-- A draw. -/
  | draw (v : ℕ)
  deriving DecidableEq, Repr

/-- The stream number that the caller names. -/
def Command.explicitStream : Command → Option Int64
  | setStream _ stream => if stream = -1 then none else some stream
  | draw _ => none

/-- The random variables of a simulation. -/
structure Variables where
  manager : RngSeedManager
  vars : ℕ → Option RandomVariableStream

namespace Variables

open RngStream

variable (fl : Rounding 53)

/-- A simulation with a seed and a run number, before the first variable. -/
def start (seed : UInt32) (run : UInt64) : Variables where
  manager := { seed := seed, run := run }
  vars _ := none

/-- One command, with the number drawn. A draw from a variable without a generator is fatal. -/
def apply (s : Variables) : Command → Option (Option ℚ × Variables)
  | .setStream v stream => do
    let (x, manager) ← RandomVariableStream.setStream fl stream s.manager
    return (none, { manager := manager, vars := update s.vars v (some x) })
  | .draw v => do
    let x ← s.vars v
    let (u, rng) := x.rng.randU01 fl
    return (some u, { s with vars := update s.vars v (some { x with rng := rng }) })

/-- A simulation, which has ended after a fatal error. -/
def machine : Machine (Option Variables) Command (Option ℚ) where
  step s c :=
    match s.bind fun s => s.apply fl c with
    | some (u, s) => (u, some s)
    | none => (none, none)

/-- The state of the generator that a command draws from. -/
def drawnFrom (s : Option Variables) : Command → Option RngStream
  | .setStream _ _ => none
  | .draw v => (s.bind fun s => s.vars v).map fun x => x.rng

@[simp] theorem next_eq (s : Option Variables) (c : Command) :
    (machine fl).next s c = ((s.bind fun s => s.apply fl c).map Prod.snd) := by
  unfold machine Machine.next
  dsimp only
  cases s.bind fun s => s.apply fl c <;> rfl

/-- Nothing happens after a fatal error. -/
@[simp] theorem observe_none (cmds : List Command) :
    (machine fl).observe drawnFrom none cmds = [] := by
  induction cmds with
  | nil => rfl
  | cons c cmds ih =>
    rw [Machine.observe_cons, next_eq, Option.bind_none, Option.map_none, ih]
    cases c <;> rfl

/-! ## Positions -/

/-- The state at a position: a stream and a number of draws. -/
def stateAt (seed : UInt32) (run : UInt64) (p : UInt64 × ℕ) : Option RngStream :=
  (RngStream.new fl seed p.1 run).map (drawn fl)^[p.2]

theorem stateAt_succ {seed : UInt32} {run t : UInt64} {k : ℕ} {r : RngStream}
    (h : stateAt fl seed run (t, k) = some r) :
    stateAt fl seed run (t, k + 1) = some (r.drawn fl) := by
  obtain ⟨r₀, hr, rfl⟩ := Option.map_eq_some_iff.mp h
  rw [stateAt, hr, Option.map_some, iterate_succ_apply']

/-- The streams that have been given to variables, and where each variable is. -/
structure Ledger where
  opened : Set UInt64
  position : ℕ → UInt64 × ℕ

namespace Ledger

/-- The variable gets the stream. -/
def open_ (l : Ledger) (v : ℕ) (t : UInt64) : Ledger where
  opened := insert t l.opened
  position := update l.position v (t, 0)

/-- The variable draws. -/
def draw (l : Ledger) (v : ℕ) : Ledger :=
  { l with position := update l.position v ((l.position v).1, (l.position v).2 + 1) }

end Ledger

/-- What the ledger says about a simulation after `n` commands at most. -/
structure Inv (seed : UInt32) (run : UInt64) (n : ℕ) (s : Variables) (l : Ledger) : Prop where
  seed_eq : s.manager.seed = seed
  run_eq : s.manager.run = run
  nextStreamIndex_le : s.manager.nextStreamIndex.toNat ≤ n
  lower : ∀ t ∈ l.opened, t < baseStream → t < s.manager.nextStreamIndex
  whole : ∀ t ∈ l.opened, t.toNat < wholeStreams
  opened {v x} : s.vars v = some x → (l.position v).1 ∈ l.opened
  count_le {v x} : s.vars v = some x → (l.position v).2 ≤ n
  rng {v x} : s.vars v = some x → stateAt fl seed run (l.position v) = some x.rng
  distinct {v w x y} : s.vars v = some x → s.vars w = some y →
    (l.position v).1 = (l.position w).1 → v = w

/-- The positions that a simulation can still draw from. -/
def Ahead (s : Variables) (l : Ledger) (p : UInt64 × ℕ) : Prop :=
  p.1 ∉ l.opened ∨ ∃ v x, s.vars v = some x ∧ p.1 = (l.position v).1 ∧ (l.position v).2 ≤ p.2

variable {fl} {seed : UInt32} {run : UInt64} {n : ℕ} {s : Variables} {l : Ledger}

theorem Inv.open_ (h : Inv fl seed run n s l) {v : ℕ} {t : UInt64} {x : RandomVariableStream}
    {m : RngSeedManager} (ht : t ∉ l.opened) (hwhole : t.toNat < wholeStreams)
    (hx : stateAt fl seed run (t, 0) = some x.rng) (hseed : m.seed = seed) (hrun : m.run = run)
    (hindex : m.nextStreamIndex.toNat ≤ n + 1) (hle : s.manager.nextStreamIndex ≤ m.nextStreamIndex)
    (hlower : t < baseStream → t < m.nextStreamIndex) :
    let s' : Variables := { manager := m, vars := update s.vars v (some x) }
    Inv fl seed run (n + 1) s' (l.open_ v t) ∧ ∀ p, Ahead s' (l.open_ v t) p → Ahead s l p := by
  have hcases {w y} (hw : update s.vars v (some x) w = some y) :
      w = v ∧ y = x ∧ (l.open_ v t).position w = (t, 0) ∨
        w ≠ v ∧ s.vars w = some y ∧ (l.open_ v t).position w = l.position w := by
    by_cases hv : w = v
    · subst hv
      rw [update_self] at hw
      exact .inl ⟨rfl, (Option.some.inj hw).symm, update_self ..⟩
    · rw [update_of_ne hv] at hw
      exact .inr ⟨hv, hw, update_of_ne hv ..⟩
  refine ⟨⟨hseed, hrun, hindex, ?_, ?_, ?_, ?_, ?_, ?_⟩, ?_⟩
  · rintro t' (rfl | ht') hb
    · exact hlower hb
    · exact UInt64.lt_of_lt_of_le (h.lower t' ht' hb) hle
  · rintro t' (rfl | ht')
    · exact hwhole
    · exact h.whole t' ht'
  · intro w y hw
    rcases hcases hw with ⟨-, -, hp⟩ | ⟨-, hw, hp⟩ <;> rw [hp]
    · exact .inl rfl
    · exact .inr (h.opened hw)
  · intro w y hw
    rcases hcases hw with ⟨-, -, hp⟩ | ⟨-, hw, hp⟩ <;> rw [hp]
    · exact Nat.zero_le _
    · exact (h.count_le hw).trans (Nat.le_succ n)
  · intro w y hw
    rcases hcases hw with ⟨-, rfl, hp⟩ | ⟨-, hw, hp⟩ <;> rw [hp]
    · exact hx
    · exact h.rng hw
  · intro w w' y y' hw hw' heq
    rcases hcases hw with ⟨rfl, -, hp⟩ | ⟨-, hs, hp⟩ <;>
      rcases hcases hw' with ⟨rfl, -, hp'⟩ | ⟨-, hs', hp'⟩
    · rfl
    · rw [hp, hp'] at heq
      exact absurd (h.opened hs') (heq ▸ ht)
    · rw [hp, hp'] at heq
      exact absurd (h.opened hs) (heq ▸ ht)
    · rw [hp, hp'] at heq
      exact h.distinct hs hs' heq
  · rintro p (hp | ⟨w, y, hw, hp1, hp2⟩)
    · exact .inl fun hmem => hp (.inr hmem)
    · rcases hcases hw with ⟨-, -, hp⟩ | ⟨-, hw, hp⟩ <;> rw [hp] at hp1 hp2
      · exact .inl (hp1 ▸ ht)
      · exact .inr ⟨w, y, hw, hp1, hp2⟩

theorem Inv.draw (h : Inv fl seed run n s l) {v : ℕ} {x : RandomVariableStream}
    (hv : s.vars v = some x) :
    let s' : Variables :=
      { s with vars := update s.vars v (some { x with rng := x.rng.drawn fl }) }
    Inv fl seed run (n + 1) s' (l.draw v) ∧
      ∀ p, Ahead s' (l.draw v) p → Ahead s l p ∧ p ≠ l.position v := by
  have hcases {w y} (hw : update s.vars v (some { x with rng := x.rng.drawn fl }) w = some y) :
      w = v ∧ y.rng = x.rng.drawn fl ∧
          (l.draw v).position w = ((l.position v).1, (l.position v).2 + 1) ∨
        w ≠ v ∧ s.vars w = some y ∧ (l.draw v).position w = l.position w := by
    by_cases hwv : w = v
    · subst hwv
      rw [update_self] at hw
      obtain rfl := Option.some.inj hw
      exact .inl ⟨rfl, rfl, update_self ..⟩
    · rw [update_of_ne hwv] at hw
      exact .inr ⟨hwv, hw, update_of_ne hwv ..⟩
  refine ⟨⟨h.seed_eq, h.run_eq, h.nextStreamIndex_le.trans (Nat.le_succ n), h.lower, h.whole, ?_, ?_,
    ?_, ?_⟩, ?_⟩
  · intro w y hw
    rcases hcases hw with ⟨-, -, hp⟩ | ⟨-, hw, hp⟩ <;> rw [hp]
    · exact h.opened hv
    · exact h.opened hw
  · intro w y hw
    rcases hcases hw with ⟨-, -, hp⟩ | ⟨-, hw, hp⟩ <;> rw [hp]
    · exact Nat.succ_le_succ (h.count_le hv)
    · exact (h.count_le hw).trans (Nat.le_succ n)
  · intro w y hw
    rcases hcases hw with ⟨-, hy, hp⟩ | ⟨-, hw, hp⟩ <;> rw [hp]
    · rw [hy]
      exact stateAt_succ fl (h.rng hv)
    · exact h.rng hw
  · intro w w' y y' hw hw' heq
    rcases hcases hw with ⟨rfl, -, hp⟩ | ⟨-, hs, hp⟩ <;>
      rcases hcases hw' with ⟨rfl, -, hp'⟩ | ⟨-, hs', hp'⟩
    · rfl
    · rw [hp, hp'] at heq
      exact h.distinct hv hs' heq
    · rw [hp, hp'] at heq
      exact h.distinct hs hv heq
    · rw [hp, hp'] at heq
      exact h.distinct hs hs' heq
  · rintro p (hp | ⟨w, y, hw, hp1, hp2⟩)
    · refine ⟨.inl hp, ?_⟩
      rintro rfl
      exact hp (h.opened hv)
    · rcases hcases hw with ⟨-, -, hp⟩ | ⟨hne, hw, hp⟩ <;> rw [hp] at hp1 hp2
      · refine ⟨.inr ⟨v, x, hv, hp1, (Nat.le_succ _).trans hp2⟩, ?_⟩
        rintro rfl
        exact absurd hp2 (Nat.not_succ_le_self _)
      · refine ⟨.inr ⟨w, y, hw, hp1, hp2⟩, ?_⟩
        rintro rfl
        exact hne (h.distinct hw hv hp1.symm)

/-- **What `SetStream` keeps**: the stream that it opens has not been opened before, and it is none
of those that the caller names later. -/
theorem Inv.setStream (h : Inv fl seed run n s l) (hn : n + 1 < 2 ^ 63) {v : ℕ} {stream : Int64}
    {x : RandomVariableStream} {m : RngSeedManager}
    (hset : RandomVariableStream.setStream fl stream s.manager = some (x, m))
    (hname : stream ≠ -1 → 0 ≤ stream →
      targetStream stream ∉ l.opened ∧ (targetStream stream).toNat < wholeStreams) :
    let s' : Variables := { manager := m, vars := update s.vars v (some x) }
    ∃ l', Inv fl seed run (n + 1) s' l' ∧ (∀ p, Ahead s' l' p → Ahead s l p) ∧
      ∀ stream', 0 ≤ stream' → (stream = -1 ∨ stream' ≠ stream) →
        targetStream stream' ∉ l.opened → targetStream stream' ∉ l'.opened := by
  obtain ⟨t, hnew, hseed, hrun, hcase⟩ := RandomVariableStream.setStream_cases hset
  have hx : stateAt fl seed run (t, 0) = some x.rng := by
    rw [h.seed_eq, h.run_eq] at hnew
    rw [stateAt, hnew, iterate_zero, Option.map_id_fun, id]
  rw [h.seed_eq] at hseed
  rw [h.run_eq] at hrun
  have hindex := h.nextStreamIndex_le
  have hbase : baseStream.toNat = 2 ^ 63 := by decide
  rcases hcase with ⟨hauto, rfl, hm⟩ | ⟨hne, hnonneg, rfl, hm⟩
  · have hadd : (s.manager.nextStreamIndex + 1).toNat = s.manager.nextStreamIndex.toNat + 1 := by
      rw [UInt64.toNat_add, UInt64.toNat_one]
      omega
    have hlt : s.manager.nextStreamIndex < baseStream := by
      rw [UInt64.lt_iff_toNat_lt]
      omega
    have hfresh : s.manager.nextStreamIndex ∉ l.opened := fun hmem =>
      absurd (h.lower _ hmem hlt) (UInt64.lt_irrefl _)
    have hwhole : s.manager.nextStreamIndex.toNat < wholeStreams := by
      rw [wholeStreams_eq]
      omega
    have hsucc : s.manager.nextStreamIndex < m.nextStreamIndex := by
      rw [hm, UInt64.lt_iff_toNat_lt]
      omega
    obtain ⟨hinv, hahead⟩ := h.open_ (v := v) hfresh hwhole hx hseed hrun
      (by rw [hm]; omega) (UInt64.le_of_lt hsucc) fun _ => hsucc
    refine ⟨_, hinv, hahead, fun stream' hpos _ hout => ?_⟩
    rintro (heq | hmem)
    · exact baseStream_le hpos (heq ▸ hlt)
    · exact hout hmem
  · obtain ⟨hfresh, hwhole⟩ := hname hne hnonneg
    obtain ⟨hinv, hahead⟩ := h.open_ (v := v) hfresh hwhole hx hseed hrun
      (by rw [hm]; omega) (by rw [hm]; exact UInt64.le_refl _)
      fun hlt => absurd hlt (baseStream_le hnonneg)
    refine ⟨_, hinv, hahead, fun stream' _ hother hout => ?_⟩
    rintro (heq | hmem)
    · exact (hother.resolve_left hne) (targetStream_inj heq)
    · exact hout hmem

/-! ## Runs -/

/-- The streams that a simulation names are all different and whole, and it is of any practical
length. -/
structure Proper (cmds : List Command) : Prop where
  nodup : (cmds.filterMap Command.explicitStream).Nodup
  whole : ∀ stream ∈ cmds.filterMap Command.explicitStream,
    (targetStream stream).toNat < wholeStreams
  length_lt : cmds.length < 2 ^ 63

/-- The streams that are named after a `SetStream`. -/
theorem explicitStream_setStream {v : ℕ} {stream : Int64} {cmds : List Command}
    (hnodup : ((Command.setStream v stream :: cmds).filterMap Command.explicitStream).Nodup) :
    (∀ stream' ∈ cmds.filterMap Command.explicitStream,
        stream' ∈ (Command.setStream v stream :: cmds).filterMap Command.explicitStream ∧
          (stream = -1 ∨ stream' ≠ stream)) ∧
      (cmds.filterMap Command.explicitStream).Nodup ∧
      (stream ≠ -1 →
        stream ∈ (Command.setStream v stream :: cmds).filterMap Command.explicitStream) := by
  rw [List.filterMap_cons] at hnodup ⊢
  by_cases hauto : stream = -1
  · have hnone : (Command.setStream v stream).explicitStream = none := if_pos hauto
    rw [hnone] at hnodup ⊢
    exact ⟨fun stream' hmem => ⟨hmem, .inl hauto⟩, hnodup, fun hne => absurd hauto hne⟩
  · have hsome : (Command.setStream v stream).explicitStream = some stream := if_neg hauto
    rw [hsome] at hnodup ⊢
    obtain ⟨hnot, hnd⟩ := List.nodup_cons.mp hnodup
    exact ⟨fun stream' hmem => ⟨.tail _ hmem, .inr fun heq => hnot (heq ▸ hmem)⟩, hnd,
      fun _ => .head _⟩

/-- The states that a simulation draws from, by their positions. -/
theorem Inv.observe (h : Inv fl seed run n s l) {cmds : List Command}
    (hlen : n + cmds.length < 2 ^ 63) (hnodup : (cmds.filterMap Command.explicitStream).Nodup)
    (hnames : ∀ stream ∈ cmds.filterMap Command.explicitStream,
      (0 ≤ stream → targetStream stream ∉ l.opened) ∧ (targetStream stream).toNat < wholeStreams) :
    ∃ ps : List (UInt64 × ℕ),
      ((machine fl).observe drawnFrom (some s) cmds).map some = ps.map (stateAt fl seed run) ∧
        ps.Nodup ∧ ∀ p ∈ ps, Ahead s l p ∧ p.1.toNat < wholeStreams ∧ p.2 < 2 ^ 63 := by
  induction cmds generalizing n s l with
  | nil => exact ⟨[], rfl, .nil, by simp⟩
  | cons c cmds ih =>
    rw [List.length_cons] at hlen
    rw [Machine.observe_cons, next_eq, Option.bind_some]
    cases c with
    | draw v =>
      have hnames' : (Command.draw v :: cmds).filterMap Command.explicitStream =
        cmds.filterMap Command.explicitStream := rfl
      rw [hnames'] at hnodup hnames
      cases hv : s.vars v with
      | none =>
        have happly : s.apply fl (.draw v) = none := by simp [apply, hv]
        refine ⟨[], ?_, .nil, by simp⟩
        simp [happly, drawnFrom, hv]
      | some x =>
        obtain ⟨hinv, hahead⟩ := h.draw hv
        obtain ⟨ps, hps, hnd, hmem⟩ := ih hinv (by omega) hnodup hnames
        have happly : (s.apply fl (.draw v)).map Prod.snd = some
            { s with vars := update s.vars v (some { x with rng := x.rng.drawn fl }) } := by
          simp [apply, hv, RngStream.drawn]
        refine ⟨l.position v :: ps, ?_, List.nodup_cons.mpr ⟨?_, hnd⟩, ?_⟩
        · rw [happly, List.map_append, hps, List.map_cons, h.rng hv]
          simp [drawnFrom, hv]
        · intro hv'
          exact (hahead _ (hmem _ hv').1).2 rfl
        · intro p hp
          rcases List.mem_cons.mp hp with rfl | hp
          · refine ⟨.inr ⟨v, x, hv, rfl, le_rfl⟩, h.whole _ (h.opened hv), ?_⟩
            have := h.count_le hv
            omega
          · obtain ⟨ha, hp'⟩ := hmem p hp
            exact ⟨(hahead p ha).1, hp'⟩
    | setStream v stream =>
      have hdraw : drawnFrom (some s) (.setStream v stream) = none := rfl
      rw [hdraw, Option.toList_none, List.nil_append]
      cases hset : RandomVariableStream.setStream fl stream s.manager with
      | none =>
        have happly : s.apply fl (.setStream v stream) = none := by simp [apply, hset]
        refine ⟨[], ?_, .nil, by simp⟩
        simp [happly]
      | some xm =>
        obtain ⟨x, m⟩ := xm
        have happly : (s.apply fl (.setStream v stream)).map Prod.snd =
            some { manager := m, vars := update s.vars v (some x) } := by
          simp [apply, hset]
        rw [happly]
        obtain ⟨hlater, hnd, hmem⟩ := explicitStream_setStream hnodup
        obtain ⟨l', hinv, hahead, hopened⟩ := h.setStream (v := v) (by omega) hset
          fun hne hpos => ⟨(hnames stream (hmem hne)).1 hpos, (hnames stream (hmem hne)).2⟩
        obtain ⟨ps, hps, hnd, hps'⟩ := ih hinv (by omega) hnd fun stream' hin => by
          obtain ⟨hin, hother⟩ := hlater stream' hin
          obtain ⟨hout, hwhole⟩ := hnames stream' hin
          exact ⟨fun hpos => hopened stream' hpos hother (hout hpos), hwhole⟩
        exact ⟨ps, hps, hnd, fun p hp => ⟨hahead p (hps' p hp).1, (hps' p hp).2⟩⟩

theorem inv_start (seed : UInt32) (run : UInt64) :
    Inv fl seed run 0 (start seed run) { opened := ∅, position := fun _ => (0, 0) } where
  seed_eq := rfl
  run_eq := rfl
  nextStreamIndex_le := le_rfl
  lower _ ht := absurd ht (Set.notMem_empty _)
  whole _ ht := absurd ht (Set.notMem_empty _)
  opened h := by cases h
  count_le h := by cases h
  rng h := by cases h
  distinct h := by cases h

variable (fl) in
theorem observe_start {cmds : List Command} (h : Proper cmds) (seed : UInt32) (run : UInt64) :
    ∃ ps : List (UInt64 × ℕ),
      ((machine fl).observe drawnFrom (some (start seed run)) cmds).map some =
          ps.map (stateAt fl seed run) ∧
        ps.Nodup ∧ ∀ p ∈ ps, p.1.toNat < wholeStreams ∧ p.2 < 2 ^ 63 := by
  have hlen : 0 + cmds.length < 2 ^ 63 := by
    rw [zero_add]
    exact h.length_lt
  obtain ⟨ps, hps, hnd, hmem⟩ := (inv_start seed run).observe hlen h.nodup fun stream hin =>
    ⟨fun _ => Set.notMem_empty _, h.whole stream hin⟩
  exact ⟨ps, hps, hnd, fun p hp => (hmem p hp).2⟩

/-- **Replications are independent.** In any number of simulations with one seed and different run
numbers, no two draws come from the same state of the generator, neither in one simulation nor in
two. -/
theorem replications_nodup (hs : ValidSeed seed) {reps : List (UInt64 × List Command)}
    (hruns : (reps.map Prod.fst).Nodup) (hlt : ∀ rep ∈ reps, rep.1.toNat < 2 ^ 51)
    (hproper : ∀ rep ∈ reps, Proper rep.2) :
    (reps.flatMap fun rep =>
      (machine fl).observe drawnFrom (some (start seed rep.1)) rep.2).Nodup := by
  have hinj {run run' : UInt64} {p p' : UInt64 × ℕ} (hrun : run.toNat < 2 ^ 51)
      (hrun' : run'.toNat < 2 ^ 51) (hp : p.1.toNat < wholeStreams ∧ p.2 < 2 ^ 63)
      (hp' : p'.1.toNat < wholeStreams ∧ p'.2 < 2 ^ 63)
      (heq : stateAt fl seed run p = stateAt fl seed run' p') : run = run' ∧ p = p' := by
    obtain ⟨h1, h2, h3⟩ := (new_drawn_inj fl hs hp.1 hp'.1 hrun hrun'
      (hp.2.trans (by norm_num)) (hp'.2.trans (by norm_num))).mp heq
    exact ⟨h2, Prod.ext h1 h3⟩
  rw [List.nodup_flatMap]
  constructor
  · intro rep hrep
    obtain ⟨ps, hps, hnd, hmem⟩ := observe_start fl (hproper rep hrep) seed rep.1
    refine List.Nodup.of_map some ?_
    rw [hps]
    refine hnd.map_on fun p hp p' hp' heq => ?_
    exact (hinj (hlt rep hrep) (hlt rep hrep) (hmem p hp) (hmem p' hp') heq).2
  · refine (List.pairwise_map.mp hruns).imp_of_mem fun hrep hrep' hne => ?_
    intro r hr hr'
    obtain ⟨ps, hps, -, hmem⟩ := observe_start fl (hproper _ hrep) seed _
    obtain ⟨ps', hps', -, hmem'⟩ := observe_start fl (hproper _ hrep') seed _
    have hin := List.mem_map_of_mem (f := some) hr
    have hin' := List.mem_map_of_mem (f := some) hr'
    rw [hps] at hin
    rw [hps'] at hin'
    obtain ⟨p, hp, he⟩ := List.mem_map.mp hin
    obtain ⟨p', hp', he'⟩ := List.mem_map.mp hin'
    exact hne (hinj (hlt _ hrep) (hlt _ hrep') (hmem p hp) (hmem' p' hp') (he.trans he'.symm)).1

/-- A variable with a stream of its own and one with the stream `4`, and two draws from each. -/
def twoVariables : List Command :=
  [.setStream 0 (-1), .setStream 1 (-1), .setStream 1 4, .draw 0, .draw 1, .draw 0, .draw 1]

theorem replications_nodup_twoVariables :
    ([(1, twoVariables), (2, twoVariables)].flatMap fun rep : UInt64 × List Command =>
      (machine (Rounding.nearestEven 52)).observe drawnFrom (some (start 1 rep.1)) rep.2).Nodup := by
  have hproper : Proper twoVariables := by
    refine ⟨by decide, ?_, by decide⟩
    have hnames : twoVariables.filterMap Command.explicitStream = [4] := by decide
    have htarget : (targetStream 4).toNat = 9223372036854775812 := by decide
    rw [hnames, List.forall_mem_singleton, htarget, wholeStreams_eq]
    norm_num
  refine replications_nodup ⟨by decide, by decide⟩
    (by decide) (by decide) ?_
  simp [hproper]

end Variables

end StabilizedRed
