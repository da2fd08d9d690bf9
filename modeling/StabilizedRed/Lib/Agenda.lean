import Mathlib

/-!
# Agendas

An agenda is a clock and a list of dated entries, the earlier dates first and the entries of one
date in the order in which they were put down. `put` puts an entry behind those of its date, `pop`
takes the first entry and moves the clock to its date.

`insert_eq_append` says where a new entry goes. What follows from it is how a property of the order
is kept: two kinds of entries that are never the wrong way round (`pairwise_insert`), and the
sublist of one kind of entries, which a new entry joins at the end or does not change
(`filterMap_insert`).
-/

/-- A clock and entries that are not yet due, in the order of their dates. -/
structure Agenda (τ ε : Type*) [LinearOrder τ] where
  now : τ
  entries : List (τ × ε)
  sorted : entries.Pairwise fun x y => x.1 ≤ y.1
  due : ∀ x ∈ entries, now ≤ x.1

namespace Agenda

variable {τ ε η : Type*} [LinearOrder τ]

/-- The list with `x`, dated `t`, behind the entries dated `t` or earlier. -/
def insert (t : τ) (x : ε) : List (τ × ε) → List (τ × ε)
  | [] => [(t, x)]
  | y :: l => if t < y.1 then (t, x) :: y :: l else y :: insert t x l

theorem insert_perm (t : τ) (x : ε) (l : List (τ × ε)) : (insert t x l).Perm ((t, x) :: l) := by
  induction l with
  | nil => exact .refl _
  | cons y l ih =>
    unfold insert
    split
    · exact .refl _
    · exact (ih.cons y).trans (.swap (t, x) y l)

theorem mem_insert {t : τ} {x : ε} {y : τ × ε} {l : List (τ × ε)} :
    y ∈ insert t x l ↔ y = (t, x) ∨ y ∈ l := by
  rw [(insert_perm t x l).mem_iff, List.mem_cons]

/-- What the entries hold does not matter for their places. -/
theorem map_insert (f : ε → η) (t : τ) (x : ε) (l : List (τ × ε)) :
    (insert t x l).map (Prod.map id f) = insert t (f x) (l.map (Prod.map id f)) := by
  induction l with
  | nil => rfl
  | cons y l ih =>
    unfold insert
    rw [apply_ite (List.map (Prod.map id f)), List.map_cons, List.map_cons, List.map_cons, ih]
    rfl

/-- **Where a new entry goes**: behind the entries dated no later, before those dated later. -/
theorem insert_eq_append (t : τ) (x : ε) {l : List (τ × ε)}
    (h : l.Pairwise fun x y => x.1 ≤ y.1) :
    ∃ l₁ l₂, l = l₁ ++ l₂ ∧ insert t x l = l₁ ++ (t, x) :: l₂ ∧ (∀ y ∈ l₁, y.1 ≤ t) ∧
      ∀ y ∈ l₂, t < y.1 := by
  induction l with
  | nil => exact ⟨[], [], rfl, rfl, List.forall_mem_nil _, List.forall_mem_nil _⟩
  | cons y l ih =>
    rw [List.pairwise_cons] at h
    unfold insert
    by_cases ht : t < y.1
    · refine ⟨[], y :: l, rfl, if_pos ht, List.forall_mem_nil _, ?_⟩
      exact List.forall_mem_cons.mpr ⟨ht, fun z hz => ht.trans_le (h.1 z hz)⟩
    · obtain ⟨l₁, l₂, rfl, he, h₁, h₂⟩ := ih h.2
      refine ⟨y :: l₁, l₂, rfl, ?_, List.forall_mem_cons.mpr ⟨not_lt.mp ht, h₁⟩, h₂⟩
      rw [if_neg ht, he, List.cons_append]

/-- **Order rule.** A relation between earlier and later entries is kept if it holds between the new
entry and those before and behind its place. -/
theorem pairwise_insert {R : τ × ε → τ × ε → Prop} {t : τ} {x : ε} {l : List (τ × ε)}
    (hs : l.Pairwise fun x y => x.1 ≤ y.1) (h : l.Pairwise R)
    (hle : ∀ y ∈ l, y.1 ≤ t → R y (t, x)) (hlt : ∀ y ∈ l, t < y.1 → R (t, x) y) :
    (insert t x l).Pairwise R := by
  obtain ⟨l₁, l₂, rfl, he, h₁, h₂⟩ := insert_eq_append t x hs
  rw [List.pairwise_append] at h
  rw [he, List.pairwise_append, List.pairwise_cons]
  refine ⟨h.1, ⟨fun y hy => ?_, h.2.1⟩, fun y hy => List.forall_mem_cons.mpr ⟨?_, h.2.2 y hy⟩⟩
  · exact hlt y (List.mem_append_right _ hy) (h₂ y hy)
  · exact hle y (List.mem_append_left _ hy) (h₁ y hy)

/-- **Sublist rule.** The entries of one kind stay in their order, and a new one of that kind comes
last if none of them is dated later. -/
theorem filterMap_insert {f : τ × ε → Option η} {t : τ} {x : ε} {l : List (τ × ε)}
    (hs : l.Pairwise fun x y => x.1 ≤ y.1)
    (h : (f (t, x)).isSome → ∀ y ∈ l, (f y).isSome → y.1 ≤ t) :
    (insert t x l).filterMap f = l.filterMap f ++ (f (t, x)).toList := by
  obtain ⟨l₁, l₂, rfl, he, -, h₂⟩ := insert_eq_append t x hs
  rw [he, List.filterMap_append, List.filterMap_append, List.append_assoc]
  refine congrArg _ ?_
  cases hx : f (t, x) with
  | none => rw [List.filterMap_cons_none hx, Option.toList_none, List.append_nil]
  | some v =>
    have hnil : l₂.filterMap f = [] := by
      rw [List.filterMap_eq_nil_iff]
      intro y hy
      by_contra hne
      have hle := h (by rw [hx]; rfl) y (List.mem_append_right _ hy)
        (Option.isSome_iff_ne_none.mpr hne)
      exact absurd (h₂ y hy) (not_lt.mpr hle)
    rw [List.filterMap_cons_some hx, hnil, Option.toList_some, List.nil_append]

/-- Put down `x` for the date `t`. -/
def put (a : Agenda τ ε) (t : τ) (ht : a.now ≤ t) (x : ε) : Agenda τ ε where
  now := a.now
  entries := insert t x a.entries
  sorted := pairwise_insert a.sorted a.sorted (fun _ _ h => h) fun _ _ h => h.le
  due y hy := by
    rcases mem_insert.mp hy with rfl | hy
    · exact ht
    · exact a.due y hy

/-- Take the first entry and move the clock to its date. -/
def pop (a : Agenda τ ε) : Option (ε × Agenda τ ε) :=
  match h : a.entries with
  | [] => none
  | y :: rest => some (y.2,
      { now := y.1
        entries := rest
        sorted := (List.pairwise_cons.mp (h ▸ a.sorted)).2
        due := (List.pairwise_cons.mp (h ▸ a.sorted)).1 })

@[simp] theorem put_now (a : Agenda τ ε) (t : τ) (ht : a.now ≤ t) (x : ε) :
    (a.put t ht x).now = a.now := rfl

@[simp] theorem put_entries (a : Agenda τ ε) (t : τ) (ht : a.now ≤ t) (x : ε) :
    (a.put t ht x).entries = insert t x a.entries := rfl

/-- What `pop` can do. -/
theorem pop_cases (a : Agenda τ ε) :
    (a.entries = [] ∧ a.pop = none) ∨
    ∃ x b, a.pop = some (x, b) ∧ a.entries = (b.now, x) :: b.entries ∧ a.now ≤ b.now := by
  unfold pop
  split
  · rename_i h
    exact .inl ⟨h, rfl⟩
  · rename_i y rest h
    exact .inr ⟨_, _, rfl, h, a.due y (h ▸ List.mem_cons_self)⟩

/-- On a clock of integers, put down `x` for `delay` steps from now. -/
def schedule (a : Agenda ℤ ε) (delay : ℕ) (x : ε) : Agenda ℤ ε :=
  a.put (a.now + delay) (le_add_of_nonneg_right (Int.natCast_nonneg delay)) x

@[simp] theorem schedule_now (a : Agenda ℤ ε) (delay : ℕ) (x : ε) :
    (a.schedule delay x).now = a.now := rfl

@[simp] theorem schedule_entries (a : Agenda ℤ ε) (delay : ℕ) (x : ε) :
    (a.schedule delay x).entries = insert (a.now + delay) x a.entries := rfl

/-- A new entry of another kind. -/
theorem filterMap_schedule_none {f : ℤ × ε → Option η} (a : Agenda ℤ ε) {delay : ℕ} {x : ε}
    (h : f (a.now + delay, x) = none) :
    (a.schedule delay x).entries.filterMap f = a.entries.filterMap f := by
  rw [schedule_entries, filterMap_insert a.sorted, h, Option.toList_none, List.append_nil]
  rw [h]
  exact fun hs => absurd hs Bool.false_ne_true

/-- A new entry of this kind, none of which is dated later. -/
theorem filterMap_schedule_some {f : ℤ × ε → Option η} (a : Agenda ℤ ε) {delay : ℕ} {x : ε} {v : η}
    (h : f (a.now + delay, x) = some v)
    (hle : ∀ y ∈ a.entries, (f y).isSome → y.1 ≤ a.now + delay) :
    (a.schedule delay x).entries.filterMap f = a.entries.filterMap f ++ [v] := by
  rw [schedule_entries, filterMap_insert a.sorted fun _ => hle, h, Option.toList_some]

/-- An agenda without entries. -/
def empty (t : τ) : Agenda τ ε := ⟨t, [], .nil, List.forall_mem_nil _⟩

end Agenda
