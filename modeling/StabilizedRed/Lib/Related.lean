import Mathlib

/-!
# Lists and options related element by element

What `List.Forall₂` and `Option.Rel` need in a proof that compares two states: related tables have
related entries at each place (`List.Forall₂.getElem?`), and stay related when related entries are
put at one place (`List.Forall₂.set`).
-/

variable {β γ : Type*} {R : β → γ → Prop}

namespace List.Forall₂

variable {l : List β} {l' : List γ}

theorem set (h : List.Forall₂ R l l') (i : ℕ) {x : β} {x' : γ} (hx : R x x') :
    List.Forall₂ R (l.set i x) (l'.set i x') := by
  induction h generalizing i with
  | nil => exact .nil
  | cons hy ht ih =>
    cases i with
    | zero => exact .cons hx ht
    | succ i => exact .cons hy (ih i)

theorem getElem? (h : List.Forall₂ R l l') (i : ℕ) : Option.Rel R l[i]? l'[i]? := by
  induction h generalizing i with
  | nil => exact .none
  | cons hy _ ih =>
    cases i with
    | zero => exact .some hy
    | succ i => exact ih i

end List.Forall₂

variable {o : Option γ}

theorem Option.exists_of_rel_some {x : β} (h : Option.Rel R (some x) o) :
    ∃ y, o = some y ∧ R x y := by
  cases h with
  | some h => exact ⟨_, rfl, h⟩

theorem Option.eq_none_of_rel_none (h : Option.Rel R none o) : o = none := by
  cases h
  rfl

theorem Option.rel_eq_iff {x y : Option β} : Option.Rel Eq x y ↔ x = y := by
  cases x <;> cases y <;> simp
