import Mathlib

/-!
# Hashes that absorb one word after the other

Three operations that mix the bits of a word lose nothing: the exclusive or with the word shifted
right (`xorShift_injective`), rotation (`rotate_injective`) and multiplication by a word that has an
inverse (`mul_injective`).

An operation `f` that absorbs a word into a state is `Latin` if it is injective in either argument.
Words that are absorbed in order then give different states if they differ in one place
(`OneOff.foldl_ne`).
-/

namespace Mix

/-! ## Words -/

section Words

variable {w : ℕ}

/-- The highest bits are those of `x`, and each bit is found from a higher one. -/
theorem xorShift_injective {n : ℕ} (hn : 0 < n) :
    Function.Injective fun x : BitVec w => x ^^^ (x >>> n) := by
  intro x y h
  apply BitVec.eq_of_getLsbD_eq
  intro i hi
  induction hk : w - i using Nat.strong_induction_on generalizing i with
  | _ k ih =>
    have hshift : x.getLsbD (n + i) = y.getLsbD (n + i) := by
      by_cases hlt : n + i < w
      · exact ih (w - (n + i)) (by omega) (n + i) hlt rfl
      · rw [BitVec.getLsbD_of_ge _ _ (by omega), BitVec.getLsbD_of_ge _ _ (by omega)]
    have hbit := congrArg (fun v => v.getLsbD i) h
    simpa [hshift] using hbit

/-- A rotation moves each bit to a place of its own. -/
theorem rotate_injective {r : ℕ} (hr : r ≤ w) :
    Function.Injective fun x : BitVec w => (x <<< r) ||| (x >>> (w - r)) := by
  intro x y h
  apply BitVec.eq_of_getLsbD_eq
  intro i hi
  by_cases hlt : i + r < w
  · have hbit := congrArg (fun v => v.getLsbD (i + r)) h
    have hge : w ≤ w - r + (i + r) := by omega
    rw [BitVec.getLsbD_eq_getElem hi, BitVec.getLsbD_eq_getElem hi]
    simpa [hlt, BitVec.getLsbD_of_ge x _ hge, BitVec.getLsbD_of_ge y _ hge] using hbit
  · have hbit := congrArg (fun v => v.getLsbD (i + r - w)) h
    have hlow : i + r - w < r := by omega
    have hi' : w - r + (i + r - w) = i := by omega
    simpa [hlow, hi'] using hbit

theorem mul_injective {M : Type*} [Monoid M] {c d : M} (h : c * d = 1) :
    Function.Injective fun x : M => x * c := by
  intro x y hxy
  have hmul := congrArg (· * d) hxy
  simpa [mul_assoc, h] using hmul

end Words

/-! ## Absorbing words -/

variable {H W : Type*}

/-- `f` loses neither the state nor the word. -/
structure Latin (f : H → W → H) : Prop where
  state (x : W) : Function.Injective fun h => f h x
  word (h : H) : Function.Injective (f h)

/-- The lists differ in one place. -/
inductive OneOff : List W → List W → Prop where
  | head {x y : W} (h : x ≠ y) (l : List W) : OneOff (x :: l) (y :: l)
  | cons (x : W) {l l' : List W} (h : OneOff l l') : OneOff (x :: l) (x :: l')

variable {f : H → W → H}

theorem Latin.foldl_injective (hf : Latin f) (l : List W) :
    Function.Injective fun h => l.foldl f h := by
  induction l with
  | nil => exact fun _ _ h => h
  | cons x l ih => exact fun h h' he => hf.state x (ih he)

/-- **Words that differ in one place give different states.** -/
theorem OneOff.foldl_ne (hf : Latin f) {l l' : List W} (h : OneOff l l') (s : H) :
    l.foldl f s ≠ l'.foldl f s := by
  induction h generalizing s with
  | head hne l => exact fun he => hne (hf.word s (hf.foldl_injective l he))
  | cons x _ ih => exact ih (f s x)

theorem OneOff.map {V : Type*} {g : W → V} (hg : Function.Injective g) {l l' : List W}
    (h : OneOff l l') : OneOff (l.map g) (l'.map g) := by
  induction h with
  | head hne l => exact .head (hg.ne hne) _
  | cons x _ ih => exact .cons (g x) ih

end Mix
