import Mathlib

/-!
# Exponentially weighted averages

`ewma a hs` is the average that starts at `0` and takes in each observation `h` of `hs` with
weight `a`: `p ← (1 - a) * p + a * h`.

* `ewma_eq_sum`: the closed form, a sum of the observations with geometric weights.
* `ewma_nonneg`, `ewma_le`: its range for observations between `0` and `1`.
* `ewma_mono`: it is monotone in every observation.
* `ewma_eq_zero_iff`: for `0 < a < 1` and nonnegative observations it is `0` only if all are.
-/

variable {K : Type*} [CommRing K]

/-- The average after the observations `hs`, each taken in with weight `a`. -/
def ewma (a : K) (hs : List K) : K := hs.foldl (fun p h => (1 - a) * p + a * h) 0

@[simp] theorem ewma_nil (a : K) : ewma a [] = 0 := rfl

@[simp] theorem ewma_concat (a : K) (hs : List K) (h : K) :
    ewma a (hs ++ [h]) = (1 - a) * ewma a hs + a * h := by
  simp [ewma]

/-- **Closed form.** Observation `j` of `n` counts with weight `a * (1 - a) ^ (n - 1 - j)`. -/
theorem ewma_eq_sum (a : K) (hs : List K) :
    ewma a hs = ∑ j : Fin hs.length, a * (1 - a) ^ (hs.length - 1 - j) * hs[j] := by
  have hfn : ∀ hs : List K, (∑ j : Fin hs.length, a * (1 - a) ^ (hs.length - 1 - j) * hs[j]) =
      ∑ j ∈ Finset.range hs.length, a * (1 - a) ^ (hs.length - 1 - j) * hs.getD j 0 := by
    intro hs
    rw [← Fin.sum_univ_eq_sum_range fun j => a * (1 - a) ^ (hs.length - 1 - j) * hs.getD j 0]
    exact Finset.sum_congr rfl fun j _ => by simp
  rw [hfn]
  induction hs using List.reverseRecOn with
  | nil => simp
  | append_singleton hs h ih =>
    rw [ewma_concat, ih, List.length_append, List.length_singleton, Finset.sum_range_succ,
      Finset.mul_sum]
    congr 1
    · -- One more observation multiplies every earlier weight by `1 - a`.
      refine Finset.sum_congr rfl fun j hj => ?_
      have hj := Finset.mem_range.mp hj
      rw [List.getD_append _ _ _ _ hj, show hs.length + 1 - 1 - j = hs.length - 1 - j + 1 by omega,
        pow_succ]
      ring
    · simp

section Order

variable [LinearOrder K] [IsStrictOrderedRing K] {a : K} {hs : List K}

theorem ewma_nonneg (h0 : 0 ≤ a) (h1 : a ≤ 1) (hh : ∀ h ∈ hs, 0 ≤ h) : 0 ≤ ewma a hs := by
  induction hs using List.reverseRecOn with
  | nil => exact le_rfl
  | append_singleton hs h ih =>
    have hp := ih fun x hx => hh x (by simp [hx])
    have := hh h (by simp)
    rw [ewma_concat]
    exact add_nonneg (mul_nonneg (by linarith) hp) (mul_nonneg h0 this)

theorem ewma_le (h0 : 0 ≤ a) (h1 : a ≤ 1) (hh : ∀ h ∈ hs, h ≤ 1) :
    ewma a hs ≤ 1 - (1 - a) ^ hs.length := by
  induction hs using List.reverseRecOn with
  | nil => simp
  | append_singleton hs h ih =>
    have hp := ih fun x hx => hh x (by simp [hx])
    have hh := hh h (by simp)
    rw [ewma_concat, List.length_append, List.length_singleton, pow_succ]
    calc (1 - a) * ewma a hs + a * h
        ≤ (1 - a) * (1 - (1 - a) ^ hs.length) + a * 1 :=
          add_le_add (mul_le_mul_of_nonneg_left hp (by linarith)) (mul_le_mul_of_nonneg_left hh h0)
      _ = 1 - (1 - a) ^ hs.length * (1 - a) := by ring

theorem ewma_mono (h0 : 0 ≤ a) (h1 : a ≤ 1) {hs hs' : List K} (hle : List.Forall₂ (· ≤ ·) hs hs') :
    ewma a hs ≤ ewma a hs' := by
  suffices hgen : ∀ p p' : K, p ≤ p' →
      hs.foldl (fun p h => (1 - a) * p + a * h) p ≤ hs'.foldl (fun p h => (1 - a) * p + a * h) p' from
    hgen 0 0 le_rfl
  induction hle with
  | nil => exact fun p p' hp => hp
  | cons hx _ ih =>
    intro p p' hp
    apply ih
    exact add_le_add (mul_le_mul_of_nonneg_left hp (by linarith)) (mul_le_mul_of_nonneg_left hx h0)

/-- The average of nonnegative observations is `0` only if each of them is. -/
theorem ewma_eq_zero_iff (h0 : 0 < a) (h1 : a < 1) (hh : ∀ h ∈ hs, 0 ≤ h) :
    ewma a hs = 0 ↔ ∀ h ∈ hs, h = 0 := by
  induction hs using List.reverseRecOn with
  | nil => simp
  | append_singleton hs h ih =>
    have hpre : ∀ x ∈ hs, 0 ≤ x := fun x hx => hh x (by simp [hx])
    have hp := ewma_nonneg h0.le h1.le hpre
    have hlast := hh h (by simp)
    have h1' : 0 < 1 - a := by linarith
    rw [ewma_concat, add_eq_zero_iff_of_nonneg (mul_nonneg h1'.le hp) (mul_nonneg h0.le hlast),
      mul_eq_zero_iff_left h1'.ne', mul_eq_zero_iff_left h0.ne', ih hpre]
    simp [or_imp, forall_and]

end Order
