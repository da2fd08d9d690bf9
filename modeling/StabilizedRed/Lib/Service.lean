import Mathlib

/-!
# A server that takes one job after the other

Jobs come at given dates and need given times. The server takes them in their order, each as soon as
it has come and the one before it is done: `starts` are the dates at which they begin, and `freeAt`
is the date from which the server is free again.

* The first jobs are served as if no others came (`starts_append`).
* `freeAt_le`: the last job is done by `b` if, from each of the jobs on, all that is to be done
  would be done by `b`.
* `le_of_mem_starts`: no job begins before the server is free.
-/

/-- A job: when it comes and how long it takes. -/
structure Job (τ : Type*) where
  arrival : τ
  length : τ

namespace Service

variable {τ : Type*} [AddCommGroup τ] [LinearOrder τ]

/-- The dates at which the jobs begin, on a server that is free from `free` on. -/
def starts (free : τ) : List (Job τ) → List τ
  | [] => []
  | j :: js => max j.arrival free :: starts (max j.arrival free + j.length) js

/-- The date from which the server is free after the jobs. -/
def freeAt (free : τ) : List (Job τ) → τ
  | [] => free
  | j :: js => freeAt (max j.arrival free + j.length) js

/-- What the jobs take together. -/
def work (js : List (Job τ)) : τ := (js.map Job.length).sum

@[simp] theorem starts_nil (free : τ) : starts free ([] : List (Job τ)) = [] := rfl

@[simp] theorem freeAt_nil (free : τ) : freeAt free ([] : List (Job τ)) = free := rfl

omit [LinearOrder τ] in
@[simp] theorem work_nil : work ([] : List (Job τ)) = 0 := rfl

omit [LinearOrder τ] in
@[simp] theorem work_cons (j : Job τ) (js : List (Job τ)) : work (j :: js) = j.length + work js := by
  simp [work]

@[simp] theorem length_starts (free : τ) (js : List (Job τ)) :
    (starts free js).length = js.length := by
  induction js generalizing free with
  | nil => rfl
  | cons j js ih => simp [starts, ih]

theorem starts_append (free : τ) (js ks : List (Job τ)) :
    starts free (js ++ ks) = starts free js ++ starts (freeAt free js) ks := by
  induction js generalizing free with
  | nil => rfl
  | cons j js ih => simp [starts, freeAt, ih]

theorem freeAt_append (free : τ) (js ks : List (Job τ)) :
    freeAt free (js ++ ks) = freeAt (freeAt free js) ks := by
  induction js generalizing free with
  | nil => rfl
  | cons j js ih => simp [freeAt, ih]

theorem freeAt_concat (free : τ) (js : List (Job τ)) (j : Job τ) :
    freeAt free (js ++ [j]) = max j.arrival (freeAt free js) + j.length := by
  simp [freeAt_append, freeAt]

/-- **A bound for the end**: from the start on, and from each of the jobs on. -/
theorem freeAt_le {free b : τ} {js : List (Job τ)} (h0 : free + work js ≤ b)
    (h : ∀ ks j ls, js = ks ++ j :: ls → j.arrival + work (j :: ls) ≤ b) : freeAt free js ≤ b := by
  induction js generalizing free with
  | nil => simpa using h0
  | cons j js ih =>
    refine ih ?_ fun ks i ls he => h (j :: ks) i ls (by rw [he]; rfl)
    have hj := h [] j js rfl
    rw [work_cons] at h0 hj
    rcases max_choice j.arrival free with hm | hm <;> rw [hm, add_assoc]
    · exact hj
    · exact h0

variable [IsOrderedAddMonoid τ]

/-- No job begins before the server is free. -/
theorem le_of_mem_starts {free t : τ} {js : List (Job τ)} (hpos : ∀ j ∈ js, 0 ≤ j.length)
    (ht : t ∈ starts free js) : free ≤ t := by
  induction js generalizing free with
  | nil => cases ht
  | cons j js ih =>
    obtain ⟨hp, hps⟩ := List.forall_mem_cons.mp hpos
    rcases List.mem_cons.mp ht with rfl | ht
    · exact le_max_right _ _
    · exact (le_max_right _ _).trans ((le_add_of_nonneg_right hp).trans (ih hps ht))

end Service
