import Mathlib

/-!
# A table and the log of the accesses that made it

A table is a list of slots. An access writes a value to a slot or hits the slot that is there, at
some time. `lastWrite`, `hitsSince` and `lastTouch` say of a log of accesses what one slot should
remember: the value that was written last, the number of hits since then, and the time of the last
access.

`View` reads these three off a slot, and `Remembers` says that every slot of a table shows what the
log says of it. `Remembers.concat`, `Remembers.overwrite` and `Remembers.hit` are the rules for a
new slot, a slot that is written again and a slot that is hit. The relation for the count need not
be equality, so that a slot may count in a fixed-width type.
-/

/-- An access to a slot of a table. -/
inductive Access (V T : Type*) where
  | write (slot : ℕ) (value : V) (time : T)
  | hit (slot : ℕ) (time : T)
  deriving DecidableEq, Repr

namespace Access

variable {V T : Type*}

/-- The slot that is accessed. -/
def slot : Access V T → ℕ
  | write i _ _ => i
  | hit i _ => i

/-- The value that is written, if any. -/
def value? : Access V T → Option V
  | write _ v _ => some v
  | hit _ _ => none

/-- When it happened. -/
def time : Access V T → T
  | write _ _ t => t
  | hit _ t => t

/-- The accesses to slot `i`, in order. -/
def atSlot (i : ℕ) (log : List (Access V T)) : List (Access V T) := log.filter fun x => x.slot = i

/-- The value that was written to slot `i` last. -/
def lastWrite (i : ℕ) (log : List (Access V T)) : Option V := ((atSlot i log).filterMap value?).getLast?

/-- The number of hits of slot `i` since it was written last. -/
def hitsSince (i : ℕ) (log : List (Access V T)) : ℕ :=
  ((atSlot i log).reverse.takeWhile fun x => x.value?.isNone).length

/-- The time of the last access to slot `i`. -/
def lastTouch (i : ℕ) (log : List (Access V T)) : Option T := ((atSlot i log).map time).getLast?

variable {i : ℕ} {log : List (Access V T)} {x : Access V T}

theorem atSlot_concat_of_eq (h : x.slot = i) : atSlot i (log ++ [x]) = atSlot i log ++ [x] := by
  unfold atSlot
  rw [List.filter_append, List.filter_singleton, decide_eq_true h]
  rfl

theorem atSlot_concat_of_ne (h : x.slot ≠ i) : atSlot i (log ++ [x]) = atSlot i log := by
  unfold atSlot
  rw [List.filter_append, List.filter_singleton, decide_eq_false h]
  exact List.append_nil _

/-- An access to another slot says nothing about slot `i`. -/
theorem concat_of_ne (log : List (Access V T)) (h : x.slot ≠ i) :
    lastWrite i (log ++ [x]) = lastWrite i log ∧
    hitsSince i (log ++ [x]) = hitsSince i log ∧ lastTouch i (log ++ [x]) = lastTouch i log := by
  unfold lastWrite hitsSince lastTouch
  rw [atSlot_concat_of_ne h]
  exact ⟨rfl, rfl, rfl⟩

theorem concat_write (i : ℕ) (v : V) (t : T) (log : List (Access V T)) :
    lastWrite i (log ++ [Access.write i v t]) = some v ∧ hitsSince i (log ++ [Access.write i v t]) = 0 ∧
      lastTouch i (log ++ [Access.write i v t]) = some t := by
  unfold lastWrite hitsSince lastTouch
  rw [atSlot_concat_of_eq (i := i) (x := .write i v t) rfl]
  simp [value?, time]

theorem concat_hit (i : ℕ) (t : T) (log : List (Access V T)) :
    lastWrite i (log ++ [Access.hit i t]) = lastWrite i log ∧
      hitsSince i (log ++ [Access.hit i t]) = hitsSince i log + 1 ∧
      lastTouch i (log ++ [Access.hit i t]) = some t := by
  unfold lastWrite hitsSince lastTouch
  rw [atSlot_concat_of_eq (i := i) (x := .hit i t) rfl]
  simp [value?, time]

/-- The hits of a slot are accesses. -/
theorem hitsSince_le_length (i : ℕ) (log : List (Access V T)) : hitsSince i log ≤ log.length := by
  unfold hitsSince atSlot
  refine (List.takeWhile_sublist _).length_le.trans ?_
  rw [List.length_reverse]
  exact List.length_filter_le _ _

/-- The last access to a slot is in the log. -/
theorem exists_of_lastTouch {t : T} (h : lastTouch i log = some t) : ∃ x ∈ log, x.time = t := by
  obtain ⟨x, hx, ht⟩ := List.mem_map.mp (List.mem_of_getLast? h)
  exact ⟨x, List.mem_of_mem_filter hx, ht⟩

end Access

/-- How to read a slot of type `S`: its value, and whether it shows a count or a time. -/
structure View (S V T : Type*) where
  value : S → V
  counted : S → ℕ → Prop
  stamped : S → T → Prop

namespace View

variable {S V T : Type*} (w : View S V T)

/-- The slot shows what the log says of slot `i`. -/
structure Shows (log : List (Access V T)) (i : ℕ) (s : S) : Prop where
  value : Access.lastWrite i log = some (w.value s)
  counted : w.counted s (Access.hitsSince i log)
  stamped : ∃ t, Access.lastTouch i log = some t ∧ w.stamped s t

/-- The log is about slots of the table, and each slot shows what the log says of it. -/
structure Remembers (table : List S) (log : List (Access V T)) : Prop where
  slot_lt : ∀ x ∈ log, x.slot < table.length
  shows : ∀ i s, table[i]? = some s → w.Shows log i s

variable {w} {table : List S} {log : List (Access V T)}

theorem remembers_nil : w.Remembers [] [] := ⟨nofun, fun i s h => by cases h⟩

/-- A write is shown by a slot with the value, the count `0` and the time. -/
theorem shows_write {i : ℕ} {s : S} {v : V} {t : T} (hv : w.value s = v) (hc : w.counted s 0)
    (ht : w.stamped s t) : w.Shows (log ++ [Access.write i v t]) i s := by
  obtain ⟨h1, h2, h3⟩ := Access.concat_write i v t log
  exact ⟨by rw [h1, hv], by rw [h2]; exact hc, t, h3, ht⟩

/-- A hit is shown by a slot with the same value, one more in the count, and the time. -/
theorem Shows.hit {i : ℕ} {s s' : S} {t : T} (h : w.Shows log i s) (hv : w.value s' = w.value s)
    (hc : ∀ n, w.counted s n → w.counted s' (n + 1)) (ht : w.stamped s' t) :
    w.Shows (log ++ [Access.hit i t]) i s' := by
  obtain ⟨h1, h2, h3⟩ := Access.concat_hit (V := V) i t log
  exact ⟨by rw [h1, h.value, hv], by rw [h2]; exact hc _ h.counted, t, h3, ht⟩

/-- An access to another slot changes nothing. -/
theorem Shows.of_ne {i : ℕ} {s : S} {x : Access V T} (h : w.Shows log i s) (hx : x.slot ≠ i) :
    w.Shows (log ++ [x]) i s := by
  obtain ⟨h1, h2, h3⟩ := Access.concat_of_ne log hx
  refine ⟨by rw [h1, h.value], by rw [h2]; exact h.counted, ?_⟩
  rw [h3]
  exact h.stamped

/-- A new slot at the end of the table. -/
theorem Remembers.concat (h : w.Remembers table log) {s : S} {v : V} {t : T} (hv : w.value s = v)
    (hc : w.counted s 0) (ht : w.stamped s t) :
    w.Remembers (table ++ [s]) (log ++ [Access.write table.length v t]) where
  slot_lt x hx := by
    rw [List.length_append, List.length_singleton]
    rcases List.mem_append.mp hx with hx | hx
    · have := h.slot_lt x hx
      omega
    · rw [List.mem_singleton.mp hx]
      exact Nat.lt_succ_self _
  shows i s' hi := by
    by_cases hlt : i < table.length
    · rw [List.getElem?_append_left hlt] at hi
      exact (h.shows i s' hi).of_ne (Nat.ne_of_gt hlt)
    · rw [List.getElem?_append_right (by omega)] at hi
      have hi0 : i - table.length = 0 := by
        by_contra hne
        rw [List.getElem?_eq_none (by rw [List.length_singleton]; omega)] at hi
        cases hi
      have hieq : i = table.length := by omega
      rw [hi0] at hi
      cases hi
      rw [hieq]
      exact shows_write hv hc ht

/-- A changed slot: what is shown of the others stays. -/
theorem Remembers.set (h : w.Remembers table log) {s : S} {x : Access V T}
    (hlt : x.slot < table.length) (hs : w.Shows (log ++ [x]) x.slot s) :
    w.Remembers (table.set x.slot s) (log ++ [x]) where
  slot_lt y hy := by
    rw [List.length_set]
    rcases List.mem_append.mp hy with hy | hy
    · exact h.slot_lt y hy
    · rw [List.mem_singleton.mp hy]
      exact hlt
  shows i s' hi := by
    by_cases hx : x.slot = i
    · rw [← hx, List.getElem?_set_self hlt] at hi
      cases hi
      rw [← hx]
      exact hs
    · rw [List.getElem?_set_ne hx] at hi
      exact (h.shows i s' hi).of_ne hx

/-- A slot that is written again. -/
theorem Remembers.overwrite (h : w.Remembers table log) {i : ℕ} (hlt : i < table.length) {s : S}
    {v : V} {t : T} (hv : w.value s = v) (hc : w.counted s 0) (ht : w.stamped s t) :
    w.Remembers (table.set i s) (log ++ [Access.write i v t]) :=
  h.set (x := .write i v t) hlt (shows_write hv hc ht)

/-- A slot that is hit. -/
theorem Remembers.hit (h : w.Remembers table log) {i : ℕ} {s s' : S} {t : T}
    (hs : table[i]? = some s) (hv : w.value s' = w.value s)
    (hc : ∀ n, w.counted s n → w.counted s' (n + 1)) (ht : w.stamped s' t) :
    w.Remembers (table.set i s') (log ++ [Access.hit i t]) :=
  h.set (x := .hit i t) (List.getElem?_eq_some_iff.mp hs).1 ((h.shows i s hs).hit hv hc ht)

end View
