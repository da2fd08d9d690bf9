import StabilizedRed.Network.Queue
import StabilizedRed.Lib.Rounding

/-!
# Sizes and rates as text (`network/utils/queue-size.cc`, `data-rate.cc`)

The attributes of a disc and of a device are given as text: a number and a unit. Both classes look
for the first character that is neither a digit nor a point, read the number in front of it as a
double, and compare the rest with their unit strings. Such a list is a `UnitTable`.

* What is accepted is a number with a unit (`UnitTable.parse_isSome_iff`), and for a rate also a
  number without one (`doParse_isSome_iff`). So a blank between the number and the unit, which the
  documentation of both classes allows, is refused.
* A whole number with a unit is read exactly, although in doubles (`UnitTable.parse_whole`,
  `scale_whole`). So a size that was printed is read back (`QueueSize.doParse_print`).
* A rate whose nearest double is below `2 ^ 64` is read back exactly if it is a double
  (`DataRate.doParse_print_iff`).

Two things are parameters, for the code leaves them open: `r` is what the double holds where the
text has no number, and `c` is what a cast makes of a double that the type has no room for.
-/

namespace StabilizedRed

/-- A character of `"0123456789."`. -/
def isNumeric (c : Char) : Bool := c.isDigit || c == '.'

/-- What `>>` reads as a double from digits and points: digits, a point, digits, up to the next
point. Without a digit it is zero. -/
def readNumber (s : List Char) : ℚ :=
  let whole := s.takeWhile Char.isDigit
  let fraction :=
    match s.dropWhile Char.isDigit with
    | '.' :: rest => rest.takeWhile Char.isDigit
    | _ => []
  Nat.ofDigitChars 10 (whole ++ fraction) 0 / 10 ^ fraction.length

/-- Unit strings, with what they stand for. -/
structure UnitTable (β : Type) where
  entries : List (List Char × β)
  notNumeric : ∀ e ∈ entries, e.1.takeWhile isNumeric = []
  notBlank : ∀ e ∈ entries, ' ' ∉ e.1
  unambiguous : ∀ e ∈ entries, entries.lookup e.1 = some e.2

/-- The number in front of the unit string, and what the unit stands for. -/
def UnitTable.parse {β : Type} (units : UnitTable β) (fl : Rounding 53) (r : ℚ) (s : List Char) :
    Option (β × ℚ) :=
  let number := s.takeWhile isNumeric
  let r := if number = [] then r else fl.round (readNumber number)
  (units.entries.lookup (s.dropWhile isNumeric)).map fun unit => (unit, r)

/-- The number times the factors of the unit, one after the other, cast to the result's type. -/
def scale {w : ℕ} (fl : Rounding 53) (c : UnsignedCast w) (r : ℚ) (factors : List ℕ) : BitVec w :=
  c.cast (factors.foldl (fun x (f : ℕ) => fl.mul x f) r)

namespace QueueSize

/-- The unit strings of `DoParse`. -/
def units : UnitTable (QueueSizeUnit × List ℕ) where
  entries :=
    [("B".toList, .bytes, []), ("kB".toList, .bytes, [1000]), ("KB".toList, .bytes, [1000]),
      ("KiB".toList, .bytes, [1024]), ("MB".toList, .bytes, [1000000]),
      ("MiB".toList, .bytes, [1048576]), ("p".toList, .packets, []),
      ("kp".toList, .packets, [1000]), ("Kp".toList, .packets, [1000]),
      ("Kip".toList, .packets, [1024]), ("Mp".toList, .packets, [1000000]),
      ("Mip".toList, .packets, [1048576])]
  notNumeric := by decide
  notBlank := by decide
  unambiguous := by decide

theorem units_pos : ∀ e ∈ units.entries, ∀ f ∈ e.2.2, 0 < f := by decide

/-- `QueueSize::DoParse`. A unit is required: no unit string is empty. -/
def doParse (fl : Rounding 53) (c : UnsignedCast 32) (r : ℚ) (s : List Char) : Option QueueSize :=
  (units.parse fl r s).map fun (unit, r) => ⟨unit.1, .ofBitVec (scale fl c r unit.2)⟩

/-- `operator <<`. -/
def print (size : QueueSize) : List Char :=
  Nat.toDigits 10 size.value.toNat ++
    (match size.unit with
    | .packets => "p"
    | .bytes => "B").toList

end QueueSize

namespace DataRate

/-- The unit strings of `DoParse`. -/
def units : UnitTable (List ℕ) where
  entries :=
    [("bps".toList, []), ("b/s".toList, []), ("Bps".toList, [8]), ("B/s".toList, [8]),
      ("kbps".toList, [1000]), ("kb/s".toList, [1000]), ("Kbps".toList, [1000]),
      ("Kb/s".toList, [1000]), ("kBps".toList, [8000]), ("kB/s".toList, [8000]),
      ("KBps".toList, [8000]), ("KB/s".toList, [8000]), ("Kib/s".toList, [1024]),
      ("KiB/s".toList, [8192]), ("Mbps".toList, [1000000]), ("Mb/s".toList, [1000000]),
      ("MBps".toList, [8000000]), ("MB/s".toList, [8000000]), ("Mib/s".toList, [1048576]),
      ("MiB/s".toList, [1048576, 8]), ("Gbps".toList, [1000000000]), ("Gb/s".toList, [1000000000]),
      ("GBps".toList, [8, 1000000000]), ("GB/s".toList, [8, 1000000000]),
      ("Gib/s".toList, [1048576, 1024]), ("GiB/s".toList, [1048576, 1024, 8])]
  notNumeric := by decide
  notBlank := by decide
  unambiguous := by decide

theorem units_pos : ∀ e ∈ units.entries, ∀ f ∈ e.2, 0 < f := by decide

theorem units_ne_nil : ∀ e ∈ units.entries, e.1 ≠ [] := by decide

/-- `DataRate::DoParse`, where `v` is what the result held before. Without a unit the number is read
as an integer, and one that has no room is the greatest. -/
def doParse (fl : Rounding 53) (c : UnsignedCast 64) (r : ℚ) (v : UInt64) (s : List Char) :
    Option UInt64 :=
  match s.dropWhile isNumeric with
  | [] =>
    some (if s = [] then v
      else .ofNat (min (Nat.ofDigitChars 10 (s.takeWhile Char.isDigit) 0) (2 ^ 64 - 1)))
  | _ => (units.parse fl r s).map fun (factors, r) => .ofBitVec (scale fl c r factors)

/-- `operator <<`. -/
def print (bps : UInt64) : List Char := Nat.toDigits 10 bps.toNat ++ "bps".toList

end DataRate

/-! ## Numbers -/

theorem isNumeric_of_mem_toDigits {n : ℕ} : ∀ c ∈ Nat.toDigits 10 n, isNumeric c := by
  intro c hc
  unfold isNumeric
  rw [Nat.isDigit_of_mem_toDigits (by decide) (by decide) hc, Bool.true_or]

/-- A number that was printed is read back. -/
theorem readNumber_toDigits (n : ℕ) : readNumber (Nat.toDigits 10 n) = n := by
  have hdigits : ∀ c ∈ Nat.toDigits 10 n, Char.isDigit c := fun c hc =>
    Nat.isDigit_of_mem_toDigits (by decide) (by decide) hc
  have hall : (Nat.toDigits 10 n).takeWhile Char.isDigit = Nat.toDigits 10 n :=
    List.takeWhile_eq_self_iff.mpr hdigits
  have hnone : (Nat.toDigits 10 n).dropWhile Char.isDigit = [] :=
    List.dropWhile_eq_nil_iff.mpr hdigits
  unfold readNumber
  simp only [hall, hnone, List.append_nil, List.length_nil, pow_zero, div_one]
  rw [Nat.ofDigitChars_toDigits (by decide) (by decide)]

/-- The factors of a unit are multiplied without rounding. -/
theorem foldl_mul_whole (fl : Rounding 53) {n : ℕ} {factors : List ℕ}
    (hpos : ∀ f ∈ factors, 0 < f) (hn : n * factors.prod ≤ 2 ^ 53) :
    factors.foldl (fun x (f : ℕ) => fl.mul x f) (n : ℚ) = (n * factors.prod : ℕ) := by
  induction factors generalizing n with
  | nil => rw [List.foldl_nil, List.prod_nil, mul_one]
  | cons f factors ih =>
    obtain ⟨hf, hfs⟩ := List.forall_mem_cons.mp hpos
    rw [List.prod_cons, ← mul_assoc] at hn ⊢
    have hprod : 0 < factors.prod := List.prod_pos hfs
    have hle : n * f ≤ 2 ^ 53 := (Nat.le_mul_of_pos_right _ hprod).trans hn
    have hmul : fl.mul n f = (n * f : ℕ) := by
      unfold Rounding.mul
      rw [← Nat.cast_mul, fl.round_natCast hle]
    rw [List.foldl_cons, hmul]
    exact ih hfs hn

theorem scale_whole {w : ℕ} (fl : Rounding 53) (c : UnsignedCast w) {n : ℕ} {factors : List ℕ}
    (hpos : ∀ f ∈ factors, 0 < f) (hn : n * factors.prod ≤ 2 ^ 53)
    (hlt : n * factors.prod < 2 ^ w) : (scale fl c n factors).toNat = n * factors.prod := by
  unfold scale
  rw [foldl_mul_whole fl hpos hn]
  exact c.toNat_natCast hlt

/-! ## Unit strings -/

namespace UnitTable

variable {β : Type} (units : UnitTable β) (fl : Rounding 53) (r : ℚ)

variable {units} in
theorem dropWhile_append {number : List Char} (hnum : ∀ c ∈ number, isNumeric c)
    {e : List Char × β} (he : e ∈ units.entries) :
    (number ++ e.1).dropWhile isNumeric = e.1 := by
  have h := List.takeWhile_append_dropWhile (p := isNumeric) (l := e.1)
  rw [units.notNumeric e he, List.nil_append] at h
  rw [List.dropWhile_append_of_pos hnum, h]

/-- A number in front of a unit string. -/
theorem parse_append {number : List Char} (hnum : ∀ c ∈ number, isNumeric c) {e : List Char × β}
    (he : e ∈ units.entries) :
    units.parse fl r (number ++ e.1) =
      some (e.2, if number = [] then r else fl.round (readNumber number)) := by
  unfold parse
  rw [List.takeWhile_append_of_pos hnum, dropWhile_append hnum he, units.notNumeric e he,
    List.append_nil, units.unambiguous e he]
  rfl

/-- A whole number in front of a unit string is read exactly. -/
theorem parse_whole {n : ℕ} (hn : n ≤ 2 ^ 53) {e : List Char × β} (he : e ∈ units.entries) :
    units.parse fl r (Nat.toDigits 10 n ++ e.1) = some (e.2, (n : ℚ)) := by
  rw [units.parse_append fl r isNumeric_of_mem_toDigits he, if_neg Nat.toDigits_ne_nil,
    readNumber_toDigits, fl.round_natCast hn]

/-- **What is accepted is a number with a unit.** -/
theorem parse_isSome_iff (s : List Char) :
    (units.parse fl r s).isSome ↔
      ∃ number, (∀ c ∈ number, isNumeric c) ∧ ∃ e ∈ units.entries, s = number ++ e.1 := by
  constructor
  · intro h
    unfold parse at h
    rw [Option.isSome_map, Option.isSome_iff_exists] at h
    obtain ⟨unit, hu⟩ := h
    obtain ⟨l₁, l₂, hl, -⟩ := List.lookup_eq_some_iff.mp hu
    refine ⟨s.takeWhile isNumeric, fun c hc => List.mem_takeWhile_imp hc, (_, unit), ?_,
      List.takeWhile_append_dropWhile.symm⟩
    rw [hl]
    exact List.mem_append_right _ List.mem_cons_self
  · rintro ⟨number, hnum, e, he, rfl⟩
    rw [units.parse_append fl r hnum he]
    rfl

theorem parse_of_blank {s : List Char} (h : ' ' ∈ s) : units.parse fl r s = none := by
  rw [← Option.not_isSome_iff_eq_none, parse_isSome_iff]
  rintro ⟨number, hnum, e, he, rfl⟩
  rcases List.mem_append.mp h with hmem | hmem
  · exact absurd (hnum ' ' hmem) (by decide)
  · exact units.notBlank e he hmem

end UnitTable

variable (fl : Rounding 53)

namespace QueueSize

variable (c : UnsignedCast 32) (r : ℚ)

/-- A whole number of a unit is read exactly. -/
theorem doParse_whole {n : ℕ} {e : List Char × QueueSizeUnit × List ℕ} (he : e ∈ units.entries)
    (hn : n * e.2.2.prod < 2 ^ 32) :
    doParse fl c r (Nat.toDigits 10 n ++ e.1) = some ⟨e.2.1, .ofNat (n * e.2.2.prod)⟩ := by
  have hpos := units_pos e he
  have hle : n ≤ n * e.2.2.prod := Nat.le_mul_of_pos_right n (List.prod_pos hpos)
  have hscale := scale_whole fl c hpos (hn.le.trans (by decide)) hn
  unfold doParse
  rw [units.parse_whole fl r (by omega) he, Option.map_some]
  dsimp only
  congr 2
  rw [← UInt32.toNat_inj, UInt32.toNat_ofNat_of_lt' hn]
  exact hscale

/-- **A size that was printed is read back.** -/
theorem doParse_print (size : QueueSize) : doParse fl c r size.print = some size := by
  have hlt := size.value.toNat_lt
  have hprint : ∀ e ∈ units.entries, e.2.2 = [] →
      doParse fl c r (Nat.toDigits 10 size.value.toNat ++ e.1) = some ⟨e.2.1, size.value⟩ := by
    intro e he hnil
    have hprod : size.value.toNat * e.2.2.prod = size.value.toNat := by
      rw [hnil, List.prod_nil, mul_one]
    rw [doParse_whole fl c r he (by omega), hprod, UInt32.ofNat_toNat]
  obtain ⟨unit, value⟩ := size
  unfold print
  cases unit with
  | packets => exact hprint ("p".toList, .packets, []) (by decide) rfl
  | bytes => exact hprint ("B".toList, .bytes, []) (by decide) rfl

end QueueSize

namespace DataRate

variable (c : UnsignedCast 64) (r : ℚ) (v : UInt64)

/-- With a unit, the text is parsed by the table. -/
theorem doParse_append {number : List Char} (hnum : ∀ c ∈ number, isNumeric c)
    {e : List Char × List ℕ} (he : e ∈ units.entries) :
    doParse fl c r v (number ++ e.1) =
      some (.ofBitVec
        (scale fl c (if number = [] then r else fl.round (readNumber number)) e.2)) := by
  have hdrop : (number ++ e.1).dropWhile isNumeric = e.1 := UnitTable.dropWhile_append hnum he
  have hne : e.1 ≠ [] := units_ne_nil e he
  unfold doParse
  rw [hdrop, units.parse_append fl r hnum he]
  split
  · exact absurd ‹_› hne
  · rfl

/-- **A whole number of a unit is read exactly**, although the text is read as a double. -/
theorem doParse_exact {n : ℕ} {e : List Char × List ℕ} (he : e ∈ units.entries)
    (hn : n * e.2.prod ≤ 2 ^ 53) :
    (doParse fl c r v (Nat.toDigits 10 n ++ e.1)).map UInt64.toNat = some (n * e.2.prod) := by
  have hpos := units_pos e he
  have hle : n ≤ 2 ^ 53 := (Nat.le_mul_of_pos_right n (List.prod_pos hpos)).trans hn
  rw [doParse_append fl c r v isNumeric_of_mem_toDigits he, if_neg Nat.toDigits_ne_nil,
    readNumber_toDigits, fl.round_natCast hle, Option.map_some, Option.some_inj]
  exact scale_whole fl c hpos hn (hn.trans_lt (by decide))

theorem doParse_exact_kibibits :
    (doParse (.nearestEven 52) (.wrapping 64) 0 0 "8Kib/s".toList).map UInt64.toNat = some 8192 :=
  doParse_exact (.nearestEven 52) (.wrapping 64) 0 0 (n := 8) (e := ("Kib/s".toList, [1024]))
    (by decide) (by decide)

/-- **A rate that was printed is read back exactly if it is a double.** From `2 ^ 64 - 2 ^ 10` on
the nearest double may be `2 ^ 64`. -/
theorem doParse_print_iff (bps : UInt64) (h : bps.toNat + 2 ^ 10 < 2 ^ 64) :
    doParse fl c r v (print bps) = some bps ↔ IsFloat 53 bps.toNat := by
  have hparse : doParse fl c r v (print bps) = some (.ofBitVec (c.cast (fl.round bps.toNat))) := by
    unfold print
    rw [doParse_append fl c r v isNumeric_of_mem_toDigits (e := ("bps".toList, [])) (by decide),
      if_neg Nat.toDigits_ne_nil, readNumber_toDigits]
    rfl
  rw [hparse, Option.some_inj, ← UInt64.toNat_inj]
  exact fl.toNat_cast_round_iff c (e := 10) rfl h

-- `2 ^ 53 + 1` is the first rate that is not read back.
theorem doParse_print_iff_fiveMegabits :
    doParse (.nearestEven 52) (.wrapping 64) 0 0 (print 5000000) = some 5000000 ∧
      doParse (.nearestEven 52) (.wrapping 64) 0 0 (print 9007199254740993) ≠
        some 9007199254740993 := by
  have hodd : ¬IsFloat 53 ((2 ^ 53 + 1 : ℕ) : ℚ) := by
    rw [← (Rounding.nearestEven 52).truncate_round_eq_iff]
    decide +kernel
  refine ⟨(doParse_print_iff (.nearestEven 52) (.wrapping 64) 0 0 5000000 (by decide)).mpr
    (.natCast (by decide)), ?_⟩
  rw [Ne, doParse_print_iff (.nearestEven 52) (.wrapping 64) 0 0 9007199254740993 (by decide)]
  exact hodd

end DataRate

/-! ## What is accepted -/

section Accepted

variable (c₁ : UnsignedCast 32) (c₂ : UnsignedCast 64) (r : ℚ) (v : UInt64) (s : List Char)

theorem QueueSize.isSome_doParse :
    (QueueSize.doParse fl c₁ r s).isSome = (QueueSize.units.parse fl r s).isSome := by
  unfold QueueSize.doParse
  exact Option.isSome_map

theorem DataRate.isSome_doParse :
    (DataRate.doParse fl c₂ r v s).isSome ↔
      (∀ x ∈ s, isNumeric x) ∨ (DataRate.units.parse fl r s).isSome := by
  rw [← List.dropWhile_eq_nil_iff]
  unfold DataRate.doParse
  split
  · rename_i hnil
    exact ⟨fun _ => .inl hnil, fun _ => rfl⟩
  · rename_i hne
    rw [Option.isSome_map]
    exact ⟨.inr, fun h => h.resolve_left hne⟩

/-- **Exactly a number with a unit is accepted as a size, and exactly a number, with a unit or
without, as a rate.** No unit string has a blank, so a text with a blank is neither. -/
theorem doParse_isSome_iff :
    ((QueueSize.doParse fl c₁ r s).isSome ↔
      ∃ number, (∀ x ∈ number, isNumeric x) ∧
        ∃ e ∈ QueueSize.units.entries, s = number ++ e.1) ∧
    ((DataRate.doParse fl c₂ r v s).isSome ↔
      (∀ x ∈ s, isNumeric x) ∨
        ∃ number, (∀ x ∈ number, isNumeric x) ∧
          ∃ e ∈ DataRate.units.entries, s = number ++ e.1) ∧
    (' ' ∈ s → QueueSize.doParse fl c₁ r s = none ∧ DataRate.doParse fl c₂ r v s = none) := by
  refine ⟨?_, ?_, fun h => ?_⟩
  · rw [QueueSize.isSome_doParse, UnitTable.parse_isSome_iff]
  · rw [DataRate.isSome_doParse, UnitTable.parse_isSome_iff]
  · rw [← Option.not_isSome_iff_eq_none, ← Option.not_isSome_iff_eq_none,
      QueueSize.isSome_doParse, DataRate.isSome_doParse, UnitTable.parse_of_blank _ _ _ h,
      UnitTable.parse_of_blank _ _ _ h]
    refine ⟨by decide, fun hor => ?_⟩
    rcases hor with hall | hsome
    · exact absurd (hall ' ' h) (by decide)
    · exact absurd hsome (by decide)

-- Of the examples in the documentation of the two classes, those with a blank are refused.
theorem doParse_isSome_iff_documented :
    (QueueSize.doParse (.nearestEven 52) (.wrapping 32) 0 "56kB".toList).isSome ∧
      (DataRate.doParse (.nearestEven 52) (.wrapping 64) 0 0 "8Kib/s".toList).isSome ∧
      QueueSize.doParse (.nearestEven 52) (.wrapping 32) 0 "128 kB".toList = none ∧
      DataRate.doParse (.nearestEven 52) (.wrapping 64) 0 0 "128 kb/s".toList = none := by
  have h (s : List Char) :=
    doParse_isSome_iff (.nearestEven 52) (.wrapping 32) (.wrapping 64) 0 0 s
  have hsize : ' ' ∈ "128 kB".toList := by simp
  have hrate : ' ' ∈ "128 kb/s".toList := by simp
  refine ⟨(h _).1.mpr ⟨['5', '6'], by simp [isNumeric, Char.isDigit], ("kB".toList, .bytes, [1000]),
      List.mem_of_getElem? (i := 1) rfl, rfl⟩,
    (h _).2.1.mpr (.inr ⟨['8'], by simp [isNumeric, Char.isDigit], ("Kib/s".toList, [1024]),
      List.mem_of_getElem? (i := 12) rfl, rfl⟩),
    ((h _).2.2 hsize).1, ((h _).2.2 hrate).2⟩

end Accepted

end StabilizedRed
