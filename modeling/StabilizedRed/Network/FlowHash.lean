import StabilizedRed.Lib.Machine
import StabilizedRed.Lib.Mix
import StabilizedRed.Network.Item

/-!
# What the flow hash tells apart

* `Murmur3.incr_append`: the hash can be fed in pieces, as long as each of them but the last one
  ends with a block. So calls of `GetHash32` on one `Hasher` hash what their buffers make up
  together (`Hasher.run_getHash32`).
* `Murmur3.incr_ne`: buffers of one length that differ in one block have different hashes.
* `Ipv4QueueDiscItem.hash_eq_iff`: so packets whose flows differ in one of the words that the
  5-tuple takes up (`Flow.Near`) have one hash only if they are of one flow.
-/

namespace StabilizedRed

namespace Murmur3

/-! ## The operations -/

theorem rotl32_injective {r : UInt32} (h0 : 0 < r.toNat) (hr : r.toNat < 32) :
    Function.Injective fun x => rotl32 x r := by
  have hsub : (32 - r).toNat = 32 - r.toNat :=
    UInt32.toNat_sub_of_le _ _ (UInt32.le_iff_toNat_le.mpr hr.le)
  have hbits (x : UInt32) : (rotl32 x r).toBitVec =
      (x.toBitVec <<< r.toNat) ||| (x.toBitVec >>> (32 - r.toNat)) := by
    unfold rotl32
    rw [UInt32.toBitVec_or, UInt32.toBitVec_shiftLeft, UInt32.toBitVec_shiftRight,
      BitVec.shiftLeft_eq', BitVec.ushiftRight_eq']
    congr 2
    · exact Nat.mod_eq_of_lt hr
    · show (32 - r).toNat % 32 = _
      rw [hsub]
      omega
  intro x y h
  have hxy : (rotl32 x r).toBitVec = (rotl32 y r).toBitVec := congrArg UInt32.toBitVec h
  rw [hbits, hbits] at hxy
  exact UInt32.toBitVec_inj.mp (Mix.rotate_injective hr.le hxy)

theorem xorShift_injective {r : UInt32} (h0 : 0 < r.toNat) (hr : r.toNat < 32) :
    Function.Injective fun x : UInt32 => x ^^^ (x >>> r) := by
  have hbits (x : UInt32) : (x ^^^ (x >>> r)).toBitVec =
      x.toBitVec ^^^ (x.toBitVec >>> r.toNat) := by
    rw [UInt32.toBitVec_xor, UInt32.toBitVec_shiftRight, BitVec.ushiftRight_eq']
    congr 2
    exact Nat.mod_eq_of_lt hr
  intro x y h
  have hxy : (x ^^^ (x >>> r)).toBitVec = (y ^^^ (y >>> r)).toBitVec := congrArg UInt32.toBitVec h
  rw [hbits, hbits] at hxy
  exact UInt32.toBitVec_inj.mp (Mix.xorShift_injective h0 hxy)

/-- The constants of the hash have inverses. -/
theorem fmix_injective : Function.Injective fmix := by
  have h16 := xorShift_injective (r := 16) (by decide) (by decide)
  have h13 := xorShift_injective (r := 13) (by decide) (by decide)
  have hm : Function.Injective fun x : UInt32 => x * 0x85ebca6b :=
    Mix.mul_injective (d := 2781581891) (by decide)
  have hm' : Function.Injective fun x : UInt32 => x * 0xc2b2ae35 :=
    Mix.mul_injective (d := 2127672349) (by decide)
  exact h16.comp (hm'.comp (h13.comp (hm.comp h16)))

theorem mixBlock_injective : Function.Injective mixBlock := by
  have hm : Function.Injective fun x : UInt32 => x * 0xcc9e2d51 :=
    Mix.mul_injective (d := 3739302833) (by decide)
  have hm' : Function.Injective fun x : UInt32 => x * 0x1b873593 :=
    Mix.mul_injective (d := 1458385051) (by decide)
  exact hm'.comp ((rotl32_injective (r := 15) (by decide) (by decide)).comp hm)

/-! ## Blocks -/

/-- The first byte is the lowest, and the others are above it. -/
theorem toNat_block_cons (b : UInt8) {bs : List UInt8} (h : (block bs).toNat < 2 ^ 24) :
    (block (b :: bs)).toNat = 2 ^ 8 * (block bs).toNat + b.toNat := by
  have hb : b.toNat < 2 ^ 8 := b.toNat_lt
  have hshift : (block bs <<< 8).toNat = (block bs).toNat * 2 ^ 8 := by
    have h8 : UInt32.toNat 8 % 32 = 8 := rfl
    rw [UInt32.toNat_shiftLeft, Nat.shiftLeft_eq, h8]
    exact Nat.mod_eq_of_lt (by omega)
  have hxor : (block (b :: bs)).toNat = b.toNat ^^^ (block bs).toNat * 2 ^ 8 := by
    rw [← hshift]
    exact UInt32.toNat_xor _ _
  rw [hxor]
  apply Nat.eq_of_testBit_eq
  intro i
  rw [Nat.testBit_xor, Nat.testBit_mul_two_pow, Nat.testBit_two_pow_mul_add _ hb]
  by_cases hi : i < 8
  · simp [hi, Nat.not_le.mpr hi]
  · have hle : 2 ^ 8 ≤ 2 ^ i := Nat.pow_le_pow_right two_pos (not_lt.mp hi)
    simp [hi, not_lt.mp hi, Nat.testBit_lt_two_pow (hb.trans_le hle)]

theorem toNat_block_lt {bs : List UInt8} (h : bs.length ≤ 4) :
    (block bs).toNat < 2 ^ (8 * bs.length) := by
  induction bs with
  | nil => exact Nat.one_pos
  | cons b bs ih =>
    rw [List.length_cons] at h ⊢
    have hlt := ih (by omega)
    have hle : 2 ^ (8 * bs.length) ≤ 2 ^ 24 := Nat.pow_le_pow_right two_pos (by omega)
    have hb := b.toNat_lt
    rw [toNat_block_cons b (hlt.trans_le hle), Nat.mul_succ, Nat.pow_add]
    omega

/-- A word of at most four bytes determines them. -/
theorem block_injective {bs bs' : List UInt8} (hl : bs.length = bs'.length) (h4 : bs.length ≤ 4)
    (h : block bs = block bs') : bs = bs' := by
  induction bs generalizing bs' with
  | nil => exact (List.length_eq_zero_iff.mp hl.symm).symm
  | cons b bs ih =>
    obtain ⟨b', bs', rfl⟩ := List.exists_cons_of_length_eq_add_one hl.symm
    rw [List.length_cons] at h4
    rw [List.length_cons, List.length_cons, Nat.succ_inj] at hl
    have hlt : (block bs).toNat < 2 ^ 24 := (toNat_block_lt (by omega)).trans_le
      (Nat.pow_le_pow_right two_pos (by omega))
    have hlt' : (block bs').toNat < 2 ^ 24 := (toNat_block_lt (by omega)).trans_le
      (Nat.pow_le_pow_right two_pos (by omega))
    have hnat := congrArg UInt32.toNat h
    rw [toNat_block_cons b hlt, toNat_block_cons b' hlt'] at hnat
    have hb := b.toNat_lt
    have hb' := b'.toNat_lt
    have hhead : b = b' := UInt8.toNat_inj.mp (by omega)
    have htail : block bs = block bs' := UInt32.toNat_inj.mp (by omega)
    rw [hhead, ih hl (by omega) htail]

/-! ## The loop -/

/-- What the loop does with a block. -/
def absorb (h1 k1 : UInt32) : UInt32 := rotl32 (h1 ^^^ mixBlock k1) 13 * 5 + 0xe6546b64

/-- What is done with the tail. -/
def absorbTail (h1 k1 : UInt32) : UInt32 := h1 ^^^ mixBlock k1

theorem latin_absorbTail : Mix.Latin absorbTail where
  state _ _ _ h := (UInt32.xor_left_inj _).mp h
  word _ _ _ h := mixBlock_injective ((UInt32.xor_right_inj _).mp h)

theorem latin_absorb : Mix.Latin absorb := by
  have hadd : Function.Injective fun x : UInt32 => x * 5 + 0xe6546b64 := by
    intro x y h
    have hm : Function.Injective fun x : UInt32 => x * 5 :=
      Mix.mul_injective (d := 3435973837) (by decide)
    exact hm ((UInt32.add_left_inj _).mp h)
  have hrot := hadd.comp (rotl32_injective (r := 13) (by decide) (by decide))
  exact ⟨fun k1 => hrot.comp (latin_absorbTail.state k1),
    fun h1 => hrot.comp (latin_absorbTail.word h1)⟩

set_option maxRecDepth 2000 in
theorem incr_cons (h1 : UInt32) (b0 b1 b2 b3 : UInt8) (rest : List UInt8) :
    incr h1 (b0 :: b1 :: b2 :: b3 :: rest) = incr (absorb h1 (block [b0, b1, b2, b3])) rest := by
  rw [incr.eq_def]
  rfl

set_option maxRecDepth 2000 in
theorem incr_tail (h1 : UInt32) {t : List UInt8} (h0 : t ≠ []) (h4 : t.length < 4) :
    incr h1 t = absorbTail h1 (block t) := by
  match t, h4 with
  | [], _ => exact absurd rfl h0
  | [_], _ | [_, _], _ | [_, _, _], _ =>
    rw [incr.eq_def]
    rfl

/-- Blocks, and what comes after them. -/
theorem incr_flatten (h1 : UInt32) {ps : List (List UInt8)} (hps : ∀ p ∈ ps, p.length = 4)
    (rest : List UInt8) :
    incr h1 (ps.flatten ++ rest) = incr ((ps.map block).foldl absorb h1) rest := by
  induction ps generalizing h1 with
  | nil => rfl
  | cons p ps ih =>
    obtain ⟨hp, hrest⟩ := List.forall_mem_cons.mp hps
    match p, hp with
    | [b0, b1, b2, b3], _ =>
      simp only [List.flatten_cons, List.cons_append, List.nil_append, List.map_cons,
        List.foldl_cons]
      rw [incr_cons]
      exact ih _ hrest

/-- A buffer that ends with a block can be fed first. -/
theorem incr_append (h1 : UInt32) {a : List UInt8} (ha : a.length % 4 = 0) (b : List UInt8) :
    incr h1 (a ++ b) = incr (incr h1 a) b := by
  match a, ha with
  | [], _ => rfl
  | b0 :: b1 :: b2 :: b3 :: rest, ha =>
    have hrest : rest.length % 4 = 0 := by
      simp only [List.length_cons] at ha
      omega
    rw [incr_cons, ← incr_append _ hrest b]
    exact incr_cons h1 b0 b1 b2 b3 (rest ++ b)

/-- Blocks that differ in one place, before the same tail. -/
theorem incr_ne_of_oneOff (h1 : UInt32) {ps qs : List (List UInt8)}
    (hps : ∀ p ∈ ps, p.length = 4) (hqs : ∀ q ∈ qs, q.length = 4) (h : Mix.OneOff ps qs)
    {t : List UInt8} (h0 : t ≠ []) (h4 : t.length < 4) :
    incr h1 (ps.flatten ++ t) ≠ incr h1 (qs.flatten ++ t) := by
  have hblocks : Mix.OneOff (ps.map block) (qs.map block) := by
    induction h with
    | head hne l =>
      obtain ⟨hp, -⟩ := List.forall_mem_cons.mp hps
      obtain ⟨hq, -⟩ := List.forall_mem_cons.mp hqs
      exact .head (fun he => hne (block_injective (hp.trans hq.symm) hp.le he)) _
    | cons x _ ih =>
      exact .cons _ (ih (List.forall_mem_cons.mp hps).2 (List.forall_mem_cons.mp hqs).2)
  rw [incr_flatten h1 hps, incr_flatten h1 hqs, incr_tail _ h0 h4, incr_tail _ h0 h4]
  exact (latin_absorbTail.state (block t)).ne (hblocks.foldl_ne latin_absorb h1)

theorem fin_injective (len : UInt32) : Function.Injective (fin len) := fun _ _ h =>
  (UInt32.xor_left_inj _).mp (fmix_injective h)

/-! ## A hasher under calls -/

end Murmur3

/-- The state of a `Murmur3` object for 32-bit hashes, cleared. -/
structure Hasher where
  /-- `m_hash32`. -/
  hash32 : UInt32 := 0x8BADF00D
  /-- `m_size32`. -/
  size32 : UInt32 := 0
  deriving DecidableEq, Repr

namespace Hasher

/-- `Murmur3::GetHash32`. -/
def getHash32 (h : Hasher) (buffer : List UInt8) : UInt32 × Hasher :=
  let hash32 := Murmur3.incr h.hash32 buffer
  let size32 := h.size32 + UInt32.ofNat buffer.length
  (Murmur3.fin size32 hash32, { hash32 := hash32, size32 := size32 })

/-- A call of a hasher. -/
inductive Call where
  | clear
  | getHash32 (buffer : List UInt8)

/-- A hasher under calls; `clear` returns no hash. -/
def machine : Machine Hasher Call (Option UInt32) where
  step h
    | .clear => (none, {})
    | .getHash32 buffer =>
      let (hash, h) := h.getHash32 buffer
      (some hash, h)

/-- The hasher has taken in `bytes` since it was cleared. -/
def Absorbed (h : Hasher) (bytes : List UInt8) : Prop :=
  h.hash32 = Murmur3.incr 0x8BADF00D bytes ∧ h.size32 = UInt32.ofNat bytes.length

/-- **Step lemma.** -/
theorem Absorbed.getHash32 {h : Hasher} {bytes : List UInt8} (ha : h.Absorbed bytes)
    (h4 : bytes.length % 4 = 0) (buffer : List UInt8) :
    (h.getHash32 buffer).1 = Murmur3.hash32 (bytes ++ buffer) ∧
      (h.getHash32 buffer).2.Absorbed (bytes ++ buffer) := by
  obtain ⟨hhash, hsize⟩ := ha
  have hincr : Murmur3.incr h.hash32 buffer = Murmur3.incr 0x8BADF00D (bytes ++ buffer) := by
    rw [hhash, Murmur3.incr_append _ h4]
  have hlen : h.size32 + UInt32.ofNat buffer.length = UInt32.ofNat (bytes ++ buffer).length := by
    rw [hsize, List.length_append, UInt32.ofNat_add]
  refine ⟨?_, hincr, hlen⟩
  show Murmur3.fin _ _ = Murmur3.fin _ _
  rw [hincr, hlen]

/-- **Run lemma.** -/
theorem Absorbed.run {h : Hasher} {bytes : List UInt8} (ha : h.Absorbed bytes)
    (h4 : bytes.length % 4 = 0) {buffers : List (List UInt8)}
    (hb : ∀ b ∈ buffers, b.length % 4 = 0) :
    (machine.run h (buffers.map .getHash32)).Absorbed (bytes ++ buffers.flatten) ∧
      (bytes ++ buffers.flatten).length % 4 = 0 := by
  induction buffers generalizing h bytes with
  | nil => simpa using ⟨ha, h4⟩
  | cons b buffers ih =>
    obtain ⟨hb0, hrest⟩ := List.forall_mem_cons.mp hb
    have hlen : (bytes ++ b).length % 4 = 0 := by
      rw [List.length_append]
      omega
    have hrun := ih (ha.getHash32 h4 b).2 hlen hrest
    rwa [List.append_assoc] at hrun

/-- **Successive buffers hash as one.** Whatever the hasher was used for, after `clear` and calls
with buffers that end with a block, the hash that a call returns is that of all the buffers
together. -/
theorem run_getHash32 (h : Hasher) {buffers : List (List UInt8)}
    (hb : ∀ b ∈ buffers, b.length % 4 = 0) (last : List UInt8) :
    (machine.outputs h (.clear :: (buffers ++ [last]).map .getHash32)).getLast? =
      some (some (Murmur3.hash32 (buffers.flatten ++ last))) := by
  have hclear : (machine.next h .clear).Absorbed [] := ⟨rfl, rfl⟩
  obtain ⟨hrun, h4⟩ := hclear.run rfl hb
  obtain ⟨hout, -⟩ := hrun.getHash32 h4 last
  rw [Machine.outputs_cons, List.map_append, Machine.outputs_append, List.map_singleton,
    Machine.outputs_cons, Machine.outputs_nil, ← List.cons_append, List.getLast?_concat]
  exact congrArg (some ∘ some) hout

theorem run_getHash32_threeBuffers :
    let buffers : List (List UInt8) := [[1, 2, 3, 4], [5, 6, 7, 8]]
    (machine.outputs {} (.clear :: (buffers ++ [[9]]).map .getHash32)).getLast? =
      some (some (Murmur3.hash32 (buffers.flatten ++ [9]))) :=
  run_getHash32 {} (by decide) [9]

/-- A buffer that ends inside a block. -/
example : (machine.outputs {} [.getHash32 [1], .getHash32 [2]]).getLast? ≠
    some (some (Murmur3.hash32 [1, 2])) := by decide

end Hasher

/-! ## Flows -/

/-- The 5-tuple that is hashed. -/
structure Flow where
  source : UInt32
  destination : UInt32
  protocol : UInt8
  sourcePort : UInt16
  destinationPort : UInt16
  deriving DecidableEq, Repr

namespace Flow

/-- The flows differ at most in one of the words of four bytes that the hash takes in. The
destination port lies in two of them. -/
inductive Near : Flow → Flow → Prop where
  | source (s s' d : UInt32) (pr : UInt8) (sp dp : UInt16) : Near ⟨s, d, pr, sp, dp⟩ ⟨s', d, pr, sp, dp⟩
  | destination (s d d' : UInt32) (pr : UInt8) (sp dp : UInt16) :
    Near ⟨s, d, pr, sp, dp⟩ ⟨s, d', pr, sp, dp⟩
  | transport (s d : UInt32) (pr pr' : UInt8) (sp sp' dp dp' : UInt16)
      (low : dp.toUInt8 = dp'.toUInt8) :
    Near ⟨s, d, pr, sp, dp⟩ ⟨s, d, pr', sp', dp'⟩
  | port (s d : UInt32) (pr : UInt8) (sp dp dp' : UInt16) (high : dp >>> 8 = dp' >>> 8) :
    Near ⟨s, d, pr, sp, dp⟩ ⟨s, d, pr, sp, dp'⟩

open Ipv4QueueDiscItem (bytes16 bytes32)

/-- The bytes of the flow and of three quarters of the perturbation, in blocks. -/
def blocks (f : Flow) (perturbation : UInt32) : List (List UInt8) :=
  [bytes32 f.source, bytes32 f.destination,
    [f.protocol, (f.sourcePort >>> 8).toUInt8, f.sourcePort.toUInt8,
      (f.destinationPort >>> 8).toUInt8],
    [f.destinationPort.toUInt8, (perturbation >>> 24).toUInt8, (perturbation >>> 16).toUInt8,
      (perturbation >>> 8).toUInt8]]

theorem length_of_mem_blocks {f : Flow} {perturbation : UInt32} {p : List UInt8}
    (h : p ∈ f.blocks perturbation) : p.length = 4 := by
  simp only [blocks, List.mem_cons, List.not_mem_nil, or_false] at h
  rcases h with rfl | rfl | rfl | rfl <;> rfl

theorem bytes32_injective : Function.Injective bytes32 := by
  intro w w' h
  simp only [bytes32, List.cons.injEq, and_true, ← UInt8.toNat_inj, UInt32.toNat_toUInt8,
    UInt32.toNat_shiftRight, Nat.shiftRight_eq_div_pow, UInt32.reduceToNat, Nat.reduceMod,
    Nat.reducePow] at h
  obtain ⟨h24, h16, h8, h0⟩ := h
  have hlt := w.toNat_lt
  have hlt' := w'.toNat_lt
  exact UInt32.toNat_inj.mp (by omega)

/-- A port is its two bytes. -/
theorem port_ext {p q : UInt16} (high : (p >>> 8).toUInt8 = (q >>> 8).toUInt8)
    (low : p.toUInt8 = q.toUInt8) : p = q := by
  simp only [← UInt8.toNat_inj, UInt16.toNat_toUInt8, UInt16.toNat_shiftRight,
    Nat.shiftRight_eq_div_pow, UInt16.reduceToNat, Nat.reduceMod, Nat.reducePow] at high low
  have hlt := p.toNat_lt
  have hlt' := q.toNat_lt
  exact UInt16.toNat_inj.mp (by omega)

/-- Near flows are one flow, or their blocks differ in one place. -/
theorem Near.blocks {f g : Flow} (h : f.Near g) (perturbation : UInt32) :
    f = g ∨ Mix.OneOff (f.blocks perturbation) (g.blocks perturbation) := by
  cases h with
  | source s s' d pr sp dp =>
    by_cases hs : s = s'
    · exact .inl (by rw [hs])
    · exact .inr (.head (bytes32_injective.ne hs) _)
  | destination s d d' pr sp dp =>
    by_cases hd : d = d'
    · exact .inl (by rw [hd])
    · exact .inr (.cons _ (.head (bytes32_injective.ne hd) _))
  | transport s d pr pr' sp sp' dp dp' low =>
    by_cases he : (pr, sp, dp) = (pr', sp', dp')
    · simp only [Prod.mk.injEq] at he
      obtain ⟨rfl, rfl, rfl⟩ := he
      exact .inl rfl
    · refine .inr (.cons _ (.cons _ ?_))
      show Mix.OneOff [_, _] [_, _]
      dsimp only
      rw [low]
      refine .head (fun hb => he ?_) _
      simp only [List.cons.injEq, and_true] at hb
      obtain ⟨hpr, hsh, hsl, hdh⟩ := hb
      rw [hpr, port_ext hsh hsl, port_ext hdh low]
  | port s d pr sp dp dp' high =>
    by_cases hd : dp = dp'
    · exact .inl (by rw [hd])
    · refine .inr (.cons _ (.cons _ ?_))
      show Mix.OneOff [_, _] [_, _]
      dsimp only
      rw [high]
      refine .cons _ (.head (fun hb => hd ?_) _)
      simp only [List.cons.injEq, and_true] at hb
      exact port_ext (congrArg UInt16.toUInt8 high) hb

end Flow

namespace Ipv4QueueDiscItem

/-- The flow of a packet. -/
def flow (x : Ipv4QueueDiscItem) : Flow :=
  ⟨x.header.source, x.header.destination, x.header.protocol, x.ports.1, x.ports.2⟩

theorem hash_eq (x : Ipv4QueueDiscItem) (perturbation : UInt32) :
    x.hash perturbation = Murmur3.fin 17 (Murmur3.incr 0x8BADF00D
      ((x.flow.blocks perturbation).flatten ++ [perturbation.toUInt8])) := rfl

/-- **The hash tells near flows apart.** -/
theorem hash_eq_iff {x y : Ipv4QueueDiscItem} (h : x.flow.Near y.flow) (perturbation : UInt32) :
    x.hash perturbation = y.hash perturbation ↔ x.flow = y.flow := by
  rw [hash_eq, hash_eq]
  constructor
  · intro he
    rcases h.blocks perturbation with hf | hoff
    · exact hf
    · have hne := Murmur3.incr_ne_of_oneOff 0x8BADF00D (fun _ => Flow.length_of_mem_blocks)
        (fun _ => Flow.length_of_mem_blocks) hoff (t := [perturbation.toUInt8]) (by simp) (by simp)
      exact absurd (Murmur3.fin_injective 17 he) hne
  · intro hf
    rw [hf]

theorem flow_tcp (payload port : UInt16) :
    (tcp payload port).flow = ⟨0x0A010101, 0x0A020101, 6, port, 5001⟩ := rfl

/-- TCP packets that differ in the source port are near. -/
theorem near_tcp (payload payload' port port' : UInt16) :
    (tcp payload port).flow.Near (tcp payload' port').flow := by
  rw [flow_tcp, flow_tcp]
  exact .transport _ _ _ _ _ _ _ _ rfl

theorem hash_eq_iff_tcp : (tcp 980 49153).hash 0 = (tcp 980 49154).hash 0 ↔
    (tcp 980 49153).flow = (tcp 980 49154).flow :=
  hash_eq_iff (near_tcp 980 980 49153 49154) 0

end Ipv4QueueDiscItem

end StabilizedRed
