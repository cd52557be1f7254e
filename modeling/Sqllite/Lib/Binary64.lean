import Mathlib.Algebra.Order.Field.Power
import Mathlib.Data.Nat.Log
import Mathlib.Data.Rat.Cast.Order
import Mathlib.Tactic.FieldSimp
import Mathlib.Tactic.Linarith
import Mathlib.Tactic.NormNum
import Mathlib.Tactic.Ring

/-!
# Whole numbers in double precision

A `Float` is by definition a bit pattern, its arithmetic goes through the sign, the
mantissa and the exponent it packs. A whole number that is `m * 2^k` with a mantissa
of 53 bits has one such form, and rounding leaves it alone: the sum of two of them is
exact where it is one itself.

* `Whole.add`, `whole_ofNat`, `Whole.neg`: exact sums, conversions and negations.
* `Whole.value_toBits`: the bits of such a float are those of that number.
* `whole_ofBits`, `Whole.toUInt64`: a bit pattern that stands for a whole number is truncated to it.
-/
namespace Lib.Binary64
open Float.Model Float.Model.UnpackedFloat

/-- The number that a finite float stands for. -/
def value : UnpackedFloat → Option ℚ
  | .zero _ => some 0
  | .finite s m e _ => some ((s.apply m : ℤ) * 2 ^ e)
  | _ => none

/-- The number that a bit pattern stands for. -/
def bitsValue (bits : UInt64) : Option ℚ := value (unpack Format.binary64 bits.toBitVec)

/-- `n` is `m * 2^k` with a mantissa of 53 bits, and fits 64 bits. -/
def Representable (n : ℤ) : Prop :=
  n.natAbs < 2 ^ 64 ∧ ∃ (m : ℤ) (k : ℕ), m.natAbs < 2 ^ 53 ∧ n = m * 2 ^ k

theorem representable_small {n : ℤ} (h : n.natAbs < 2 ^ 53) : Representable n :=
  ⟨h.trans (by norm_num), n, 0, h, by simp⟩

theorem Representable.neg {n : ℤ} (h : Representable n) : Representable (-n) := by
  obtain ⟨hlt, m, k, hm, rfl⟩ := h
  exact ⟨by rwa [Int.natAbs_neg], -m, k, by rwa [Int.natAbs_neg], by ring⟩

/-- The mantissa and the exponent that rounding gives to a number of this size. -/
structure Normal (m : ℕ) (t : ℤ) : Prop where
  bits : m.log2 = 52
  low : -1074 ≤ t
  high : t ≤ 971

theorem Normal.pos {m : ℕ} {t : ℤ} (h : Normal m t) : 0 < m := by
  cases m with
  | zero =>
    have hbits := h.bits
    simp at hbits
  | succ m => exact Nat.succ_pos m

theorem log2_mul_two_pow {m : ℕ} (hm : 0 < m) (k : ℕ) : (m * 2 ^ k).log2 = m.log2 + k := by
  have hpow : 0 < 2 ^ k := Nat.two_pow_pos k
  have hne : m * 2 ^ k ≠ 0 := (Nat.mul_pos hm hpow).ne'
  refine (Nat.log2_eq_iff hne).mpr ⟨?_, ?_⟩
  · rw [Nat.pow_add]
    exact Nat.mul_le_mul_right _ (Nat.log2_self_le hm.ne')
  · rw [show m.log2 + k + 1 = m.log2 + 1 + k by omega, Nat.pow_add]
    exact Nat.mul_lt_mul_of_pos_right Nat.lt_log2_self hpow

/-- A representable number has such a mantissa and exponent. -/
theorem Representable.normal {n : ℤ} (h : Representable n) (hn : n ≠ 0) :
    ∃ m t, Normal m t ∧ (m : ℚ) * 2 ^ t = n.natAbs := by
  obtain ⟨hlt, a, k, ha, rfl⟩ := h
  have ha0 : a ≠ 0 := fun h0 => hn (by rw [h0, zero_mul])
  have hpos : 0 < a.natAbs := Int.natAbs_pos.mpr ha0
  have hlog : a.natAbs.log2 < 53 := (Nat.log2_lt hpos.ne').mpr ha
  have habs : (a * 2 ^ k).natAbs = a.natAbs * 2 ^ k := by
    rw [Int.natAbs_mul, Int.natAbs_pow]
    rfl
  have hsize : a.natAbs.log2 + k < 64 := by
    rw [habs] at hlt
    rw [← log2_mul_two_pow hpos k]
    exact (Nat.log2_lt (Nat.mul_pos hpos (Nat.two_pow_pos k)).ne').mpr hlt
  refine ⟨a.natAbs * 2 ^ (52 - a.natAbs.log2), k - (52 - a.natAbs.log2 : ℕ),
    ⟨?_, by omega, by omega⟩, ?_⟩
  · rw [log2_mul_two_pow hpos]
    omega
  · rw [habs]
    push_cast
    rw [zpow_sub₀ two_ne_zero, zpow_natCast, zpow_natCast]
    field_simp

/-! ## Rounding -/

/-- Shifting out zeros loses nothing. -/
theorem shiftRight_exact (m : ℕ) : ∀ k : ℕ,
    (ExtendedMantissa.ofMantissaAndAccuracy (m * 2 ^ k) .exact >>> k) =
      ExtendedMantissa.ofMantissaAndAccuracy m .exact
  | 0 => by
    rw [pow_zero, mul_one]
    rfl
  | k + 1 => by
    have hrest := shiftRight_exact (m * 2) k
    rw [mul_assoc, ← pow_succ'] at hrest
    show ExtendedMantissa.shiftRightOne
      (ExtendedMantissa.ofMantissaAndAccuracy (m * 2 ^ (k + 1)) .exact >>> k) = _
    rw [hrest]
    simp [ExtendedMantissa.shiftRightOne, ExtendedMantissa.ofMantissaAndAccuracy]

theorem targetExponent_normal {m : ℕ} {t : ℤ} (h : Normal m t) :
    Format.binary64.targetExponent (totalExponent m t) = t := by
  have hlow := h.low
  unfold Format.targetExponent totalExponent Format.minExponent Format.mantissaBits
  rw [h.bits]
  norm_num
  omega

theorem finite_congr {s : Sign} {m m' : ℕ} {t t' : ℤ} {h : 0 < m} (hm : m = m') (ht : t = t') :
    UnpackedFloat.finite s m t h = .finite s m' t' (hm ▸ h) := by
  subst hm ht
  rfl

/-- A mantissa that is the normal one, shifted, is rounded to it. -/
theorem roundWithAccuracy_normal {m : ℕ} {t : ℤ} (h : Normal m t) (s : Sign) (k : ℕ) :
    roundWithAccuracy Format.binary64 s (m * 2 ^ k) (t - k) .exact = .finite s m t h.pos := by
  have htotal : totalExponent (m * 2 ^ k) (t - k) = totalExponent m t := by
    unfold totalExponent
    rw [log2_mul_two_pow h.pos]
    push_cast
    ring
  have hfirst : shiftToTargetExponent Format.binary64 (m * 2 ^ k) (t - k) .exact =
      (ExtendedMantissa.ofMantissaAndAccuracy m .exact, t) := by
    unfold shiftToTargetExponent shiftToExponent
    rw [htotal, targetExponent_normal h]
    dsimp only
    rw [show t - (t - (k : ℤ)) = k by ring, Int.toNat_natCast, shiftRight_exact, sub_add_cancel]
  have hsecond : shiftToTargetExponent Format.binary64 m t .exact =
      (ExtendedMantissa.ofMantissaAndAccuracy m .exact, t) := by
    unfold shiftToTargetExponent shiftToExponent
    rw [targetExponent_normal h]
    dsimp only
    rw [sub_self]
    exact congrArg (_, ·) (add_zero t)
  unfold roundWithAccuracy
  rw [hfirst]
  dsimp only
  have hround : (ExtendedMantissa.ofMantissaAndAccuracy m .exact).roundedMantissa = m := rfl
  rw [hround, hsecond]
  dsimp only
  have hmantissa : (ExtendedMantissa.ofMantissaAndAccuracy m .exact).mantissa = m := rfl
  rw [dif_neg (by rw [hmantissa]; exact h.pos.ne')]
  exact finite_congr hmantissa rfl

/-- The same number with another exponent is rounded to the normal form. -/
theorem round_normal {m a : ℕ} {t e : ℤ} (h : Normal m t) (s : Sign)
    (heq : (a : ℚ) * 2 ^ e = (m : ℚ) * 2 ^ t) :
    UnpackedFloat.round Format.binary64 s a e = .finite s m t h.pos := by
  by_cases hle : t ≤ e
  · -- the exponent is lowered to the target first
    obtain ⟨d, rfl⟩ : ∃ d : ℕ, e = t + d := ⟨(e - t).toNat, by omega⟩
    have hm : m = a * 2 ^ d := by
      rw [zpow_add₀ two_ne_zero, zpow_natCast] at heq
      have hpow : (2 : ℚ) ^ t ≠ 0 := zpow_ne_zero _ two_ne_zero
      have hcast : (m : ℚ) = a * 2 ^ d := by
        have := mul_right_cancel₀ hpow (show (m : ℚ) * 2 ^ t = a * 2 ^ d * 2 ^ t by rw [← heq]; ring)
        exact this
      exact_mod_cast hcast
    have ha : 0 < a := by
      rcases Nat.eq_zero_or_pos a with h0 | h0
      · rw [h0, zero_mul] at hm
        exact absurd hm h.pos.ne'
      · exact h0
    have htotal : totalExponent a (t + d) = totalExponent m t := by
      unfold totalExponent
      rw [hm, log2_mul_two_pow ha]
      push_cast
      ring
    have hround := roundWithAccuracy_normal h s 0
    rw [pow_zero, mul_one, Nat.cast_zero, sub_zero] at hround
    unfold UnpackedFloat.round
    rw [htotal, targetExponent_normal h]
    unfold decreaseExponent
    dsimp only
    rw [show t + (d : ℤ) - t = d by ring, Int.toNat_natCast, Nat.shiftLeft_eq, ← hm,
      add_sub_cancel_right]
    exact hround
  · obtain ⟨d, rfl⟩ : ∃ d : ℕ, e = t - d := ⟨(t - e).toNat, by omega⟩
    have ha : a = m * 2 ^ d := by
      have hpow : (2 : ℚ) ^ (t - d) ≠ 0 := zpow_ne_zero _ two_ne_zero
      have hsplit : (2 : ℚ) ^ t = 2 ^ d * 2 ^ (t - d) := by
        rw [← zpow_natCast, ← zpow_add₀ two_ne_zero]
        congr 1
        ring
      rw [hsplit, ← mul_assoc] at heq
      exact_mod_cast mul_right_cancel₀ hpow heq
    subst ha
    have htotal : totalExponent (m * 2 ^ d) (t - d) = totalExponent m t := by
      unfold totalExponent
      rw [log2_mul_two_pow h.pos]
      push_cast
      ring
    unfold UnpackedFloat.round
    rw [htotal, targetExponent_normal h]
    unfold decreaseExponent
    dsimp only
    rw [show (t - (d : ℤ) - t).toNat = 0 by omega, Nat.shiftLeft_zero, Nat.cast_zero, sub_zero]
    exact roundWithAccuracy_normal h s d

/-! ## Whole numbers -/

/-- The unpacked float is the normal form of `n`. -/
inductive IsWhole : UnpackedFloat → ℤ → Prop
  | zero : IsWhole (.zero .positive) 0
  | finite {s : Sign} {m : ℕ} {t n : ℤ} (h : Normal m t) (hn : n ≠ 0)
      (hval : ((s.apply m : ℤ) : ℚ) * 2 ^ t = n) : IsWhole (.finite s m t h.pos) n

theorem apply_natAbs (s : Sign) (m : ℕ) : (s.apply m).natAbs = m := by
  cases s
  · exact Int.natAbs_neg _
  · rfl

/-- A representable number is rounded to its normal form. -/
theorem normalize_whole {a n e : ℤ} (hrep : Representable n) (hval : (a : ℚ) * 2 ^ e = n) :
    IsWhole (UnpackedFloat.normalize Format.binary64 a e .positive) n := by
  have hpow : (2 : ℚ) ^ e ≠ 0 := zpow_ne_zero _ two_ne_zero
  have hsign : ∀ s : Sign, a = s.apply a.natAbs → n ≠ 0 →
      IsWhole (UnpackedFloat.round Format.binary64 s a.natAbs e) n := by
    intro s hs hn
    obtain ⟨m, t, hnormal, hmt⟩ := hrep.normal hn
    have habs : (a.natAbs : ℚ) * 2 ^ e = (m : ℚ) * 2 ^ t := by
      rw [hmt, Nat.cast_natAbs, Nat.cast_natAbs, Int.cast_abs, Int.cast_abs, ← hval, abs_mul,
        abs_of_pos (zpow_pos (two_pos : (0 : ℚ) < 2) e)]
    rw [round_normal hnormal s habs]
    refine .finite hnormal hn ?_
    rw [← hval]
    cases s with
    | positive =>
      rw [hs]
      exact habs.symm
    | negative =>
      rw [hs]
      show ((-(m : ℤ) : ℤ) : ℚ) * 2 ^ t = ((-(a.natAbs : ℤ) : ℤ) : ℚ) * 2 ^ e
      push_cast
      rw [neg_mul, neg_mul, ← habs, Nat.cast_natAbs, Int.cast_abs]
  unfold UnpackedFloat.normalize
  rcases lt_trichotomy a 0 with hlt | rfl | hgt
  · have hn : n ≠ 0 := by
      intro h0
      rw [h0, Int.cast_zero] at hval
      exact (mul_ne_zero (Int.cast_ne_zero.mpr hlt.ne) hpow) hval
    rw [compare_lt_iff_lt.mpr hlt, show (-a).toNat = a.natAbs by omega]
    exact hsign .negative (show a = -(a.natAbs : ℤ) by omega) hn
  · rw [Int.cast_zero, zero_mul] at hval
    have hn : n = 0 := by exact_mod_cast hval.symm
    rw [hn]
    exact .zero
  · have hn : n ≠ 0 := by
      intro h0
      rw [h0, Int.cast_zero] at hval
      exact (mul_ne_zero (Int.cast_ne_zero.mpr hgt.ne') hpow) hval
    rw [compare_gt_iff_gt.mpr hgt, show a.toNat = a.natAbs by omega]
    exact hsign .positive (show a = (a.natAbs : ℤ) by omega) hn

theorem decreaseExponent_value {m : ℕ} {e t : ℤ} (h : t ≤ e) :
    ((decreaseExponent m e t).1 : ℚ) * 2 ^ t = (m : ℚ) * 2 ^ e := by
  obtain ⟨d, rfl⟩ : ∃ d : ℕ, e = t + d := ⟨(e - t).toNat, by omega⟩
  unfold decreaseExponent
  dsimp only
  rw [show t + (d : ℤ) - t = d by ring, Int.toNat_natCast, Nat.shiftLeft_eq, zpow_add₀ two_ne_zero,
    zpow_natCast]
  push_cast
  ring

theorem apply_cast (s : Sign) (m : ℕ) : ((s.apply m : ℤ) : ℚ) = (s.apply 1 : ℤ) * (m : ℚ) := by
  cases s
  · show ((-(m : ℤ) : ℤ) : ℚ) = ((-1 : ℤ) : ℚ) * m
    push_cast
    ring
  · show ((m : ℤ) : ℚ) = ((1 : ℤ) : ℚ) * m
    push_cast
    ring

/-- The sum of two whole numbers is exact where it is representable. -/
theorem IsWhole.add {u v : UnpackedFloat} {a b : ℤ} (hu : IsWhole u a) (hv : IsWhole v b)
    (hrep : Representable (a + b)) : IsWhole (UnpackedFloat.add Format.binary64 u v) (a + b) := by
  cases hu with
  | zero =>
    rw [zero_add]
    cases hv with
    | zero => exact .zero
    | finite h hn hval => exact .finite h hn hval
  | @finite s m t _ h hn hval =>
    cases hv with
    | zero =>
      rw [add_zero]
      exact .finite h hn hval
    | @finite s' m' t' _ h' hn' hval' =>
      refine normalize_whole hrep ?_
      have hm : ((m <<< (t - min t t').toNat : ℕ) : ℚ) * 2 ^ min t t' = (m : ℚ) * 2 ^ t :=
        decreaseExponent_value (min_le_left t t')
      have hm' : ((m' <<< (t' - min t t').toNat : ℕ) : ℚ) * 2 ^ min t t' = (m' : ℚ) * 2 ^ t' :=
        decreaseExponent_value (min_le_right t t')
      rw [Int.cast_add, add_mul, apply_cast s, apply_cast s', mul_assoc, mul_assoc, hm, hm',
        ← mul_assoc, ← mul_assoc, ← apply_cast, ← apply_cast, hval, hval', Int.cast_add]

/-! ## Packing -/

theorem unpackSign_packComponents {spec : Format} (s : Sign) (e : BitVec spec.exponentBits)
    (m : BitVec spec.mantissaBitsWithoutImplicit) :
    unpackSign (packComponents spec s e m) = s.toBitVec := by
  ext i hi
  have hi0 : i = 0 := by omega
  subst hi0
  unfold unpackSign
  simp [packComponents, BitVec.getLsbD_append, BitVec.getElem_append]

theorem sign_toBitVec (s : Sign) : Sign.ofBitVec s.toBitVec = s := by cases s <;> rfl

/-- A normal form is packed without loss. -/
theorem unpack_pack_normal {m : ℕ} {t : ℤ} (h : Normal m t) (s : Sign) :
    unpack Format.binary64 (UnpackedFloat.pack Format.binary64 (.finite s m t h.pos)) =
      .finite s m t h.pos := by
  have hlow := h.low
  have hhigh := h.high
  obtain ⟨b, hb⟩ : ∃ b : ℕ, (b : ℤ) = t + 1075 := ⟨(t + 1075).toNat, by omega⟩
  have hbias : (t + (Format.binary64.exponentBias : ℤ) +
      (Format.binary64.mantissaBitsWithoutImplicit : ℤ)).toNat = b := by
    have : Format.binary64.exponentBias = 1023 := rfl
    rw [this]
    norm_num
    omega
  have hm := (Nat.log2_eq_iff h.pos.ne').mp h.bits
  have hpack : UnpackedFloat.pack Format.binary64 (.finite s m t h.pos) =
      packComponents Format.binary64 s (BitVec.ofNat 11 b) (BitVec.ofNat 52 m) := by
    unfold UnpackedFloat.pack
    dsimp only
    rw [hbias, if_neg (by norm_num; omega), if_pos (by rw [h.bits]; rfl)]
  have hexp : (BitVec.ofNat 11 b).toNat = b := by
    rw [BitVec.toNat_ofNat, Nat.mod_eq_of_lt (by omega)]
  have hnotMax : BitVec.ofNat 11 b ≠ -1#11 := by
    intro heq
    have hnat := congrArg BitVec.toNat heq
    rw [hexp] at hnat
    have : (-1#11 : BitVec 11).toNat = 2047 := rfl
    omega
  have hnotZero : BitVec.ofNat 11 b ≠ 0#11 := by
    intro heq
    have hnat := congrArg BitVec.toNat heq
    rw [hexp] at hnat
    have : (0#11 : BitVec 11).toNat = 0 := rfl
    omega
  have hmantissa : (1#1 ++ BitVec.ofNat 52 m).toNat = m := by
    have hone : (1#1 : BitVec 1).toNat = 1 := rfl
    have hlow : (BitVec.ofNat 52 m).toNat = m % 2 ^ 52 := BitVec.toNat_ofNat _ _
    rw [BitVec.toNat_append, ← Nat.shiftLeft_add_eq_or_of_lt (BitVec.isLt _), hone, hlow,
      Nat.shiftLeft_eq]
    omega
  have hexponent : ((BitVec.ofNat 11 b).toNat : ℤ) -
      (Format.binary64.exponentBias + Format.binary64.mantissaBitsWithoutImplicit : ℕ) = t := by
    rw [hexp]
    have : Format.binary64.exponentBias = 1023 := rfl
    rw [this]
    norm_num
    omega
  rw [hpack]
  unfold UnpackedFloat.unpack
  dsimp only
  rw [if_neg (by rwa [unpackExponent_packComponents]), if_neg (by rwa [unpackExponent_packComponents])]
  rw [unpackSign_packComponents, sign_toBitVec]
  refine finite_congr ?_ ?_
  · rw [unpackMantissa_packComponents]
    exact hmantissa
  · rw [unpackExponent_packComponents]
    exact hexponent

theorem IsWhole.unpack_pack {u : UnpackedFloat} {n : ℤ} (h : IsWhole u n) :
    unpack Format.binary64 (UnpackedFloat.pack Format.binary64 u) = u := by
  cases h with
  | zero => rfl
  | finite h => exact unpack_pack_normal h _

theorem IsWhole.value {u : UnpackedFloat} {n : ℤ} (h : IsWhole u n) : Binary64.value u = some (n : ℚ) := by
  cases h with
  | zero => exact congrArg some Int.cast_zero.symm
  | finite h hn hval => exact congrArg some hval

/-! ## Floats -/

/-- The float is the whole number `n`, and zero without a sign. -/
def Whole (f : Float) (n : ℤ) : Prop := IsWhole f.toModel.unpack n

/-- A packed normal form. -/
theorem whole_pack {u : UnpackedFloat} {n : ℤ} (h : IsWhole u n) :
    Whole (Float.ofModel (Float.Model.pack u)) n := by
  have hunpack := h.unpack_pack
  unfold Whole
  show IsWhole (unpack Format.binary64 (UnpackedFloat.pack Format.binary64 u)) n
  rwa [hunpack]

theorem Whole.add {f g : Float} {a b : ℤ} (hf : Whole f a) (hg : Whole g b)
    (hrep : Representable (a + b)) : Whole (f + g) (a + b) :=
  whole_pack (IsWhole.add hf hg hrep)

theorem whole_ofNat {n : UInt64} (hrep : Representable n.toNat) : Whole n.toFloat n.toNat := by
  refine whole_pack (normalize_whole hrep ?_)
  rw [zpow_zero, mul_one]

theorem Whole.neg {f : Float} {n : ℤ} (h : Whole f n) (hn : n ≠ 0) : Whole (-f) (-n) := by
  have hneg : IsWhole f.toModel.unpack.neg (-n) := by
    unfold Whole at h
    generalize f.toModel.unpack = u at h
    cases h with
    | zero => exact absurd rfl hn
    | @finite s m t _ h _ hval =>
      refine .finite h (neg_ne_zero.mpr hn) ?_
      rw [Int.cast_neg, ← hval]
      cases s
      · show ((m : ℤ) : ℚ) * 2 ^ t = -(((-(m : ℤ) : ℤ) : ℚ) * 2 ^ t)
        push_cast
        ring
      · show ((-(m : ℤ) : ℤ) : ℚ) * 2 ^ t = -(((m : ℤ) : ℚ) * 2 ^ t)
        push_cast
        ring
  exact whole_pack hneg

theorem whole_zero : Whole 0 0 := by
  have hzero : (0 : Float).toModel.unpack = .zero .positive := by rfl
  unfold Whole
  rw [hzero]
  exact .zero

/-- Its bits are those of that number. -/
theorem Whole.value_toBits {f : Float} {n : ℤ} (h : Whole f n) : bitsValue f.toBits = some (n : ℚ) :=
  IsWhole.value h

/-! ## Truncation -/

/-- What a bit pattern is unpacked to. -/
inductive Canonical : UnpackedFloat → Prop
  | infinity (s : Sign) : Canonical (.infinity s)
  | nan : Canonical .notANumber
  | zero (s : Sign) : Canonical (.zero s)
  | subnormal (s : Sign) {m : ℕ} (hm : 0 < m) (hlt : m < 2 ^ 52) : Canonical (.finite s m (-1074) hm)
  | normal (s : Sign) {m : ℕ} {t : ℤ} (h : Normal m t) : Canonical (.finite s m t h.pos)

theorem canonical_unpack (b : BitVec 64) : Canonical (UnpackedFloat.unpack Format.binary64 b) := by
  have hbias : (Format.binary64.exponentBias : ℤ) = 1023 := rfl
  unfold UnpackedFloat.unpack
  dsimp only
  refine iteInduction (fun _ => iteInduction (fun _ => .infinity _) fun _ => .nan) fun hmax => ?_
  have hexp : (@unpackExponent Format.binary64 b).toNat < 2047 := by
    have hlt : (@unpackExponent Format.binary64 b).toNat < 2 ^ 11 := BitVec.isLt _
    have hne : (@unpackExponent Format.binary64 b).toNat ≠ 2047 := fun h => hmax (BitVec.eq_of_toNat_eq h)
    omega
  have hmantissa : (@unpackMantissa Format.binary64 b).toNat < 2 ^ 52 := BitVec.isLt _
  refine iteInduction (fun hsub => ?_) fun hnormal => ?_
  · by_cases hne : @unpackMantissa Format.binary64 b = 0#_
    · rw [dif_pos hne]
      exact .zero _
    · rw [dif_neg hne]
      have hpos : 0 < (@unpackMantissa Format.binary64 b).toNat :=
        Nat.pos_of_ne_zero fun h => hne (BitVec.eq_of_toNat_eq h)
      have hzero : (@unpackExponent Format.binary64 b).toNat = 0 := congrArg BitVec.toNat hsub
      have hlow : (((@unpackExponent Format.binary64 b).toNat : ℕ) : ℤ) - (Format.binary64.exponentBias + (52 : ℕ)) + 1 = -1074 := by
        rw [hzero, hbias]
        rfl
      rw [finite_congr rfl hlow]
      exact .subnormal _ hpos hmantissa
  · have hpos : 0 < (@unpackExponent Format.binary64 b).toNat :=
      Nat.pos_of_ne_zero fun h => hnormal (BitVec.eq_of_toNat_eq h)
    have hsum : (1#1 ++ @unpackMantissa Format.binary64 b).toNat = 2 ^ 52 + (@unpackMantissa Format.binary64 b).toNat := by
      have hone : (1#1 : BitVec 1).toNat = 1 := rfl
      rw [BitVec.toNat_append, ← Nat.shiftLeft_add_eq_or_of_lt (BitVec.isLt _), hone, Nat.shiftLeft_eq, Nat.one_mul]
    refine .normal _ ⟨?_, ?_, ?_⟩
    · rw [hsum]
      exact (Nat.log2_eq_iff (by omega)).mpr ⟨by omega, by omega⟩
    · rw [hbias]
      omega
    · rw [hbias]
      omega

/-- The mantissa of a whole number, with a point in it. -/
theorem mantissa_of_whole {s : Sign} {m d : ℕ} {n : ℤ} (h : ((s.apply m : ℤ) : ℚ) * 2 ^ (-(d : ℤ)) = n) :
    m = n.natAbs * 2 ^ d := by
  have hscale : ((s.apply m : ℤ) : ℚ) = ((n * 2 ^ d : ℤ) : ℚ) := by
    rw [zpow_neg, zpow_natCast, ← div_eq_mul_inv, div_eq_iff (by positivity)] at h
    rw [h]
    push_cast
    rfl
  have hnat := congrArg Int.natAbs (Int.cast_injective hscale)
  rwa [apply_natAbs, Int.natAbs_mul, Int.natAbs_pow] at hnat

/-- What is below the normal range is no whole number. -/
theorem small_not_whole {s : Sign} {m k d : ℕ} {n : ℤ} (hm : 0 < m) (hlt : m < 2 ^ k) (hk : k ≤ d) :
    ((s.apply m : ℤ) : ℚ) * 2 ^ (-(d : ℤ)) ≠ n := by
  intro h
  have hwhole := mantissa_of_whole h
  rcases Nat.eq_zero_or_pos n.natAbs with hzero | hpos
  · rw [hzero, Nat.zero_mul] at hwhole
    exact hm.ne' hwhole
  · have hle : 2 ^ d ≤ m := hwhole ▸ Nat.le_mul_of_pos_left _ hpos
    have hpow : 2 ^ k ≤ 2 ^ d := Nat.pow_le_pow_right two_pos hk
    exact absurd (hpow.trans hle) (Nat.not_le.mpr hlt)

/-- A bit pattern that stands for a whole number is unpacked to zero or its normal form. -/
theorem unpack_whole {b : BitVec 64} {n : ℤ} (h : value (UnpackedFloat.unpack Format.binary64 b) = some (n : ℚ)) :
    (n = 0 ∧ ∃ s, UnpackedFloat.unpack Format.binary64 b = .zero s) ∨ (n ≠ 0 ∧ IsWhole (UnpackedFloat.unpack Format.binary64 b) n) := by
  have hcanonical := canonical_unpack b
  generalize UnpackedFloat.unpack Format.binary64 b = u at h hcanonical
  cases hcanonical with
  | infinity s => cases h
  | nan => cases h
  | zero s =>
    have hzero : (0 : ℚ) = n := Option.some.inj h
    exact .inl ⟨by exact_mod_cast hzero.symm, s, rfl⟩
  | subnormal s hm hlt => exact absurd (Option.some.inj h) (small_not_whole (k := 52) (d := 1074) hm hlt (by decide))
  | @normal s m t hnormal =>
    have hval := Option.some.inj h
    refine .inr ⟨?_, .finite hnormal ?_ hval⟩ <;> rintro rfl
    all_goals
      have hzero : (s.apply m : ℤ) = 0 := by
        rw [Int.cast_zero, mul_eq_zero, or_iff_left (zpow_ne_zero _ two_ne_zero)] at hval
        exact_mod_cast hval
      have hm := apply_natAbs s m
      rw [hzero] at hm
      exact absurd hm.symm hnormal.pos.ne'

/-- A whole number is its own truncation. -/
theorem IsWhole.toInt {u : UnpackedFloat} {n : ℤ} (h : IsWhole u n) (lo hi : ℤ) : u.toInt lo hi = n := by
  cases h with
  | zero => rfl
  | @finite s m t _ hnormal hn hval =>
    have hsign : ∀ k : ℕ, (k : ℚ) = m * 2 ^ t → s.apply k = n := fun k hk => by
      have hcast : ((s.apply k : ℤ) : ℚ) = n := by rw [apply_cast, hk, ← mul_assoc, ← apply_cast, hval]
      exact_mod_cast hcast
    show roundToInt s m t = n
    unfold roundToInt decreaseExponent shiftToExponent
    dsimp only
    rcases Int.lt_or_le t 0 with hneg | hpos
    · obtain ⟨d, rfl⟩ : ∃ d : ℕ, t = -(d : ℤ) := ⟨t.natAbs, by omega⟩
      have hm := mantissa_of_whole hval
      rw [show (-(d : ℤ) - 0).toNat = 0 by omega, show (0 - (-(d : ℤ) - (0 : ℕ))).toNat = d by omega, Nat.shiftLeft_zero, hm, shiftRight_exact]
      refine hsign n.natAbs ?_
      rw [hm, zpow_neg, zpow_natCast, Nat.cast_mul, Nat.cast_pow, Nat.cast_two, mul_assoc, mul_inv_cancel₀ (by positivity), mul_one]
    · obtain ⟨d, rfl⟩ : ∃ d : ℕ, t = d := ⟨t.toNat, by omega⟩
      rw [show ((d : ℤ) - 0).toNat = d by omega, show (0 - ((d : ℤ) - d)).toNat = 0 by omega]
      refine hsign (m <<< d) ?_
      rw [Nat.shiftLeft_eq, Nat.cast_mul, Nat.cast_pow, Nat.cast_two, zpow_natCast]

theorem lt_zero_iff (f : Float) : f < 0 ↔ f.toModel.unpack.compare (.zero .positive) = some .lt := by
  have hzero : (0 : Float).toModel.unpack = .zero .positive := by rfl
  rw [← hzero, ← beq_iff_eq]
  exact decide_eq_true_iff

theorem Whole.lt_zero {f : Float} {n : ℤ} (h : Whole f n) : f < 0 ↔ n < 0 := by
  rw [lt_zero_iff]
  unfold Whole at h
  generalize f.toModel.unpack = u at h
  cases h with
  | zero => exact iff_of_false (by rintro ⟨⟩) (lt_irrefl 0)
  | @finite s m t _ hnormal hn hval =>
    have hpos : (0 : ℚ) < (m : ℚ) * 2 ^ t := mul_pos (Nat.cast_pos.mpr hnormal.pos) (zpow_pos two_pos _)
    cases s with
    | negative =>
      have hneg : (n : ℚ) < 0 := by
        rw [← hval]
        show ((-(m : ℤ) : ℤ) : ℚ) * 2 ^ t < 0
        push_cast
        linarith
      exact iff_of_true rfl (by exact_mod_cast hneg)
    | positive =>
      have hge : (0 : ℚ) < n := hval ▸ hpos
      exact iff_of_false (by rintro ⟨⟩) (not_lt.mpr (by exact_mod_cast hge.le))

theorem Whole.toUInt64 {f : Float} {n : ℕ} (h : Whole f n) (hn : n < 2 ^ 64) : f.toUInt64.toNat = n := by
  have hint := IsWhole.toInt h 0 (UInt64.size - 1)
  show (UInt64.ofNatClamp (f.toModel.unpack.toInt 0 (UInt64.size - 1)).toNat).toNat = n
  rw [hint, Int.toNat_natCast, UInt64.toNat_ofNatClamp_of_lt hn]

/-- Zero of either sign is not below zero, and its truncation is zero. -/
theorem truncation_zero {f : Float} {s : Sign} (h : f.toModel.unpack = .zero s) : ¬ f < 0 ∧ f.toUInt64.toNat = 0 := by
  constructor
  · rw [lt_zero_iff, h]
    nofun
  · show (UInt64.ofNatClamp (f.toModel.unpack.toInt 0 (UInt64.size - 1)).toNat).toNat = 0
    rw [h]
    rfl

/-- The float of a bit pattern that stands for a whole number. -/
theorem whole_ofBits {bits : UInt64} {n : ℤ} (h : bitsValue bits = some (n : ℚ)) :
    (n = 0 ∧ ∃ s, (Float.ofBits bits).toModel.unpack = .zero s) ∨ (n ≠ 0 ∧ Whole (Float.ofBits bits) n) := by
  rcases unpack_whole h with ⟨hn, s, hzero⟩ | ⟨hn, hwhole⟩
  · refine .inl ⟨hn, s, ?_⟩
    show UnpackedFloat.unpack Format.binary64 (UnpackedFloat.pack Format.binary64 (UnpackedFloat.unpack Format.binary64 bits.toBitVec)) = _
    rw [hzero]
    cases s <;> rfl
  · exact .inr ⟨hn, whole_pack hwhole⟩

end Lib.Binary64
