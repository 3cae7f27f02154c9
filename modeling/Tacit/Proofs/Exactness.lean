import Mathlib
import Tacit.Number

/-!
# Natural numbers below 2 ^ 53 are exact

A quantity has a mantissa of 53 bits. So a natural number below 2 ^ 53 is rounded to itself
(`round_exact`), and one from 2 ^ 53 on to such a one, where the mantissa may carry over
(`round_large`). What is rounded can be read off the bits again (`unpack_pack`, `ofFloat?_pack`).

A natural number below 2 ^ 53 is thus the whole part of the quantity that it gives
(`Whole.part_toFloat`). The sum of two such quantities is the one of the sum, or it is too large for that
(`toFloat_add`, `Whole.le_part_toFloat_add`).
-/

namespace Tacit

open Float.Model (Format totalExponent UnpackedFloat)
open Float.Model.UnpackedFloat (Sign Accuracy ExtendedMantissa)

namespace Float64

theorem targetExponent_eq (t : Int) : Format.binary64.targetExponent t = max (t - 53) (-1074) := by
  simp only [Format.targetExponent]
  rfl

/-- Dropping the low bits of a mantissa that are all zero loses nothing. -/
theorem shiftRight_exact (m : Nat) : ∀ k : Nat,
    (ExtendedMantissa.ofMantissaAndAccuracy (m * 2 ^ k) .exact) >>> k
      = ExtendedMantissa.ofMantissaAndAccuracy m .exact := by
  intro k
  induction k generalizing m with
  | zero => simp [HShiftRight.hShiftRight, Nat.repeat]
  | succ k ih =>
    have h := ih (m * 2)
    rw [mul_assoc, ← pow_succ'] at h
    show (ExtendedMantissa.ofMantissaAndAccuracy _ .exact >>> k).shiftRightOne = _
    rw [h]
    simp [ExtendedMantissa.shiftRightOne, ExtendedMantissa.ofMantissaAndAccuracy]

theorem log2_mul_two_pow {m : Nat} (hm : m ≠ 0) (k : Nat) : (m * 2 ^ k).log2 = m.log2 + k := by
  have hpos : 0 < 2 ^ k := Nat.two_pow_pos k
  rw [Nat.log2_eq_iff (by positivity), pow_add, add_right_comm, pow_add]
  exact ⟨Nat.mul_le_mul_right _ (Nat.log2_self_le hm),
    Nat.mul_lt_mul_of_pos_right Nat.lt_log2_self hpos⟩

theorem log2_of_normal {m : Nat} (h : 2 ^ 52 ≤ m) (h' : m < 2 ^ 53) : m.log2 = 52 :=
  (Nat.log2_eq_iff (by omega)).2 ⟨h, h'⟩

/-- Rounding, step by step: to a mantissa, and again where that has carried over. -/
theorem roundWithAccuracy_eq {s : Sign} {m r m' : Nat} {e t e' : Int} {em em' : ExtendedMantissa}
    (hfirst : UnpackedFloat.shiftToTargetExponent .binary64 m e .exact = (em, t))
    (hr : em.roundedMantissa = r)
    (hsecond : UnpackedFloat.shiftToTargetExponent .binary64 r t .exact = (em', e'))
    (hm : em'.mantissa = m') (hpos : 0 < m') :
    UnpackedFloat.roundWithAccuracy .binary64 s m e .exact = .finite s m' e' hpos := by
  subst hr hm
  simp only [UnpackedFloat.roundWithAccuracy, hfirst, hsecond]
  exact dif_neg (Nat.ne_of_gt hpos)

theorem shiftToTargetExponent_eq {m : Nat} {e : Int} {k : Nat}
    (h : Format.binary64.targetExponent (totalExponent m e) = e + k) :
    UnpackedFloat.shiftToTargetExponent .binary64 m e .exact
      = (ExtendedMantissa.ofMantissaAndAccuracy m .exact >>> k, e + k) := by
  simp only [UnpackedFloat.shiftToTargetExponent, UnpackedFloat.shiftToExponent, h]
  rw [show e + (k : Int) - e = (k : Int) by omega, Int.toNat_natCast]

/-- A mantissa of 53 bits stays where it is. -/
theorem shiftToTargetExponent_normal {m : Nat} (h : 2 ^ 52 ≤ m) (h' : m < 2 ^ 53) {e : Int}
    (he : -1074 ≤ e) : UnpackedFloat.shiftToTargetExponent .binary64 m e .exact
      = (ExtendedMantissa.ofMantissaAndAccuracy m .exact, e) := by
  rw [shiftToTargetExponent_eq (k := 0)]
  · simp [HShiftRight.hShiftRight, Nat.repeat]
  · rw [targetExponent_eq, totalExponent, log2_of_normal h h']
    push_cast
    omega

/-- Rounding a quantity of 53 bits at most gives that quantity. -/
theorem roundWithAccuracy_exact {m : Nat} (h : 2 ^ 52 ≤ m) (h' : m < 2 ^ 53) (k : Nat) {e : Int}
    (he : -1074 ≤ e) (s : Sign) :
    UnpackedFloat.roundWithAccuracy .binary64 s (m * 2 ^ k) (e - k) .exact
      = .finite s m e (Nat.lt_of_lt_of_le (by decide) h) := by
  have htarget : Format.binary64.targetExponent (totalExponent (m * 2 ^ k) (e - k)) = e - k + k := by
    rw [targetExponent_eq, totalExponent, log2_mul_two_pow (by omega), log2_of_normal h h']
    push_cast
    omega
  have hfirst : UnpackedFloat.shiftToTargetExponent .binary64 (m * 2 ^ k) (e - k) .exact
      = (ExtendedMantissa.ofMantissaAndAccuracy m .exact, e) := by
    rw [shiftToTargetExponent_eq htarget, shiftRight_exact, sub_add_cancel]
  exact roundWithAccuracy_eq hfirst rfl (shiftToTargetExponent_normal h h' he) rfl _

theorem decreaseExponent_eq (m : Nat) (e t : Int) :
    UnpackedFloat.decreaseExponent m e t
      = (m * 2 ^ (e - t).toNat, e - ((e - t).toNat : Int)) := by
  simp only [UnpackedFloat.decreaseExponent, Nat.shiftLeft_eq]

/-- The mantissa of a number from 1 to 2 ^ 53. -/
def mantissa (n : Nat) : Nat := n * 2 ^ (52 - n.log2)

section Whole

variable {n : Nat} (hpos : 0 < n) (hn : n < 2 ^ 53)
include hpos hn

theorem log2_le : n.log2 ≤ 52 := by
  have := (Nat.log2_lt (Nat.ne_of_gt hpos)).2 hn
  omega

theorem mantissa_bounds : 2 ^ 52 ≤ mantissa n ∧ mantissa n < 2 ^ 53 := by
  have hlog := log2_le hpos hn
  have hne : n ≠ 0 := Nat.ne_of_gt hpos
  have h := log2_mul_two_pow hne (52 - n.log2)
  rw [show n.log2 + (52 - n.log2) = 52 by omega] at h
  exact (Nat.log2_eq_iff (Nat.mul_ne_zero hne (Nat.two_pow_pos _).ne')).1 h

/-- A natural number below 2 ^ 53 is rounded to itself. -/
theorem round_exact (d : Nat) :
    UnpackedFloat.round .binary64 .positive (n * 2 ^ d) (-(d : Int))
      = .finite .positive (mantissa n) (n.log2 - 52)
          (Nat.lt_of_lt_of_le (by decide) (mantissa_bounds hpos hn).1) := by
  have hlog := log2_le hpos hn
  have hne : n ≠ 0 := Nat.ne_of_gt hpos
  obtain ⟨hlo, hhi⟩ := mantissa_bounds hpos hn
  have htarget : Format.binary64.targetExponent (totalExponent (n * 2 ^ d) (-(d : Int)))
      = (n.log2 : Int) - 52 := by
    rw [targetExponent_eq, totalExponent, log2_mul_two_pow hne]
    push_cast
    omega
  have hscale : n * 2 ^ d * 2 ^ (-(d : Int) - ((n.log2 : Int) - 52)).toNat
      = mantissa n * 2 ^ (d - (52 - n.log2)) := by
    rw [mantissa, mul_assoc, mul_assoc, ← pow_add, ← pow_add]
    congr 2
    omega
  have hexp : -(d : Int) - ((-(d : Int) - ((n.log2 : Int) - 52)).toNat : Int)
      = (n.log2 : Int) - 52 - ((d - (52 - n.log2) : Nat) : Int) := by
    omega
  simp only [UnpackedFloat.round, htarget, decreaseExponent_eq, hscale, hexp]
  exact roundWithAccuracy_exact hlo hhi _ (by omega) _

end Whole

theorem shiftRight_mantissa (em : ExtendedMantissa) : ∀ k : Nat,
    (em >>> k).mantissa = em.mantissa / 2 ^ k
  | 0 => by simp [HShiftRight.hShiftRight, Nat.repeat]
  | k + 1 => by
    show (em >>> k).shiftRightOne.mantissa = _
    simp only [ExtendedMantissa.shiftRightOne, shiftRight_mantissa em k, Nat.div_div_eq_div_mul,
      pow_succ]

theorem roundedMantissa_bounds (em : ExtendedMantissa) :
    em.mantissa ≤ em.roundedMantissa ∧ em.roundedMantissa ≤ em.mantissa + 1 := by
  unfold ExtendedMantissa.roundedMantissa Accuracy.roundToNearestEven
  split <;> omega

/-- A natural number from 2 ^ 53 on is rounded to one from 2 ^ 53 on. Where the mantissa is full it
carries over into a bit of its own. -/
theorem round_large {n : Nat} (hn : 2 ^ 53 ≤ n) (hn' : n < 2 ^ 54) (d : Nat) :
    ∃ m e, ∃ hm : 0 < m, UnpackedFloat.round .binary64 .positive (n * 2 ^ d) (-(d : Int))
      = .finite .positive m e hm ∧ 2 ^ 52 ≤ m ∧ m < 2 ^ 53 ∧ 1 ≤ e ∧ e ≤ 2 := by
  have hne : n ≠ 0 := by omega
  have hlog : n.log2 = 53 := (Nat.log2_eq_iff hne).2 ⟨hn, hn'⟩
  have htarget : Format.binary64.targetExponent (totalExponent (n * 2 ^ d) (-(d : Int))) = 1 := by
    rw [targetExponent_eq, totalExponent, log2_mul_two_pow hne, hlog]
    push_cast
    omega
  have hshift : (-(d : Int) - 1).toNat = 0 := by omega
  have hexp : -(d : Int) + (d + 1 : Nat) = 1 := by push_cast; omega
  have hfirst : UnpackedFloat.shiftToTargetExponent .binary64 (n * 2 ^ d) (-(d : Int)) .exact
      = (ExtendedMantissa.ofMantissaAndAccuracy (n * 2 ^ d) .exact >>> (d + 1), 1) := by
    rw [shiftToTargetExponent_eq (k := d + 1) (by rw [htarget, hexp]), hexp]
  obtain ⟨r, hr⟩ : ∃ r, (ExtendedMantissa.ofMantissaAndAccuracy (n * 2 ^ d) .exact
      >>> (d + 1)).roundedMantissa = r := ⟨_, rfl⟩
  have hhalf : n / 2 ≤ r ∧ r ≤ n / 2 + 1 := by
    have hbounds := roundedMantissa_bounds
      (ExtendedMantissa.ofMantissaAndAccuracy (n * 2 ^ d) .exact >>> (d + 1))
    rw [hr, shiftRight_mantissa] at hbounds
    have hdiv : n * 2 ^ d / 2 ^ (d + 1) = n / 2 := by
      rw [pow_succ, mul_comm n, Nat.mul_div_mul_left _ _ (Nat.two_pow_pos d)]
    exact hdiv ▸ hbounds
  simp only [UnpackedFloat.round, htarget, decreaseExponent_eq, hshift, pow_zero, mul_one,
    Nat.cast_zero, sub_zero]
  rcases Nat.lt_or_ge r (2 ^ 53) with hlt | hge
  · exact ⟨r, 1, by omega, roundWithAccuracy_eq hfirst hr
      (shiftToTargetExponent_normal (by omega) hlt (by decide)) rfl _, by omega, hlt, by decide⟩
  · obtain rfl : r = 2 ^ 53 := by omega
    have hcarry : Format.binary64.targetExponent (totalExponent (2 ^ 53) 1) = 1 + (1 : Nat) := by
      rw [targetExponent_eq, totalExponent, Nat.log2_two_pow]
      decide
    exact ⟨2 ^ 52, 1 + (1 : Nat), by decide, roundWithAccuracy_eq hfirst hr
      (shiftToTargetExponent_eq hcarry) (shiftRight_mantissa _ 1) _, by decide⟩

section Packed

variable {m : Nat} (h : 2 ^ 52 ≤ m) (h' : m < 2 ^ 53) {e : Int} (he : -1074 ≤ e) (he' : e ≤ 971)
  (hpos : 0 < m)
include h h' he he'

/-- A mantissa of 53 bits is packed without its first bit. -/
theorem pack_normal : UnpackedFloat.pack .binary64 (.finite .positive m e hpos)
    = UnpackedFloat.packComponents .binary64 .positive (BitVec.ofNat 11 (e + 1075).toNat)
        (BitVec.ofNat 52 m) := by
  have hexp : e + (Format.binary64.exponentBias : Int) + Format.binary64.mantissaBitsWithoutImplicit
      = e + 1075 := by
    show e + 1023 + 52 = e + 1075
    omega
  simp only [UnpackedFloat.pack, hexp, log2_of_normal h h']
  rw [if_neg (by show ¬ 2 ^ 11 ≤ _; omega)]
  exact if_pos rfl

theorem toNat_pack : (UnpackedFloat.pack .binary64 (.finite .positive m e hpos)).toNat
    = (e + 1075).toNat * 2 ^ 52 + (m - 2 ^ 52) := by
  rw [pack_normal h h' he he']
  have happend : ∀ (a : BitVec 1) (b : BitVec 11) (c : BitVec 52), a = 0#1 →
      (a ++ b ++ c).toNat = b.toNat * 2 ^ 52 + c.toNat := by
    rintro _ b c rfl
    rw [BitVec.toNat_append, BitVec.toNat_append, ← Nat.shiftLeft_add_eq_or_of_lt c.isLt,
      Nat.shiftLeft_eq]
    simp
  refine (happend _ _ _ rfl).trans ?_
  simp only [BitVec.toNat_ofNat]
  omega

/-- A number is unpacked as it was packed. -/
theorem unpack_pack : UnpackedFloat.unpack .binary64
    (UnpackedFloat.pack .binary64 (.finite .positive m e hpos)) = .finite .positive m e hpos := by
  have hexp : (BitVec.ofNat 11 (e + 1075).toNat).toNat = (e + 1075).toNat := by
    rw [BitVec.toNat_ofNat]
    omega
  have htop : BitVec.ofNat 11 (e + 1075).toNat ≠ -1#11 := by
    intro heq
    have := congrArg BitVec.toNat heq
    rw [hexp] at this
    have hones : (-1#11).toNat = 2047 := by decide
    omega
  have hzero : BitVec.ofNat 11 (e + 1075).toNat ≠ 0#11 := by
    intro heq
    have := congrArg BitVec.toNat heq
    rw [hexp] at this
    simp at this
    omega
  have hmantissa : (1#1 ++ BitVec.ofNat 52 m).toNat = m := by
    rw [BitVec.toNat_append, ← Nat.shiftLeft_add_eq_or_of_lt (BitVec.isLt _), Nat.shiftLeft_eq,
      BitVec.toNat_ofNat, BitVec.toNat_ofNat]
    omega
  have hbias : ((e + 1075).toNat : Int) - ((Format.binary64.exponentBias : Int) + (52 : Nat)) = e := by
    show ((e + 1075).toNat : Int) - 1075 = e
    omega
  rw [pack_normal h h' he he']
  simp only [UnpackedFloat.unpack, UnpackedFloat.unpackMantissa_packComponents,
    UnpackedFloat.unpackExponent_packComponents, UnpackedFloat.unpackSign_packComponents]
  rw [if_neg htop, if_neg hzero]
  simp only [hmantissa, hexp, hbias]
  rfl

end Packed

/-- A natural number below 2 ^ 53 as it is unpacked. -/
def whole (n : Nat) : UnpackedFloat :=
  if h : n = 0 then .zero .positive
  else .finite .positive (mantissa n) (n.log2 - 52)
    (Nat.mul_pos (Nat.pos_of_ne_zero h) (Nat.two_pow_pos _))

theorem whole_zero : whole 0 = .zero .positive := rfl

theorem whole_of_pos {n : Nat} (h : 0 < n) : whole n = .finite .positive (mantissa n) (n.log2 - 52)
    (Nat.mul_pos h (Nat.two_pow_pos _)) :=
  dif_neg (Nat.ne_of_gt h)

theorem normalize_of_pos {n : Nat} (h : 0 < n) (e : Int) :
    UnpackedFloat.normalize .binary64 n e .positive
      = UnpackedFloat.round .binary64 .positive n e := by
  have hcmp : compare (n : Int) 0 = .gt := Int.compare_eq_gt.2 (by omega)
  simp only [UnpackedFloat.normalize, hcmp, Int.toNat_natCast]

section Below

variable {n : Nat} (hn : n < 2 ^ 53)
include hn

theorem normalize_whole (d : Nat) :
    UnpackedFloat.normalize .binary64 ((n * 2 ^ d : Nat) : Int) (-(d : Int)) .positive
      = whole n := by
  rcases Nat.eq_zero_or_pos n with rfl | hpos
  · rw [Nat.zero_mul]
    rfl
  · rw [normalize_of_pos (Nat.mul_pos hpos (Nat.two_pow_pos d)), round_exact hpos hn,
      whole_of_pos hpos]

theorem unpack_whole : (Float.Model.pack (whole n)).unpack = whole n := by
  rcases Nat.eq_zero_or_pos n with rfl | hpos
  · exact UnpackedFloat.unpack_packedZero
  · have hlog := log2_le hpos hn
    obtain ⟨hlo, hhi⟩ := mantissa_bounds hpos hn
    rw [whole_of_pos hpos]
    exact unpack_pack hlo hhi (by omega) (by omega) _

theorem mul_one_whole : UnpackedFloat.mul .binary64 (whole n)
    (.finite .positive (2 ^ 52) (-52) (by decide)) = whole n := by
  rcases Nat.eq_zero_or_pos n with rfl | hpos
  · rfl
  · obtain ⟨hlo, hhi⟩ := mantissa_bounds hpos hn
    rw [whole_of_pos hpos]
    exact roundWithAccuracy_exact hlo hhi 52 (by omega) .positive

/-- A natural number less than 2 ^ 53 is exact. -/
theorem toModel_toFloat : n.toFloat.toModel = Float.Model.pack (whole n) := by
  have hword : n.toUInt64.toNat = n := Nat.mod_eq_of_lt (by omega)
  have hunpacked : UnpackedFloat.ofUInt64 .binary64 n.toUInt64 = whole n := by
    have h := normalize_whole hn 0
    rw [pow_zero, mul_one, Nat.cast_zero, neg_zero] at h
    rw [UnpackedFloat.ofUInt64, hword]
    exact h
  have hfactor : (Float.Model.ofBits 4607182418800017408).unpack
      = .finite .positive (2 ^ 52) (-52) (by decide) := rfl
  have hproduct : n.toFloat = n.toUInt64.toFloat * Float.ofBits 4607182418800017408 := by
    show Float.ofScientific n false 0 = _
    rw [Float.ofScientific, dif_pos ⟨hn, by decide⟩]
    rfl
  rw [hproduct]
  show Float.Model.pack (UnpackedFloat.mul .binary64
    (Float.Model.pack (UnpackedFloat.ofUInt64 .binary64 n.toUInt64)).unpack
    (Float.Model.ofBits 4607182418800017408).unpack) = _
  rw [hunpacked, unpack_whole hn, hfactor, mul_one_whole hn]

end Below

/-- The sum of two natural numbers is rounded once. -/
theorem add_whole {a b : Nat} (ha : 0 < a) (ha' : a < 2 ^ 53) (hb : 0 < b) (hb' : b < 2 ^ 53) :
    ∃ d : Nat, UnpackedFloat.add .binary64 (whole a) (whole b)
      = UnpackedFloat.normalize .binary64 (((a + b) * 2 ^ d : Nat) : Int) (-(d : Int))
          .positive := by
  have hla := log2_le ha ha'
  have hlb := log2_le hb hb'
  obtain ⟨d, hd⟩ : ∃ d : Nat, min ((a.log2 : Int) - 52) ((b.log2 : Int) - 52) = -(d : Int) :=
    ⟨52 - min a.log2 b.log2, by omega⟩
  have hscale : ∀ n : Nat, n.log2 ≤ 52 → -(d : Int) ≤ (n.log2 : Int) - 52 →
      mantissa n * 2 ^ (((n.log2 : Int) - 52) - -(d : Int)).toNat = n * 2 ^ d := by
    intro n hn hle
    rw [mantissa, mul_assoc, ← pow_add]
    congr 2
    omega
  refine ⟨d, ?_⟩
  rw [whole_of_pos ha, whole_of_pos hb]
  simp only [UnpackedFloat.add, hd, decreaseExponent_eq]
  rw [hscale a hla (by omega), hscale b hlb (by omega)]
  congr 1
  simp only [Sign.apply]
  push_cast
  ring

/-! ## What a number with given bits is -/

theorem beq_self_of_unpack {x : Float} (h : x.toModel.unpack ≠ .notANumber) : (x == x) = true :=
  (UnpackedFloat.beq_iff_ne_notANumber_and_eq _ _).2 ⟨h, h, .inl rfl⟩

theorem scale_eq (n : Nat) : Binary.scale n = 2 ^ n := rfl

section Parts

variable {m : Nat} (h : 2 ^ 52 ≤ m) (h' : m < 2 ^ 53) {e : Int} (he : -1074 ≤ e) (he' : e ≤ 971)
  (hpos : 0 < m) {x : Float} (hx : x.toModel = Float.Model.pack (.finite .positive m e hpos))
include h h' he he' hx

theorem ofFloat?_pack : Binary.ofFloat? x = some ⟨false, m, e⟩ := by
  have hbits : x.toBits.toNat = (e + 1075).toNat * 2 ^ 52 + (m - 2 ^ 52) := by
    show x.toModel.toBits.toNat = _
    rw [hx]
    exact toNat_pack h h' he he' hpos
  have hsign : Binary.signOf x = false := by
    have hshift : (x.toBits >>> 63).toNat = 0 := by
      rw [UInt64.toNat_shiftRight, hbits, Nat.shiftRight_eq_div_pow]
      exact Nat.div_eq_of_lt (by show _ < 2 ^ 63; omega)
    rw [Binary.signOf, beq_eq_false_iff_ne]
    intro heq
    rw [heq] at hshift
    cases hshift
  have hfraction : x.toBits.toNat % 2 ^ 52 = m - 2 ^ 52 := by omega
  have hpower : x.toBits.toNat / 2 ^ 52 % 2 ^ 11 = (e + 1075).toNat := by omega
  have hmantissa : 2 ^ 52 + (m - 2 ^ 52) = m := by omega
  have hexponent : ((e + 1075).toNat : Int) - 1 + Binary.leastExponent = e := by
    show ((e + 1075).toNat : Int) - 1 + -1074 = e
    omega
  simp only [Binary.ofFloat?, scale_eq, hfraction, hpower, hsign, hmantissa, hexponent]
  rw [if_neg (by omega), if_neg (by omega)]

/-- The whole part of a number is read off its mantissa and exponent. -/
theorem part_pack {n : Nat} (hn : m * 2 ^ e.toNat / 2 ^ (-e).toNat = n) (hn' : n < 2 ^ 63) :
    Whole.part x = n := by
  have hmagnitude : Whole.magnitude m e = n := hn
  simp only [Whole.part, ofFloat?_pack h h' he he' hpos hx, hmagnitude]
  exact if_pos hn'

end Parts

end Float64

open Float64

section Below

variable {n : Nat} (hn : n < 2 ^ 53)
include hn

theorem unpack_toFloat : n.toFloat.toModel.unpack = whole n := by
  rw [toModel_toFloat hn, unpack_whole hn]

theorem toFloat_beq_self : (n.toFloat == n.toFloat) = true := by
  refine beq_self_of_unpack ?_
  rw [unpack_toFloat hn, whole]
  split <;> simp

/-- The whole part of a natural number below 2 ^ 53 is that number. -/
theorem Whole.part_toFloat : Whole.part n.toFloat = n := by
  rcases Nat.eq_zero_or_pos n with rfl | hpos
  · decide +kernel
  · have hlog := log2_le hpos hn
    obtain ⟨hlo, hhi⟩ := mantissa_bounds hpos hn
    have hx := toModel_toFloat hn
    rw [whole_of_pos hpos] at hx
    refine part_pack hlo hhi (by omega) (by omega) _ hx ?_ (by omega)
    have hup : ((n.log2 : Int) - 52).toNat = 0 := by omega
    have hdown : (-((n.log2 : Int) - 52)).toNat = 52 - n.log2 := by omega
    rw [hup, hdown, pow_zero, mul_one, mantissa, Nat.mul_div_cancel _ (Nat.two_pow_pos _)]

end Below

section Sum

variable {a b : Nat}

theorem toModel_add (ha : a < 2 ^ 53) (hb : b < 2 ^ 53) : (a.toFloat + b.toFloat).toModel
    = Float.Model.pack (UnpackedFloat.add .binary64 (whole a) (whole b)) := by
  rw [← unpack_toFloat ha, ← unpack_toFloat hb]
  rfl

/-- The sum of natural numbers is exact below 2 ^ 53. -/
theorem toFloat_add (h : a + b < 2 ^ 53) : a.toFloat + b.toFloat = (a + b).toFloat := by
  have hmodel : (a.toFloat + b.toFloat).toModel = (a + b).toFloat.toModel := by
    rw [toModel_add (by omega) (by omega), toModel_toFloat h]
    rcases Nat.eq_zero_or_pos a with rfl | ha
    · rw [Nat.zero_add]
      rcases Nat.eq_zero_or_pos b with rfl | hb
      · rfl
      · rw [whole_zero, whole_of_pos hb]
        rfl
    · rcases Nat.eq_zero_or_pos b with rfl | hb
      · rw [Nat.add_zero, whole_zero, whole_of_pos ha]
        rfl
      · obtain ⟨d, hd⟩ := add_whole ha (by omega) hb (by omega)
        rw [hd, normalize_whole h]
  exact congrArg Float.ofModel hmodel

/-- A sum of natural numbers that is not below 2 ^ 53 is a quantity that is not either. -/
theorem Whole.le_part_toFloat_add (ha : a < 2 ^ 53) (hb : b < 2 ^ 53) (h : 2 ^ 53 ≤ a + b) :
    (a.toFloat + b.toFloat == a.toFloat + b.toFloat) = true ∧
      2 ^ 53 ≤ Whole.part (a.toFloat + b.toFloat) := by
  obtain ⟨d, hd⟩ := add_whole (a := a) (b := b) (by omega) ha (by omega) hb
  obtain ⟨m, e, hm, hround, hlo, hhi, he, he'⟩ := round_large h (by omega : a + b < 2 ^ 54) d
  have hx := toModel_add ha hb
  rw [hd, normalize_of_pos (Nat.mul_pos (by omega) (Nat.two_pow_pos d)), hround] at hx
  constructor
  · refine beq_self_of_unpack ?_
    rw [hx]
    show UnpackedFloat.unpack .binary64 (UnpackedFloat.pack .binary64 _) ≠ _
    rw [unpack_pack hlo hhi (by omega) (by omega)]
    simp
  · have hscale : 2 ^ 53 ≤ m * 2 ^ e.toNat ∧ m * 2 ^ e.toNat < 2 ^ 63 := by
      obtain rfl | rfl : e = 1 ∨ e = 2 := by omega
      all_goals
        simp
        omega
    have hdown : (-e).toNat = 0 := by omega
    rw [part_pack hlo hhi (by omega) (by omega) hm hx (by rw [hdown, pow_zero, Nat.div_one])
      hscale.2]
    exact_mod_cast hscale.1

end Sum

end Tacit
