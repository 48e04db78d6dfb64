import OpTree.Decimal.Binary
import Mathlib

set_option autoImplicit false

/-!
# What floating-point numbers denote

A finite number denotes a rational number. Every number has just one sign, significand and power of
two (`regular_ofFloat`), every such pair is one of a number (`exists_ofFloat`), and so numbers
compare as the rationals that they denote (`beq_eq_decide`, `lt_iff`).
-/

namespace OpTree.Decimal

open Float.Model (UnpackedFloat Format)
open Float.Model.UnpackedFloat

def Parts.rational? : Parts → Option ℚ
  | .finite negative significand exponent =>
    some ((if negative then -1 else 1) * (significand * 2 ^ exponent))
  | _ => none

def greatestExponent : Int := 971

/-- The significands and exponents that finite numbers have. Only at the least exponent is a
significand without the hidden bit, so no two pairs have one product. -/
structure Regular (significand : Nat) (exponent : Int) : Prop where
  below : significand < 2 * hiddenBit
  least : leastExponent ≤ exponent
  greatest : exponent ≤ greatestExponent
  filled : exponent = leastExponent ∨ hiddenBit ≤ significand

def Parts.AreRegular : Parts → Prop
  | .finite _ significand exponent => Regular significand exponent
  | _ => True

theorem regular_ofBits (bits : Nat) : (Parts.ofBits bits).AreRegular := by
  unfold Parts.ofBits
  simp only
  split_ifs with infinite fraction subnormal
  · trivial
  · trivial
  · refine ⟨?_, le_rfl, by decide, .inl rfl⟩
    have := Nat.mod_lt bits (show 0 < hiddenBit by decide)
    omega
  · have := Nat.mod_lt bits (show 0 < hiddenBit by decide)
    unfold hiddenBit at *
    exact ⟨by unfold hiddenBit; omega, by omega, by unfold greatestExponent leastExponent; omega,
      .inr (by unfold hiddenBit; omega)⟩

theorem regular_ofFloat (x : Float) : (Parts.ofFloat x).AreRegular :=
  regular_ofBits _

theorem finite_of_rational {x : Float} {p : ℚ} (hx : (Parts.ofFloat x).rational? = some p) :
    ∃ negative m e, Parts.ofFloat x = .finite negative m e ∧ Regular m e ∧
      (if negative then -1 else 1) * ((m : ℚ) * 2 ^ e) = p := by
  have regular := regular_ofFloat x
  cases parts : Parts.ofFloat x with
  | finite negative m e =>
    rw [parts] at hx regular
    exact ⟨negative, m, e, rfl, regular, Option.some.inj hx⟩
  | nan => simp [parts, Parts.rational?] at hx
  | infinite => simp [parts, Parts.rational?] at hx

namespace Regular

variable {m m₁ m₂ : Nat} {e e₁ e₂ : Int}

theorem lt_hiddenBit (h : Regular m e) {f : Int} (less : e < f) :
    (m : ℚ) * 2 ^ e < hiddenBit * 2 ^ f :=
  calc (m : ℚ) * 2 ^ e
      < ((2 * hiddenBit : Nat) : ℚ) * 2 ^ e := by
        gcongr
        exact h.below
    _ = (hiddenBit : ℚ) * 2 ^ (e + 1) := by
        rw [zpow_add_one₀ (by norm_num)]
        push_cast
        ring
    _ ≤ (hiddenBit : ℚ) * 2 ^ f := by
        gcongr
        · norm_num
        · exact less

theorem lt_of_exponent_lt (h₁ : Regular m₁ e₁) (h₂ : Regular m₂ e₂) (less : e₁ < e₂) :
    (m₁ : ℚ) * 2 ^ e₁ < m₂ * 2 ^ e₂ := by
  have filled : hiddenBit ≤ m₂ := h₂.filled.resolve_left (by have := h₁.least; omega)
  refine (h₁.lt_hiddenBit less).trans_le ?_
  gcongr

/-- Exponents decide before significands do. -/
theorem compare_eq (h₁ : Regular m₁ e₁) (h₂ : Regular m₂ e₂) :
    (compare e₁ e₂).then (compare m₁ m₂) = compare ((m₁ : ℚ) * 2 ^ e₁) (m₂ * 2 ^ e₂) := by
  rcases lt_trichotomy e₁ e₂ with less | rfl | greater
  · rw [compare_lt_iff_lt.mpr less, compare_lt_iff_lt.mpr (h₁.lt_of_exponent_lt h₂ less)]
    rfl
  · have positive : (0 : ℚ) < 2 ^ e₁ := by positivity
    rw [compare_eq_iff_eq.mpr rfl, Ordering.then]
    rcases lt_trichotomy m₁ m₂ with less | rfl | greater
    · rw [compare_lt_iff_lt.mpr less, compare_lt_iff_lt.mpr (by gcongr)]
    · rw [compare_eq_iff_eq.mpr rfl, compare_eq_iff_eq.mpr rfl]
    · rw [compare_gt_iff_gt.mpr greater, compare_gt_iff_gt.mpr (by gcongr)]
  · rw [compare_gt_iff_gt.mpr greater, compare_gt_iff_gt.mpr (h₂.lt_of_exponent_lt h₁ greater)]
    rfl

theorem eq_of_value_eq (h₁ : Regular m₁ e₁) (h₂ : Regular m₂ e₂)
    (value : (m₁ : ℚ) * 2 ^ e₁ = m₂ * 2 ^ e₂) : m₁ = m₂ ∧ e₁ = e₂ := by
  have same := h₁.compare_eq h₂
  rw [compare_eq_iff_eq.mpr value, Ordering.then_eq_eq, compare_eq_iff_eq,
    compare_eq_iff_eq] at same
  exact same.symm

end Regular

def isNegative : Sign → Bool
  | .negative => true
  | .positive => false

def Parts.ofUnpacked : UnpackedFloat → Parts
  | .notANumber => .nan
  | .infinity sign => .infinite (isNegative sign)
  | .zero sign => .finite (isNegative sign) 0 leastExponent
  | .finite sign significand exponent _ => .finite (isNegative sign) significand exponent

section Fields

variable (bits : BitVec 64)

theorem toNat_unpackMantissa :
    (@unpackMantissa Format.binary64 bits).toNat = bits.toNat % hiddenBit := by
  change (bits.toNat >>> 0) % 2 ^ 52 = _
  rw [Nat.shiftRight_zero]
  rfl

theorem toNat_unpackExponent :
    (@unpackExponent Format.binary64 bits).toNat = bits.toNat / hiddenBit % 0x800 := by
  change (bits.toNat >>> 52) % 2 ^ 11 = _
  rw [Nat.shiftRight_eq_div_pow]
  rfl

theorem isNegative_unpackSign :
    isNegative (Sign.ofBitVec (@unpackSign Format.binary64 bits)) =
      decide (0x8000000000000000 ≤ bits.toNat) := by
  have value : (@unpackSign Format.binary64 bits).toNat =
      bits.toNat / 0x8000000000000000 % 2 := by
    change (bits.toNat >>> 63) % 2 ^ 1 = _
    rw [Nat.shiftRight_eq_div_pow]
  have bound : bits.toNat < 2 ^ 64 := bits.isLt
  unfold Sign.ofBitVec
  split
  case isTrue zero =>
    rw [zero] at value
    have : ¬0x8000000000000000 ≤ bits.toNat := by
      simp only [BitVec.toNat_ofNat] at value
      omega
    simp [this, isNegative]
  case isFalse one =>
    have : 0x8000000000000000 ≤ bits.toNat := by
      have := BitVec.toNat_ne_iff_ne.mpr one
      simp only [BitVec.toNat_ofNat] at this
      omega
    simp [this, isNegative]

theorem ofUnpacked_unpack :
    Parts.ofUnpacked (unpack Format.binary64 bits) = Parts.ofBits bits.toNat := by
  have mantissa := toNat_unpackMantissa bits
  have exponent := toNat_unpackExponent bits
  have infinite : @unpackExponent Format.binary64 bits = -1#11 ↔
      bits.toNat / hiddenBit % 0x800 = 0x7FF := by
    rw [← exponent, ← BitVec.toNat_inj]
    rfl
  have subnormal : @unpackExponent Format.binary64 bits = 0#11 ↔
      bits.toNat / hiddenBit % 0x800 = 0 := by
    rw [← exponent, ← BitVec.toNat_inj]
    rfl
  have round : @unpackMantissa Format.binary64 bits = 0#52 ↔
      bits.toNat % hiddenBit = 0 := by
    rw [← mantissa, ← BitVec.toNat_inj]
    rfl
  have appended : (1#1 ++ @unpackMantissa Format.binary64 bits).toNat =
      hiddenBit + bits.toNat % hiddenBit := by
    rw [BitVec.toNat_append, ← Nat.shiftLeft_add_eq_or_of_lt (BitVec.isLt _), mantissa]
    rfl
  have sign := isNegative_unpackSign bits
  have bias : ((Format.binary64.exponentBias : Nat) : Int) + (52 : Nat) = 1075 := rfl
  unfold unpack Parts.ofBits
  simp only [infinite, subnormal, round]
  split_ifs with full empty low hidden <;>
    simp only [Parts.ofUnpacked, sign, appended, exponent, mantissa]
  · rw [hidden]
  · rw [low, bias]
    rfl
  · rw [bias]
    congr 1
    unfold leastExponent
    omega

end Fields

theorem ofFloat_eq (x : Float) : Parts.ofFloat x = Parts.ofUnpacked x.toModel.unpack :=
  (ofUnpacked_unpack x.toModel.toBits.toBitVec).symm

theorem toNat_packComponents (sign : Sign) (exponent : BitVec 11) (mantissa : BitVec 52) :
    (packComponents Format.binary64 sign exponent mantissa).toNat =
      (sign.toBitVec.toNat * 0x800 + exponent.toNat) * hiddenBit + mantissa.toNat := by
  unfold packComponents
  rw [BitVec.toNat_append, BitVec.toNat_append, ← Nat.shiftLeft_add_eq_or_of_lt mantissa.isLt,
    ← Nat.shiftLeft_add_eq_or_of_lt exponent.isLt, Nat.shiftLeft_eq, Nat.shiftLeft_eq]
  rfl

theorem ofBits_packComponents (sign : Sign) {biased fraction : Nat} (exponent : biased < 0x7FF)
    (mantissa : fraction < hiddenBit) :
    Parts.ofBits (packComponents Format.binary64 sign (BitVec.ofNat 11 biased)
        (BitVec.ofNat 52 fraction)).toNat =
      if biased = 0 then .finite (isNegative sign) fraction leastExponent
      else .finite (isNegative sign) (hiddenBit + fraction) (leastExponent + (biased - 1)) := by
  have value : (packComponents Format.binary64 sign (BitVec.ofNat 11 biased)
      (BitVec.ofNat 52 fraction)).toNat =
        (sign.toBitVec.toNat * 0x800 + biased) * hiddenBit + fraction := by
    rw [toNat_packComponents, BitVec.toNat_ofNat, BitVec.toNat_ofNat,
      Nat.mod_eq_of_lt (show biased < 2 ^ 11 by omega),
      Nat.mod_eq_of_lt (show fraction < 2 ^ 52 from mantissa)]
  have quotient : ((sign.toBitVec.toNat * 0x800 + biased) * hiddenBit + fraction) / hiddenBit =
      sign.toBitVec.toNat * 0x800 + biased := by
    rw [mul_comm, Nat.mul_add_div (by decide), Nat.div_eq_of_lt mantissa, add_zero]
  have remainder : ((sign.toBitVec.toNat * 0x800 + biased) * hiddenBit + fraction) % hiddenBit =
      fraction := by
    rw [mul_comm, Nat.mul_add_mod, Nat.mod_eq_of_lt mantissa]
  have low : (sign.toBitVec.toNat * 0x800 + biased) % 0x800 = biased := by omega
  have negative : decide (0x8000000000000000 ≤
      (sign.toBitVec.toNat * 0x800 + biased) * hiddenBit + fraction) = isNegative sign := by
    unfold hiddenBit at *
    cases sign <;> simp [isNegative, Sign.toBitVec] <;> omega
  unfold Parts.ofBits
  simp only [value, quotient, remainder, low, negative]
  rw [if_neg (by omega)]

/-- Packing loses nothing of a number that is regular. -/
theorem ofBits_pack {sign : Sign} {m : Nat} {e : Int} (positive : 0 < m) (regular : Regular m e) :
    Parts.ofBits (pack Format.binary64 (.finite sign m e positive)).toNat =
      .finite (isNegative sign) m e := by
  obtain ⟨below, least, greatest, filled⟩ := regular
  unfold leastExponent at least filled
  unfold greatestExponent at greatest
  have bias : e + ((Format.binary64.exponentBias : Nat) : Int) + (52 : Nat) = e + 1075 := by
    have : ((Format.binary64.exponentBias : Nat) : Int) = 1023 := rfl
    omega
  unfold pack
  simp only [bias]
  rw [if_neg (by omega)]
  by_cases hidden : hiddenBit ≤ m
  · have log : m.log2 + 1 = Format.binary64.mantissaBits := by
      rw [(Nat.log2_eq_iff positive.ne').mpr
        (show 2 ^ 52 ≤ m ∧ m < 2 ^ (52 + 1) from ⟨hidden, below⟩)]
      rfl
    have fraction : BitVec.ofNat 52 m = BitVec.ofNat 52 (m - hiddenBit) := by
      apply BitVec.eq_of_toNat_eq
      unfold hiddenBit at *
      simp only [BitVec.toNat_ofNat]
      omega
    rw [if_pos log, fraction, ofBits_packComponents sign (by omega) (by omega), if_neg (by omega),
      Nat.add_sub_cancel' hidden]
    congr 1
    unfold leastExponent
    omega
  · have log : m.log2 + 1 ≠ Format.binary64.mantissaBits := by
      have := (Nat.log2_lt positive.ne').mpr (show m < 2 ^ 52 from not_le.mp hidden)
      have : Format.binary64.mantissaBits = 53 := rfl
      omega
    rw [if_neg log, filled.resolve_right hidden]
    exact ofBits_packComponents sign (show 0 < 0x7FF by decide) (not_le.mp hidden)

theorem ofFloat_ofModel_pack (sign : Sign) {m : Nat} {e : Int} (positive : 0 < m)
    (regular : Regular m e) :
    Parts.ofFloat (Float.ofModel (Float.Model.pack (.finite sign m e positive))) =
      .finite (isNegative sign) m e :=
  ofBits_pack positive regular

/-- Each sign, significand and exponent is that of a number. -/
theorem exists_ofFloat (negative : Bool) {m : Nat} {e : Int} (regular : Regular m e)
    (positive : 0 < m) : ∃ x, Parts.ofFloat x = .finite negative m e := by
  cases negative
  · exact ⟨_, ofFloat_ofModel_pack .positive positive regular⟩
  · exact ⟨_, ofFloat_ofModel_pack .negative positive regular⟩

theorem unpack_pack (sign : Sign) {m : Nat} {e : Int} (positive : 0 < m) (regular : Regular m e) :
    unpack Format.binary64 (pack Format.binary64 (.finite sign m e positive)) =
      .finite sign m e positive := by
  have parts := ofUnpacked_unpack (pack Format.binary64 (.finite sign m e positive))
  rw [ofBits_pack positive regular] at parts
  generalize unpack Format.binary64 (pack Format.binary64 (.finite sign m e positive)) = found
    at parts
  cases found with
  | finite foundSign =>
    simp only [Parts.ofUnpacked, Parts.finite.injEq] at parts
    obtain ⟨signs, rfl, rfl⟩ := parts
    cases sign <;> cases foundSign <;> first | rfl | cases signs
  | zero =>
    simp only [Parts.ofUnpacked, Parts.finite.injEq] at parts
    omega
  | infinity => cases parts
  | notANumber => cases parts

section Comparison

variable {x y : Float} {p q : ℚ}

theorem unpack_of_rational (hx : (Parts.ofFloat x).rational? = some p) :
    (∃ sign, x.toModel.unpack = .zero sign ∧ p = 0) ∨
    (∃ m e positive, x.toModel.unpack = .finite .positive m e positive ∧ Regular m e ∧
      p = m * 2 ^ e) ∨
    (∃ m e positive, x.toModel.unpack = .finite .negative m e positive ∧ Regular m e ∧
      p = -(m * 2 ^ e)) := by
  have regular := regular_ofFloat x
  rw [ofFloat_eq] at hx regular
  cases unpacked : x.toModel.unpack with
  | zero sign =>
    simp [unpacked, Parts.ofUnpacked, Parts.rational?] at hx
    exact .inl ⟨sign, rfl, hx.symm⟩
  | finite sign m e positive =>
    rw [unpacked] at hx regular
    cases sign
    · simp [Parts.ofUnpacked, Parts.rational?, isNegative] at hx
      exact .inr (.inr ⟨m, e, positive, rfl, regular, hx.symm⟩)
    · simp [Parts.ofUnpacked, Parts.rational?, isNegative] at hx
      exact .inr (.inl ⟨m, e, positive, rfl, regular, hx.symm⟩)
  | infinity => simp [unpacked, Parts.ofUnpacked, Parts.rational?] at hx
  | notANumber => simp [unpacked, Parts.ofUnpacked, Parts.rational?] at hx

theorem compare_neg (a b : ℚ) : compare (-a) (-b) = (compare a b).swap := by
  rcases lt_trichotomy a b with h | rfl | h
  · rw [compare_lt_iff_lt.mpr h, compare_gt_iff_gt.mpr (neg_lt_neg h)]
    rfl
  · rw [compare_eq_iff_eq.mpr rfl, compare_eq_iff_eq.mpr rfl]
    rfl
  · rw [compare_gt_iff_gt.mpr h, compare_lt_iff_lt.mpr (neg_lt_neg h)]
    rfl

theorem compare_unpack (hx : (Parts.ofFloat x).rational? = some p)
    (hy : (Parts.ofFloat y).rational? = some q) :
    x.toModel.unpack.compare y.toModel.unpack = some (compare p q) := by
  have power (e : Int) : (0 : ℚ) < 2 ^ e := by positivity
  have magnitude {m : Nat} (e : Int) (positive : 0 < m) : (0 : ℚ) < m * 2 ^ e :=
    mul_pos (Nat.cast_pos.mpr positive) (power e)
  have less {a b : ℚ} (h : a < b) : some Ordering.lt = some (compare a b) := by
    rw [compare_lt_iff_lt.mpr h]
  have greater {a b : ℚ} (h : b < a) : some Ordering.gt = some (compare a b) := by
    rw [compare_gt_iff_gt.mpr h]
  rcases unpack_of_rational hx with ⟨_, ux, rfl⟩ | ⟨m, e, hm, ux, rx, rfl⟩ | ⟨m, e, hm, ux, rx, rfl⟩
  · rcases unpack_of_rational hy with ⟨_, uy, rfl⟩ | ⟨n, f, hn, uy, _, rfl⟩ |
      ⟨n, f, hn, uy, _, rfl⟩ <;> rw [ux, uy]
    · rfl
    · exact less (magnitude f hn)
    · exact greater (neg_neg_of_pos (magnitude f hn))
  · have px := magnitude e hm
    rcases unpack_of_rational hy with ⟨_, uy, rfl⟩ | ⟨n, f, hn, uy, ry, rfl⟩ |
      ⟨n, f, hn, uy, _, rfl⟩ <;> rw [ux, uy]
    · exact greater px
    · exact congrArg some (rx.compare_eq ry)
    · exact greater ((neg_neg_of_pos (magnitude f hn)).trans px)
  · have px := neg_neg_of_pos (magnitude e hm)
    rcases unpack_of_rational hy with ⟨_, uy, rfl⟩ | ⟨n, f, hn, uy, _, rfl⟩ |
      ⟨n, f, hn, uy, ry, rfl⟩ <;> rw [ux, uy]
    · exact less px
    · exact less (px.trans (magnitude f hn))
    · rw [compare_neg, ← rx.compare_eq ry]
      rfl

theorem beq_eq_decide (hx : (Parts.ofFloat x).rational? = some p)
    (hy : (Parts.ofFloat y).rational? = some q) :
    (x == y) = decide (p = q) := by
  change (x.toModel.unpack.compare y.toModel.unpack == some .eq) = _
  rw [compare_unpack hx hy, Bool.eq_iff_iff, beq_iff_eq, Option.some.injEq,
    compare_eq_iff_eq, decide_eq_true_iff]

theorem lt_iff (hx : (Parts.ofFloat x).rational? = some p)
    (hy : (Parts.ofFloat y).rational? = some q) :
    x < y ↔ p < q := by
  change decide (x.toModel < y.toModel) = true ↔ _
  rw [decide_eq_true_iff]
  change (x.toModel.unpack.compare y.toModel.unpack == some .lt) = true ↔ _
  rw [compare_unpack hx hy, beq_iff_eq, Option.some.injEq, compare_lt_iff_lt]

end Comparison

theorem ofFloat_neg {x : Float} {negative : Bool} {m : Nat} {e : Int}
    (parts : Parts.ofFloat x = .finite negative m e) :
    Parts.ofFloat (-x) = .finite (!negative) m e := by
  have regular := regular_ofFloat x
  rw [parts] at regular
  change Parts.ofFloat (Float.ofModel (Float.Model.pack x.toModel.unpack.neg)) = _
  rw [ofFloat_eq] at parts
  cases unpacked : x.toModel.unpack with
  | zero sign =>
    rw [unpacked] at parts
    simp only [Parts.ofUnpacked, Parts.finite.injEq] at parts
    obtain ⟨rfl, rfl, rfl⟩ := parts
    cases sign <;> decide +kernel
  | finite sign m' e' positive =>
    rw [unpacked] at parts
    simp only [Parts.ofUnpacked, Parts.finite.injEq] at parts
    obtain ⟨rfl, rfl, rfl⟩ := parts
    cases sign
    · exact ofFloat_ofModel_pack _ positive regular
    · exact ofFloat_ofModel_pack _ positive regular
  | infinity => rw [unpacked] at parts; cases parts
  | notANumber => rw [unpacked] at parts; cases parts

end OpTree.Decimal
