import OpTree.Proofs.FloatParts

set_option autoImplicit false

namespace OpTree.Decimal

open Float.Model (Format UnpackedFloat)
open Float.Model.UnpackedFloat

def Parts.IsEven : Parts → Prop
  | .finite _ significand _ => significand % 2 = 0
  | _ => False

/-- No number is nearer to the rational, and one as near is no other number if the significand
is odd. -/
structure Nearest (q : ℚ) (x : Float) (p : ℚ) : Prop where
  denotes : (Parts.ofFloat x).rational? = some p
  nearest : ∀ y r, (Parts.ofFloat y).rational? = some r → |q - p| ≤ |q - r|
  tie : ∀ y r, (Parts.ofFloat y).rational? = some r → |q - r| = |q - p| → r ≠ p →
    (Parts.ofFloat x).IsEven

section Neighbours

variable {m n : Nat} {e f : Int}

theorem Regular.between (hm : Regular m e) (hn : Regular n f) (even : m % 2 = 0) (even' : n % 2 = 0)
    (less : (m : ℚ) * 2 ^ e < n * 2 ^ f) :
    Regular (m + 1) e ∧ ((m + 1 : Nat) : ℚ) * 2 ^ e < n * 2 ^ f := by
  have regular : Regular (m + 1) e := by
    refine ⟨?_, hm.least, hm.greatest, hm.filled.imp_right Nat.le_succ_of_le⟩
    have := hm.below
    omega
  refine ⟨regular, ?_⟩
  rcases lt_trichotomy e f with lower | rfl | higher
  · exact regular.lt_of_exponent_lt hn lower
  · have positive : (0 : ℚ) < 2 ^ e := by positivity
    have : m < n := by exact_mod_cast lt_of_mul_lt_mul_right less positive.le
    gcongr
    omega
  · exact absurd (hn.lt_of_exponent_lt hm higher) less.not_gt

/-- Between a significand with the hidden bit and the next one there is no number. -/
theorem Regular.le_or_ge (hm : Regular m e) (hn : hiddenBit ≤ n) (f : Int) :
    (m : ℚ) * 2 ^ e ≤ n * 2 ^ f ∨ (n + 1) * 2 ^ f ≤ (m : ℚ) * 2 ^ e := by
  have positive : (0 : ℚ) < 2 ^ f := by positivity
  rcases lt_or_ge e f with lower | higher
  · refine .inl ((hm.lt_hiddenBit lower).le.trans ?_)
    gcongr
  · obtain ⟨k, rfl⟩ := Int.le.dest higher
    have value : (m : ℚ) * 2 ^ (f + k) = ((m * 2 ^ k : Nat) : ℚ) * 2 ^ f := by
      rw [zpow_add₀ (by norm_num), zpow_natCast]
      push_cast
      ring
    rw [value]
    rcases Nat.lt_or_ge n (m * 2 ^ k) with above | below
    · right
      gcongr
      exact_mod_cast above
    · left
      gcongr

end Neighbours

theorem rational_not (negative : Bool) (m : Nat) (e : Int) :
    (Parts.finite (!negative) m e).rational? = (Parts.finite negative m e).rational?.map (-·) := by
  cases negative <;> simp [Parts.rational?]

theorem rational_neg {x : Float} {p : ℚ} (hx : (Parts.ofFloat x).rational? = some p) :
    (Parts.ofFloat (-x)).rational? = some (-p) := by
  obtain ⟨negative, m, e, parts, _, _⟩ := finite_of_rational hx
  rw [parts] at hx
  rw [ofFloat_neg parts, rational_not, hx, Option.map_some]

theorem isEven_neg {x : Float} (even : (Parts.ofFloat x).IsEven) :
    (Parts.ofFloat (-x)).IsEven := by
  cases parts : Parts.ofFloat x with
  | finite negative m e =>
    rw [parts] at even
    rw [ofFloat_neg parts]
    exact even
  | nan => rw [parts] at even; exact even.elim
  | infinite => rw [parts] at even; exact even.elim

theorem rational_zero : (Parts.ofFloat (Float.ofNat 0)).rational? = some 0 := by
  have : Parts.ofFloat (Float.ofNat 0) = .finite false 0 leastExponent := by decide +kernel
  simp [this, Parts.rational?]

section Between

variable {x y : Float} {p q r : ℚ}

theorem exists_between_of_nonneg (hx : (Parts.ofFloat x).rational? = some p)
    (hy : (Parts.ofFloat y).rational? = some r) (evenX : (Parts.ofFloat x).IsEven)
    (evenY : (Parts.ofFloat y).IsEven) (nonneg : 0 ≤ p) (less : p < r) :
    ∃ z t, (Parts.ofFloat z).rational? = some t ∧ p < t ∧ t < r := by
  obtain ⟨s, m, e, parts, hm, rfl⟩ := finite_of_rational hx
  obtain ⟨s', n, f, parts', hn, rfl⟩ := finite_of_rational hy
  rw [parts] at evenX
  rw [parts'] at evenY
  have positive : (0 : ℚ) < 2 ^ e := by positivity
  have magnitude : (0 : ℚ) ≤ m * 2 ^ e := by positivity
  have magnitude' : (0 : ℚ) ≤ n * 2 ^ f := by positivity
  have value : (if s then -1 else 1) * ((m : ℚ) * 2 ^ e) = m * 2 ^ e := by
    cases s
    · simp
    · simp at nonneg ⊢
      linarith
  rw [value] at less ⊢
  have value' : (if s' then -1 else 1) * ((n : ℚ) * 2 ^ f) = n * 2 ^ f := by
    cases s'
    · simp
    · simp at less ⊢
      linarith
  rw [value'] at less ⊢
  obtain ⟨regular, above⟩ := hm.between hn evenX evenY less
  obtain ⟨z, found⟩ := exists_ofFloat false regular m.succ_pos
  refine ⟨z, ((m + 1 : Nat) : ℚ) * 2 ^ e, ?_, ?_, above⟩
  · simp [found, Parts.rational?]
  · push_cast
    linarith

theorem exists_between (hx : (Parts.ofFloat x).rational? = some p)
    (hy : (Parts.ofFloat y).rational? = some r) (evenX : (Parts.ofFloat x).IsEven)
    (evenY : (Parts.ofFloat y).IsEven) (less : p < r) :
    ∃ z t, (Parts.ofFloat z).rational? = some t ∧ p < t ∧ t < r := by
  rcases le_or_gt 0 p with nonneg | negative
  · exact exists_between_of_nonneg hx hy evenX evenY nonneg less
  rcases lt_or_ge 0 r with positive | nonpos
  · exact ⟨_, _, rational_zero, negative, positive⟩
  · obtain ⟨z, t, hz, below, above⟩ := exists_between_of_nonneg (rational_neg hy) (rational_neg hx)
      (isEven_neg evenY) (isEven_neg evenX) (by linarith) (by linarith)
    exact ⟨-z, -t, rational_neg hz, by linarith, by linarith⟩

theorem isEven_of_rational_eq (hx : (Parts.ofFloat x).rational? = some p)
    (hy : (Parts.ofFloat y).rational? = some p) (even : (Parts.ofFloat x).IsEven) :
    (Parts.ofFloat y).IsEven := by
  obtain ⟨s, m, e, parts, hm, value⟩ := finite_of_rational hx
  obtain ⟨s', n, f, parts', hn, value'⟩ := finite_of_rational hy
  have magnitude : (0 : ℚ) ≤ m * 2 ^ e := by positivity
  have magnitude' : (0 : ℚ) ≤ n * 2 ^ f := by positivity
  have same : (m : ℚ) * 2 ^ e = n * 2 ^ f := by
    cases s <;> cases s' <;> simp at value value' <;> linarith
  obtain ⟨rfl, rfl⟩ := hm.eq_of_value_eq hn same
  rw [parts] at even
  rw [parts']
  exact even

namespace Nearest

theorem not_below (hx : Nearest q x p) (hy : Nearest q y r) : ¬p < r := by
  intro less
  have distance : |q - p| = |q - r| :=
    le_antisymm (hx.nearest y r hy.denotes) (hy.nearest x p hx.denotes)
  obtain ⟨z, t, hz, above, below⟩ := exists_between hx.denotes hy.denotes
    (hx.tie y r hy.denotes distance.symm less.ne') (hy.tie x p hx.denotes distance less.ne) less
  have fromX := hx.nearest z t hz
  -- the rational lies halfway between the two numbers, and so nearer to the one between them
  rcases abs_cases (q - p) with ⟨_, _⟩ | ⟨_, _⟩ <;>
    rcases abs_cases (q - r) with ⟨_, _⟩ | ⟨_, _⟩ <;>
    rcases abs_cases (q - t) with ⟨_, _⟩ | ⟨_, _⟩ <;> linarith

theorem unique (hx : Nearest q x p) (hy : Nearest q y r) : p = r :=
  le_antisymm (not_lt.mp (hy.not_below hx)) (not_lt.mp (hx.not_below hy))

theorem neg (h : Nearest q x p) : Nearest (-q) (-x) (-p) where
  denotes := rational_neg h.denotes
  nearest y r hy := by
    have := h.nearest (-y) (-r) (rational_neg hy)
    rwa [← abs_neg (q - p), ← abs_neg (q - -r), neg_sub', neg_sub', neg_neg] at this
  tie y r hy distance differ := by
    refine isEven_neg (h.tie (-y) (-r) (rational_neg hy) ?_ (fun same => differ (by linarith)))
    rw [← abs_neg (q - p), ← abs_neg (q - -r), neg_sub', neg_sub', neg_neg]
    exact distance

theorem lt_iff (h : Nearest q x p) (hy : (Parts.ofFloat y).rational? = some r) (differ : p ≠ r) :
    p < r ↔ q < r := by
  have near := h.nearest y r hy
  constructor
  · intro less
    by_contra above
    rw [abs_of_nonneg (by linarith), abs_of_nonneg (by linarith)] at near
    linarith
  · intro less
    by_contra above
    have : r < p := lt_of_le_of_ne (not_lt.mp above) differ.symm
    rw [abs_of_nonpos (by linarith), abs_of_nonpos (by linarith)] at near
    linarith

theorem of_rational_eq (h : Nearest q x p) (hy : (Parts.ofFloat y).rational? = some p) :
    Nearest q y p where
  denotes := hy
  nearest := h.nearest
  tie z r hz distance differ := isEven_of_rational_eq h.denotes hy (h.tie z r hz distance differ)

theorem of_rational (hx : (Parts.ofFloat x).rational? = some p) : Nearest p x p where
  denotes := hx
  nearest y r _ := by simp
  tie y r _ distance differ := by
    have : p - r = 0 := by simpa using distance
    exact absurd (by linarith) differ

end Nearest

end Between

/-- The integer nearest to `mantissa / 2 ^ shift`, of two equally near the even one. -/
def roundedQuotient (mantissa shift : Nat) : Nat :=
  if 2 * (mantissa % 2 ^ shift) < 2 ^ shift then mantissa / 2 ^ shift
  else if 2 * (mantissa % 2 ^ shift) = 2 ^ shift then
    mantissa / 2 ^ shift + mantissa / 2 ^ shift % 2
  else mantissa / 2 ^ shift + 1

/-- What is left of a mantissa and what its residual bits say of the part that is gone: whether it
is at least one half, and whether it is anything besides that half. -/
structure Shifted (mantissa shift : Nat) (em : ExtendedMantissa) : Prop where
  quotient : em.mantissa = mantissa / 2 ^ shift
  roundBit : em.roundBit = decide (2 ^ shift ≤ 2 * (mantissa % 2 ^ shift))
  stickyBit : em.stickyBit = decide (2 * (mantissa % 2 ^ shift) % 2 ^ shift ≠ 0)

theorem Shifted.shiftRightOne {mantissa shift : Nat} {em : ExtendedMantissa}
    (h : Shifted mantissa shift em) : Shifted mantissa (shift + 1) em.shiftRightOne := by
  have positive : 0 < 2 ^ shift := Nat.two_pow_pos shift
  have below := Nat.mod_lt mantissa positive
  have remainder : mantissa % 2 ^ (shift + 1) =
      mantissa % 2 ^ shift + 2 ^ shift * (mantissa / 2 ^ shift % 2) := Nat.mod_pow_succ
  have bit := Nat.mod_two_eq_zero_or_one (mantissa / 2 ^ shift)
  refine ⟨?_, ?_, ?_⟩
  · rw [ExtendedMantissa.shiftRightOne, h.quotient, Nat.div_div_eq_div_mul, pow_succ]
  · rw [ExtendedMantissa.shiftRightOne, h.quotient, remainder, pow_succ]
    rcases bit with zero | one
    · simp [zero]
      omega
    · simp [one]
      omega
  · have twice : 2 * (mantissa % 2 ^ (shift + 1)) % 2 ^ (shift + 1) =
        2 * (mantissa % 2 ^ shift) := by
      have : 2 * (mantissa % 2 ^ (shift + 1)) =
          2 * (mantissa % 2 ^ shift) + 2 ^ (shift + 1) * (mantissa / 2 ^ shift % 2) := by
        rw [remainder, pow_succ]
        ring
      rw [this, Nat.add_mul_mod_self_left, Nat.mod_eq_of_lt]
      rw [pow_succ]
      omega
    rw [ExtendedMantissa.shiftRightOne, h.roundBit, h.stickyBit, twice]
    rcases Nat.lt_or_ge (2 * (mantissa % 2 ^ shift)) (2 ^ shift) with low | high
    · rw [Nat.mod_eq_of_lt low]
      simp [low.not_ge]
    · simp [high]
      omega

theorem shifted (mantissa shift : Nat) :
    Shifted mantissa shift (ExtendedMantissa.ofMantissaAndAccuracy mantissa .exact >>> shift) := by
  induction shift with
  | zero => exact ⟨by simp; rfl, by simp [Nat.mod_one]; rfl, by simp [Nat.mod_one]; rfl⟩
  | succ shift ih => exact ih.shiftRightOne

theorem roundedMantissa_eq (mantissa shift : Nat) :
    (ExtendedMantissa.ofMantissaAndAccuracy mantissa .exact >>> shift).roundedMantissa =
      roundedQuotient mantissa shift := by
  obtain ⟨quotient, roundBit, stickyBit⟩ := shifted mantissa shift
  generalize ExtendedMantissa.ofMantissaAndAccuracy mantissa .exact >>> shift = em at *
  obtain ⟨m, round, sticky⟩ := em
  simp only at quotient roundBit stickyBit
  subst quotient
  have below := Nat.mod_lt mantissa (Nat.two_pow_pos shift)
  unfold roundedQuotient
  rcases lt_trichotomy (2 * (mantissa % 2 ^ shift)) (2 ^ shift) with low | half | high
  · rw [if_pos low, roundBit, decide_eq_false low.not_ge]
    cases sticky <;> rfl
  · have gone : sticky = false := by rw [stickyBit, half, Nat.mod_self]; rfl
    rw [if_neg half.not_lt, if_pos half, roundBit, decide_eq_true half.ge, gone]
    rfl
  · have kept : sticky = true := by
      rw [stickyBit, decide_eq_true_iff, Nat.mod_eq_sub_mod high.le, Nat.mod_eq_of_lt] <;> omega
    rw [if_neg high.not_gt, if_neg high.ne', roundBit, decide_eq_true high.le, kept]
    rfl

section Rounding

variable {m k : Nat} {e : Int}

theorem roundedQuotient_cases (m k : Nat) :
    2 * (m % 2 ^ k) ≤ 2 ^ k ∧ roundedQuotient m k = m / 2 ^ k ∨
    2 ^ k ≤ 2 * (m % 2 ^ k) ∧ roundedQuotient m k = m / 2 ^ k + 1 := by
  unfold roundedQuotient
  have := Nat.mod_two_eq_zero_or_one (m / 2 ^ k)
  split_ifs <;> omega

theorem even_roundedQuotient (half : 2 * (m % 2 ^ k) = 2 ^ k) : roundedQuotient m k % 2 = 0 := by
  unfold roundedQuotient
  rw [if_neg half.not_lt, if_pos half]
  omega

section Distance

variable {a b u r : ℚ}

theorem distance_below (rest : 0 ≤ b) (low : b + b ≤ u) (apart : r ≤ a ∨ a + u ≤ r) :
    |a + b - a| ≤ |a + b - r| ∧ (|a + b - r| = |a + b - a| → r ≠ a → b + b = u) := by
  rw [add_sub_cancel_left, abs_of_nonneg rest]
  rcases apart with left | right
  · rw [abs_of_nonneg (by linarith)]
    exact ⟨by linarith, fun distance differ => absurd (by linarith) differ⟩
  · rw [abs_of_nonpos (by linarith)]
    exact ⟨by linarith, fun distance _ => by linarith⟩

theorem distance_above (below : b < u) (high : u ≤ b + b) (apart : r ≤ a ∨ a + u ≤ r) :
    |a + b - (a + u)| ≤ |a + b - r| ∧
      (|a + b - r| = |a + b - (a + u)| → r ≠ a + u → b + b = u) := by
  rw [add_sub_add_left_eq_sub, abs_of_nonpos (by linarith)]
  rcases apart with left | right
  · rw [abs_of_nonneg (by linarith)]
    exact ⟨by linarith, fun distance _ => by linarith⟩
  · rw [abs_of_nonpos (by linarith)]
    exact ⟨by linarith, fun distance differ => absurd (by linarith) differ⟩

end Distance

/-- No number lies strictly between two multiples of the unit that follow each other. -/
theorem rational_le_or_ge {y : Float} {r : ℚ} {n : Nat} (hy : (Parts.ofFloat y).rational? = some r)
    (filled : hiddenBit ≤ n) (f : Int) : r ≤ (n : ℚ) * 2 ^ f ∨ (n : ℚ) * 2 ^ f + 2 ^ f ≤ r := by
  obtain ⟨negative, m, e, _, regular, rfl⟩ := finite_of_rational hy
  have magnitude : (0 : ℚ) ≤ m * 2 ^ e := by positivity
  have multiple : (0 : ℚ) ≤ n * 2 ^ f := by positivity
  have sides := regular.le_or_ge filled f
  rw [add_one_mul] at sides
  cases negative
  · simpa using sides
  · left
    simp
    linarith

theorem nearest_of_value {x : Float} (filled : hiddenBit ≤ m / 2 ^ k)
    (denotes : (Parts.ofFloat x).rational? = some ((roundedQuotient m k : ℚ) * 2 ^ (e + k)))
    (even : roundedQuotient m k % 2 = 0 → (Parts.ofFloat x).IsEven) :
    Nearest ((m : ℚ) * 2 ^ e) x ((roundedQuotient m k : ℚ) * 2 ^ (e + k)) := by
  have power : (0 : ℚ) < 2 ^ e := by positivity
  have unit : (2 : ℚ) ^ (e + k) = ((2 ^ k : Nat) : ℚ) * 2 ^ e := by
    rw [zpow_add₀ (by norm_num), zpow_natCast]
    push_cast
    ring
  -- the rational is a multiple of the unit and a rest
  have rational : (m : ℚ) * 2 ^ e =
      (m / 2 ^ k : Nat) * 2 ^ (e + k) + ((m % 2 ^ k : Nat) : ℚ) * 2 ^ e := by
    rw [unit, ← mul_assoc, ← add_mul]
    congr 1
    exact_mod_cast (Nat.div_add_mod' m (2 ^ k)).symm
  have apart (y r) (hy : (Parts.ofFloat y).rational? = some r) :=
    rational_le_or_ge hy filled (e + k)
  have rest : (0 : ℚ) ≤ ((m % 2 ^ k : Nat) : ℚ) * 2 ^ e := by positivity
  have below : ((m % 2 ^ k : Nat) : ℚ) * 2 ^ e < 2 ^ (e + k) := by
    rw [unit]
    gcongr
    exact Nat.mod_lt m (Nat.two_pow_pos k)
  have halved : ((m % 2 ^ k : Nat) : ℚ) * 2 ^ e + (m % 2 ^ k : Nat) * 2 ^ e = 2 ^ (e + k) →
      (Parts.ofFloat x).IsEven := by
    intro half
    refine even (even_roundedQuotient ?_)
    rw [unit, ← add_mul] at half
    have := mul_right_cancel₀ power.ne' half
    rw [two_mul]
    exact_mod_cast this
  have nearer : roundedQuotient m k = m / 2 ^ k ∧
        ((m % 2 ^ k : Nat) : ℚ) * 2 ^ e + (m % 2 ^ k : Nat) * 2 ^ e ≤ 2 ^ (e + k) ∨
      roundedQuotient m k = m / 2 ^ k + 1 ∧
        (2 : ℚ) ^ (e + k) ≤ ((m % 2 ^ k : Nat) : ℚ) * 2 ^ e + (m % 2 ^ k : Nat) * 2 ^ e := by
    rw [unit, ← add_mul]
    refine (roundedQuotient_cases m k).imp (fun ⟨low, value⟩ => ⟨value, ?_⟩)
      (fun ⟨high, value⟩ => ⟨value, ?_⟩)
    · gcongr
      exact_mod_cast (two_mul (m % 2 ^ k)).symm.trans_le low
    · gcongr
      exact_mod_cast high.trans_eq (two_mul (m % 2 ^ k))
  rw [rational]
  generalize ((m % 2 ^ k : Nat) : ℚ) * 2 ^ e = b at *
  rcases nearer with ⟨same, low⟩ | ⟨next, high⟩
  · rw [same] at denotes even ⊢
    refine ⟨denotes, fun y r hy => (distance_below rest low (apart y r hy)).1,
      fun y r hy distance differ => halved ?_⟩
    exact (distance_below rest low (apart y r hy)).2 distance differ
  · have value : ((m / 2 ^ k + 1 : Nat) : ℚ) * 2 ^ (e + k) =
        (m / 2 ^ k : Nat) * 2 ^ (e + k) + 2 ^ (e + k) := by
      push_cast
      ring
    rw [next, value] at denotes ⊢
    refine ⟨denotes, fun y r hy => (distance_above below high (apart y r hy)).1,
      fun y r hy distance differ => halved ?_⟩
    exact (distance_above below high (apart y r hy)).2 distance differ

theorem log2_eq (log : m.log2 = 52 + k) : hiddenBit ≤ m / 2 ^ k ∧ m / 2 ^ k < 2 * hiddenBit := by
  have nonzero : m ≠ 0 := by
    rintro rfl
    simp at log
    omega
  obtain ⟨low, high⟩ := (Nat.log2_eq_iff nonzero).mp log
  constructor
  · rw [Nat.le_div_iff_mul_le (Nat.two_pow_pos k)]
    exact (pow_add 2 52 k).symm.trans_le low
  · rw [Nat.div_lt_iff_lt_mul (Nat.two_pow_pos k)]
    exact high.trans_eq (by rw [show 52 + k + 1 = 53 + k by omega, pow_add]; rfl)

theorem targetExponent_eq (log : m.log2 = 52 + k) (least : leastExponent ≤ e + k) :
    Format.binary64.targetExponent (Float.Model.totalExponent m e) = e + k := by
  have bits : (Format.binary64.mantissaBits : Int) = 53 := rfl
  have lowest : Format.binary64.minExponent = -1074 := rfl
  unfold leastExponent at least
  unfold Format.targetExponent Float.Model.totalExponent
  rw [bits, lowest, log]
  push_cast
  omega

theorem shiftToTargetExponent_eq (log : m.log2 = 52 + k) (least : leastExponent ≤ e + k) :
    shiftToTargetExponent Format.binary64 m e .exact =
      (ExtendedMantissa.ofMantissaAndAccuracy m .exact >>> k, e + k) := by
  unfold shiftToTargetExponent shiftToExponent
  simp only [targetExponent_eq log least]
  rw [show (e + (k : Int) - e).toNat = k by omega]

theorem roundWithAccuracy_of_shifts (sign : Sign) {first second : ExtendedMantissa} {e₁ e₂ : Int}
    (once : shiftToTargetExponent Format.binary64 m e .exact = (first, e₁))
    (twice : shiftToTargetExponent Format.binary64 first.roundedMantissa e₁ .exact = (second, e₂))
    (positive : 0 < second.mantissa) :
    roundWithAccuracy Format.binary64 sign m e .exact =
      .finite sign second.mantissa e₂ positive := by
  unfold roundWithAccuracy
  simp only [once, twice]
  exact dif_neg positive.ne'

/-- Rounding divides by a power of two; a quotient of 54 bits is halved. -/
theorem roundWithAccuracy_eq (sign : Sign) (log : m.log2 = 52 + k)
    (least : leastExponent ≤ e + k) :
    ∃ m' e' positive, roundWithAccuracy Format.binary64 sign m e .exact =
        .finite sign m' e' positive ∧
      (m' = roundedQuotient m k ∧ e' = e + k ∧ m' < 2 * hiddenBit ∨
        roundedQuotient m k = 2 * hiddenBit ∧ m' = hiddenBit ∧ e' = e + k + 1) := by
  obtain ⟨filled, short⟩ := log2_eq log
  have quotient := roundedQuotient_cases m k
  have once := shiftToTargetExponent_eq log least
  have rounded := roundedMantissa_eq m k
  have positive : 0 < hiddenBit := by decide
  rcases Nat.lt_or_ge (roundedQuotient m k) (2 * hiddenBit) with fits | full
  · have log' : (roundedQuotient m k).log2 = 52 + 0 :=
      (Nat.log2_eq_iff (by omega)).mpr ⟨filled.trans (by omega), fits⟩
    have twice := shiftToTargetExponent_eq (e := e + k) log' (by simpa using least)
    have kept := (shifted (roundedQuotient m k) 0).quotient
    rw [pow_zero, Nat.div_one] at kept
    rw [← rounded] at twice
    rw [roundWithAccuracy_of_shifts sign once twice (by rw [rounded, kept]; omega)]
    refine ⟨_, _, _, rfl, .inl ⟨?_, add_zero _, ?_⟩⟩ <;> rw [rounded, kept]
    exact fits
  · have value : roundedQuotient m k = 2 * hiddenBit := by omega
    have log' : (roundedQuotient m k).log2 = 52 + 1 := by
      rw [value]
      decide +kernel
    have twice := shiftToTargetExponent_eq (e := e + k) log' (by omega)
    have halved := (shifted (roundedQuotient m k) 1).quotient
    rw [pow_one, Nat.div_eq_of_eq_mul_right (by decide) value] at halved
    rw [← rounded] at twice
    rw [roundWithAccuracy_of_shifts sign once twice (by rw [rounded, halved]; exact positive)]
    refine ⟨_, _, _, rfl, .inr ⟨value, ?_, rfl⟩⟩
    rw [rounded, halved]

theorem nearest_round (log : m.log2 = 52 + k) (least : leastExponent ≤ e + k)
    (greatest : e + k < greatestExponent) :
    ∃ p, Nearest ((m : ℚ) * 2 ^ e) (Float.ofModel (Float.Model.pack
      (roundWithAccuracy Format.binary64 .positive m e .exact))) p := by
  obtain ⟨filled, short⟩ := log2_eq log
  have quotient := roundedQuotient_cases m k
  obtain ⟨m', e', positive, rounded, value⟩ := roundWithAccuracy_eq .positive log least
  rw [rounded]
  have regular : Regular m' e' := by
    rcases value with ⟨rfl, rfl, fits⟩ | ⟨full, rfl, rfl⟩
    · exact ⟨fits, least, greatest.le, .inr (by omega)⟩
    · exact ⟨by decide, by omega, by omega, .inr le_rfl⟩
  have parts := ofFloat_ofModel_pack .positive positive regular
  refine ⟨_, nearest_of_value filled ?_ ?_⟩
  · rw [parts, Parts.rational?]
    rcases value with ⟨rfl, rfl, _⟩ | ⟨full, rfl, rfl⟩
    · simp [isNegative]
    · rw [full, zpow_add_one₀ (by norm_num)]
      simp [isNegative]
      ring
  · intro even
    rw [parts]
    rcases value with ⟨rfl, rfl, _⟩ | ⟨full, rfl, rfl⟩
    · exact even
    · exact (by decide : hiddenBit % 2 = 0)

end Rounding

/-! ## Conversion -/

section Conversion

variable {n : Nat}

theorem log2_shiftLeft (positive : 0 < n) (k : Nat) : (n * 2 ^ k).log2 = n.log2 + k := by
  obtain ⟨low, high⟩ := (Nat.log2_eq_iff positive.ne').mp (rfl : n.log2 = n.log2)
  refine (Nat.log2_eq_iff (Nat.mul_pos positive (Nat.two_pow_pos k)).ne').mpr ⟨?_, ?_⟩
  · rw [pow_add]
    exact Nat.mul_le_mul_right _ low
  · rw [show n.log2 + k + 1 = n.log2 + 1 + k by omega, pow_add]
    exact Nat.mul_lt_mul_of_pos_right high (Nat.two_pow_pos k)

theorem regular_shifted (positive : 0 < n) (small : n < 2 * hiddenBit) :
    Regular (n * 2 ^ (52 - n.log2)) (-(52 - n.log2 : Nat)) := by
  have short : n.log2 < 53 := (Nat.log2_lt positive.ne').mpr small
  have log : (n * 2 ^ (52 - n.log2)).log2 = 52 := by
    rw [log2_shiftLeft positive]
    omega
  obtain ⟨low, high⟩ :=
    (Nat.log2_eq_iff (Nat.mul_pos positive (Nat.two_pow_pos _)).ne').mp log
  refine ⟨high, ?_, ?_, .inr low⟩
  · unfold leastExponent
    omega
  · unfold greatestExponent
    omega

theorem roundedQuotient_zero (m : Nat) : roundedQuotient m 0 = m := by
  simp [roundedQuotient, Nat.mod_one]

/-- A small integer fills a significand when it is shifted to the left, and so is not rounded. -/
theorem normalize_small (positive : 0 < n) (small : n < 2 * hiddenBit) :
    ∃ filled, UnpackedFloat.normalize Format.binary64 n 0 .positive =
      .finite .positive (n * 2 ^ (52 - n.log2)) (-(52 - n.log2 : Nat)) filled := by
  have short : n.log2 < 53 := (Nat.log2_lt positive.ne').mpr small
  have target : Format.binary64.targetExponent (Float.Model.totalExponent n 0) =
      -((52 - n.log2 : Nat) : Int) := by
    have bits : (Format.binary64.mantissaBits : Int) = 53 := rfl
    have lowest : Format.binary64.minExponent = -1074 := rfl
    unfold Format.targetExponent Float.Model.totalExponent
    rw [bits, lowest]
    omega
  have decreased : decreaseExponent n 0 (-((52 - n.log2 : Nat) : Int)) =
      (n * 2 ^ (52 - n.log2), -((52 - n.log2 : Nat) : Int)) := by
    unfold decreaseExponent
    simp [Nat.shiftLeft_eq]
  have log : (n * 2 ^ (52 - n.log2)).log2 = 52 + 0 := by
    rw [log2_shiftLeft positive]
    omega
  have fits : n * 2 ^ (52 - n.log2) < 2 ^ 53 :=
    (Nat.log2_lt (Nat.mul_pos positive (Nat.two_pow_pos _)).ne').mp (by omega)
  obtain ⟨m, e, filled, rounded, value⟩ :=
    roundWithAccuracy_eq (e := -((52 - n.log2 : Nat) : Int)) .positive log (by
      unfold leastExponent
      omega)
  rw [roundedQuotient_zero] at value
  obtain ⟨rfl, rfl, _⟩ := value.resolve_right (fun full => fits.ne full.1)
  refine ⟨filled, ?_⟩
  have sign : compare (n : Int) 0 = .gt := compare_gt_iff_gt.mpr (by omega)
  unfold UnpackedFloat.normalize
  simp only [sign, UnpackedFloat.round, Int.toNat_natCast, target, decreased, rounded]
  simp

theorem unpack_one : (Float.ofBits 0x3FF0000000000000).toModel.unpack =
    .finite .positive hiddenBit (-52) (by decide) := by
  rfl

theorem mul_positive {m m' : Nat} {e e' : Int} (positive : 0 < m) (positive' : 0 < m') :
    UnpackedFloat.mul Format.binary64 (.finite .positive m e positive)
        (.finite .positive m' e' positive') =
      roundWithAccuracy Format.binary64 .positive (m * m') (e + e') .exact :=
  rfl

theorem scaled_value (n k : Nat) : ((n * 2 ^ k : Nat) : ℚ) * 2 ^ (-(k : Int)) = n := by
  rw [zpow_neg, zpow_natCast]
  push_cast
  field_simp

theorem nearest_ofNat_small (positive : 0 < n) (small : n < 2 * hiddenBit) :
    ∃ p, Nearest n (Float.ofNat n) p := by
  obtain ⟨filled, normal⟩ := normalize_small positive small
  have short : n.log2 < 53 := (Nat.log2_lt positive.ne').mpr small
  have regular := regular_shifted positive small
  have fast : Float.ofNat n =
      Float.ofModel (Float.Model.pack (UnpackedFloat.mul Format.binary64
        (Float.Model.pack
          (UnpackedFloat.normalize Format.binary64 n.toUInt64.toNat 0 .positive)).unpack
        (Float.ofBits 0x3FF0000000000000).toModel.unpack)) := by
    change (if h : n < 2 ^ 53 ∧ 0 ≤ 22 then _ else _) = _
    rw [dif_pos ⟨small, by decide⟩]
    rfl
  have word : n.toUInt64.toNat = n :=
    Nat.mod_eq_of_lt (show n < 2 ^ 64 from small.trans (by decide))
  rw [word, normal, unpack_one] at fast
  have unpacked := unpack_pack .positive filled regular
  change (Float.Model.pack _).unpack = _ at unpacked
  rw [unpacked] at fast
  rw [fast]
  have nearest := nearest_round (m := n * 2 ^ (52 - n.log2 + 52)) (k := 52)
    (e := -(52 - n.log2 + 52 : Nat)) (by rw [log2_shiftLeft positive]; omega) (by
      unfold leastExponent
      omega) (by
      unfold greatestExponent
      omega)
  rw [scaled_value] at nearest
  obtain ⟨p, nearest⟩ := nearest
  refine ⟨p, ?_⟩
  have mantissa : n * 2 ^ (52 - n.log2) * hiddenBit = n * 2 ^ (52 - n.log2 + 52) := by
    rw [pow_add, mul_assoc]
    rfl
  have exponent : -((52 - n.log2 : Nat) : Int) + -52 = -((52 - n.log2 + 52 : Nat) : Int) := by
    omega
  rw [mul_positive, mantissa, exponent]
  exact nearest

theorem nearest_ofNat_large (large : 2 * hiddenBit ≤ n) (bound : n ≤ 0x8000000000000000) :
    ∃ p, Nearest n (Float.ofNat n) p := by
  have positive : 0 < n := lt_of_lt_of_le (by decide) large
  have long : 52 < n.log2 := (Nat.le_log2 positive.ne').mpr large
  have short : n.log2 < 64 := (Nat.log2_lt positive.ne').mpr (bound.trans_lt (by decide))
  have nearest := nearest_round (m := n * 2 ^ 53) (k := n.log2 + 1) (e := -(53 : Nat))
    (by rw [log2_shiftLeft positive]; omega) (by
      unfold leastExponent
      omega) (by
      unfold greatestExponent
      omega)
  rw [scaled_value] at nearest
  obtain ⟨p, nearest⟩ := nearest
  refine ⟨p, ?_⟩
  have slow : Float.ofNat n = Float.ofModel (Float.Model.ofScientific n 0) := by
    change (if h : n < 2 ^ 53 ∧ 0 ≤ 22 then _ else _) = _
    rw [dif_neg (fun fits => absurd fits.1 (not_lt.mpr large))]
    rfl
  have rounded : UnpackedFloat.ofScientific Format.binary64 n 0 =
      roundWithAccuracy Format.binary64 .positive (n * 2 ^ 53) (-(53 : Nat)) .exact := by
    have size : (0 : Int) ≤ 2 ^ Format.binary64.exponentBits := by positivity
    unfold UnpackedFloat.ofScientific
    rw [dif_neg positive.ne', if_neg size.not_gt, if_neg (by omega), if_pos le_rfl, mul_positive,
      Nat.shiftLeft_eq, Int.toNat_zero, pow_zero, mul_one, add_zero]
    rfl
  rw [slow, Float.Model.ofScientific, rounded]
  exact nearest

theorem nearest_ofNat (bound : n ≤ 0x8000000000000000) : ∃ p, Nearest n (Float.ofNat n) p := by
  rcases Nat.eq_zero_or_pos n with rfl | positive
  · exact ⟨0, by exact_mod_cast Nearest.of_rational rational_zero⟩
  rcases Nat.lt_or_ge n (2 * hiddenBit) with small | large
  · exact nearest_ofNat_small positive small
  · exact nearest_ofNat_large large bound

theorem nearest_ofInt (n : Int64) : ∃ p, Nearest n.toInt (Float.ofInt n.toInt) p := by
  have low := n.le_toInt
  have high := n.toInt_lt
  cases sign : n.toInt with
  | ofNat m =>
    rw [sign] at high
    exact nearest_ofNat (Int.ofNat_le.mp high.le)
  | negSucc m =>
    obtain ⟨p, nearest⟩ := nearest_ofNat (n := m + 1) (by omega)
    refine ⟨-p, ?_⟩
    have := nearest.neg
    rw [Int.negSucc_eq]
    push_cast at this ⊢
    exact this

/-- Every integer up to `2 ^ 53` is a floating-point number. -/
theorem exists_rational_natCast (bound : n ≤ 2 * hiddenBit) :
    ∃ x, (Parts.ofFloat x).rational? = some (n : ℚ) := by
  rcases Nat.eq_zero_or_pos n with rfl | positive
  · exact ⟨_, by exact_mod_cast rational_zero⟩
  rcases bound.lt_or_eq with small | rfl
  · obtain ⟨x, parts⟩ := exists_ofFloat false (regular_shifted positive small)
      (Nat.mul_pos positive (Nat.two_pow_pos _))
    refine ⟨x, ?_⟩
    rw [parts, ← scaled_value n (52 - n.log2)]
    simp [Parts.rational?]
  · obtain ⟨x, parts⟩ := exists_ofFloat false (m := hiddenBit) (e := 1)
      ⟨by decide, by decide, by decide, .inr le_rfl⟩ (by decide)
    refine ⟨x, ?_⟩
    rw [parts]
    simp [Parts.rational?, mul_comm]

theorem Nearest.eq_of_natAbs_le {i : Int} {x : Float} {p : ℚ} (h : Nearest i x p)
    (bound : i.natAbs ≤ 2 * hiddenBit) : p = i := by
  obtain ⟨n, rfl | rfl⟩ := i.eq_nat_or_neg
  · rw [Int.natAbs_natCast] at bound
    obtain ⟨y, hy⟩ := exists_rational_natCast bound
    rw [Int.cast_natCast] at h ⊢
    exact h.unique (Nearest.of_rational hy)
  · rw [Int.natAbs_neg, Int.natAbs_natCast] at bound
    obtain ⟨y, hy⟩ := exists_rational_natCast bound
    rw [Int.cast_neg, Int.cast_natCast] at h ⊢
    exact h.unique (Nearest.of_rational (rational_neg hy))

end Conversion

end OpTree.Decimal
