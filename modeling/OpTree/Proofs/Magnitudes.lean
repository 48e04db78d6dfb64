import OpTree.BinaryEvaluation
import OpTree.Proofs.FloatRounding

set_option autoImplicit false

namespace OpTree

open Decimal (Parts Nearest)

def Value.rational? : Value → Option ℚ
  | .int n => some n.toInt
  | .float x => (Parts.ofFloat x).rational?
  | _ => none

/-- The integer is rounded to the number and does not equal it. -/
def RoundedAway (n : Int64) (x : Float) : Prop :=
  ∃ p, Nearest n.toInt x p ∧ (n.toInt : ℚ) ≠ p

def Conflated : Value → Value → Prop
  | .int n, .float x => RoundedAway n x
  | .float x, .int n => RoundedAway n x
  | _, _ => False

/-- The operator gives a truth value, which says whether the condition holds. -/
def Decides (operator : BinaryOp) (a b : Value) (condition : Prop) : Prop :=
  ∃ answer, operator.eval a b = .ok (.bool answer) ∧ (answer = true ↔ condition)

theorem Decides.eval_eq_true_iff {operator : BinaryOp} {a b : Value} {condition : Prop}
    (h : Decides operator a b condition) :
    operator.eval a b = .ok (.bool true) ↔ condition := by
  obtain ⟨answer, given, holds⟩ := h
  rw [given, ← holds]
  simp

theorem Decides.congr {operator : BinaryOp} {a b : Value} {condition condition' : Prop}
    (h : Decides operator a b condition) (same : condition ↔ condition') :
    Decides operator a b condition' := by
  obtain ⟨answer, given, holds⟩ := h
  exact ⟨answer, given, holds.trans same⟩

/-- The three operators compare the rational numbers of the operands. -/
structure ComparesExactly (a b : Value) (p q : ℚ) : Prop where
  equal : Decides .eq a b (p = q)
  less : Decides .lt a b (p < q)
  greater : Decides .gt a b (q < p)

section Mixed

variable {n : Int64} {x : Float} {p q : ℚ}

theorem rounded_eq_iff (hx : (Parts.ofFloat x).rational? = some q)
    (rounded : Nearest n.toInt (Number.int n).toFloat p) :
    p = q ↔ (n.toInt : ℚ) = q ∨ RoundedAway n x := by
  constructor
  · rintro rfl
    by_cases same : (n.toInt : ℚ) = p
    · exact .inl same
    · exact .inr ⟨p, rounded.of_rational_eq hx, same⟩
  · rintro (same | ⟨r, nearest, _⟩)
    · rw [same] at rounded
      exact rounded.unique (Nearest.of_rational hx)
    · rw [rounded.unique nearest]
      exact Option.some.inj (nearest.denotes.symm.trans hx)

theorem ne_of_roundedAway (hx : (Parts.ofFloat x).rational? = some q) (away : RoundedAway n x) :
    (n.toInt : ℚ) ≠ q := by
  obtain ⟨r, nearest, differ⟩ := away
  rwa [← Option.some.inj (nearest.denotes.symm.trans hx)]

theorem toFloat_beq_iff (hx : (Parts.ofFloat x).rational? = some q) :
    ((Number.int n).toFloat == x) = true ↔ (n.toInt : ℚ) = q ∨ RoundedAway n x := by
  obtain ⟨p, rounded⟩ := Decimal.nearest_ofInt n
  rw [Decimal.beq_eq_decide (x := (Number.int n).toFloat) rounded.denotes hx, decide_eq_true_iff]
  exact rounded_eq_iff hx rounded

theorem beq_toFloat_iff (hx : (Parts.ofFloat x).rational? = some q) :
    (x == (Number.int n).toFloat) = true ↔ (n.toInt : ℚ) = q ∨ RoundedAway n x := by
  obtain ⟨p, rounded⟩ := Decimal.nearest_ofInt n
  rw [Decimal.beq_eq_decide (y := (Number.int n).toFloat) hx rounded.denotes, decide_eq_true_iff,
    eq_comm]
  exact rounded_eq_iff hx rounded

theorem toFloat_lt_iff (hx : (Parts.ofFloat x).rational? = some q) :
    (Number.int n).toFloat < x ↔ (n.toInt : ℚ) < q ∧ ¬RoundedAway n x := by
  obtain ⟨p, rounded⟩ := Decimal.nearest_ofInt n
  have apart := rounded_eq_iff hx rounded
  rw [Decimal.lt_iff (x := (Number.int n).toFloat) rounded.denotes hx]
  constructor
  · intro less
    have differ := less.ne
    exact ⟨(rounded.lt_iff hx differ).mp less, fun away => differ (apart.mpr (.inr away))⟩
  · rintro ⟨less, kept⟩
    have differ : p ≠ q := fun same => (apart.mp same).elim less.ne kept
    exact (rounded.lt_iff hx differ).mpr less

theorem lt_toFloat_iff (hx : (Parts.ofFloat x).rational? = some q) :
    x < (Number.int n).toFloat ↔ q < (n.toInt : ℚ) ∧ ¬RoundedAway n x := by
  obtain ⟨p, rounded⟩ := Decimal.nearest_ofInt n
  have apart := rounded_eq_iff hx rounded
  rw [Decimal.lt_iff (y := (Number.int n).toFloat) hx rounded.denotes]
  constructor
  · intro greater
    have differ := greater.ne'
    have := (rounded.lt_iff hx differ).not.mp greater.not_gt
    exact ⟨lt_of_le_of_ne (not_lt.mp this) (fun same => differ (apart.mpr (.inl same.symm))),
      fun away => differ (apart.mpr (.inr away))⟩
  · rintro ⟨greater, kept⟩
    have differ : p ≠ q := fun same => (apart.mp same).elim greater.ne' kept
    have := (rounded.lt_iff hx differ).not.mpr greater.not_gt
    exact lt_of_le_of_ne (not_lt.mp this) differ.symm

theorem lt_natAbs_of_roundedAway (away : RoundedAway n x) :
    2 * Decimal.hiddenBit < n.toInt.natAbs := by
  obtain ⟨p, nearest, differ⟩ := away
  by_contra small
  exact differ (nearest.eq_of_natAbs_le (not_lt.mp small)).symm

end Mixed

section Numbers

variable {a b c : Value} {p q r : ℚ}

theorem decides_comparisons (ha : a.rational? = some p) (hb : b.rational? = some q) :
    Decides .eq a b (p = q ∨ Conflated a b) ∧
    Decides .lt a b (p < q ∧ ¬Conflated a b) ∧
    Decides .gt a b (q < p ∧ ¬Conflated a b) := by
  cases a with
  | int n =>
    obtain rfl := Option.some.inj ha
    cases b with
    | int m =>
      obtain rfl := Option.some.inj hb
      refine ⟨⟨_, rfl, ?_⟩, ⟨_, rfl, ?_⟩, ⟨_, rfl, ?_⟩⟩
      · simp [BinaryOp.equal, Conflated, Int64.toInt_inj]
      · simp [BinaryOp.less, Conflated]
      · simp [BinaryOp.less, Conflated]
    | float y =>
      refine ⟨⟨_, rfl, toFloat_beq_iff hb⟩, ⟨_, rfl, ?_⟩, ⟨_, rfl, ?_⟩⟩
      · exact decide_eq_true_iff.trans (toFloat_lt_iff hb)
      · exact decide_eq_true_iff.trans (lt_toFloat_iff hb)
    | _ => cases hb
  | float x =>
    cases b with
    | int m =>
      obtain rfl := Option.some.inj hb
      refine ⟨⟨_, rfl, ?_⟩, ⟨_, rfl, ?_⟩, ⟨_, rfl, ?_⟩⟩
      · rw [eq_comm (a := p)]
        exact beq_toFloat_iff ha
      · exact decide_eq_true_iff.trans (lt_toFloat_iff ha)
      · exact decide_eq_true_iff.trans (toFloat_lt_iff ha)
    | float y =>
      refine ⟨⟨_, rfl, ?_⟩, ⟨_, rfl, ?_⟩, ⟨_, rfl, ?_⟩⟩
      · simp [BinaryOp.equal, Conflated, Decimal.beq_eq_decide ha hb]
      · exact (decide_eq_true_iff.trans (Decimal.lt_iff ha hb)).trans (by simp [Conflated])
      · exact (decide_eq_true_iff.trans (Decimal.lt_iff hb ha)).trans (by simp [Conflated])
    | _ => cases hb
  | _ => cases ha

theorem ne_of_conflated (ha : a.rational? = some p) (hb : b.rational? = some q)
    (h : Conflated a b) : p ≠ q := by
  cases a with
  | int n =>
    obtain rfl := Option.some.inj ha
    cases b with
    | float y => exact ne_of_roundedAway hb h
    | _ => exact h.elim
  | float x =>
    cases b with
    | int m =>
      obtain rfl := Option.some.inj hb
      exact (ne_of_roundedAway ha h).symm
    | _ => exact h.elim
  | _ => exact h.elim

theorem lt_abs_of_roundedAway {n : Int64} {x : Float} (away : RoundedAway n x) :
    (2 : ℚ) ^ 53 < |(n.toInt : ℚ)| := by
  have large := lt_natAbs_of_roundedAway away
  have : (2 ^ 53 : ℤ) < |n.toInt| := by
    rw [Int.abs_eq_natAbs]
    exact_mod_cast large
  rw [← Int.cast_abs]
  exact_mod_cast this

theorem lt_abs_of_conflated (ha : a.rational? = some p) (hb : b.rational? = some q)
    (h : Conflated a b) : 2 ^ 53 < max |p| |q| := by
  cases a with
  | int n =>
    obtain rfl := Option.some.inj ha
    cases b with
    | float y => exact (lt_abs_of_roundedAway h).trans_le (le_max_left _ _)
    | _ => exact h.elim
  | float x =>
    cases b with
    | int m =>
      obtain rfl := Option.some.inj hb
      exact (lt_abs_of_roundedAway h).trans_le (le_max_right _ _)
    | _ => exact h.elim
  | _ => exact h.elim

theorem comparesExactly_iff (ha : a.rational? = some p) (hb : b.rational? = some q) :
    ComparesExactly a b p q ↔ ¬Conflated a b := by
  obtain ⟨equal, less, greater⟩ := decides_comparisons ha hb
  constructor
  · intro exact conflated
    have same := equal.eval_eq_true_iff.mpr (.inr conflated)
    exact ne_of_conflated ha hb conflated (exact.equal.eval_eq_true_iff.mp same)
  · intro kept
    exact ⟨equal.congr (or_iff_left kept), less.congr (and_iff_left kept),
      greater.congr (and_iff_left kept)⟩

def BinaryOp.Compares (operator : BinaryOp) : Prop :=
  operator = .eq ∨ operator = .lt ∨ operator = .gt

theorem existsUnique_comparison (ha : a.rational? = some p) (hb : b.rational? = some q) :
    ∃! operator : BinaryOp, operator.Compares ∧ operator.eval a b = .ok (.bool true) := by
  obtain ⟨equal, less, greater⟩ := decides_comparisons ha hb
  by_cases same : p = q ∨ Conflated a b
  · refine ⟨.eq, ⟨.inl rfl, equal.eval_eq_true_iff.mpr same⟩, ?_⟩
    rintro _ ⟨rfl | rfl | rfl, holds⟩
    · rfl
    · obtain ⟨below, kept⟩ := less.eval_eq_true_iff.mp holds
      exact absurd same (not_or.mpr ⟨below.ne, kept⟩)
    · obtain ⟨above, kept⟩ := greater.eval_eq_true_iff.mp holds
      exact absurd same (not_or.mpr ⟨above.ne', kept⟩)
  · have ⟨differ, kept⟩ := not_or.mp same
    rcases lt_or_gt_of_ne differ with below | above
    · refine ⟨.lt, ⟨.inr (.inl rfl), less.eval_eq_true_iff.mpr ⟨below, kept⟩⟩, ?_⟩
      rintro _ ⟨rfl | rfl | rfl, holds⟩
      · exact absurd (equal.eval_eq_true_iff.mp holds) same
      · rfl
      · exact absurd (greater.eval_eq_true_iff.mp holds).1 below.not_gt
    · refine ⟨.gt, ⟨.inr (.inr rfl), greater.eval_eq_true_iff.mpr ⟨above, kept⟩⟩, ?_⟩
      rintro _ ⟨rfl | rfl | rfl, holds⟩
      · exact absurd (equal.eval_eq_true_iff.mp holds) same
      · exact absurd (less.eval_eq_true_iff.mp holds).1 above.not_gt
      · rfl

theorem equal_trans (ha : a.rational? = some p) (hb : b.rational? = some q)
    (hc : c.rational? = some r) (kept : ¬Conflated a b) (kept' : ¬Conflated b c)
    (first : BinaryOp.eval .eq a b = .ok (.bool true))
    (second : BinaryOp.eval .eq b c = .ok (.bool true)) :
    BinaryOp.eval .eq a c = .ok (.bool true) := by
  have same := ((comparesExactly_iff ha hb).mpr kept).equal.eval_eq_true_iff.mp first
  have same' := ((comparesExactly_iff hb hc).mpr kept').equal.eval_eq_true_iff.mp second
  exact (decides_comparisons ha hc).1.eval_eq_true_iff.mpr (.inl (same.trans same'))

/-- Two numbers compare as the rational numbers that they denote unless they are conflated, which
takes an integer beyond `2 ^ 53`; then they are said to be equal. Just one comparison holds in any
case, and equality passes on from numbers that are not conflated. -/
theorem comparisons_exact_iff (ha : a.rational? = some p) (hb : b.rational? = some q) :
    (ComparesExactly a b p q ↔ ¬Conflated a b) ∧
    (Conflated a b → p ≠ q ∧ 2 ^ 53 < max |p| |q| ∧
      Decides .eq a b True ∧ Decides .lt a b False ∧ Decides .gt a b False) ∧
    (∃! operator : BinaryOp, operator.Compares ∧ operator.eval a b = .ok (.bool true)) ∧
    ∀ c r, c.rational? = some r → ¬Conflated a b → ¬Conflated b c →
      BinaryOp.eval .eq a b = .ok (.bool true) → BinaryOp.eval .eq b c = .ok (.bool true) →
      BinaryOp.eval .eq a c = .ok (.bool true) := by
  obtain ⟨equal, less, greater⟩ := decides_comparisons ha hb
  refine ⟨comparesExactly_iff ha hb, fun conflated => ?_, existsUnique_comparison ha hb,
    fun c r hc => equal_trans ha hb hc⟩
  exact ⟨ne_of_conflated ha hb conflated, lt_abs_of_conflated ha hb conflated,
    equal.congr (iff_true_intro (.inr conflated)),
    less.congr (iff_false_intro fun h => h.2 conflated),
    greater.congr (iff_false_intro fun h => h.2 conflated)⟩

end Numbers

theorem comparisons_exact_three :
    Value.rational? (.int 3) = some 3 ∧
    Value.rational? (.float (Float.ofBits 0x4004000000000000)) = some (5 / 2) ∧
    ComparesExactly (.int 3) (.float (Float.ofBits 0x4004000000000000)) 3 (5 / 2) := by
  have parts : Parts.ofFloat (Float.ofBits 0x4004000000000000) =
      .finite false 0x14000000000000 (-51) := by decide +kernel
  have whole : Value.rational? (.int 3) = some 3 := rfl
  have half : Value.rational? (.float (Float.ofBits 0x4004000000000000)) = some (5 / 2) := by
    rw [Value.rational?, parts, Parts.rational?]
    norm_num
  obtain ⟨exact, away, _⟩ := comparisons_exact_iff whole half
  refine ⟨whole, half, exact.mpr fun conflated => ?_⟩
  obtain ⟨_, large, _⟩ := away conflated
  norm_num at large

/-- The odd integer after `2 ^ 53` and the floating-point number below it. -/
theorem equal_beyond_significand :
    Value.rational? (.int 9007199254740993) = some 9007199254740993 ∧
    Value.rational? (.float (Float.ofBits 0x4340000000000000)) = some 9007199254740992 ∧
    BinaryOp.eval .eq (.int 9007199254740993) (.float (Float.ofBits 0x4340000000000000)) =
      .ok (.bool true) ∧
    BinaryOp.eval .eq (.float (Float.ofBits 0x4340000000000000)) (.int 9007199254740992) =
      .ok (.bool true) ∧
    BinaryOp.eval .eq (.int 9007199254740993) (.int 9007199254740992) = .ok (.bool false) := by
  have parts : Parts.ofFloat (Float.ofBits 0x4340000000000000) =
      .finite false 0x10000000000000 1 := by decide +kernel
  refine ⟨rfl, ?_, ?_, ?_, rfl⟩
  · rw [Value.rational?, parts, Parts.rational?]
    norm_num
  · exact congrArg (fun answer => Except.ok (Value.bool answer))
      (by decide +kernel : ((Number.int 9007199254740993).toFloat ==
        Float.ofBits 0x4340000000000000) = true)
  · exact congrArg (fun answer => Except.ok (Value.bool answer))
      (by decide +kernel : (Float.ofBits 0x4340000000000000 ==
        (Number.int 9007199254740992).toFloat) = true)

end OpTree
