import OpTree.Decimal.Literal
import Mathlib.Data.List.Forall2
import Mathlib.Data.List.TakeWhile

set_option autoImplicit false

namespace OpTree

structure AreDigits (text : List Char) : Prop where
  filled : text ≠ []
  digits : ∀ c ∈ text, c.isDigit

inductive IsSign : List Char → Bool → Prop
  | none : IsSign [] false
  | plus : IsSign ['+'] false
  | minus : IsSign ['-'] true

def signedValue (negative : Bool) (digits : List Char) : Int :=
  if negative then -(Decimal.digitsValue digits : Int) else Decimal.digitsValue digits

inductive IntegerText : List Char → Int → Prop
  | signed {sign digits : List Char} {negative : Bool} : IsSign sign negative →
      AreDigits digits → IntegerText (sign ++ digits) (signedValue negative digits)

/-- A word in letters of any case, given in small ones. -/
def Spells (word text : List Char) : Prop :=
  List.Forall₂ (fun letter c => c = letter ∨ c = letter.toUpper) word text

/-- Digits with at most one point and at least one digit: the text, the digits before the point and
those after it. -/
inductive PointedText : List Char → List Char → List Char → Prop
  | whole {digits : List Char} : AreDigits digits → PointedText digits digits []
  | pointed {whole fraction : List Char} : AreDigits (whole ++ fraction) →
      PointedText (whole ++ '.' :: fraction) whole fraction

/-- A power of ten behind its mark, or nothing. -/
inductive PowerText : List Char → Int → Prop
  | absent : PowerText [] 0
  | marked {mark : Char} {text : List Char} {power : Int} : mark = 'e' ∨ mark = 'E' →
      IntegerText text power → PowerText (mark :: text) power

open Decimal in
/-- Each digit behind the point makes the power less by one. -/
inductive FiniteText : List Char → Magnitude → Prop
  | scaled {text tail whole fraction : List Char} {power : Int} :
      PointedText text whole fraction → PowerText tail power →
      FiniteText (text ++ tail)
        (.finite (digitsValue (whole ++ fraction)) (power - fraction.length))

inductive MagnitudeText : List Char → Decimal.Magnitude → Prop
  | nan {text : List Char} : Spells "nan".toList text → MagnitudeText text .nan
  | infinite {text : List Char} : Spells "inf".toList text ∨ Spells "infinity".toList text →
      MagnitudeText text .infinite
  | finite {text : List Char} {magnitude : Decimal.Magnitude} : FiniteText text magnitude →
      MagnitudeText text magnitude

inductive LiteralText : List Char → Decimal.Literal → Prop
  | signed {sign text : List Char} {negative : Bool} {magnitude : Decimal.Magnitude} :
      IsSign sign negative → MagnitudeText text magnitude →
      LiteralText (sign ++ text) ⟨negative, magnitude⟩

section Beginnings

variable {text whole fraction : List Char} {power : Int} {c : Char}

theorem ne_sign_of_isDigit (digit : c.isDigit) : c ≠ '+' ∧ c ≠ '-' := by
  constructor
  · rintro rfl
    cases digit
  · rintro rfl
    cases digit

theorem AreDigits.exists_cons (areDigits : AreDigits text) :
    ∃ c rest, text = c :: rest ∧ c.isDigit := by
  cases text with
  | nil => exact absurd rfl areDigits.filled
  | cons c rest => exact ⟨c, rest, rfl, areDigits.digits c List.mem_cons_self⟩

theorem AreDigits.not_sign (areDigits : AreDigits text) :
    ∀ c ∈ text.head?, c ≠ '+' ∧ c ≠ '-' := by
  obtain ⟨d, rest, rfl, digit⟩ := areDigits.exists_cons
  intro c first
  cases first
  exact ne_sign_of_isDigit digit

theorem PointedText.filled (written : PointedText text whole fraction) :
    whole ++ fraction ≠ [] := by
  cases written with
  | whole areDigits => simpa using areDigits.filled
  | pointed areDigits => exact areDigits.filled

theorem PowerText.first (written : PowerText text power) :
    ∀ c ∈ text.head?, c.isDigit = false ∧ c ≠ '.' := by
  cases written with
  | absent => exact nofun
  | marked mark _ =>
    intro c first
    cases first
    rcases mark with rfl | rfl <;> decide

theorem FiniteText.exists_cons {magnitude : Decimal.Magnitude}
    (written : FiniteText text magnitude) : ∃ c rest, text = c :: rest ∧ (c.isDigit ∨ c = '.') := by
  cases written with
  | @scaled pointed tail whole fraction power isPointed _ =>
    cases isPointed with
    | whole areDigits =>
      obtain ⟨c, rest, rfl, digit⟩ := areDigits.exists_cons
      exact ⟨c, _, rfl, .inl digit⟩
    | pointed areDigits =>
      cases whole with
      | nil => exact ⟨_, _, rfl, .inr rfl⟩
      | cons c rest => exact ⟨c, _, rfl, .inl (areDigits.digits c List.mem_cons_self)⟩

theorem first_of_spells (spelled : Spells "nan".toList text ∨ Spells "inf".toList text ∨
    Spells "infinity".toList text) : ∀ c ∈ text.head?, c ∈ ['n', 'N', 'i', 'I'] := by
  intro c first
  rcases spelled with spelled | spelled | spelled
  all_goals
    rcases spelled with _ | ⟨same, _⟩
    cases first
    rcases same with rfl | rfl <;> decide

theorem MagnitudeText.not_sign {magnitude : Decimal.Magnitude}
    (written : MagnitudeText text magnitude) : ∀ c ∈ text.head?, c ≠ '+' ∧ c ≠ '-' := by
  have letters : ∀ c ∈ ['n', 'N', 'i', 'I'], c ≠ '+' ∧ c ≠ '-' := by simp
  cases written with
  | nan spelled => exact fun c first => letters c (first_of_spells (.inl spelled) c first)
  | infinite spelled => exact fun c first => letters c (first_of_spells (.inr spelled) c first)
  | finite written =>
    obtain ⟨d, rest, rfl, digit | rfl⟩ := written.exists_cons
    · rintro c ⟨⟩
      exact ne_sign_of_isDigit digit
    · rintro c ⟨⟩
      decide

end Beginnings

section Letters

variable {letter c : Char} {word text : List Char}

theorem toNat_toLower (c : Char) :
    c.toLower.toNat = if 65 ≤ c.toNat ∧ c.toNat ≤ 90 then c.toNat + 32 else c.toNat := by
  by_cases range : 65 ≤ c.toNat ∧ c.toNat ≤ 90
  · have capital : 'A'.val ≤ c.val ∧ c.val ≤ 'Z'.val := range
    have sum : (c.val + ('a'.val - 'A'.val)).toNat = (c.toNat + 32) % 2 ^ 32 :=
      UInt32.toNat_add _ _
    rw [if_pos range]
    exact (congrArg Char.toNat (dif_pos capital)).trans (sum.trans (by omega))
  · rw [if_neg range]
    exact congrArg Char.toNat (dif_neg range)

theorem toNat_toUpper (small : 97 ≤ c.toNat ∧ c.toNat ≤ 122) : c.toUpper.toNat = c.toNat - 32 := by
  have range : 'a'.val ≤ c.val ∧ c.val ≤ 'z'.val := small
  have sum : (c.val + ('A'.val - 'a'.val)).toNat = (c.toNat + 4294967264) % 2 ^ 32 :=
    UInt32.toNat_add _ _
  exact (congrArg Char.toNat (dif_pos range)).trans (sum.trans (by omega))

theorem toLower_eq_iff (small : letter.isLower) :
    c.toLower = letter ↔ c = letter ∨ c = letter.toUpper := by
  have range : 97 ≤ letter.toNat ∧ letter.toNat ≤ 122 := by
    have both : (decide ('a'.val ≤ letter.val) && decide (letter.val ≤ 'z'.val)) = true := small
    rwa [Bool.and_eq_true, decide_eq_true_eq, decide_eq_true_eq] at both
  simp only [← Char.toNat_inj, toNat_toLower, toNat_toUpper range]
  split <;> omega

theorem spells_iff (small : ∀ letter ∈ word, letter.isLower) :
    Spells word text ↔ text.map Char.toLower = word := by
  induction word generalizing text with
  | nil => simp [Spells]
  | cons letter word ih =>
    obtain ⟨first, others⟩ := List.forall_mem_cons.1 small
    cases text with
    | nil => simp [Spells]
    | cons c text =>
      rw [List.map_cons, List.cons.injEq, toLower_eq_iff first, ← ih others]
      exact List.forall₂_cons

end Letters

namespace Numeral

variable {limit value n : Nat} {excess : NumeralFault} {text : List Char}

theorem le_ofDigitChars (value : Nat) (text : List Char) :
    value ≤ Nat.ofDigitChars 10 text value := by
  induction text generalizing value with
  | nil => exact Nat.le_refl _
  | cons c text ih =>
    rw [Nat.ofDigitChars_cons]
    have later := ih (10 * value + (c.toNat - '0'.toNat))
    omega

theorem extend_eq_ok (start : value ≤ limit) : extend limit excess value text = .ok n ↔
    (∀ c ∈ text, c.isDigit) ∧ Nat.ofDigitChars 10 text value = n ∧ n ≤ limit := by
  induction text generalizing value with
  | nil =>
    rw [extend]
    constructor
    · rintro ⟨⟩
      exact ⟨nofun, rfl, start⟩
    · rintro ⟨_, rfl, _⟩
      rfl
  | cons c text ih =>
    rw [extend, Nat.ofDigitChars_cons, List.forall_mem_cons]
    have later := le_ofDigitChars (10 * value + (c.toNat - '0'.toNat)) text
    by_cases digit : c.isDigit
    · rw [if_pos digit]
      by_cases fits : 10 * value + digitValue c ≤ limit
      · rw [if_pos fits, ih fits]
        simp only [digit, true_and, digitValue]
      · rw [if_neg fits]
        refine ⟨nofun, fun ⟨_, total, bound⟩ => ?_⟩
        rw [digitValue] at fits
        omega
    · rw [if_neg digit]
      exact ⟨nofun, fun ⟨⟨first, _⟩, _⟩ => absurd first digit⟩

theorem magnitude_eq_ok : magnitude limit excess text = .ok n ↔
    AreDigits text ∧ Decimal.digitsValue text = n ∧ n ≤ limit := by
  cases text with
  | nil => exact ⟨nofun, fun ⟨areDigits, _⟩ => absurd rfl areDigits.filled⟩
  | cons c rest =>
    rw [magnitude, extend_eq_ok (Nat.zero_le _)]
    exact and_congr_left fun _ => ⟨fun all => ⟨by simp, all⟩, fun areDigits => areDigits.digits⟩

theorem map_magnitude_eq_ok {f : Int → Int64} {m : Int64} :
    (magnitude limit excess text >>= fun n => pure (n : Int)).map f = .ok m ↔
      AreDigits text ∧ Decimal.digitsValue text ≤ limit ∧ f (Decimal.digitsValue text) = m := by
  cases read : magnitude limit excess text with
  | ok n =>
    obtain ⟨areDigits, rfl, bound⟩ := magnitude_eq_ok.1 read
    simp [Except.map, areDigits, bound]
  | error fault =>
    refine ⟨nofun, fun ⟨areDigits, bound, _⟩ => ?_⟩
    cases read.symm.trans (magnitude_eq_ok.2 ⟨areDigits, rfl, bound⟩)

/-- A text is read as an integer if it writes one that fits into 64 bits, and as that one. -/
theorem readSigned_eq_ok {n : Int64} : readSigned text = .ok n ↔ IntegerText text n.toInt := by
  have low := n.le_toInt
  have high := n.toInt_lt
  constructor
  · intro read
    unfold readSigned at read
    split at read
    case h_1 => cases read
    case h_2 digits =>
      obtain ⟨areDigits, bound, rfl⟩ := map_magnitude_eq_ok.1 read
      rw [Int64.toInt_ofInt_of_le (by omega) (by omega)]
      exact .signed .plus areDigits
    case h_3 digits =>
      obtain ⟨areDigits, bound, rfl⟩ := map_magnitude_eq_ok.1 read
      rw [Int64.toInt_ofInt_of_le (by omega) (by omega)]
      exact .signed .minus areDigits
    case h_4 =>
      obtain ⟨areDigits, bound, rfl⟩ := map_magnitude_eq_ok.1 read
      rw [Int64.toInt_ofInt_of_le (by omega) (by omega)]
      exact .signed .none areDigits
  · intro written
    generalize same : n.toInt = k at written
    have back : Int64.ofInt k = n := same ▸ n.ofInt_toInt
    cases written with
    | @signed sign digits negative isSign areDigits =>
      cases isSign with
      | none =>
        rw [signedValue, if_neg Bool.false_ne_true] at same back
        have bound : Decimal.digitsValue digits ≤ 0x7FFFFFFFFFFFFFFF := by omega
        obtain ⟨c, rest, rfl, digit⟩ := areDigits.exists_cons
        obtain ⟨plus, minus⟩ := ne_sign_of_isDigit digit
        rw [List.nil_append, readSigned]
        · exact map_magnitude_eq_ok.2 ⟨areDigits, bound, back⟩
        · exact plus
        · exact minus
      | plus =>
        rw [signedValue, if_neg Bool.false_ne_true] at same back
        have bound : Decimal.digitsValue digits ≤ 0x7FFFFFFFFFFFFFFF := by omega
        exact map_magnitude_eq_ok.2 ⟨areDigits, bound, back⟩
      | minus =>
        rw [signedValue, if_pos rfl] at same back
        have bound : Decimal.digitsValue digits ≤ 0x8000000000000000 := by omega
        exact map_magnitude_eq_ok.2 ⟨areDigits, bound, back⟩

end Numeral

namespace Decimal

variable {text rest digits whole fraction sign : List Char} {negative : Bool} {power : Int}

theorem exists_sign (text : List Char) :
    ∃ sign, IsSign sign (takeSign text).1 ∧ text = sign ++ (takeSign text).2 := by
  unfold takeSign
  split
  case h_1 rest => exact ⟨_, .minus, rfl⟩
  case h_2 rest => exact ⟨_, .plus, rfl⟩
  case h_3 => exact ⟨_, .none, rfl⟩

theorem takeSign_append (isSign : IsSign sign negative)
    (other : ∀ c ∈ rest.head?, c ≠ '+' ∧ c ≠ '-') : takeSign (sign ++ rest) = (negative, rest) := by
  cases isSign with
  | plus => rfl
  | minus => rfl
  | none =>
    cases rest with
    | nil => rfl
    | cons c rest =>
      obtain ⟨plus, minus⟩ := other c rfl
      simp [takeSign, plus, minus]

theorem takeDigits_append (areDigits : ∀ c ∈ digits, c.isDigit)
    (other : ∀ c ∈ rest.head?, c.isDigit = false) :
    takeDigits (digits ++ rest) = (digits, rest) := by
  rw [takeDigits, List.takeWhile_append_of_pos areDigits, List.dropWhile_append_of_pos areDigits]
  cases rest with
  | nil => simp
  | cons c rest => simp [other c rfl]

theorem readPower_eq_some : readPower text = some power ↔ IntegerText text power := by
  constructor
  · intro read
    obtain ⟨sign, isSign, whole⟩ := exists_sign text
    simp only [readPower] at read
    split at read
    case isTrue => cases read
    case isFalse areDigits =>
      simp only [Bool.or_eq_true, List.isEmpty_iff, Bool.not_eq_true', not_or,
        Bool.not_eq_false, List.all_eq_true] at areDigits
      cases read
      have written := IntegerText.signed isSign ⟨areDigits.1, areDigits.2⟩
      rw [← whole] at written
      exact written
  · rintro ⟨isSign, areDigits⟩
    have digits := areDigits.digits
    simp only [readPower, takeSign_append isSign areDigits.not_sign]
    rw [if_neg (by simpa [areDigits.filled] using digits)]
    rfl

theorem readExponent_eq_some : readExponent text = some power ↔ PowerText text power := by
  cases text with
  | nil =>
    rw [readExponent, Option.some.injEq]
    constructor
    · rintro rfl
      exact .absent
    · rintro ⟨⟩
      rfl
  | cons c rest =>
    rw [readExponent]
    by_cases mark : c = 'e' ∨ c = 'E'
    · rw [if_pos mark, readPower_eq_some]
      constructor
      · exact .marked mark
      · rintro (_ | ⟨_, written⟩)
        exact written
    · rw [if_neg mark]
      constructor
      · exact nofun
      · rintro (_ | ⟨marked, _⟩)
        exact absurd marked mark

theorem digits_takeDigits (text : List Char) : ∀ c ∈ (takeDigits text).1, c.isDigit :=
  fun _ => List.mem_takeWhile_imp

theorem takeFraction_cases (text : List Char) :
    (∃ rest, text = '.' :: rest ∧ takeFraction text = takeDigits rest) ∨
      takeFraction text = ([], text) := by
  unfold takeFraction
  split
  case h_1 rest => exact .inl ⟨rest, rfl, rfl⟩
  case h_2 => exact .inr rfl

theorem pointedText_take (filled : (takeDigits text).1 ≠ [] ∨
      (takeFraction (takeDigits text).2).1 ≠ []) :
    ∃ pointed, PointedText pointed (takeDigits text).1 (takeFraction (takeDigits text).2).1 ∧
      text = pointed ++ (takeFraction (takeDigits text).2).2 := by
  have cut : text = (takeDigits text).1 ++ (takeDigits text).2 :=
    List.takeWhile_append_dropWhile.symm
  have digits := digits_takeDigits text
  rcases takeFraction_cases (takeDigits text).2 with ⟨rest, point, taken⟩ | none
  · have more := digits_takeDigits rest
    have cutRest : rest = (takeDigits rest).1 ++ (takeDigits rest).2 :=
      List.takeWhile_append_dropWhile.symm
    rw [taken] at filled ⊢
    refine ⟨_, .pointed ⟨?_, List.forall_mem_append.2 ⟨digits, more⟩⟩, ?_⟩
    · simpa [or_iff_not_imp_left] using filled
    · rw [List.append_assoc, List.cons_append, ← cutRest, ← point]
      exact cut
  · rw [none] at filled ⊢
    exact ⟨_, .whole ⟨filled.resolve_right (absurd rfl), digits⟩, cut⟩

theorem take_pointedText {pointed tail : List Char} (written : PointedText pointed whole fraction)
    (first : ∀ c ∈ tail.head?, c.isDigit = false ∧ c ≠ '.') :
    (takeDigits (pointed ++ tail)).1 = whole ∧
      takeFraction (takeDigits (pointed ++ tail)).2 = (fraction, tail) := by
  have noDigit : ∀ c ∈ tail.head?, c.isDigit = false := fun c head => (first c head).1
  cases written with
  | whole areDigits =>
    rw [takeDigits_append areDigits.digits noDigit]
    refine ⟨rfl, ?_⟩
    cases tail with
    | nil => rfl
    | cons c tail => simp [takeFraction, (first c rfl).2]
  | pointed areDigits =>
    obtain ⟨before, after⟩ := List.forall_mem_append.1 areDigits.digits
    rw [List.append_assoc, takeDigits_append before (by rintro c ⟨⟩; rfl)]
    exact ⟨rfl, takeDigits_append after noDigit⟩

theorem readFinite_eq_some {magnitude : Magnitude} :
    readFinite text = some magnitude ↔ FiniteText text magnitude := by
  constructor
  · intro read
    simp only [readFinite] at read
    split at read
    case isTrue => cases read
    case isFalse some =>
      obtain ⟨power, written, rfl⟩ := Option.map_eq_some_iff.1 read
      have filled : (takeDigits text).1 ≠ [] ∨ (takeFraction (takeDigits text).2).1 ≠ [] := by
        simpa [← imp_iff_not_or] using some
      obtain ⟨pointed, isPointed, whole⟩ := pointedText_take filled
      have scaled := FiniteText.scaled isPointed (readExponent_eq_some.1 written)
      rw [← whole] at scaled
      exact scaled
  · rintro ⟨isPointed, written⟩
    obtain ⟨same, taken⟩ := take_pointedText isPointed written.first
    have filled := isPointed.filled
    rw [ne_eq, List.append_eq_nil_iff] at filled
    simp only [readFinite, same, taken]
    rw [if_neg (by simpa using filled), readExponent_eq_some.2 written]
    rfl

theorem readMagnitude_eq_some {magnitude : Magnitude} :
    readMagnitude text = some magnitude ↔ MagnitudeText text magnitude := by
  have nan : Spells "nan".toList text ↔ text.map Char.toLower = "nan".toList :=
    spells_iff (by simp)
  have short : Spells "inf".toList text ↔ text.map Char.toLower = "inf".toList :=
    spells_iff (by simp)
  have long : Spells "infinity".toList text ↔ text.map Char.toLower = "infinity".toList :=
    spells_iff (by simp)
  constructor
  · intro read
    simp only [readMagnitude] at read
    split at read
    case isTrue spelled =>
      cases read
      exact .nan (nan.2 spelled)
    case isFalse =>
      split at read
      case isTrue spelled =>
        cases read
        exact .infinite (spelled.imp short.2 long.2)
      case isFalse => exact .finite (readFinite_eq_some.1 read)
  · intro written
    simp only [readMagnitude]
    cases written with
    | nan spelled => rw [if_pos (nan.1 spelled)]
    | infinite spelled =>
      have spelled := spelled.imp short.1 long.1
      have other : text.map Char.toLower ≠ "nan".toList := by
        rcases spelled with spelled | spelled
        · rw [spelled]
          decide
        · rw [spelled]
          decide
      rw [if_neg other, if_pos spelled]
    | finite written =>
      have other : ¬ (Spells "nan".toList text ∨ Spells "inf".toList text ∨
          Spells "infinity".toList text) := by
        intro spelled
        obtain ⟨c, rest, rfl, first⟩ := written.exists_cons
        have letters : ∀ c ∈ ['n', 'N', 'i', 'I'], ¬ (c.isDigit ∨ c = '.') := by simp
        exact letters c (first_of_spells spelled c rfl) first
      rw [nan, short, long, not_or] at other
      rw [if_neg other.1, if_neg other.2, readFinite_eq_some.2 written]

theorem read_eq_some {literal : Literal} :
    Literal.read text = some literal ↔ LiteralText text literal := by
  constructor
  · intro read
    have parts : (readMagnitude (takeSign text).2).map
        (fun magnitude => (⟨(takeSign text).1, magnitude⟩ : Literal)) = some literal := read
    obtain ⟨magnitude, written, rfl⟩ := Option.map_eq_some_iff.1 parts
    obtain ⟨sign, isSign, whole⟩ := exists_sign text
    have signed := LiteralText.signed isSign (readMagnitude_eq_some.1 written)
    rw [← whole] at signed
    exact signed
  · rintro ⟨isSign, written⟩
    rw [Literal.read, takeSign_append isSign written.not_sign]
    simp only [readMagnitude_eq_some.2 written]
    rfl

end Decimal

end OpTree
