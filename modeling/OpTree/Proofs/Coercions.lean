import OpTree.Proofs.Arguments
import OpTree.Proofs.NumberTexts

set_option autoImplicit false

namespace OpTree

def NoInteger (raw : String) : Prop :=
  ∀ n : Int64, ¬ IntegerText raw.toList n.toInt

/-- What a text stands for that is no reference. -/
inductive Denotes (raw : String) : Value → Prop
  | int {n : Int64} : IntegerText raw.toList n.toInt → Denotes raw (.int n)
  | float {literal : Decimal.Literal} : NoInteger raw → LiteralText raw.toList literal →
      Denotes raw (.float literal.toFloat)
  | bool {b : Bool} : raw = (if b then "true" else "false") → Denotes raw (.bool b)
  | str : NoInteger raw → (∀ literal, ¬ LiteralText raw.toList literal) → raw ≠ "true" →
      raw ≠ "false" → Denotes raw (.str raw)

section Texts

variable {raw : String} {value : Value} {text : List Char} {k : Int}

theorem IntegerText.literalText (written : IntegerText text k) :
    ∃ negative n, LiteralText text ⟨negative, .finite n 0⟩ ∧
      k = if negative then -(n : Int) else n := by
  obtain ⟨isSign, areDigits⟩ := written
  have magnitude := MagnitudeText.finite (.scaled (.whole areDigits) .absent)
  rw [List.append_nil] at magnitude
  exact ⟨_, _, .signed isSign (by simpa using magnitude), rfl⟩

theorem IntegerText.unique {m : Int} (left : IntegerText text k) (right : IntegerText text m) :
    k = m := by
  rw [← Decimal.readPower_eq_some] at left right
  exact Option.some.inj (left.symm.trans right)

theorem noInteger_of_noLiteral (none : ∀ literal, ¬ LiteralText raw.toList literal) :
    NoInteger raw := by
  intro n written
  obtain ⟨negative, m, isLiteral, -⟩ := written.literalText
  exact none _ isLiteral

theorem noLiteral_iff : (∀ literal, ¬ LiteralText text literal) ↔
    Decimal.Literal.read text = none := by
  simp only [← Decimal.read_eq_some, Option.eq_none_iff_forall_ne_some, ne_eq]

theorem noInteger_iff : NoInteger raw ↔ ∃ fault, Numeral.readSigned raw.toList = .error fault := by
  simp only [NoInteger, ← Numeral.readSigned_eq_ok]
  cases Numeral.readSigned raw.toList <;> simp

theorem noLiteral_bool (b : Bool) :
    ∀ literal, ¬ LiteralText (if b then "true" else "false").toList literal := by
  rw [noLiteral_iff]
  cases b <;> rfl

theorem denotes_ofText (raw : String) : Denotes raw (Value.ofText raw) := by
  unfold Value.ofText
  cases integer : Numeral.readSigned raw.toList with
  | ok n => exact .int (Numeral.readSigned_eq_ok.1 integer)
  | error fault =>
    have noInteger := noInteger_iff.2 ⟨fault, integer⟩
    cases number : Decimal.Literal.read raw.toList with
    | some literal => exact .float noInteger (Decimal.read_eq_some.1 number)
    | none =>
      by_cases yes : raw = "true"
      · rw [if_pos yes]
        exact .bool yes
      · rw [if_neg yes]
        by_cases no : raw = "false"
        · rw [if_pos no]
          exact .bool no
        · rw [if_neg no]
          exact .str noInteger (noLiteral_iff.2 number) yes no

/-- The classes of texts are apart, so a text stands for one value only. -/
theorem Denotes.eq_ofText (denotes : Denotes raw value) : Value.ofText raw = value := by
  unfold Value.ofText
  cases denotes with
  | int written => rw [Numeral.readSigned_eq_ok.2 written]
  | float noInteger written =>
    obtain ⟨fault, integer⟩ := noInteger_iff.1 noInteger
    rw [integer, Decimal.read_eq_some.2 written]
  | @bool b same =>
    have noLiteral := noLiteral_bool b
    rw [← same] at noLiteral
    obtain ⟨fault, integer⟩ := noInteger_iff.1 (noInteger_of_noLiteral noLiteral)
    rw [integer, noLiteral_iff.1 noLiteral, same]
    cases b <;> rfl
  | str noInteger noLiteral yes no =>
    obtain ⟨fault, integer⟩ := noInteger_iff.1 noInteger
    rw [integer, noLiteral_iff.1 noLiteral]
    simp only [if_neg yes, if_neg no]

theorem ofText_eq_iff : Value.ofText raw = value ↔ Denotes raw value := by
  constructor
  · rintro rfl
    exact denotes_ofText raw
  · exact Denotes.eq_ofText

end Texts

namespace Scopes

variable {s : Scopes} {slot : Slot} {raw : String} {value : Value}

theorem coerce_reference_eq_ok {name : String} :
    s.coerce slot ("$" ++ name) = .ok value ↔ s.lookup slot name = some value := by
  rw [coerce_reference, resolve]
  cases s.lookup slot name <;> simp

theorem coerce_of_plain (plain : ∀ name, raw ≠ "$" ++ name) :
    s.coerce slot raw = .ok (Value.ofText raw) := by
  unfold coerce
  split
  case h_1 letters whole =>
    refine absurd ?_ (plain (String.ofList letters))
    rw [← String.toList_inj, whole]
    simp
  case h_2 => rfl

theorem coerce_eq_ok_iff (plain : ∀ name, raw ≠ "$" ++ name) :
    s.coerce slot raw = .ok value ↔ Denotes raw value := by
  rw [coerce_of_plain plain, Except.ok.injEq, ofText_eq_iff]

theorem plain_of_literalText {literal : Decimal.Literal}
    (written : LiteralText raw.toList literal) : ∀ name, raw ≠ "$" ++ name := by
  rintro name rfl
  rw [toList_reference, ← Decimal.read_eq_some] at written
  cases written

theorem coerce_of_wide {k : Int} (written : IntegerText raw.toList k)
    (wide : k < Int64.minValue.toInt ∨ Int64.maxValue.toInt < k) :
    ∃ negative n, k = (if negative then -(n : Int) else n) ∧
      s.coerce slot raw = .ok (.float (Decimal.Literal.toFloat ⟨negative, .finite n 0⟩)) := by
  obtain ⟨negative, n, isLiteral, value⟩ := written.literalText
  have noInteger : NoInteger raw := by
    intro m fits
    have same := written.unique fits
    have low := m.le_toInt
    have high := m.toInt_lt
    rw [Int64.toInt_minValue, Int64.toInt_maxValue] at wide
    omega
  refine ⟨negative, n, value, ?_⟩
  rw [coerce_eq_ok_iff (plain_of_literalText isLiteral)]
  exact .float noInteger isLiteral

theorem coerce_text_int (s : Scopes) (slot : Slot) (n : Int64) :
    s.coerce slot (Value.int n).text = .ok (.int n) := by
  have written : IntegerText (Value.int n).text.toList n.toInt := by
    rw [Value.text, String.toList_ofList, ← Numeral.readSigned_eq_ok]
    exact Numeral.readSigned_writeSigned n
  obtain ⟨negative, m, isLiteral, -⟩ := written.literalText
  rw [coerce_eq_ok_iff (plain_of_literalText isLiteral)]
  exact .int written

/-- After a dollar sign a text is a name, and any other text has the value of the first class that
its grammar puts it into. Whatever an integer or a truth value is written as stands for it. -/
theorem coerce_by_grammar (s : Scopes) (slot : Slot) :
    (∀ name value, s.coerce slot ("$" ++ name) = .ok value ↔ s.lookup slot name = some value) ∧
    (∀ raw error, s.coerce slot raw = .error error ↔
      ∃ name, raw = "$" ++ name ∧ s.lookup slot name = none ∧ error = .unboundVariable name) ∧
    (∀ raw : String, (∀ name, raw ≠ "$" ++ name) →
      (∀ n, s.coerce slot raw = .ok (.int n) ↔ IntegerText raw.toList n.toInt) ∧
      (∀ x, s.coerce slot raw = .ok (.float x) ↔ NoInteger raw ∧
        ∃ literal, LiteralText raw.toList literal ∧ literal.toFloat = x) ∧
      (∀ b, s.coerce slot raw = .ok (.bool b) ↔ raw = if b then "true" else "false") ∧
      (∀ text, s.coerce slot raw = .ok (.str text) ↔ text = raw ∧ NoInteger raw ∧
        (∀ literal, ¬ LiteralText raw.toList literal) ∧ raw ≠ "true" ∧ raw ≠ "false") ∧
      ∀ f, s.coerce slot raw ≠ .ok (.function f)) ∧
    (∀ (raw : String) (k : Int), IntegerText raw.toList k →
      k < Int64.minValue.toInt ∨ Int64.maxValue.toInt < k →
      ∃ negative n, k = (if negative then -(n : Int) else n) ∧
        s.coerce slot raw = .ok (.float (Decimal.Literal.toFloat ⟨negative, .finite n 0⟩))) ∧
    (∀ n, s.coerce slot (Value.int n).text = .ok (.int n)) ∧
      ∀ b, s.coerce slot (Value.bool b).text = .ok (.bool b) := by
  refine ⟨fun name value => coerce_reference_eq_ok, fun raw error => coerce_eq_error_iff,
    fun raw plain => ?_, fun raw k => coerce_of_wide, coerce_text_int s slot,
    fun b => by cases b <;> rfl⟩
  simp only [ne_eq, coerce_eq_ok_iff plain]
  refine ⟨fun n => ⟨?_, .int⟩, fun x => ⟨?_, ?_⟩, fun b => ⟨?_, .bool⟩, fun text => ⟨?_, ?_⟩, ?_⟩
  · rintro ⟨⟩
    assumption
  · rintro ⟨⟩
    exact ⟨‹_›, _, ‹_›, rfl⟩
  · rintro ⟨noInteger, literal, written, rfl⟩
    exact .float noInteger written
  · rintro ⟨⟩
    assumption
  · rintro ⟨⟩
    exact ⟨rfl, ‹_›, ‹_›, ‹_›, ‹_›⟩
  · rintro ⟨rfl, noInteger, noLiteral, yes, no⟩
    exact .str noInteger noLiteral yes no
  · rintro f ⟨⟩

/-- The empty name is a name, leading zeros do not count, and one integer above the greatest one the
numbers go on as floating-point numbers. A mark of a power without digits makes a text. -/
theorem coerce_by_grammar_edges :
    let s : Scopes := ⟨#[⟨none, [("", .bool true)]⟩]⟩
    s.coerce root "$" = .ok (.bool true) ∧ s.coerce root "$x" = .error (.unboundVariable "x") ∧
      s.coerce root "-0009223372036854775808" = .ok (.int Int64.minValue) ∧
      s.coerce root "+9223372036854775808" =
        .ok (.float (Decimal.Literal.toFloat ⟨false, .finite 9223372036854775808 0⟩)) ∧
      s.coerce root "-Inf" = .ok (.float (Decimal.Literal.toFloat ⟨true, .infinite⟩)) ∧
      s.coerce root "1e" = .ok (.str "1e") := by
  intro s
  obtain ⟨reference, failure, plain, wide, _⟩ := coerce_by_grammar s root
  have least : IntegerText "-0009223372036854775808".toList Int64.minValue.toInt :=
    Numeral.readSigned_eq_ok.1 rfl
  have above : IntegerText "+9223372036854775808".toList 9223372036854775808 :=
    Decimal.readPower_eq_some.1 rfl
  have infinite : LiteralText "-Inf".toList ⟨true, .infinite⟩ := Decimal.read_eq_some.1 rfl
  have noLiteral : ∀ literal, ¬ LiteralText "1e".toList literal := noLiteral_iff.2 rfl
  refine ⟨(reference "" _).2 rfl, (failure _ _).2 ⟨"x", rfl, rfl, rfl⟩, ?_, ?_, ?_, ?_⟩
  · obtain ⟨negative, m, isLiteral, -⟩ := least.literalText
    exact ((plain _ (plain_of_literalText isLiteral)).1 _).2 least
  · obtain ⟨negative, n, same, read⟩ := wide _ _ above (by decide)
    cases negative with
    | true =>
      rw [if_pos rfl] at same
      omega
    | false =>
      rw [if_neg Bool.false_ne_true] at same
      obtain rfl : n = 9223372036854775808 := by omega
      exact read
  · have noInteger : NoInteger "-Inf" := noInteger_iff.2 ⟨_, rfl⟩
    exact ((plain _ (plain_of_literalText infinite)).2.1 _).2 ⟨noInteger, _, infinite, rfl⟩
  · have noReference : ∀ name, "1e" ≠ "$" ++ name := by
      intro name same
      have letters := congrArg String.toList same
      simp at letters
    have noInteger : NoInteger "1e" := noInteger_of_noLiteral noLiteral
    exact ((plain _ noReference).2.2.2.1 _).2 ⟨rfl, noInteger, noLiteral, by decide⟩

end Scopes

end OpTree
