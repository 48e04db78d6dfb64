import OpTree.ProgramFile
import Mathlib.Data.List.Basic

set_option autoImplicit false

namespace OpTree

theorem splitOn_ended {α : Type} [DecidableEq α] {separator : α} {lines : List (List α)}
    (absent : ∀ line ∈ lines, separator ∉ line) :
    (lines.flatMap fun line => line ++ [separator]).splitOn separator = lines ++ [[]] := by
  induction lines with
  | nil => rfl
  | cons line lines ih =>
    have later := ih fun other inside => absent other (List.mem_cons_of_mem line inside)
    rw [List.flatMap_cons, List.append_assoc, List.singleton_append,
      List.splitOn_append_cons_self_of_not_mem (absent line List.mem_cons_self), later,
      List.cons_append]

namespace Numeral

variable {limit n : Nat} {excess : NumeralFault}

theorem isDigit_digitChar :
    ∀ d < 10, (Nat.digitChar d).isDigit ∧ digitValue (Nat.digitChar d) = d := by
  decide

theorem extend_append (value : Nat) (digits more : List Char) :
    extend limit excess value (digits ++ more) =
      (extend limit excess value digits).bind fun value => extend limit excess value more := by
  induction digits generalizing value with
  | nil => rfl
  | cons c digits ih =>
    rw [List.cons_append, extend, extend]
    split
    · split
      · exact ih _
      · rfl
    · rfl

theorem extend_digit {value d : Nat} (digit : d < 10) (fits : 10 * value + d ≤ limit) :
    extend limit excess value [Nat.digitChar d] = .ok (10 * value + d) := by
  obtain ⟨isDigit, same⟩ := isDigit_digitChar d digit
  simp [extend, isDigit, same, fits]

theorem extend_writeNat (fits : n ≤ limit) : extend limit excess 0 (writeNat n) = .ok n := by
  induction n using Nat.strongRecOn with
  | ind n ih =>
    unfold writeNat
    by_cases small : n < 10
    · rw [Nat.toDigits_of_lt_base small]
      have fits : 10 * 0 + n ≤ limit := by omega
      rw [extend_digit small fits, Nat.mul_zero, Nat.zero_add]
    · have digit : n % 10 < 10 := by omega
      have fits : 10 * (n / 10) + n % 10 ≤ limit := by omega
      have start : extend limit excess 0 (Nat.toDigits 10 (n / 10)) = .ok (n / 10) :=
        ih (n / 10) (by omega) (by omega)
      rw [Nat.toDigits_of_base_le (by omega) (by omega), extend_append, start]
      change extend limit excess (n / 10) _ = _
      rw [extend_digit digit fits, Nat.div_add_mod]

/-- The digits of a number are there and start with none of the signs. -/
theorem writeNat_eq_cons (n : Nat) : ∃ c rest, writeNat n = c :: rest ∧ c ≠ '+' ∧ c ≠ '-' := by
  cases written : writeNat n with
  | nil => exact absurd written Nat.toDigits_ne_nil
  | cons c rest =>
    have first : c ∈ Nat.toDigits 10 n := by
      rw [show Nat.toDigits 10 n = _ from written]
      exact List.mem_cons_self
    have digit := Nat.isDigit_of_mem_toDigits (by omega) (by omega) first
    refine ⟨c, rest, rfl, ?_, ?_⟩
    · rintro rfl
      cases digit
    · rintro rfl
      cases digit

theorem magnitude_writeNat (fits : n ≤ limit) : magnitude limit excess (writeNat n) = .ok n := by
  obtain ⟨c, rest, written, _⟩ := writeNat_eq_cons n
  have read : extend limit excess 0 (writeNat n) = .ok n := extend_writeNat fits
  rw [written] at read ⊢
  exact read

theorem readSigned_writeSigned (n : Int64) : readSigned (writeSigned n) = .ok n := by
  have low := n.le_toInt
  have high := n.toInt_lt
  unfold writeSigned
  by_cases negative : n.toInt < 0
  · rw [if_pos negative, readSigned, magnitude_writeNat (by omega)]
    have same : -(n.toInt.natAbs : Int) = n.toInt := by omega
    change Except.ok (Int64.ofInt (-(n.toInt.natAbs : Int))) = _
    rw [same, Int64.ofInt_toInt]
  · rw [if_neg negative]
    obtain ⟨c, rest, written, plus, minus⟩ := writeNat_eq_cons n.toInt.natAbs
    have read : magnitude 0x7FFFFFFFFFFFFFFF .tooLarge (writeNat n.toInt.natAbs) =
        .ok n.toInt.natAbs := magnitude_writeNat (by omega)
    have same : (n.toInt.natAbs : Int) = n.toInt := by omega
    rw [written] at read ⊢
    rw [readSigned, read]
    · change Except.ok (Int64.ofInt (n.toInt.natAbs : Int)) = _
      rw [same, Int64.ofInt_toInt]
    · exact plus
    · exact minus

end Numeral

namespace ProgramFile

theorem unescape_escape (text : List Char) : unescape (escape text) = some text := by
  induction text with
  | nil => rfl
  | cons c rest ih =>
    by_cases backslash : c = '\\'
    · simp [escape, unescape, backslash, ih]
    · by_cases tab : c = '\t'
      · simp [escape, unescape, tab, ih]
      · by_cases line : c = '\n'
        · simp [escape, unescape, line, ih]
        · simp [escape, unescape, backslash, tab, line, ih]

theorem notMem_escape (text : List Char) : '\t' ∉ escape text ∧ '\n' ∉ escape text := by
  induction text with
  | nil => simp [escape]
  | cons c rest ih =>
    by_cases backslash : c = '\\'
    · simpa [escape, backslash] using ih
    · by_cases tab : c = '\t'
      · simpa [escape, tab] using ih
      · by_cases line : c = '\n'
        · simpa [escape, line] using ih
        · simp [escape, backslash, tab, line, ih, Ne.symm tab, Ne.symm line]

theorem mapM_map_eq_some {α : Type} {f : α → List Char} {g : List Char → Option α}
    (back : ∀ a, g (f a) = some a) (as : List α) : (as.map f).mapM g = some as := by
  induction as with
  | nil => rfl
  | cons a as ih =>
    rw [List.map_cons, List.mapM_cons, back, ih]
    rfl

theorem readFields_writeFields {fields : List (List Char)} (filled : fields ≠ []) :
    readFields (writeFields fields) = some fields := by
  have absent : ∀ part ∈ fields.map escape, '\t' ∉ part := by
    intro part inside
    obtain ⟨field, _, rfl⟩ := List.mem_map.1 inside
    exact (notMem_escape field).1
  rw [readFields, writeFields, List.splitOn_intercalate '\t' absent (by simpa using filled),
    mapM_map_eq_some unescape_escape]

theorem notMem_writeFields (fields : List (List Char)) : '\n' ∉ writeFields fields := by
  unfold writeFields
  induction fields with
  | nil => simp
  | cons field fields ih =>
    cases fields with
    | nil => simpa using (notMem_escape field).2
    | cons next fields =>
      rw [List.map_cons] at ih
      rw [List.map_cons, List.map_cons, List.intercalate_cons_cons]
      simp [ih, (notMem_escape field).2]

theorem readInt_writeSigned (n : Int64) : readInt (Numeral.writeSigned n) = some n := by
  rw [readInt, Numeral.readSigned_writeSigned]
  rfl

theorem readParent_writeParent (parent : Option OpId) :
    readParent (writeParent parent) = some parent := by
  cases parent with
  | none => rfl
  | some parent =>
    have read := readInt_writeSigned parent.raw
    rw [writeParent, readParent]
    cases written : Numeral.writeSigned parent.raw with
    | nil =>
      -- The empty field stands for no parent, but no integer is written as nothing.
      rw [written] at read
      cases read
    | cons c rest =>
      rw [written] at read
      simp [read]

theorem Record.ofFields?_fields (record : Record) : Record.ofFields? record.fields = some record := by
  cases record with
  | operation key row =>
    simp [Record.fields, Record.ofFields?, readInt_writeSigned, readParent_writeParent]
  | parameter key row =>
    obtain ⟨owner, name, value⟩ := row
    cases value with
    | none => simp [Record.fields, Record.ofFields?, readInt_writeSigned]
    | some value => simp [Record.fields, Record.ofFields?, readInt_writeSigned]

theorem Record.read_write (record : Record) : Record.read record.write = some record := by
  have filled : record.fields ≠ [] := by cases record <;> simp [Record.fields]
  rw [Record.read, Record.write, readFields_writeFields filled]
  exact Record.ofFields?_fields record

theorem filterMap_operation? (s : Store) :
    (records s).filterMap Record.operation? = s.operations.rows := by
  simp [records, List.filterMap_append, List.filterMap_map, Function.comp_def, Record.operation?]

theorem filterMap_parameter? (s : Store) :
    (records s).filterMap Record.parameter? = s.parameters.rows := by
  simp [records, List.filterMap_append, List.filterMap_map, Function.comp_def, Record.parameter?]

theorem ofLines?_lines (s : Store) : ofLines? (lines s) = some s := by
  have keys : readKeys (writeFields [Numeral.writeSigned s.operations.last,
      Numeral.writeSigned s.parameters.last]) = some (s.operations.last, s.parameters.last) := by
    rw [readKeys, readFields_writeFields (List.cons_ne_nil _ _)]
    simp [readInt_writeSigned]
  rw [lines, ofLines?, if_pos rfl, keys]
  simp only [Option.bind_eq_bind, Option.bind_some, mapM_map_eq_some Record.read_write,
    filterMap_operation?, filterMap_parameter?, Table.ofRows?_rows]

theorem notMem_lines (s : Store) : ∀ line ∈ lines s, '\n' ∉ line := by
  intro line inside
  rcases List.mem_cons.1 inside with rfl | inside
  · decide
  · rcases List.mem_cons.1 inside with rfl | inside
    · exact notMem_writeFields _
    · obtain ⟨record, _, rfl⟩ := List.mem_map.1 inside
      exact notMem_writeFields _

theorem decode_encode (s : Store) : decode (encode s) = some s := by
  rw [decode, encode, String.toList_ofList, endedLines?, splitOn_ended (notMem_lines s)]
  simp only [List.getLast?_concat, List.dropLast_concat, if_pos]
  exact ofLines?_lines s

end ProgramFile

theorem fromUTF8?_toUTF8 (text : String) : String.fromUTF8? text.toUTF8 = some text := by
  have valid : text.toUTF8.IsValidUTF8 := text.isValidUTF8
  rw [String.fromUTF8?, dif_pos valid]
  rfl

theorem Content.ofBytes_toBytes (s : Store) :
    Content.ofBytes (Content.program s).toBytes = .program s := by
  rw [Content.ofBytes, Content.toBytes, fromUTF8?_toUTF8, Option.bind_some,
    ProgramFile.decode_encode]

end OpTree
