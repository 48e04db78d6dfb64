import OpTree.Blank
import OpTree.Operation
import Mathlib.Data.List.TakeWhile

set_option autoImplicit false

namespace OpTree

variable {word text rest : List Char}

structure IsWord (word : List Char) : Prop where
  filled : word ≠ []
  plain : ∀ c ∈ word, isBlank c = false

theorem isWord_iff : IsWord word ↔ (!word.isEmpty && word.all fun c => !isBlank c) = true := by
  refine ⟨fun isWord => by simpa using ⟨isWord.filled, isWord.plain⟩, fun holds => ?_⟩
  obtain ⟨filled, plain⟩ : word ≠ [] ∧ ∀ c ∈ word, isBlank c = false := by simpa using holds
  exact ⟨filled, plain⟩

instance (word : List Char) : Decidable (IsWord word) :=
  decidable_of_iff _ isWord_iff.symm

theorem isWord_of_nextWord (found : nextWord text = some (word, rest)) : IsWord word := by
  unfold nextWord at found
  cases start : trimStart text with
  | nil =>
    rw [start] at found
    cases found
  | cons c more =>
    rw [start] at found
    obtain rfl : firstWord (c :: more) = word := congrArg Prod.fst (Option.some.inj found)
    have first : isBlank c = false := by
      have head := List.head?_dropWhile_not isBlank text
      rw [show text.dropWhile isBlank = c :: more from start] at head
      simpa using head
    refine ⟨by simp [firstWord, first], fun c there => ?_⟩
    simpa using List.mem_takeWhile_imp there

namespace IsWord

variable (isWord : IsWord word)

include isWord

theorem notMem {c : Char} (blank : isBlank c) : c ∉ word := by
  intro there
  rw [isWord.plain c there] at blank
  cases blank

theorem trimStart_append (rest : List Char) : trimStart (word ++ rest) = word ++ rest := by
  cases word with
  | nil => exact absurd rfl isWord.filled
  | cons c word => simp [trimStart, isWord.plain c List.mem_cons_self]

theorem nextWord_eq (tail : List Char) : nextWord (word ++ tail) =
    some (word ++ firstWord tail, afterWord tail) := by
  have start := isWord.trimStart_append tail
  have passed : ∀ c ∈ word, (!isBlank c) = true := by simpa using isWord.plain
  have first : firstWord (word ++ tail) = word ++ firstWord tail :=
    List.takeWhile_append_of_pos passed
  have after : afterWord (word ++ tail) = afterWord tail := by
    rw [afterWord, List.dropWhile_append_of_pos passed, afterWord]
  rw [nextWord, start, ← first, ← after]
  cases whole : word ++ tail with
  | nil => exact absurd (List.append_eq_nil_iff.1 whole).1 isWord.filled
  | cons c more => rfl

theorem nextWord_append {c : Char} (blank : isBlank c) (rest : List Char) :
    nextWord (word ++ c :: rest) = some (word, rest) := by
  rw [isWord.nextWord_eq]
  simp [firstWord, afterWord, blank]

theorem nextWord_self : nextWord word = some (word, []) := by
  have whole := isWord.nextWord_eq []
  rw [List.append_nil] at whole
  rw [whole]
  simp [firstWord, afterWord]

theorem trim_eq : trim word = word := by
  have start := isWord.trimStart_append []
  rw [List.append_nil] at start
  have backwards : IsWord word.reverse :=
    ⟨by simpa using isWord.filled, fun c there => isWord.plain c (List.mem_reverse.1 there)⟩
  have last := backwards.trimStart_append []
  rw [List.append_nil] at last
  rw [trim, start, trimEnd, show word.reverse.dropWhile isBlank = word.reverse from last,
    List.reverse_reverse]

end IsWord

theorem isBlank_of_isDigit {c : Char} (digit : c.isDigit) : isBlank c = false := by
  have range : 48 ≤ c.toNat ∧ c.toNat ≤ 57 := by
    simpa [Char.isDigit, UInt32.le_iff_toNat_le] using digit
  simp [isBlank, blankRanges]
  omega

theorem isWord_writeNat (n : Nat) : IsWord (Numeral.writeNat n) := by
  refine ⟨Nat.toDigits_ne_nil, fun c there => isBlank_of_isDigit ?_⟩
  exact Nat.isDigit_of_mem_toDigits (by omega) (by omega) there

theorem isWord_text (id : OpId) : IsWord id.text.toList := by
  rw [OpId.text, String.toList_ofList, Numeral.writeSigned]
  split
  · have digits := isWord_writeNat id.raw.toInt.natAbs
    refine ⟨nofun, fun c there => ?_⟩
    rcases List.mem_cons.1 there with rfl | there
    · decide
    · exact digits.plain c there
  · exact isWord_writeNat _

end OpTree
