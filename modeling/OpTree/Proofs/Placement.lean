import OpTree.Proofs.Siblings
import Mathlib.Data.List.Induction

set_option autoImplicit false

namespace OpTree

theorem eq_maxValue_iff {n : Int64} : n = Int64.maxValue ↔ ¬ n.toInt < 0x7FFFFFFFFFFFFFFF := by
  have high := n.toInt_lt
  rw [← Int64.toInt_inj, Int64.toInt_maxValue]
  omega

namespace Store

variable {s : Store} {parent : Option OpId} {n : Int64}

/-- What is the greatest sequence number under a parent among some rows, if there is any. -/
def IsGreatest (parent : Option OpId) (rows : List (Int64 × OperationRow)) : Option Int64 → Prop
  | none => ∀ row ∈ rows, row.2.parent ≠ parent
  | some n => (∃ row ∈ rows, row.2.parent = parent ∧ row.2.sequence = n) ∧
      ∀ row ∈ rows, row.2.parent = parent → row.2.sequence.toInt ≤ n.toInt

theorem isGreatest_append {rows : List (Int64 × OperationRow)} {greatest : Option Int64}
    (before : IsGreatest parent rows greatest) (row : Int64 × OperationRow) :
    IsGreatest parent (rows ++ [row])
      (if row.2.parent == parent then some (greater row.2.sequence greatest) else greatest) := by
  have split : ∀ other ∈ rows ++ [row], other ∈ rows ∨ other = row := by simp
  by_cases here : row.2.parent = parent
  · rw [if_pos (by simpa using here)]
    cases greatest with
    | none =>
      refine ⟨⟨row, by simp, here, rfl⟩, fun other there under => ?_⟩
      rcases split other there with there | rfl
      · exact absurd under (before other there)
      · exact Int.le_refl _
    | some m =>
      obtain ⟨⟨holder, there, under, same⟩, above⟩ := before
      by_cases less : m.toInt < row.2.sequence.toInt
      · rw [greater, if_pos less]
        refine ⟨⟨row, by simp, here, rfl⟩, fun other there under => ?_⟩
        rcases split other there with there | rfl
        · have lower := above other there under
          omega
        · exact Int.le_refl _
      · rw [greater, if_neg less]
        refine ⟨⟨holder, by simp [there], under, same⟩, fun other there under => ?_⟩
        rcases split other there with there | rfl
        · exact above other there under
        · omega
  · rw [if_neg (by simpa using here)]
    cases greatest with
    | none =>
      intro other there
      rcases split other there with there | rfl
      · exact before other there
      · exact here
    | some m =>
      obtain ⟨⟨holder, there, under, same⟩, above⟩ := before
      refine ⟨⟨holder, by simp [there], under, same⟩, fun other there under => ?_⟩
      rcases split other there with there | rfl
      · exact above other there under
      · exact absurd under here

theorem isGreatest_greatestSequence (s : Store) (parent : Option OpId) :
    IsGreatest parent s.operations.rows (s.greatestSequence parent) := by
  unfold greatestSequence
  generalize s.operations.rows = rows
  induction rows using List.reverseRecOn with
  | nil => exact nofun
  | append_singleton rows row ih =>
    rw [List.foldl_append]
    exact isGreatest_append ih row

/-- Some operation under a parent has the greatest sequence number that there can be. -/
def IsFullUnder (s : Store) (parent : Option OpId) : Prop :=
  ∃ op ∈ s.allOperations, op.parent = parent ∧ op.sequence = Int64.maxValue

/-- Either there is nothing under a parent, or the next number is one above the greatest one, or
the greatest one has none above it. -/
theorem nextSequence_cases (s : Store) (parent : Option OpId) :
    (s.nextSequence parent = .ok 1 ∧ ∀ op ∈ s.allOperations, op.parent ≠ parent) ∨
      ∃ last ∈ s.allOperations, last.parent = parent ∧
        (∀ op ∈ s.allOperations, op.parent = parent → op.sequence.toInt ≤ last.sequence.toInt) ∧
        (last.sequence.toInt < 0x7FFFFFFFFFFFFFFF ∧
            s.nextSequence parent = .ok (last.sequence + 1) ∨
          last.sequence = Int64.maxValue ∧ s.nextSequence parent = .error .sequenceExhausted) := by
  have greatest := isGreatest_greatestSequence s parent
  unfold nextSequence
  cases found : s.greatestSequence parent with
  | none =>
    rw [found] at greatest
    refine .inl ⟨rfl, fun op there => ?_⟩
    obtain ⟨row, stored, rfl⟩ := List.mem_map.1 there
    exact greatest row stored
  | some n =>
    rw [found] at greatest
    obtain ⟨⟨row, stored, under, rfl⟩, above⟩ := greatest
    refine .inr ⟨_, List.mem_map_of_mem stored, under, fun op there => ?_, ?_⟩
    · obtain ⟨other, known, rfl⟩ := List.mem_map.1 there
      exact above other known
    · by_cases room : row.2.sequence.toInt < 0x7FFFFFFFFFFFFFFF
      · exact .inl ⟨room, if_pos room⟩
      · exact .inr ⟨eq_maxValue_iff.2 room, if_neg room⟩

theorem nextSequence_eq_error {error : StoreError} : s.nextSequence parent = .error error ↔
    s.IsFullUnder parent ∧ error = .sequenceExhausted := by
  rcases s.nextSequence_cases parent with
    ⟨first, none⟩ | ⟨last, stored, under, above, ⟨room, next⟩ | ⟨full, next⟩⟩
  · rw [first]
    refine ⟨nofun, fun ⟨⟨op, there, here, _⟩, _⟩ => absurd here (none op there)⟩
  · rw [next]
    refine ⟨nofun, fun ⟨⟨op, there, here, greatest⟩, _⟩ => ?_⟩
    have lower := above op there here
    rw [greatest, Int64.toInt_maxValue] at lower
    omega
  · rw [next]
    constructor
    · rintro ⟨⟩
      exact ⟨⟨last, stored, under, full⟩, rfl⟩
    · rintro ⟨_, rfl⟩
      rfl

theorem nextSequence_above (next : s.nextSequence parent = .ok n) : ∀ op ∈ s.allOperations,
    op.parent = parent → op.sequence.toInt < n.toInt := by
  intro op there here
  rcases s.nextSequence_cases parent with
    ⟨_, none⟩ | ⟨last, _, _, above, ⟨room, found⟩ | ⟨_, found⟩⟩
  · exact absurd here (none op there)
  · obtain rfl : last.sequence + 1 = n := Except.ok.inj (found.symm.trans next)
    have lower := above op there here
    have succ := toInt_add_one room
    omega
  · cases found.symm.trans next

theorem nextSequence_le (next : s.nextSequence parent = .ok n) : n = 1 ∨
    ∃ last ∈ s.allOperations, n.toInt = last.sequence.toInt + 1 := by
  rcases s.nextSequence_cases parent with
    ⟨found, _⟩ | ⟨last, stored, _, _, ⟨room, found⟩ | ⟨_, found⟩⟩
  · exact .inl (Except.ok.inj (next.symm.trans found))
  · obtain rfl : last.sequence + 1 = n := Except.ok.inj (found.symm.trans next)
    exact .inr ⟨last, stored, toInt_add_one room⟩
  · cases found.symm.trans next

end Store

end OpTree
