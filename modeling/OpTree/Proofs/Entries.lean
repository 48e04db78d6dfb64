import OpTree.Entries
import OpTree.Proofs.FileRoundTrip
import Mathlib.Data.List.Forall2
import Mathlib.Data.List.TakeWhile

set_option autoImplicit false

namespace OpTree

section Splitting

variable {α : Type} [DecidableEq α] (separator : α)

theorem notMem_of_mem_splitOn (text : List α) :
    ∀ part ∈ text.splitOn separator, separator ∉ part := by
  induction text with
  | nil => simp
  | cons c rest ih =>
    rw [List.splitOn_cons_eq_if_modifyHead]
    by_cases here : c = separator
    · rw [if_pos (beq_iff_eq.2 here)]
      exact List.forall_mem_cons.2 ⟨List.not_mem_nil, ih⟩
    · rw [if_neg (mt beq_iff_eq.1 here)]
      obtain ⟨part, parts, cut⟩ := List.exists_cons_of_ne_nil (List.splitOn_ne_nil separator rest)
      rw [cut] at ih ⊢
      obtain ⟨first, others⟩ := List.forall_mem_cons.1 ih
      refine List.forall_mem_cons.2 ⟨fun there => ?_, others⟩
      exact (List.mem_cons.1 there).elim (Ne.symm here) first

theorem length_splitOn (text : List α) :
    (text.splitOn separator).length = text.count separator + 1 := by
  induction text with
  | nil => rfl
  | cons c rest ih =>
    rw [List.splitOn_cons_eq_if_modifyHead]
    by_cases here : c = separator
    · rw [if_pos (beq_iff_eq.2 here), List.length_cons, ih, here, List.count_cons_self]
    · rw [if_neg (mt beq_iff_eq.1 here), List.length_modifyHead, ih, List.count_cons_of_ne here]

end Splitting

section Trimming

structure IsTrimmed (text : List Char) : Prop where
  first : ∀ c ∈ text.head?, isBlank c = false
  last : ∀ c ∈ text.getLast?, isBlank c = false

/-- A text is written with blanks around it, or none. -/
def IsPadded (text written : List Char) : Prop :=
  ∃ before after, (∀ c ∈ before, isBlank c) ∧ (∀ c ∈ after, isBlank c) ∧
    written = before ++ text ++ after

variable {text written : List Char}

theorem trimStart_eq_iff : trimStart written = text ↔ (∀ c ∈ text.head?, isBlank c = false) ∧
    ∃ before, (∀ c ∈ before, isBlank c) ∧ written = before ++ text := by
  constructor
  · rintro rfl
    refine ⟨fun c first => ?_, written.takeWhile isBlank, fun c => List.mem_takeWhile_imp, ?_⟩
    · have head := List.head?_dropWhile_not isBlank written
      rw [show (written.dropWhile isBlank).head? = some c from first] at head
      simpa using head
    · exact List.takeWhile_append_dropWhile.symm
  · rintro ⟨first, before, blank, rfl⟩
    rw [trimStart, List.dropWhile_append_of_pos blank]
    cases text with
    | nil => rfl
    | cons c rest => simp [first c rfl]

theorem trimEnd_eq_iff : trimEnd written = text ↔ (∀ c ∈ text.getLast?, isBlank c = false) ∧
    ∃ after, (∀ c ∈ after, isBlank c) ∧ written = text ++ after := by
  have backwards : trimEnd written = text ↔ trimStart written.reverse = text.reverse := by
    rw [trimEnd, List.reverse_eq_iff, trimStart]
  rw [backwards, trimStart_eq_iff, List.head?_reverse]
  refine and_congr_right fun _ => ⟨?_, ?_⟩
  · rintro ⟨before, blank, whole⟩
    exact ⟨before.reverse, by simpa using blank, by rw [← List.reverse_inj, whole]; simp⟩
  · rintro ⟨after, blank, rfl⟩
    exact ⟨after.reverse, by simpa using blank, by simp⟩

theorem trim_eq_iff : trim written = text ↔ IsTrimmed text ∧ IsPadded text written := by
  rw [trim, trimEnd_eq_iff]
  constructor
  · rintro ⟨last, after, blank, start⟩
    obtain ⟨first, before, also, whole⟩ := trimStart_eq_iff.1 start
    refine ⟨⟨fun c here => first c ?_, last⟩, before, after, also, blank, ?_⟩
    · rw [List.head?_append, Option.mem_def.1 here, Option.some_or]
      rfl
    · rw [whole, List.append_assoc]
  · rintro ⟨⟨first, last⟩, before, after, also, blank, whole⟩
    cases text with
    | nil =>
      -- All of the text was blank, and cutting at the start alone takes all of it.
      have all : ∀ c ∈ before ++ after, isBlank c := List.forall_mem_append.2 ⟨also, blank⟩
      refine ⟨last, [], by simp, trimStart_eq_iff.2 ⟨by simp, before ++ after, all, ?_⟩⟩
      rw [whole]
      simp
    | cons c rest =>
      refine ⟨last, after, blank, trimStart_eq_iff.2 ⟨first, before, also, ?_⟩⟩
      rw [whole, List.append_assoc]

end Trimming

/-- A text is written for some entries, at least one: none of them holds a comma or begins or ends
with a blank, and they are written with blanks around them and one comma between every two. -/
structure Lists (text : String) (listed : List String) : Prop where
  filled : listed ≠ []
  plain : ∀ entry ∈ listed, ',' ∉ entry.toList ∧ IsTrimmed entry.toList
  written : ∃ parts, List.Forall₂ (fun entry part => IsPadded entry.toList part) listed parts ∧
    text.toList = [','].intercalate parts

variable {text : String} {listed : List String} {parts : List (List Char)}

theorem length_entries (text : String) : (entries text).length = text.toList.count ',' + 1 := by
  rw [entries, List.length_map, length_splitOn]

theorem lists_entries (text : String) : Lists text (entries text) where
  filled := by simp [entries]
  plain entry there := by
    obtain ⟨part, inside, rfl⟩ := List.mem_map.1 there
    obtain ⟨trimmed, before, after, -, -, whole⟩ := trim_eq_iff.1 (Eq.refl (trim part))
    rw [String.toList_ofList]
    refine ⟨fun comma => notMem_of_mem_splitOn ',' text.toList part inside ?_, trimmed⟩
    rw [whole]
    exact List.mem_append_left _ (List.mem_append_right _ comma)
  written := by
    refine ⟨text.toList.splitOn ',', ?_, (List.intercalate_splitOn ',').symm⟩
    rw [entries, List.forall₂_map_left_iff, List.forall₂_same]
    intro part _
    rw [String.toList_ofList]
    exact (trim_eq_iff.1 rfl).2

theorem notMem_of_isPadded {entry part : List Char} (plain : ',' ∉ entry)
    (padded : IsPadded entry part) : ',' ∉ part := by
  obtain ⟨before, after, also, blank, rfl⟩ := padded
  have visible : isBlank ',' = false := by decide
  intro comma
  rcases List.mem_append.1 comma with comma | comma
  · rcases List.mem_append.1 comma with comma | comma
    · exact absurd (also _ comma) (by simp [visible])
    · exact plain comma
  · exact absurd (blank _ comma) (by simp [visible])

theorem trim_parts
    (padded : List.Forall₂ (fun entry part => IsPadded entry.toList part) listed parts)
    (plain : ∀ entry ∈ listed, ',' ∉ entry.toList ∧ IsTrimmed entry.toList) :
    (∀ part ∈ parts, ',' ∉ part) ∧ parts.map (fun part => String.ofList (trim part)) = listed := by
  induction padded with
  | nil => exact ⟨nofun, rfl⟩
  | cons here _ ih =>
    obtain ⟨⟨free, trimmed⟩, others⟩ := List.forall_mem_cons.1 plain
    obtain ⟨rest, same⟩ := ih others
    refine ⟨List.forall_mem_cons.2 ⟨notMem_of_isPadded free here, rest⟩, ?_⟩
    rw [List.map_cons, same, trim_eq_iff.2 ⟨trimmed, here⟩, String.ofList_toList]

theorem Lists.eq_entries (lists : Lists text listed) : entries text = listed := by
  obtain ⟨filled, plain, parts, padded, whole⟩ := lists
  obtain ⟨free, trimmed⟩ := trim_parts padded plain
  have some : parts ≠ [] := by
    rintro rfl
    exact filled trimmed.symm
  rw [entries, whole, List.splitOn_intercalate ',' free some, trimmed]

theorem entries_eq_iff : entries text = listed ↔ Lists text listed := by
  constructor
  · rintro rfl
    exact lists_entries text
  · exact Lists.eq_entries

end OpTree
