import OpTree.Input
import OpTree.Proofs.FileRoundTrip
import Mathlib.Data.List.TakeWhile

set_option autoImplicit false

namespace OpTree.Input

variable {text part rest : List Char}

def written : List Char → List (List Char)
  | [] => []
  | c :: rest =>
    if c = '\n' then [c] :: written rest
    else
      match written rest with
      | [] => [[c]]
      | line :: lines => (c :: line) :: lines

/-- What is read of a line. -/
def content (line : List Char) : List Char :=
  if line.getLast? = some '\n' then dropLast '\x0d' line.dropLast else line

def line (written : List Char) : String :=
  String.ofList (content written)

theorem flatten_written (text : List Char) : (written text).flatten = text := by
  induction text with
  | nil => rfl
  | cons c rest ih =>
    unfold written
    split
    · simp [ih]
    · split
      · rename_i none
        rw [none] at ih
        simpa using ih
      · rename_i line lines some
        rw [some] at ih
        simpa using ih

theorem written_of_notMem (filled : part ≠ []) (absent : '\n' ∉ part) : written part = [part] := by
  induction part with
  | nil => exact absurd rfl filled
  | cons c part ih =>
    rw [List.mem_cons, not_or] at absent
    rw [written, if_neg (Ne.symm absent.1)]
    cases part with
    | nil => rfl
    | cons next part => rw [ih nofun absent.2]

theorem written_append (absent : '\n' ∉ part) (rest : List Char) :
    written (part ++ '\n' :: rest) = (part ++ ['\n']) :: written rest := by
  induction part with
  | nil => simp [written]
  | cons c part ih =>
    rw [List.mem_cons, not_or] at absent
    rw [List.cons_append, written, if_neg (Ne.symm absent.1), ih absent.2]
    rfl

/-- A text is empty, or a last line that is not ended, or an ended line before another text. -/
theorem lines_induction {motive : List Char → Prop} (none : motive [])
    (last : ∀ part, part ≠ [] → '\n' ∉ part → motive part)
    (line : ∀ part rest, '\n' ∉ part → motive rest → motive (part ++ '\n' :: rest))
    (text : List Char) : motive text := by
  induction size : text.length using Nat.strongRecOn generalizing text with
  | ind size ih =>
    have whole := List.takeWhile_append_dropWhile (p := fun c => c != '\n') (l := text)
    have absent : '\n' ∉ text.takeWhile fun c => c != '\n' := by
      intro inside
      simpa using List.mem_takeWhile_imp inside
    cases tail : text.dropWhile fun c => c != '\n' with
    | nil =>
      rw [tail, List.append_nil] at whole
      rw [whole] at absent
      by_cases empty : text = []
      · exact empty ▸ none
      · exact last text empty absent
    | cons c rest =>
      have ends : c = '\n' := by
        have first := List.head?_dropWhile_not (fun c => c != '\n') text
        rw [tail] at first
        simpa using first
      rw [tail, ends] at whole
      rw [← whole]
      refine line _ rest absent (ih rest.length ?_ rest rfl)
      rw [← size, ← whole]
      simp
      omega

theorem content_of_notMem (absent : '\n' ∉ part) : content part = part := by
  rw [content, if_neg]
  exact fun last => absent (List.mem_of_getLast? last)

theorem content_ended (part : List Char) : content (part ++ ['\n']) = dropLast '\x0d' part := by
  rw [content, if_pos (by simp), List.dropLast_concat]

theorem lines_eq_map_content (text : List Char) :
    lines '\n' '\x0d' text = (written text).map content := by
  unfold lines
  induction text using lines_induction with
  | none => rfl
  | last part filled absent =>
    rw [List.splitOn_eq_singleton absent, written_of_notMem filled absent, endLines,
      if_neg (by simpa)]
    rw [List.map_singleton, content_of_notMem absent]
  | line part rest absent ih =>
    rw [List.splitOn_append_cons_self_of_not_mem absent, written_append absent, List.map_cons,
      content_ended, ← ih]
    cases split : rest.splitOn '\n' with
    | nil => exact absurd split (List.splitOn_ne_nil _ _)
    | cons next parts => rfl

/-- Lines as they are written: a line feed can only end them, and what is not the last line ends
with one. -/
structure AreWritten (lines : List (List Char)) : Prop where
  filled : ∀ line ∈ lines, line ≠ []
  inner : ∀ line ∈ lines, '\n' ∉ line.dropLast
  ended : lines.Pairwise fun line _ => line.getLast? = some '\n'

namespace AreWritten

variable {lines kept : List (List Char)}

theorem sublist (are : AreWritten lines) (some : kept.Sublist lines) : AreWritten kept where
  filled line there := are.filled line (some.subset there)
  inner line there := are.inner line (some.subset there)
  ended := are.ended.sublist some

theorem written_flatten (are : AreWritten lines) : written lines.flatten = lines := by
  induction lines with
  | nil => rfl
  | cons line lines ih =>
    have filled := are.filled line List.mem_cons_self
    have inner := are.inner line List.mem_cons_self
    obtain ⟨first, ended⟩ := List.pairwise_cons.1 are.ended
    have later := ih (are.sublist (List.sublist_cons_self line lines))
    have parts := List.dropLast_append_getLast filled
    rw [List.flatten_cons]
    by_cases last : line.getLast? = some '\n'
    · rw [List.getLast?_eq_some_getLast filled, Option.some.injEq] at last
      rw [last] at parts
      rw [← parts, List.append_assoc, List.singleton_append, written_append inner, later]
    · -- Only the last line need not be ended.
      have alone : lines = [] := by
        apply List.eq_nil_iff_forall_not_mem.2
        exact fun other there => last (first other there)
      have absent : '\n' ∉ line := by
        rw [← parts, List.mem_append, List.mem_singleton, not_or]
        refine ⟨inner, fun same => last ?_⟩
        rw [List.getLast?_eq_some_getLast filled, same]
      rw [alone, List.flatten_nil, List.append_nil, written_of_notMem filled absent]

end AreWritten

theorem areWritten_written (text : List Char) : AreWritten (written text) := by
  induction text using lines_induction with
  | none => exact ⟨nofun, nofun, .nil⟩
  | last part filled absent =>
    rw [written_of_notMem filled absent]
    refine ⟨by simpa, ?_, List.pairwise_singleton _ _⟩
    intro line there inside
    rw [List.mem_singleton.1 there] at inside
    exact absent ((List.dropLast_sublist part).subset inside)
  | line part rest absent ih =>
    rw [written_append absent]
    refine ⟨?_, ?_, List.pairwise_cons.2 ⟨fun _ _ => by simp, ih.ended⟩⟩
    · intro line there
      rcases List.mem_cons.1 there with rfl | there
      · simp
      · exact ih.filled line there
    · intro line there
      rcases List.mem_cons.1 there with rfl | there
      · simpa using absent
      · exact ih.inner line there

theorem ofText_flatten {lines : List (List Char)} (are : AreWritten lines) :
    ofText (String.ofList lines.flatten) = (lines.map line).map some := by
  rw [ofText, String.toList_ofList, lines_eq_map_content, are.written_flatten, List.map_map,
    List.map_map]
  rfl

theorem ofText_sublist {text : String} {kept : List (List Char)}
    (part : kept.Sublist (written text.toList)) :
    ofText (String.ofList kept.flatten) = (kept.map line).map some :=
  ofText_flatten ((areWritten_written text.toList).sublist part)

theorem ofText_eq (text : String) : ofText text = ((written text.toList).map line).map some := by
  have read := ofText_sublist (List.Sublist.refl (written text.toList))
  rwa [flatten_written, String.ofList_toList] at read

theorem toList_ended (line : String) : (line ++ "\n").toList = line.toList ++ ['\n'] := by
  rw [String.toList_append]
  rfl

theorem written_join {lines : List String} (inner : ∀ line ∈ lines, '\n' ∉ line.toList) :
    written (String.join (lines.map (· ++ "\n"))).toList =
      lines.map fun line => (line ++ "\n").toList := by
  induction lines with
  | nil => rfl
  | cons line lines ih =>
    have later := ih fun other there => inner other (List.mem_cons_of_mem line there)
    rw [List.map_cons, String.join_cons, String.toList_append, toList_ended, List.append_assoc,
      List.singleton_append, written_append (inner line List.mem_cons_self), later, List.map_cons,
      toList_ended]

theorem ofText_join {lines : List String} (inner : ∀ line ∈ lines, '\n' ∉ line.toList)
    (last : ∀ line ∈ lines, line.toList.getLast? ≠ some '\x0d') :
    ofText (String.join (lines.map (· ++ "\n"))) = lines.map some := by
  have read : (lines.map fun line => (line ++ "\n").toList).map line = lines := by
    rw [List.map_map]
    refine (List.map_congr_left fun part there => ?_).trans (List.map_id lines)
    rw [Function.comp_apply, line, toList_ended, content_ended, dropLast, if_neg (last part there),
      String.ofList_toList, id]
  rw [ofText_eq, written_join inner, read]

end OpTree.Input
