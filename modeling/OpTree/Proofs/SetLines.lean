import OpTree.Proofs.Commands
import OpTree.Proofs.ParameterMaps

set_option autoImplicit false

namespace OpTree

section Cutting

variable {text word rest before : List Char}

theorem nextWord_eq_none : nextWord text = none ↔ ∀ c ∈ text, isBlank c := by
  have start : trimStart text = [] ↔ ∀ c ∈ text, isBlank c := List.dropWhile_eq_nil_iff
  rw [← start, nextWord]
  cases trimStart text <;> simp

theorem nextWord_blanks (blank : ∀ c ∈ before, isBlank c) (text : List Char) :
    nextWord (before ++ text) = nextWord text := by
  have start : trimStart (before ++ text) = trimStart text := List.dropWhile_append_of_pos blank
  rw [nextWord, start, nextWord]

theorem word_or_separated (text : List Char) : text = firstWord text ∧ afterWord text = [] ∨
    ∃ c, isBlank c ∧ text = firstWord text ++ c :: afterWord text := by
  have whole : firstWord text ++ text.dropWhile (fun c => !isBlank c) = text :=
    List.takeWhile_append_dropWhile
  unfold afterWord
  cases behind : text.dropWhile fun c => !isBlank c with
  | nil =>
    rw [behind, List.append_nil] at whole
    exact .inl ⟨whole.symm, rfl⟩
  | cons c rest =>
    have first := List.head?_dropWhile_not (fun c => !isBlank c) text
    rw [behind] at first whole
    exact .inr ⟨c, by simpa using first, whole.symm⟩

theorem nextWord_eq_some : nextWord text = some (word, rest) ↔ IsWord word ∧
    ∃ before, (∀ c ∈ before, isBlank c) ∧ (text = before ++ word ∧ rest = [] ∨
      ∃ c, isBlank c ∧ text = before ++ word ++ c :: rest) := by
  constructor
  · intro found
    refine ⟨isWord_of_nextWord found, text.takeWhile isBlank, fun c => List.mem_takeWhile_imp, ?_⟩
    have whole : text = text.takeWhile isBlank ++ trimStart text :=
      List.takeWhile_append_dropWhile.symm
    unfold nextWord at found
    cases start : trimStart text with
    | nil =>
      rw [start] at found
      cases found
    | cons c more =>
      rw [start] at found whole
      cases found
      rcases word_or_separated (c :: more) with ⟨all, none⟩ | ⟨d, blank, cut⟩
      · exact .inl ⟨all ▸ whole, none⟩
      · refine .inr ⟨d, blank, ?_⟩
        rw [List.append_assoc, ← cut]
        exact whole
  · rintro ⟨isWord, before, blank, ⟨rfl, rfl⟩ | ⟨c, separates, rfl⟩⟩
    · rw [nextWord_blanks blank, isWord.nextWord_self]
    · rw [List.append_assoc, nextWord_blanks blank, isWord.nextWord_append separates]

theorem nextWord_eq_some_of_filled (filled : rest ≠ []) :
    nextWord text = some (word, rest) ↔ IsWord word ∧ ∃ before c, (∀ c ∈ before, isBlank c) ∧
      isBlank c ∧ text = before ++ word ++ c :: rest := by
  rw [nextWord_eq_some]
  refine and_congr_right fun _ => ⟨?_, ?_⟩
  · rintro ⟨before, blank, ⟨_, none⟩ | ⟨c, separates, whole⟩⟩
    · exact absurd none filled
    · exact ⟨before, c, blank, separates, whole⟩
  · rintro ⟨before, c, blank, separates, whole⟩
    exact ⟨before, blank, .inr ⟨c, separates, whole⟩⟩

end Cutting

namespace Editor

structure AreBlanks (text : List Char) : Prop where
  filled : text ≠ []
  blank : ∀ c ∈ text, isBlank c

/-- How a line is typed that gives a parameter a value. -/
inductive SetLine : List Char → OpId → List Char → List Char → Prop
  | typed {before between gap number key value : List Char} {separator : Char} {id : OpId} :
      (∀ c ∈ before, isBlank c) → AreBlanks between → IsWord number → parseId number = .ok id →
      AreBlanks gap → IsWord key → isBlank separator → value ≠ [] →
      SetLine (before ++ "set".toList ++ between ++ number ++ gap ++ key ++ separator :: value)
        id key value

theorem AreBlanks.exists_cons {text : List Char} (areBlanks : AreBlanks text) :
    ∃ c rest, text = c :: rest ∧ isBlank c ∧ ∀ d ∈ rest, isBlank d := by
  cases text with
  | nil => exact absurd rfl areBlanks.filled
  | cons c rest => exact ⟨c, rest, rfl, List.forall_mem_cons.1 areBlanks.blank⟩

section Reading

variable {line rest number middle key value : List Char} {id : OpId} {asked : Command}

theorem setLine_iff : SetLine line id key value ↔ ∃ rest number middle,
    nextWord line = some ("set".toList, rest) ∧ nextWord rest = some (number, middle) ∧
      parseId number = .ok id ∧ nextWord middle = some (key, value) ∧ value ≠ [] := by
  have set : IsWord "set".toList := by decide
  constructor
  · rintro @⟨before, between, gap, number, key, value, separator, id, blank, areBetween, isNumber,
      parsed, areGap, isKey, separates, filled⟩
    obtain ⟨c, inner, rfl, first, also⟩ := areBetween.exists_cons
    obtain ⟨d, last, rfl, second, too⟩ := areGap.exists_cons
    refine ⟨inner ++ (number ++ d :: (last ++ (key ++ separator :: value))), number,
      last ++ (key ++ separator :: value), ?_, ?_, parsed, ?_, filled⟩
    · simp only [List.append_assoc, List.cons_append]
      rw [nextWord_blanks blank, set.nextWord_append first]
    · rw [nextWord_blanks also, isNumber.nextWord_append second]
    · rw [nextWord_blanks too, isKey.nextWord_append separates]
  · rintro ⟨rest, number, middle, command, first, parsed, second, filled⟩
    have some : rest ≠ [] := by
      rintro rfl
      cases first
    have more : middle ≠ [] := by
      rintro rfl
      cases second
    obtain ⟨-, before, c, blank, separates, rfl⟩ := (nextWord_eq_some_of_filled some).1 command
    obtain ⟨isNumber, inner, d, also, divides, rfl⟩ := (nextWord_eq_some_of_filled more).1 first
    obtain ⟨isKey, last, e, too, ends, rfl⟩ := (nextWord_eq_some_of_filled filled).1 second
    have typed := SetLine.typed blank ⟨by simp, List.forall_mem_cons.2 ⟨separates, also⟩⟩ isNumber
      parsed ⟨by simp, List.forall_mem_cons.2 ⟨divides, too⟩⟩ isKey ends filled
    simpa using typed

theorem argument_eq_ok {command name : String} {parts : List Char × List Char} :
    argument command name rest = .ok parts ↔ nextWord rest = some parts := by
  unfold argument
  cases nextWord rest <;> simp

theorem readSet_eq_ok : readSet rest = .ok asked ↔ ∃ number middle key value id,
    nextWord rest = some (number, middle) ∧ nextWord middle = some (key, value) ∧ value ≠ [] ∧
      parseId number = .ok id ∧
      asked = .write (.setParameter id (String.ofList key) (String.ofList value)) := by
  unfold readSet
  simp only [Store.bind_eq_ok, argument_eq_ok]
  constructor
  · rintro ⟨⟨number, middle⟩, first, ⟨key, value⟩, second, read⟩
    simp only at read
    split at read
    case isTrue => cases read
    case isFalse some =>
      obtain ⟨id, parsed, same⟩ := Store.bind_eq_ok.1 read
      have filled : value ≠ [] := by simpa using some
      exact ⟨number, middle, key, value, id, first, second, filled, parsed,
        (Except.ok.inj same).symm⟩
  · rintro ⟨number, middle, key, value, id, first, second, filled, parsed, rfl⟩
    refine ⟨(number, middle), first, (key, value), second, ?_⟩
    rw [if_neg (by simpa using filled), parsed]
    rfl

end Reading

variable {s : Store} {line key value : String} {id : OpId}

theorem execute_setLine (typed : SetLine line.toList id key.toList value.toList) (s : Store) :
    execute s line = (change (s.setParameter id key value)).map
      fun t => acknowledge s (.setParameter id key value) .stored t := by
  obtain ⟨rest, number, middle, command, first, parsed, second, filled⟩ := setLine_iff.1 typed
  have read : readSet rest = .ok (.write (.setParameter id key value)) := by
    refine readSet_eq_ok.2 ⟨number, middle, _, _, id, first, second, filled, parsed, ?_⟩
    simp only [String.ofList_toList]
  have asked : readLine line = .ok (.write (.setParameter id key value)) := by
    rw [readLine, command]
    exact read
  rw [execute_eq, asked]
  change (change ((s.setParameter id key value).map _)).map _ = _
  cases s.setParameter id key value <;> rfl

theorem setLine_of_execute {reply : Reply} (command : command? line = some "set")
    (done : execute s line = .ok reply) :
    ∃ id key value, SetLine line.toList id (String.toList key) (String.toList value) ∧
      s.setParameter id key value = .ok reply.store := by
  obtain ⟨⟨word, rest⟩, cut, same⟩ := Option.map_eq_some_iff.1 command
  obtain rfl : word = "set".toList := by rw [← same, String.toList_ofList]
  have asked := done
  rw [execute_eq, readLine, cut] at asked
  obtain ⟨request, read, -⟩ := Store.bind_eq_ok.1 asked
  obtain ⟨number, middle, key, value, id, first, second, filled, parsed, -⟩ := readSet_eq_ok.1 read
  have typed : SetLine line.toList id (String.ofList key).toList (String.ofList value).toList := by
    rw [String.toList_ofList, String.toList_ofList]
    exact setLine_iff.2 ⟨rest, number, middle, cut, first, parsed, second, filled⟩
  refine ⟨id, _, _, typed, ?_⟩
  rw [execute_setLine typed] at done
  obtain ⟨t, stored, rfl⟩ := Store.map_eq_ok.1 done
  rw [(acknowledge_eq ..).2]
  cases result : s.setParameter id (String.ofList key) (String.ofList value) with
  | error error =>
    rw [result] at stored
    cases stored
  | ok u =>
    rw [result] at stored
    cases stored
    rfl

theorem get?_of_setParameter {t : Store} (stored : s.setParameter id key value = .ok t) :
    (t.parametersOf id).get? key = some value := by
  rw [Parameters.get?, Store.entries_setParameter stored, if_pos rfl, ParameterCall.find?_put]
  rfl

/-- The value of a parameter is set to what stands behind the one blank after its key, as it was
typed, and a line that sets a parameter has no other form. -/
theorem set_keeps_value :
    (∀ text, nextWord text = none ↔ ∀ c ∈ text, isBlank c) ∧
    (∀ text word rest, nextWord text = some (word, rest) ↔ IsWord word ∧
      ∃ before, (∀ c ∈ before, isBlank c) ∧ (text = before ++ word ∧ rest = [] ∨
        ∃ c, isBlank c ∧ text = before ++ word ++ c :: rest)) ∧
    (∀ (s : Store) (line : String) id key value,
      SetLine line.toList id (String.toList key) (String.toList value) →
        (execute s line).map (fun reply => (reply.flow, reply.store, reply.output)) =
          (change (s.setParameter id key value)).map (fun t => (.proceed, t, "")) ∧
        ∀ t, s.setParameter id key value = .ok t → (t.parametersOf id).get? key = some value) ∧
    ∀ (s : Store) (line : String) reply, command? line = some "set" →
      execute s line = .ok reply →
        ∃ id key value, SetLine line.toList id (String.toList key) (String.toList value) ∧
          s.setParameter id key value = .ok reply.store := by
  refine ⟨fun text => nextWord_eq_none, fun text word rest => nextWord_eq_some, ?_,
    fun s line reply => setLine_of_execute⟩
  intro s line id key value typed
  refine ⟨?_, fun t => get?_of_setParameter⟩
  rw [execute_setLine typed]
  cases s.setParameter id key value with
  | error error => rfl
  | ok t =>
    obtain ⟨flow, store⟩ := acknowledge_eq s (.setParameter id key value) .stored t
    have output : (acknowledge s (.setParameter id key value) .stored t).output = "" := by
      rw [acknowledge]
      split <;> rfl
    change Except.ok (Reply.flow _, Reply.store _, Reply.output _) = Except.ok _
    rw [flow, store, output]

/-- Blanks of three bytes divide a line as well, and those behind the first one after the key belong
to the value. -/
theorem set_keeps_value_padded :
    let line := "\u3000set\u00a0\t+1  value\u2003\u2003a b "
    let s := Store.empty.after [.append .print none]
    SetLine line.toList ⟨1⟩ "value".toList "\u2003a b ".toList ∧ command? line = some "set" ∧
      (∃ t, (execute s line).map (fun reply => (reply.flow, reply.store, reply.output)) =
          .ok (.proceed, t, "") ∧ (t.parametersOf ⟨1⟩).get? "value" = some "\u2003a b ") ∧
      ∀ reply, execute s line = .ok reply →
        ∃ id key value, SetLine line.toList id (String.toList key) (String.toList value) ∧
          s.setParameter id key value = .ok reply.store := by
  intro line s
  have whole : line.toList = ['\u3000'] ++ "set".toList ++ ['\u00a0', '\t'] ++ ['+', '1'] ++
      [' ', ' '] ++ "value".toList ++ '\u2003' :: "\u2003a b ".toList := by decide
  have typed : SetLine line.toList ⟨1⟩ "value".toList "\u2003a b ".toList := by
    rw [whole]
    exact .typed (by simp [isBlank, blankRanges]) ⟨by simp, by simp [isBlank, blankRanges]⟩
      (by decide) rfl ⟨by simp, by simp [isBlank, blankRanges]⟩ (by decide) (by decide) (by decide)
  have command : command? line = some "set" := by decide
  obtain ⟨-, -, sets, only⟩ := set_keeps_value
  obtain ⟨run, reads⟩ := sets s line ⟨1⟩ "value" "\u2003a b " typed
  refine ⟨typed, command, ?_, fun reply => only s line reply command⟩
  cases stored : s.setParameter ⟨1⟩ "value" "\u2003a b " with
  | error error =>
    have known : s.contains ⟨1⟩ := by decide
    rcases Store.setParameter_eq_error.1 stored with ⟨absent, _⟩ | ⟨_, _, full, _⟩
    · exact absurd known absent
    · cases full
  | ok t =>
    rw [stored] at run
    exact ⟨t, run, reads t stored⟩

end Editor

end OpTree
