import OpTree.Editor
import OpTree.Proofs.Histories
import OpTree.Proofs.Words

set_option autoImplicit false

namespace OpTree.Editor

inductive Command where
  | nothing
  | display
  | help
  | quit
  | write (request : Request)
  deriving DecidableEq, Repr

def readAdd (rest : List Char) : Except CommandError Command := do
  let (parent, rest) ← argument "add" "parent" rest
  let (tag, _) ← argument "add" "opcode" rest
  let parent ← parseParent parent
  .ok (.write (.append (Opcode.ofTag (String.ofList tag)) parent))

def readSet (rest : List Char) : Except CommandError Command := do
  let (id, rest) ← argument "set" "id" rest
  let (key, value) ← argument "set" "key" rest
  if value.isEmpty then
    .error (.missingArgument "set" "value")
  else
    let id ← parseId id
    .ok (.write (.setParameter id (String.ofList key) (String.ofList value)))

def readDelete (rest : List Char) : Except CommandError Command := do
  let (id, _) ← argument "delete" "id" rest
  let id ← parseId id
  .ok (.write (.delete id))

def readReseq (rest : List Char) : Except CommandError Command := do
  let (parent, _) ← argument "reseq" "parent" rest
  let parent ← parseParent parent
  .ok (.write (.resequence parent))

def readCommand (command : String) (rest : List Char) : Except CommandError Command :=
  match command with
  | "show" => .ok .display
  | "add" => readAdd rest
  | "set" => readSet rest
  | "delete" => readDelete rest
  | "reseq" => readReseq rest
  | "help" => .ok .help
  | "quit" | "exit" => .ok .quit
  | other => .error (.unknownCommand other)

def readLine (line : String) : Except CommandError Command :=
  match nextWord line.toList with
  | none => .ok .nothing
  | some (command, rest) => readCommand (String.ofList command) rest

/-- How a request is answered that made the store `t` from the store `s`. -/
def acknowledge (s : Store) (request : Request) (answer : Answer) (t : Store) : Reply :=
  match request, answer with
  | .append _ _, .created id => written t (id.text ++ "\n")
  | .setParameter id key value, _ =>
    if (s.parametersOf id).get? key = some value then { written t "" with effect := .rewrites }
    else written t ""
  | .delete _, .counted removed =>
    written t ("deleted " ++ count removed ++ " operation(s)\n")
  | .resequence _, .counted total =>
    let output := "resequenced " ++ count total ++ " operation(s)\n"
    if total = 0 then Editor.answer t output else written t output
  | _, _ => written t ""

def obey (s : Store) : Command → Except CommandError Reply
  | .nothing => .ok (answer s "")
  | .display => .ok (showProgram s)
  | .help => .ok (answer s helpText)
  | .quit => .ok { answer s "" with flow := .quit }
  | .write request =>
    (change (s.attempt request)).map fun served => acknowledge s request served.1 served.2

section Reading

variable {s : Store} (rest : List Char)

theorem add_eq : add s rest = readAdd rest >>= obey s := by
  simp only [add, readAdd, bind_assoc]
  refine bind_congr fun (parent, rest) => bind_congr fun (tag, _) => bind_congr fun parent => ?_
  change _ = obey s (.write (.append (Opcode.ofTag (String.ofList tag)) parent))
  rw [obey, Store.attempt]
  cases s.append (Opcode.ofTag (String.ofList tag)) parent <;> rfl

theorem set_eq : set s rest = readSet rest >>= obey s := by
  simp only [set, readSet, bind_assoc]
  refine bind_congr fun (id, rest) => bind_congr fun (key, value) => ?_
  change (if value.isEmpty then _ else _) = (if value.isEmpty then _ else _) >>= obey s
  split
  · rfl
  · rw [bind_assoc]
    refine bind_congr fun id => ?_
    change _ = obey s (.write (.setParameter id (String.ofList key) (String.ofList value)))
    rw [obey, Store.attempt]
    cases s.setParameter id (String.ofList key) (String.ofList value) with
    | error error => rfl
    | ok t =>
      change (if _ then _ else _) = Except.ok (if _ then _ else _)
      split <;> rfl

theorem delete_eq : delete s rest = readDelete rest >>= obey s := by
  simp only [delete, readDelete, bind_assoc]
  refine bind_congr fun (id, _) => bind_congr fun id => ?_
  change _ = obey s (.write (.delete id))
  rw [obey, Store.attempt]
  cases s.delete id <;> rfl

theorem reseq_eq : reseq s rest = readReseq rest >>= obey s := by
  simp only [reseq, readReseq, bind_assoc]
  refine bind_congr fun (parent, _) => bind_congr fun parent => ?_
  change _ = obey s (.write (.resequence parent))
  rw [obey, Store.attempt]
  cases s.resequence parent with
  | error error => rfl
  | ok done => rfl

theorem runCommand_eq (command : String) :
    runCommand s command rest = readCommand command rest >>= obey s := by
  unfold runCommand
  split
  · rfl
  · exact add_eq rest
  · exact set_eq rest
  · exact delete_eq rest
  · exact reseq_eq rest
  · rfl
  · rfl
  · rfl
  · -- No other word has a branch of its own.
    rw [readCommand]
    · rfl
    all_goals assumption

end Reading

theorem execute_eq (s : Store) (line : String) : execute s line = readLine line >>= obey s := by
  unfold execute readLine
  cases nextWord line.toList with
  | none => rfl
  | some parts => exact runCommand_eq parts.2 (String.ofList parts.1)

/-- The result is as told, or it is an error whose message is on one line. -/
def Yields {α : Type} (good : α → Prop) : Except CommandError α → Prop
  | .ok a => good a
  | .error error => '\n' ∉ error.message.toList

section Yields

variable {α β : Type} {good : α → Prop} {fine : β → Prop} {x : Except CommandError α}
  {text : List Char}

theorem Yields.bind {f : α → Except CommandError β} (first : Yields good x)
    (next : ∀ a, good a → Yields fine (f a)) : Yields fine (x >>= f) := by
  cases x with
  | ok a => exact next a first
  | error error => exact first

theorem Yields.imp {better : α → Prop} (yields : Yields good x)
    (weaker : ∀ a, good a → better a) : Yields better x := by
  cases x with
  | ok a => exact weaker a yields
  | error error => exact yields

theorem yields_argument (command name : String) (rest : List Char)
    (names : '\n' ∉ (command ++ ": missing " ++ name).toList) :
    Yields (fun parts => IsWord parts.1) (argument command name rest) := by
  unfold argument
  cases found : nextWord rest with
  | none => exact names
  | some parts => exact isWord_of_nextWord found

theorem yields_parseId (isWord : IsWord text) : Yields (fun _ => True) (parseId text) := by
  have absent : '\n' ∉ text := isWord.notMem (by decide)
  have plain : '\n' ∉ ("'" ++ String.ofList text ++ "' is not an operation id").toList := by
    simp [absent]
  unfold parseId
  split
  · exact True.intro
  · exact plain

theorem yields_parseParent (isWord : IsWord text) :
    Yields (fun _ => True) (parseParent text) := by
  unfold parseParent
  split
  · exact True.intro
  · have parsed := yields_parseId isWord
    cases found : parseId text with
    | ok id => exact True.intro
    | error error =>
      rw [found] at parsed
      exact parsed

theorem yields_readAdd (rest : List Char) : Yields (· ≠ .quit) (readAdd rest) := by
  refine (yields_argument _ _ rest (by simp)).bind fun (parent, rest) isParent => ?_
  refine (yields_argument _ _ rest (by simp)).bind fun _ _ => ?_
  exact (yields_parseParent isParent).bind fun parent _ => nofun

theorem yields_readSet (rest : List Char) : Yields (· ≠ .quit) (readSet rest) := by
  refine (yields_argument _ _ rest (by simp)).bind fun (id, rest) isId => ?_
  refine (yields_argument _ _ rest (by simp)).bind fun (key, value) _ => ?_
  have missing : '\n' ∉ (CommandError.missingArgument "set" "value").message.toList := by
    change '\n' ∉ ("set" ++ ": missing " ++ "value").toList
    simp
  change Yields _ (if value.isEmpty then _ else _)
  split
  · exact missing
  · exact (yields_parseId isId).bind fun id _ => nofun

theorem yields_readDelete (rest : List Char) : Yields (· ≠ .quit) (readDelete rest) := by
  refine (yields_argument _ _ rest (by simp)).bind fun (id, _) isId => ?_
  exact (yields_parseId isId).bind fun id _ => nofun

theorem yields_readReseq (rest : List Char) : Yields (· ≠ .quit) (readReseq rest) := by
  refine (yields_argument _ _ rest (by simp)).bind fun (parent, _) isParent => ?_
  exact (yields_parseParent isParent).bind fun parent _ => nofun

end Yields

def command? (line : String) : Option String :=
  (nextWord line.toList).map fun parts => String.ofList parts.1

def AsksToQuit (line : String) : Prop :=
  command? line = some "quit" ∨ command? line = some "exit"

instance : DecidablePred AsksToQuit := fun _ =>
  inferInstanceAs (Decidable (_ ∨ _))

theorem yields_readCommand {command : List Char} (isWord : IsWord command) (rest : List Char) :
    Yields (fun asked => asked = .quit ↔
        String.ofList command = "quit" ∨ String.ofList command = "exit")
      (readCommand (String.ofList command) rest) := by
  have absent : '\n' ∉ command := isWord.notMem (by decide)
  generalize same : String.ofList command = text
  unfold readCommand
  split
  case h_1 => simp [Yields]
  case h_2 => exact (yields_readAdd rest).imp fun asked other => by simp [other]
  case h_3 => exact (yields_readSet rest).imp fun asked other => by simp [other]
  case h_4 => exact (yields_readDelete rest).imp fun asked other => by simp [other]
  case h_5 => exact (yields_readReseq rest).imp fun asked other => by simp [other]
  case h_6 => simp [Yields]
  case h_7 => simp [Yields]
  case h_8 => simp [Yields]
  case h_9 =>
    change '\n' ∉ ("unknown command '" ++ text ++ "' (try 'help')").toList
    rw [← same]
    simp [absent]

theorem yields_readLine (line : String) :
    Yields (fun asked => asked = .quit ↔ AsksToQuit line) (readLine line) := by
  unfold readLine AsksToQuit command?
  cases found : nextWord line.toList with
  | none => simp [Yields]
  | some parts => simpa using yields_readCommand (isWord_of_nextWord found) parts.2

theorem notMem_message (error : StoreError) : '\n' ∉ error.message.toList := by
  cases error with
  | noSuchOperation id =>
    change '\n' ∉ ("no operation with id " ++ id.text).toList
    simp [(isWord_text id).notMem (c := '\n') (by decide)]
  | keysExhausted =>
    change '\n' ∉ "storage error: database or disk is full".toList
    simp
  | sequenceExhausted =>
    change '\n' ∉ ("storage error: Invalid column type Real at index: 0, " ++
      "name: COALESCE(MAX(sequence), 0) + 1").toList
    simp

theorem acknowledge_eq (s : Store) (request : Request) (answer : Answer) (t : Store) :
    (acknowledge s request answer t).flow = .proceed ∧
      (acknowledge s request answer t).store = t := by
  unfold acknowledge
  split
  case h_2 => split <;> exact ⟨rfl, rfl⟩
  case h_4 => dsimp only; split <;> exact ⟨rfl, rfl⟩
  all_goals exact ⟨rfl, rfl⟩

theorem yields_obey (s : Store) (asked : Command) :
    Yields (fun reply => reply.flow = .quit ↔ asked = .quit) (obey s asked) := by
  cases asked with
  | write request =>
    rw [obey]
    cases s.attempt request with
    | ok served =>
      change Reply.flow (acknowledge s request served.1 served.2) = .quit ↔ _
      simp [acknowledge_eq]
    | error error => exact notMem_message error
  | _ => simp [Yields, obey, answer, showProgram]

theorem yields_execute (s : Store) (line : String) :
    Yields (fun reply => reply.flow = .quit ↔ AsksToQuit line) (execute s line) := by
  rw [execute_eq]
  exact (yields_readLine line).bind fun asked quits =>
    (yields_obey s asked).imp fun reply flow => flow.trans quits

end OpTree.Editor
