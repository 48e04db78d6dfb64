import OpTree.Proofs.Commands
import OpTree.Proofs.Statements
import OpTree.Proofs.WrittenLines

set_option autoImplicit false

namespace OpTree.Editor

variable {s : Store} {line : String} {error : CommandError} {reply : Reply}

theorem respond_of_ok (accepted : execute s line = .ok reply) : respond s line = reply := by
  rw [respond, accepted, Editor.reply]

theorem respond_of_error (rejected : execute s line = .error error) :
    respond s line = answer s ("error: " ++ error.message ++ "\n") := by
  rw [respond, rejected, Editor.reply]

theorem flow_of_ok (accepted : execute s line = .ok reply) :
    reply.flow = .quit ↔ AsksToQuit line := by
  have yields := yields_execute s line
  rwa [accepted] at yields

theorem execute_of_command? {text : String} (first : command? line = some text) :
    ∃ rest, execute s line = runCommand s text rest := by
  unfold command? at first
  cases found : nextWord line.toList with
  | none => simp [found] at first
  | some parts =>
    obtain rfl : String.ofList parts.1 = text := by simpa [found] using first
    exact ⟨parts.2, by rw [execute, found]⟩

theorem not_asksToQuit (rejected : execute s line = .error error) : ¬ AsksToQuit line := by
  rintro (quits | quits)
  all_goals
    obtain ⟨rest, run⟩ := execute_of_command? quits
    cases run.symm.trans rejected

theorem flow_respond (s : Store) (line : String) :
    (respond s line).flow = .quit ↔ AsksToQuit line := by
  cases executed : execute s line with
  | ok reply =>
    rw [respond_of_ok executed]
    exact flow_of_ok executed
  | error error =>
    rw [respond_of_error executed]
    exact iff_of_false nofun (not_asksToQuit executed)

/-- The lines up to the first one that asks to quit, that one included. -/
def executed : List String → List String
  | [] => []
  | line :: rest => line :: if AsksToQuit line then [] else executed rest

/-- What executing lines one after another gives. -/
def attempts (s : Store) : List String → List (Except CommandError Reply)
  | [] => []
  | line :: rest => execute s line :: attempts (respond s line).store rest

def storeAfter (s : Store) (lines : List String) : Store :=
  lines.foldl (fun s line => (respond s line).store) s

def spoken : Except CommandError Reply → String
  | .ok reply => prompt ++ reply.output
  | .error error => prompt ++ ("error: " ++ error.message ++ "\n")

def wrote : Except CommandError Reply → Bool
  | .ok reply => reply.effect == .writes
  | .error _ => false

/-- The last prompt, which only the end of the input leaves unanswered. -/
def farewell (lines : List String) : String :=
  if ∃ line ∈ lines, AsksToQuit line then "" else prompt ++ "\n"

theorem spoken_execute (s : Store) (line : String) :
    spoken (execute s line) = prompt ++ (respond s line).output := by
  cases executed : execute s line with
  | ok reply => rw [respond_of_ok executed, spoken]
  | error error => rw [respond_of_error executed, spoken, answer]

theorem wrote_execute (s : Store) (line : String) :
    wrote (execute s line) = ((respond s line).effect == .writes) := by
  cases executed : execute s line with
  | ok reply => rw [respond_of_ok executed, wrote]
  | error error => rw [respond_of_error executed]; rfl

theorem session_cons (s : Store) (line : String) (rest : List (Option String)) :
    session s (some line :: rest) = .after (respond s line)
      (if AsksToQuit line then .ended (respond s line).store "" none
        else session (respond s line).store rest) := by
  have flow := flow_respond s line
  rw [session, sessionBy]
  cases go : (respond s line).flow with
  | quit => rw [if_pos (flow.1 go)]
  | proceed =>
    rw [if_neg fun quits => by cases go.symm.trans (flow.2 quits)]
    rfl

theorem executed_of_quits (quits : AsksToQuit line) (rest : List String) :
    executed (line :: rest) = [line] := by
  rw [executed, if_pos quits]

theorem executed_of_not (stays : ¬ AsksToQuit line) (rest : List String) :
    executed (line :: rest) = line :: executed rest := by
  rw [executed, if_neg stays]

theorem farewell_of_quits (quits : AsksToQuit line) (rest : List String) :
    farewell (line :: rest) = "" :=
  if_pos ⟨line, List.mem_cons_self, quits⟩

theorem farewell_of_not (stays : ¬ AsksToQuit line) (rest : List String) :
    farewell (line :: rest) = farewell rest := by
  simp [farewell, stays]

theorem session_eq (s : Store) (lines : List String) : session s (lines.map some) = {
    store := storeAfter s (executed lines)
    hasWritten := (attempts s (executed lines)).any wrote
    output := String.join ((attempts s (executed lines)).map spoken) ++ farewell lines
    failure := none } := by
  induction lines generalizing s with
  | nil => rfl
  | cons line rest ih =>
    rw [List.map_cons, session_cons]
    by_cases quits : AsksToQuit line
    · rw [if_pos quits, executed_of_quits quits, farewell_of_quits quits]
      simp [Session.after, Session.ended, storeAfter, attempts, spoken_execute, wrote_execute]
    · rw [if_neg quits, executed_of_not quits, farewell_of_not quits, ih]
      simp [Session.after, storeAfter, attempts, spoken_execute, wrote_execute,
        String.append_assoc]

section Requests

variable {request : Request} {lines : List String} {requests : List Request}

theorem store_respond_of_write (asked : readLine line = .ok (.write request)) :
    (respond s line).store = (s.serve request).2 := by
  rw [respond, execute_eq, asked]
  change (Editor.reply s (obey s (.write request))).store = _
  rw [obey, Store.serve]
  cases s.attempt request with
  | ok served => exact (acknowledge_eq s request served.1 served.2).2
  | error error => rfl

theorem not_asksToQuit_of_write (asked : readLine line = .ok (.write request)) :
    ¬ AsksToQuit line := by
  have yields := yields_readLine line
  rw [asked] at yields
  exact fun quits => nomatch yields.2 quits

theorem storeAfter_of_requests (s : Store) (asked : List.Forall₂
    (fun line request => readLine line = .ok (.write request)) lines requests) :
    storeAfter s (executed lines) = s.after requests := by
  induction asked generalizing s with
  | nil => rfl
  | cons first _ ih =>
    rw [executed_of_not (not_asksToQuit_of_write first), Store.after, ← ih,
      ← store_respond_of_write first]
    rfl

end Requests

section Removal

variable {Line : Type} (read : Line → String)

/-- The lines without those that are rejected when they are executed. -/
def accepted (s : Store) : List Line → List Line
  | [] => []
  | line :: rest =>
    match execute s (read line) with
    | .error _ => accepted s rest
    | .ok reply => line :: if AsksToQuit (read line) then rest else accepted reply.store rest

section Steps

variable {read}

end Steps

end Removal

end OpTree.Editor
