import OpTree.Opening
import OpTree.Proofs.Histories

set_option autoImplicit false

namespace OpTree

inductive Query where
  | operation (id : OpId)
  | children (parent : Option OpId)
  | firstChild (parent : OpId) (opcode : Opcode)
  | parameters (id : OpId)
  | operationCount
  | parameterCount
  deriving DecidableEq, Repr

inductive Finding where
  | operation (op : Option Operation)
  | operations (ops : List Operation)
  | parameters (params : Parameters)
  | count (n : Nat)
  deriving DecidableEq, Repr

inductive Call where
  | ask (query : Query)
  | request (request : Request)
  deriving DecidableEq, Repr

inductive Response where
  | seen (finding : Finding)
  | answered (answer : Answer)
  deriving DecidableEq, Repr

namespace Store

def look (s : Store) : Query → Finding
  | .operation id => .operation (s.operation? id)
  | .children parent => .operations (s.children parent)
  | .firstChild parent opcode => .operation (s.firstChild? parent opcode)
  | .parameters id => .parameters (s.parametersOf id)
  | .operationCount => .count s.operations.size
  | .parameterCount => .count s.parameters.size

def respond (s : Store) : Call → Response × Store
  | .ask query => (.seen (s.look query), s)
  | .request request => (.answered (s.serve request).1, (s.serve request).2)

def trace (s : Store) : List Call → List (Call × Response)
  | [] => []
  | call :: rest => (call, (s.respond call).1) :: (s.respond call).2.trace rest

def leave (s : Store) : List Call → Store
  | [] => s
  | call :: rest => (s.respond call).2.leave rest

end Store

/-- The second list is the first one with `extra` put in at any places. -/
inductive Inserted {α : Type} (extra : α) : List α → List α → Prop
  | nil : Inserted extra [] []
  | keep (a : α) {as bs : List α} : Inserted extra as bs → Inserted extra (a :: as) (a :: bs)
  | insert {as bs : List α} : Inserted extra as bs → Inserted extra as (extra :: bs)

namespace Inserted

variable {α : Type} {extra : α} {as bs cs ds : List α}

theorem refl (as : List α) : Inserted extra as as := by
  induction as with
  | nil => exact .nil
  | cons a as ih => exact .keep a ih

theorem append (first : Inserted extra as bs) (second : Inserted extra cs ds) :
    Inserted extra (as ++ cs) (bs ++ ds) := by
  induction first with
  | nil => exact second
  | keep a _ ih => exact .keep a ih
  | insert _ ih => exact .insert ih

end Inserted

def Call.reopening : Call :=
  .request .reopen

namespace Store

theorem respond_reopening (s : Store) : s.respond .reopening = (.answered .reopened, s) := by
  have unchanged : s.serve .reopen = (.reopened, s) := s.reopen_eq
  rw [Call.reopening, respond, unchanged]

theorem trace_inserted (s : Store) {history interrupted : List Call}
    (inserted : Inserted .reopening history interrupted) :
    Inserted (.reopening, .answered .reopened) (s.trace history) (s.trace interrupted) := by
  induction inserted generalizing s with
  | nil => exact .nil
  | keep call _ ih => exact .keep _ (ih _)
  | insert _ ih =>
    rw [trace, respond_reopening]
    exact .insert (ih s)

theorem leave_inserted (s : Store) {history interrupted : List Call}
    (inserted : Inserted .reopening history interrupted) :
    s.leave interrupted = s.leave history := by
  induction inserted generalizing s with
  | nil => rfl
  | keep call _ ih => exact ih _
  | insert _ ih =>
    rw [leave, respond_reopening]
    exact ih s

end Store

/-- A store has been written to the file of a place, and no writer has left anything beside it. -/
structure Place.Rests (place : Place) (s : Store) : Prop where
  isThere : place.isThere
  locator : ∃ locator, place.locator = .ok locator ∧ locator.isKept
  target : place.target = .entry (.file (Content.ofBytes (Content.program s).toBytes))
  hasLender : place.hasLender
  admits : ∀ companion, place.admits companion
  beside : ∀ companion, place.beside companion = none

namespace Place.Rests

variable {place : Place} {s : Store} (rests : place.Rests s) (locator : Locator)

include rests

theorem takeMark : place.takeMark locator = pure () := by
  simp [Place.takeMark, rests.admits, rests.beside]

theorem settleJournal (blank : Bool) : place.settleJournal locator blank = pure () := by
  simp [Place.settleJournal, rests.beside]

theorem settleLog (blank : Bool) :
    place.settleLog locator blank = pure (place.unlogged locator) := by
  simp [Place.settleLog, rests.beside]

theorem openFile : ∃ saving,
    place.openFile locator (.program s) = pure { store := s, saving } := by
  cases frozen : locator.isFrozen with
  | true => exact ⟨.refused, by simp [Place.openFile, frozen, read]⟩
  | false =>
    refine ⟨place.unlogged locator, ?_⟩
    simp [Place.openFile, frozen, rests.takeMark, rests.settleJournal, rests.settleLog, read]

theorem openProgram : ∃ saving,
    place.openProgram = (.ok { store := s, saving }, Changes.none) := by
  obtain ⟨locator, found, kept⟩ := rests.locator
  obtain ⟨saving, opened⟩ := rests.openFile locator
  have target := rests.target
  rw [Content.ofBytes_toBytes] at target
  refine ⟨saving, ?_⟩
  rw [Place.openProgram, if_pos rests.isThere]
  simp [load, openLocator, openTarget, found, kept, target, rests.hasLender, opened]
  rfl

end Place.Rests

/-- No call tells whether a program file was closed and opened again before it. All of a store is
in its file, and a file at rest opens as the store that was written. -/
theorem reopening_unobservable (s : Store) {history interrupted : List Call}
    (inserted : Inserted .reopening history interrupted) :
    Inserted (.reopening, .answered .reopened) (s.trace history) (s.trace interrupted) ∧
      s.leave interrupted = s.leave history ∧
      (∀ t : Store, ProgramFile.decode (ProgramFile.encode t) = some t) ∧
      ∀ (t : Store) (place : Place), place.Rests t →
        ∃ saving, place.openProgram = (.ok { store := t, saving }, Changes.none) :=
  ⟨s.trace_inserted inserted, s.leave_inserted inserted, ProgramFile.decode_encode,
    fun _ _ rests => rests.openProgram⟩

/-- Texts with separators, a missing text, a text that is never seen, the least sequence number
and an identifier whose operation is gone are all kept. -/
theorem reopening_unobservable_awkward :
    let made : List Call := [
      .request (.create .print none (Int64.ofInt (-0x8000000000000000))),
      .request (.addParameter ⟨1⟩ "value" none), .request (.setParameter ⟨1⟩ "" "a\tb\n\\n"),
      .request (.addParameter ⟨1⟩ "value" (some "hidden")), .request (.append .call (some ⟨1⟩)),
      .request (.delete ⟨2⟩)]
    let later : List Call := [.ask (.parameters ⟨1⟩), .ask .parameterCount,
      .request (.append (.unknown "new\nline") none), .request (.delete ⟨2⟩)]
    let interrupted := Call.reopening :: made ++ .reopening :: .reopening :: later
    let place : Place := {
      path := "program"
      isThere := true
      locator := .ok (.ofName "program")
      target := .entry (.file (Content.ofBytes (Content.program .empty).toBytes))
      hasLender := true
      admits := fun _ => true
      beside := fun _ => none }
    Inserted .reopening (made ++ later) interrupted ∧ place.Rests .empty ∧
      Inserted (.reopening, .answered .reopened) (Store.empty.trace (made ++ later))
        (Store.empty.trace interrupted) ∧
      Store.empty.leave interrupted = Store.empty.leave (made ++ later) ∧
      ∃ saving, place.openProgram = (.ok { store := .empty, saving }, Changes.none) := by
  intro made later interrupted place
  have inserted : Inserted .reopening (made ++ later) interrupted := by
    exact .insert ((Inserted.refl made).append (.insert (.insert (.refl later))))
  have rests : place.Rests .empty :=
    ⟨rfl, ⟨_, rfl, by decide⟩, rfl, rfl, fun _ => rfl, fun _ => rfl⟩
  obtain ⟨same, left, _, opened⟩ := reopening_unobservable .empty inserted
  exact ⟨inserted, rests, same, left, opened _ place rests⟩

end OpTree
