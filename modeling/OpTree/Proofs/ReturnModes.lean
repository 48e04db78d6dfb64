import OpTree.Proofs.Congruence

set_option autoImplicit false

namespace OpTree

/-- Whether the bodies of operations with the opcode belong to the block around them. -/
def Opcode.isControl : Opcode → Bool
  | conditional | otherwise | whileLoop | forLoop => true
  | _ => false

/-- No `return` stands directly under an `if`, an `else` or a loop. -/
def Store.ReturnsOutside (s : Store) : Prop :=
  ∀ r ∈ s.allOperations, r.opcode = .giveBack →
    ∀ p ∈ s.allOperations, r.parent = some p.id → ¬ p.opcode.isControl

namespace Exec

variable {α β : Type}

def OnlyNormal (x : Exec Exit) : Prop :=
  ∀ exit, x.Gives exit → ∃ value, exit = .normal value

theorem gives_pure {a b : α} (given : (Pure.pure a : Exec α).Gives b) : b = a := by
  obtain ⟨s, done⟩ := given
  rw [show (Pure.pure a : Exec α) = Exec.pure a from rfl, run_pure] at done
  exact (Ending.done.inj done).symm

theorem gives_bind {x : Exec α} {f : α → Exec β} {b : β} (given : (x >>= f).Gives b) :
    ∃ a, x.Gives a ∧ (f a).Gives b := by
  obtain ⟨s, done⟩ := given
  change ((Exec.bind x f).run s).ending = _ at done
  rw [run_bind] at done
  cases first : (x.run s).ending with
  | done a =>
    rw [first] at done
    exact ⟨a, ⟨s, first⟩, (x.run s).state, done⟩
  | failed error =>
    rw [first] at done
    cases done
  | unfinished =>
    rw [first] at done
    cases done

theorem OnlyNormal.pure (value : Option Value) : OnlyNormal (Pure.pure (.normal value)) := by
  intro exit given
  exact ⟨value, gives_pure given⟩

theorem OnlyNormal.fail (error : EvalError) : OnlyNormal (Exec.fail error) := by
  intro exit given
  obtain ⟨s, done⟩ := given
  cases done

theorem OnlyNormal.unfinished : OnlyNormal Exec.unfinished := by
  intro exit given
  obtain ⟨s, done⟩ := given
  cases done

theorem OnlyNormal.bind {x : Exec α} {f : α → Exec Exit} (next : ∀ a, (f a).OnlyNormal) :
    (x >>= f).OnlyNormal := by
  intro exit given
  obtain ⟨a, _, last⟩ := gives_bind given
  exact next a exit last

theorem OnlyNormal.inChild {slot : Slot} {f : Slot → Exec Exit}
    (inside : ∀ child, (f child).OnlyNormal) : (Exec.inChild slot f).OnlyNormal := by
  intro exit given
  obtain ⟨s, done⟩ := given
  exact inside s.scopes.depth exit ⟨_, done⟩

end Exec

namespace Execution

open Exec

variable {store : Store} {settings settings' : Settings} {run : Runner} {slot : Slot}

theorem escaping_normal (returns : Returns) (value : Option Value) :
    returns.escaping (.normal value) = none := by
  cases returns <;> rfl

theorem agree_of_onlyNormal {x : Exec Exit} (normal : x.OnlyNormal) (exit : Exit)
    (given : x.Gives exit) : Settings.Agree settings settings' exit := by
  obtain ⟨value, rfl⟩ := normal exit given
  rw [Settings.Agree, escaping_normal, escaping_normal]

theorem onlyNormal_block {ops : List Operation} (noReturn : ∀ op ∈ ops, op.opcode ≠ .giveBack)
    (inside : ∀ op ∈ ops, (run slot op).OnlyNormal) :
    (block settings run slot ops).OnlyNormal := by
  induction ops with
  | nil => exact .pure none
  | cons op rest ih =>
    have later := ih (fun other there => noReturn other (List.mem_cons_of_mem op there))
      (fun other there => inside other (List.mem_cons_of_mem op there))
    rw [block]
    by_cases skipped : op.opcode = .otherwise
    · rw [if_pos skipped]
      exact later
    · rw [if_neg skipped]
      intro exit given
      obtain ⟨first, ended, last⟩ := gives_bind given
      obtain ⟨value, rfl⟩ := inside op List.mem_cons_self first ended
      rw [if_neg (noReturn op List.mem_cons_self), escaping_normal] at last
      exact later exit last

theorem onlyNormal_repeatWhile {condition : Exec Bool} {round : Exec Exit}
    (inside : round.OnlyNormal) (fuel : Nat) :
    (repeatWhile settings condition round fuel).OnlyNormal := by
  induction fuel with
  | zero => exact .unfinished
  | succ fuel ih =>
    apply OnlyNormal.bind
    intro holds
    cases holds with
    | false => exact .pure none
    | true =>
      intro exit given
      obtain ⟨first, ended, last⟩ := gives_bind given
      obtain ⟨value, rfl⟩ := inside first ended
      rw [escaping_normal] at last
      exact ih exit last

theorem onlyNormal_forEach {round : Value → Exec Exit} (inside : ∀ item, (round item).OnlyNormal)
    (items : List Value) : (forEach settings round items).OnlyNormal := by
  induction items with
  | nil => exact .pure none
  | cons item rest ih =>
    intro exit given
    obtain ⟨first, ended, last⟩ := gives_bind given
    obtain ⟨value, rfl⟩ := inside item first ended
    rw [escaping_normal] at last
    exact ih exit last

theorem onlyNormal_plain {op : Operation} (plain : ¬ op.opcode.isControl)
    (forward : op.opcode ≠ .giveBack) (fuel : Nat) :
    (perform store settings fuel run slot op).OnlyNormal := by
  unfold perform
  cases opcode : op.opcode with
  | assign => exact .bind fun _ => .bind fun _ => .bind fun _ => .bind fun _ => .pure none
  | print => exact .bind fun _ => .bind fun _ => .bind fun _ => .pure none
  | binary operator =>
    exact .bind fun _ => .bind fun _ => .bind fun _ => .bind fun _ => .bind fun value =>
      .bind fun _ => .pure (some value)
  | conditional => exact absurd (by rw [opcode]; rfl) plain
  | otherwise => exact absurd (by rw [opcode]; rfl) plain
  | whileLoop => exact absurd (by rw [opcode]; rfl) plain
  | forLoop => exact absurd (by rw [opcode]; rfl) plain
  | giveBack => exact absurd opcode forward
  | function => exact .bind fun _ => .bind fun _ => .pure none
  | call =>
    -- What a call yields is a value, whichever way the body of its function ended.
    exact .bind fun _ => .bind fun _ => .bind fun _ => .bind fun _ => .bind fun value =>
      .bind fun _ => .pure value
  | breakLoop => exact .pure none
  | continueLoop => exact .pure none
  | unknown tag => exact .pure none

section Outside

variable (outside : store.ReturnsOutside)
  (inside : ∀ slot, ∀ op ∈ store.allOperations, op.opcode ≠ .giveBack → (run slot op).OnlyNormal)

include outside inside

theorem onlyNormal_body {op : Operation} (stored : op ∈ store.allOperations)
    (control : op.opcode.isControl) (names : List (String × Value)) :
    (body store settings run op.id slot names).OnlyNormal := by
  apply OnlyNormal.inChild
  intro child
  apply OnlyNormal.bind
  intro _
  have noReturn : ∀ r ∈ store.children (some op.id), r.opcode ≠ .giveBack := by
    intro r there back
    obtain ⟨known, under⟩ := Store.mem_children.1 there
    exact outside r known back op stored under control
  apply onlyNormal_block noReturn
  intro r there
  exact inside child r (Store.mem_children.1 there).1 (noReturn r there)

theorem onlyNormal_conditional {op : Operation} (stored : op ∈ store.allOperations)
    (opcode : op.opcode = .conditional) (params : Parameters) :
    (conditional store settings run slot op params).OnlyNormal := by
  apply OnlyNormal.bind
  intro raw
  apply OnlyNormal.bind
  intro condition
  cases chosen : branch store op condition with
  | none => exact .pure none
  | some parent =>
    rcases branch_eq_some chosen with rfl | ⟨other, there, opcode, rfl⟩
    · exact onlyNormal_body outside inside stored (by rw [opcode]; rfl) []
    · have known := (Store.mem_children.1 there).1
      exact onlyNormal_body outside inside known (by rw [opcode]; rfl) []

theorem onlyNormal_perform (fuel : Nat) {op : Operation} (stored : op ∈ store.allOperations)
    (forward : op.opcode ≠ .giveBack) : (perform store settings fuel run slot op).OnlyNormal := by
  by_cases control : op.opcode.isControl
  · unfold perform
    cases opcode : op.opcode with
    | conditional => exact onlyNormal_conditional outside inside stored opcode _
    | whileLoop =>
      apply OnlyNormal.bind
      intro raw
      exact onlyNormal_repeatWhile (onlyNormal_body outside inside stored control []) fuel
    | forLoop =>
      apply OnlyNormal.bind
      intro iterator
      apply OnlyNormal.bind
      intro raw
      apply OnlyNormal.bind
      intro collection
      cases collection.items? with
      | none => exact .fail _
      | some items =>
        apply onlyNormal_forEach
        intro item
        exact onlyNormal_body outside inside stored control [(iterator, item)]
    | otherwise => exact .pure none
    | _ =>
      rw [opcode] at control
      cases control
  · exact onlyNormal_plain control forward fuel

end Outside

theorem execute_onlyNormal (outside : store.ReturnsOutside) (settings : Settings) (fuel : Nat)
    (slot : Slot) {op : Operation} (stored : op ∈ store.allOperations)
    (forward : op.opcode ≠ .giveBack) : (execute store settings fuel slot op).OnlyNormal := by
  induction fuel generalizing slot op with
  | zero => exact .unfinished
  | succ fuel ih =>
    apply OnlyNormal.bind
    intro calls
    apply OnlyNormal.bind
    intro _
    exact onlyNormal_perform outside (fun slot op known other => ih slot known other) fuel stored
      forward

theorem sameExits_execute (outside : store.ReturnsOutside) (fuel : Nat) :
    SameExits store settings settings' (execute store settings fuel) where
  exits slot _ stored forward :=
    agree_of_onlyNormal (execute_onlyNormal outside settings fuel slot stored forward)
  rounds slot names op stored loop := by
    have control : op.opcode.isControl := by
      rcases loop with opcode | opcode
      · rw [opcode]; rfl
      · rw [opcode]; rfl
    have inside : ∀ slot, ∀ other ∈ store.allOperations, other.opcode ≠ .giveBack →
        (execute store settings fuel slot other).OnlyNormal := by
      intro slot other known forward
      exact execute_onlyNormal outside settings fuel slot known forward
    exact agree_of_onlyNormal (onlyNormal_body outside inside stored control names)

theorem Congruence.eq (same : settings'.limit = settings.limit) :
    Congruence settings settings' fun _ x y => x = y where
  pure _ := rfl
  fail _ _ := rfl
  unfinished := rfl
  coerce _ _ := rfl
  resolve _ _ := rfl
  eval _ _ _ := rfl
  note _ _ _ := rfl
  start _ _ := rfl
  bindName _ _ _ := rfl
  bind {α β x y f g} first next := by
    subst first
    apply ext_run
    intro s
    change (Exec.bind x f).run s = (Exec.bind x g).run s
    rw [run_bind, run_bind]
    cases ended : (x.run s).ending with
    | done a =>
      have equal : f a = g a := next a ⟨s, ended⟩
      simp only [equal]
    | failed error => rfl
    | unfinished => rfl
  inChild {α} slot f g inside := by
    have equal : f = g := funext inside
    rw [equal]
  enter {α} f args x y equal := by
    simp only [Execution.enter, checkDepth, same, equal]

end Execution

open Execution

theorem Store.ReturnsOutside.runProgram_unwind {store : Store} (outside : store.ReturnsOutside)
    (limit : Option Nat) (fuel : Nat) :
    runProgram store ⟨.shallow, limit⟩ fuel = runProgram store ⟨.unwind, limit⟩ fuel := by
  have c : Congruence ⟨.shallow, limit⟩ ⟨.unwind, limit⟩ fun _ x y => x = y := .eq rfl
  exact c.runProgram (sameExits_execute outside) fuel

/-- Where no `return` is nested, a program ends in one mode if and only if it ends in the other
one, and the same is seen of it. -/
theorem Store.ReturnsOutside.shows_shallow_iff {store : Store} (outside : store.ReturnsOutside)
    {mode : Mode} {limit : Option Nat} {sink : Option Sink} {seen : Observation} :
    (Interpreter.fresh store mode .shallow limit sink).Shows seen ↔
      (Interpreter.fresh store mode .unwind limit sink).Shows seen := by
  have same : ∀ fuel, (Interpreter.fresh store mode .shallow limit sink).ShowsWith fuel seen ↔
      (Interpreter.fresh store mode .unwind limit sink).ShowsWith fuel seen := by
    intro fuel
    rw [Interpreter.showsWith_iff, Interpreter.showsWith_iff, Interpreter.outcome_fresh rfl,
      Interpreter.outcome_fresh rfl, outside.runProgram_unwind]
  exact exists_congr same

def Store.guardedCall : Store where
  operations := (Table.ofRows? [(1, ⟨"function", none, 1⟩), (2, ⟨"return", some ⟨1⟩, 1⟩),
    (3, ⟨"if", none, 2⟩), (4, ⟨"call", some ⟨3⟩, 1⟩), (5, ⟨"print", some ⟨3⟩, 2⟩)] 5).getD .empty
  parameters := (Table.ofRows? [(1, ⟨⟨1⟩, "name", some "f"⟩), (2, ⟨⟨2⟩, "value", some "7"⟩),
    (3, ⟨⟨3⟩, "condition", some "true"⟩), (4, ⟨⟨4⟩, "name", some "f"⟩),
    (5, ⟨⟨4⟩, "result", some "x"⟩), (6, ⟨⟨5⟩, "value", some "$x"⟩)] 6).getD .empty

/-- A function returns to a call inside an `if`, which goes on with the next operation. -/
theorem Store.ReturnsOutside.shows_shallow_iff_call :
    let seen : Observation := ⟨.ok none, ["7"], fun name =>
      if name = "f" then some (.function ⟨"f", [], ⟨1⟩⟩) else none⟩
    Store.guardedCall.ReturnsOutside ∧
      (Interpreter.fresh .guardedCall .testRun .shallow (some 1) none).Shows seen ∧
      (Interpreter.fresh .guardedCall .testRun .unwind (some 1) none).Shows seen := by
  intro seen
  have outside : Store.guardedCall.ReturnsOutside := by
    unfold Store.ReturnsOutside
    decide
  have shown : (Interpreter.fresh .guardedCall .testRun .shallow (some 1) none).Shows seen := by
    have scopes : ((Interpreter.fresh .guardedCall .testRun .shallow (some 1) none).run
        5).2.state.scopes = ⟨#[⟨none, [("f", .function ⟨"f", [], ⟨1⟩⟩)]⟩]⟩ := by decide
    exact ⟨5, by decide, by decide, Interpreter.global_of_single scopes⟩
  exact ⟨outside, shown, outside.shows_shallow_iff.1 shown⟩

end OpTree
