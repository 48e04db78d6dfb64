import OpTree.Execution
import OpTree.Proofs.Scopes

set_option autoImplicit false

/-!
# Restoration of scopes

However an operation ends, the scopes and the number of calls are as before, but for the one
name that the operation itself binds (`execute_binds`). Bodies run in scopes of their own, so
what they bind goes when their scope is released (`keeps_body`): that is why an operation that
holds others changes nothing by them, and why a failure inside leaves no trace.
-/

namespace OpTree

/-- The key of the parameter that names what an operation with the opcode binds. -/
def Opcode.targetKey? : Opcode → Option String
  | assign => some "var_name"
  | binary _ | call => some "result"
  | function => some "name"
  | _ => none

def Store.target? (store : Store) (op : Operation) : Option String :=
  op.opcode.targetKey?.bind (store.parametersOf op.id).get?

namespace Exec

variable {α β : Type} {slot : Slot}

def Keeps (slot : Slot) (x : Exec α) : Prop :=
  ∀ s : RunState, slot < s.scopes.depth → (x.run s).state = s

/-- Changes nothing but the bindings of a scope, if that is there. -/
def Confined (slot : Slot) (x : Exec α) : Prop :=
  ∀ s : RunState, slot < s.scopes.depth →
    (x.run s).state.calls = s.calls ∧ s.scopes.SameOutside slot (x.run s).state.scopes

/-- Changes nothing but one binding of a scope, and that only if it ends well. -/
def Binds (slot : Slot) (target : Option String) (x : Exec α) : Prop :=
  ∀ s : RunState, slot < s.scopes.depth → (x.run s).state = s ∨
    ∃ a name value, (x.run s).ending = .done a ∧ target = some name ∧
      (x.run s).state = { s with scopes := s.scopes.bind slot name value }

theorem Keeps.pure (a : α) : Keeps slot (Pure.pure a) := fun _ _ => rfl

theorem Keeps.fail (error : EvalError) : Keeps slot (Exec.fail error : Exec α) := fun _ _ => rfl

theorem Keeps.unfinished : Keeps slot (Exec.unfinished : Exec α) := fun _ _ => rfl

theorem Keeps.log (event : Event) : Keeps slot (Exec.log event) := fun _ _ => rfl

theorem Keeps.ofExcept (x : Except EvalError α) : Keeps slot (Exec.ofExcept x) := by
  cases x with
  | ok a => exact .pure a
  | error error => exact .fail error

theorem Keeps.inspect (view : RunState → Except EvalError α) : Keeps slot (Exec.inspect view) := by
  intro s live
  rw [run_inspect]
  exact Keeps.ofExcept (view s) s live

theorem Keeps.bind {x : Exec α} {f : α → Exec β} (first : x.Keeps slot)
    (next : ∀ a, (f a).Keeps slot) : (x >>= f).Keeps slot := by
  intro s live
  change ((Exec.bind x f).run s).state = s
  have same := first s live
  rw [run_bind]
  cases (x.run s).ending with
  | done a =>
    simp only [Outcome.after]
    rw [same]
    exact next a s live
  | failed error => exact same
  | unfinished => exact same

theorem Keeps.mapM {f : α → Exec β} (each : ∀ a, (f a).Keeps slot) (as : List α) :
    (as.mapM f).Keeps slot := by
  induction as with
  | nil =>
    rw [List.mapM_nil]
    exact .pure []
  | cons a as ih =>
    rw [List.mapM_cons]
    exact (each a).bind fun b => ih.bind fun bs => .pure (b :: bs)

theorem Keeps.confined {x : Exec α} (keeps : x.Keeps slot) : x.Confined slot := by
  intro s live
  rw [keeps s live]
  exact ⟨rfl, .refl⟩

theorem Keeps.binds {x : Exec α} (keeps : x.Keeps slot) (target : Option String) :
    x.Binds slot target :=
  fun s live => .inl (keeps s live)

theorem Keeps.bind_binds {x : Exec α} {f : α → Exec β} {target : Option String}
    (first : x.Keeps slot) (next : ∀ a, (f a).Binds slot target) :
    (x >>= f).Binds slot target := by
  intro s live
  change ((Exec.bind x f).run s).state = s ∨ ∃ a name value,
    ((Exec.bind x f).run s).ending = _ ∧ _ ∧ ((Exec.bind x f).run s).state = _
  have same := first s live
  rw [run_bind]
  cases (x.run s).ending with
  | done a =>
    simp only [Outcome.after]
    rw [same]
    exact next a s live
  | failed error => exact .inl same
  | unfinished => exact .inl same

theorem Binds.bindName (name : String) (value : Value) (a : α) :
    Binds slot (some name) (Exec.bindName slot name value >>= fun _ => Pure.pure a) :=
  fun _ _ => .inr ⟨a, name, value, rfl, rfl, rfl⟩

theorem Binds.confined {x : Exec α} {target : Option String} (binds : x.Binds slot target) :
    x.Confined slot := by
  intro s live
  rcases binds s live with same | ⟨a, name, value, _, _, changed⟩
  · rw [same]
    exact ⟨rfl, .refl⟩
  · rw [changed]
    exact ⟨rfl, .bind value⟩

theorem Confined.bindName (name : String) (value : Value) :
    Confined slot (Exec.bindName slot name value) :=
  fun _ _ => ⟨rfl, .bind value⟩

theorem Confined.bind {x : Exec α} {f : α → Exec β} (first : x.Confined slot)
    (next : ∀ a, (f a).Confined slot) : (x >>= f).Confined slot := by
  intro s live
  change ((Exec.bind x f).run s).state.calls = _ ∧
    s.scopes.SameOutside slot ((Exec.bind x f).run s).state.scopes
  have before := first s live
  rw [run_bind]
  cases (x.run s).ending with
  | done a =>
    simp only [Outcome.after]
    have after := next a (x.run s).state (by rw [before.2.depth]; exact live)
    exact ⟨after.1.trans before.1, before.2.trans after.2⟩
  | failed error => exact before
  | unfinished => exact before

theorem Confined.forM {f : α → Exec Unit} (each : ∀ a, (f a).Confined slot) (as : List α) :
    (as.forM f).Confined slot := by
  induction as with
  | nil => exact (Keeps.pure ()).confined
  | cons a as ih => exact (each a).bind fun _ => ih

theorem Confined.inChild {f : Slot → Exec α} (inside : ∀ child, (f child).Confined child) :
    (Exec.inChild slot f).Keeps slot := by
  intro s live
  rw [run_inChild]
  have new : s.scopes.depth < (s.scopes.openChild slot).depth := by
    rw [Scopes.depth_openChild]
    omega
  obtain ⟨calls, scopes⟩ := inside s.scopes.depth { s with scopes := s.scopes.openChild slot } new
  simp only []
  rw [scopes.release_openChild (Nat.zero_lt_of_lt live), calls]

theorem Keeps.inCall {x : Exec α} (keeps : x.Keeps slot) : (Exec.inCall x).Keeps slot := by
  intro s live
  rw [run_inCall]
  simp only []
  rw [keeps { s with calls := s.calls + 1 } live]
  rfl

end Exec

namespace Execution

open Exec

variable (store : Store) (settings : Settings) {run : Runner} {slot : Slot}

theorem keeps_required (op : Operation) (params : Parameters) (key : String) :
    (required op params key).Keeps slot := by
  unfold required
  split
  · exact .pure _
  · exact .fail _

theorem binds_required {α : Type} (op : Operation) (params : Parameters) (key : String)
    {target : Option String} {f : String → Exec α}
    (next : ∀ text, params.get? key = some text → (f text).Binds slot target) :
    (required op params key >>= f).Binds slot target := by
  unfold required
  split
  case h_1 text found => exact next text found
  case h_2 => exact fun _ _ => .inl rfl

theorem confined_block (inside : ∀ op, (run slot op).Confined slot) (ops : List Operation) :
    (block settings run slot ops).Confined slot := by
  induction ops with
  | nil => exact (Keeps.pure _).confined
  | cons op rest ih =>
    unfold block
    split
    · exact ih
    · refine (inside op).bind fun exit => ?_
      split
      · exact (Keeps.pure _).confined
      · split
        · exact (Keeps.pure _).confined
        · exact ih

theorem keeps_body (inside : ∀ slot op, (run slot op).Confined slot) (parent : OpId)
    (names : List (String × Value)) : (body store settings run parent slot names).Keeps slot := by
  refine Confined.inChild fun child => ?_
  have bound : (names.forM fun entry => Exec.bindName child entry.1 entry.2).Confined child :=
    .forM (fun entry => .bindName entry.1 entry.2) names
  exact bound.bind fun _ => confined_block settings (inside child) _

theorem keeps_repeatWhile {condition : Exec Bool} {round : Exec Exit}
    (test : condition.Keeps slot) (inside : round.Keeps slot) (fuel : Nat) :
    (repeatWhile settings condition round fuel).Keeps slot := by
  induction fuel with
  | zero => exact .unfinished
  | succ fuel ih =>
    unfold repeatWhile
    refine test.bind fun holds => ?_
    split
    · refine inside.bind fun exit => ?_
      split
      · exact .pure _
      · exact ih
    · exact .pure _

theorem keeps_forEach {round : Value → Exec Exit} (inside : ∀ item, (round item).Keeps slot)
    (items : List Value) : (forEach settings round items).Keeps slot := by
  induction items with
  | nil => exact .pure _
  | cons item rest ih =>
    unfold forEach
    refine (inside item).bind fun exit => ?_
    split
    · exact .pure _
    · exact ih

theorem keeps_conditional (inside : ∀ slot op, (run slot op).Confined slot) (op : Operation)
    (params : Parameters) : (conditional store settings run slot op params).Keeps slot := by
  refine (keeps_required op params _).bind fun raw => (Keeps.inspect _).bind fun condition => ?_
  split
  · exact keeps_body store settings inside _ _
  · exact .pure _

theorem keeps_whileLoop (fuel : Nat) (inside : ∀ slot op, (run slot op).Confined slot)
    (op : Operation) (params : Parameters) :
    (whileLoop store settings fuel run slot op params).Keeps slot := by
  refine (keeps_required op params _).bind fun raw => ?_
  exact keeps_repeatWhile settings ((Keeps.inspect _).bind fun value => .pure _)
    (keeps_body store settings inside _ _) fuel

theorem keeps_forLoop (inside : ∀ slot op, (run slot op).Confined slot) (op : Operation)
    (params : Parameters) : (forLoop store settings run slot op params).Keeps slot := by
  refine (keeps_required op params _).bind fun iterator => ?_
  refine (keeps_required op params _).bind fun raw => (Keeps.inspect _).bind fun collection => ?_
  split
  · exact .fail _
  · exact keeps_forEach settings (fun item => keeps_body store settings inside _ _) _

theorem keeps_print (op : Operation) (params : Parameters) : (print slot op params).Keeps slot :=
  (keeps_required op params _).bind fun _ => (Keeps.inspect _).bind fun _ =>
    (Keeps.log _).bind fun _ => .pure _

theorem keeps_giveBack (params : Parameters) : (giveBack slot params).Keeps slot := by
  have value : ((params.get? "value").mapM fun raw => Exec.coerce slot raw).Keeps slot := by
    cases params.get? "value" with
    | none => exact .pure _
    | some raw => exact (Keeps.inspect _).bind fun value => .pure _
  exact value.bind fun _ => (Keeps.inspect _).bind fun _ => (Keeps.log _).bind fun _ => .pure _

theorem keeps_resolveFunction (name : String) : (resolveFunction slot name).Keeps slot := by
  refine (Keeps.inspect _).bind fun value => ?_
  split
  · exact .pure _
  · exact .fail _

theorem keeps_checkDepth : (checkDepth settings).Keeps slot := by
  unfold checkDepth
  split
  · refine (Keeps.inspect _).bind fun calls => ?_
    split
    · exact .fail _
    · exact .pure _
  · exact .pure _

theorem keeps_invoke (inside : ∀ slot op, (run slot op).Confined slot) (f : FunctionValue)
    (args : List Value) : (invoke store settings run slot f args).Keeps slot := by
  refine Keeps.inCall ((Keeps.inspect _).bind fun calls => (Keeps.log _).bind fun _ => ?_)
  exact (keeps_body store settings inside _ _).bind fun _ => .pure _

theorem binds_bindTarget {α : Type} (target : Option String) (value : Option Value) (a : α) :
    (bindTarget slot target value >>= fun _ => Pure.pure a).Binds slot target := by
  unfold bindTarget
  split
  · exact .bindName _ _ a
  · exact fun _ _ => .inl rfl

theorem binds_assign (op : Operation) (params : Parameters) :
    (assign slot op params).Binds slot (params.get? "var_name") := by
  refine binds_required op params _ fun name found => ?_
  refine (keeps_required op params _).bind_binds fun raw => ?_
  refine (Keeps.inspect _).bind_binds fun value => ?_
  rw [found]
  exact .bindName name value _

theorem binds_binary (operator : BinaryOp) (op : Operation) (params : Parameters) :
    (binary operator slot op params).Binds slot (params.get? "result") := by
  refine (keeps_required op params _).bind_binds fun left => ?_
  refine (Keeps.inspect _).bind_binds fun leftValue => ?_
  refine (keeps_required op params _).bind_binds fun right => ?_
  refine (Keeps.inspect _).bind_binds fun rightValue => ?_
  exact (Keeps.ofExcept _).bind_binds fun value => binds_bindTarget _ _ _

theorem binds_define (op : Operation) (params : Parameters) :
    (define slot op params).Binds slot (params.get? "name") := by
  refine binds_required op params _ fun name found => ?_
  rw [found]
  exact .bindName name _ _

theorem binds_call (inside : ∀ slot op, (run slot op).Confined slot) (op : Operation)
    (params : Parameters) :
    (call store settings run slot op params).Binds slot (params.get? "result") := by
  refine (Keeps.mapM (fun raw => Keeps.inspect _) _).bind_binds fun args => ?_
  refine (keeps_required op params _).bind_binds fun name => ?_
  refine (keeps_resolveFunction name).bind_binds fun f => ?_
  refine (keeps_checkDepth settings).bind_binds fun _ => ?_
  exact (keeps_invoke store settings inside f args).bind_binds fun value => binds_bindTarget _ _ _

theorem binds_perform (fuel : Nat) (inside : ∀ slot op, (run slot op).Confined slot)
    (op : Operation) :
    (perform store settings fuel run slot op).Binds slot (store.target? op) := by
  unfold perform Store.target?
  cases op.opcode with
  | assign => exact binds_assign op _
  | print => exact (keeps_print op _).binds none
  | binary operator => exact binds_binary operator op _
  | conditional => exact (keeps_conditional store settings inside op _).binds none
  | whileLoop => exact (keeps_whileLoop store settings fuel inside op _).binds none
  | forLoop => exact (keeps_forLoop store settings inside op _).binds none
  | giveBack => exact (keeps_giveBack _).binds none
  | function => exact binds_define op _
  | call => exact binds_call store settings inside op _
  | otherwise => exact (Keeps.pure _).binds none
  | breakLoop => exact (Keeps.pure _).binds none
  | continueLoop => exact (Keeps.pure _).binds none
  | unknown tag => exact (Keeps.pure _).binds none

end Execution

open Execution

variable (store : Store) (settings : Settings)

theorem execute_binds (fuel : Nat) (slot : Slot) (op : Operation) :
    (execute store settings fuel slot op).Binds slot (store.target? op) := by
  induction fuel generalizing slot op with
  | zero => exact Exec.Keeps.unfinished.binds _
  | succ fuel ih =>
    -- The operations inside may bind their targets, but only in scopes of their own.
    refine (Exec.Keeps.inspect _).bind_binds fun calls => (Exec.Keeps.log _).bind_binds fun _ => ?_
    exact binds_perform store settings fuel (fun slot op => (ih slot op).confined) op

theorem execute_confined (fuel : Nat) (slot : Slot) (op : Operation) :
    (execute store settings fuel slot op).Confined slot :=
  (execute_binds store settings fuel slot op).confined

/-- However an operation ends, as many calls are active as before, and every scope has the
parent and the bindings that it had; only an operation that ends well may have bound its own
target in its own scope. -/
theorem execute_restores (fuel : Nat) (op : Operation) {slot : Slot} {s : RunState}
    (live : slot < s.scopes.depth) :
    let o := (execute store settings fuel slot op).run s
    o.state.calls = s.calls ∧
      s.scopes.SameBut slot (store.target? op) o.state.scopes ∧
      (op.opcode.targetKey? = none → o.state = s) ∧
      ((∀ exit, o.ending ≠ .done exit) → o.state = s) := by
  intro o
  rcases execute_binds store settings fuel slot op s live with
    same | ⟨exit, name, value, done, target, changed⟩
  · have unchanged : o.state = s := same
    rw [unchanged]
    exact ⟨rfl, .refl _, fun _ => rfl, fun _ => rfl⟩
  · have bound : o.state = { s with scopes := s.scopes.bind slot name value } := changed
    rw [bound, target]
    refine ⟨rfl, .bind value live, fun without => ?_, fun failed => absurd done (failed exit)⟩
    simp [Store.target?, without] at target

def Store.assignment : Store where
  operations := (Table.ofRows? [(1, ⟨"assign", none, 1⟩)] 1).getD .empty
  parameters := (Table.ofRows?
    [(1, ⟨⟨1⟩, "var_name", some "x"⟩), (2, ⟨⟨1⟩, "value", some "1"⟩)] 2).getD .empty

/-- Run in the root scope under a newer one, an assignment binds its variable and nothing else. -/
theorem execute_restores_assignment :
    let s : RunState := { scopes := Scopes.initial.openChild Scopes.root, calls := 2 }
    let op : Operation := ⟨⟨1⟩, .assign, none, 1⟩
    let o := (execute Store.assignment ⟨.shallow, none⟩ 1 Scopes.root op).run s
    Scopes.root < s.scopes.depth ∧
      o.state.scopes.own? Scopes.root "x" = some (.int 1) ∧
      o.state.calls = s.calls ∧
      s.scopes.SameBut Scopes.root (Store.assignment.target? op) o.state.scopes ∧
      (op.opcode.targetKey? = none → o.state = s) ∧
      ((∀ exit, o.ending ≠ .done exit) → o.state = s) :=
  ⟨by decide, by decide, execute_restores _ _ _ _ (by decide)⟩

end OpTree
