import OpTree.Proofs.Observations

set_option autoImplicit false

/-!
# One program under two settings

The settings of a run are looked at in two places: where an exit may end the block or the loop
around it, and where a call is checked against the limit. A relation between computations that
fits single steps (`Steps`) holds between the two runs of an operation once it holds between those
of what is inside it (`Steps.perform`). If it also fits calls and the end of the fuel
(`Congruence`), then it holds between the runs of a whole program under two settings that treat the
exits alike (`Congruence.runProgram`).
-/

namespace OpTree

def Event.IsAt (calls : Nat) : Event → Prop
  | started _ _ n => n = calls
  | returned _ _ n => n = calls
  | called _ _ _ => False
  | bound _ _ _ => True
  | printed _ => True

def Event.start? : Event → Option Operation
  | started op _ _ => some op
  | _ => none

def Exec.Gives {α : Type} (x : Exec α) (a : α) : Prop :=
  ∃ s, (x.run s).ending = .done a

namespace Execution

variable {α ι : Type}

def enter (settings : Settings) (f : FunctionValue) (args : List Value) (inner : Exec α) :
    Exec α := do
  checkDepth settings
  .inCall do
    .log (.called f args (← .calls))
    inner

/-- A relation that each single step of a run has to itself and that composition keeps. -/
structure Steps (R : (α : Type) → Exec α → Exec α → Prop) : Prop where
  pure {α : Type} (a : α) : R α (Pure.pure a) (Pure.pure a)
  fail {α : Type} (error : EvalError) : (∀ n, error ≠ .callDepthExceeded n) →
    R α (.fail error) (.fail error)
  coerce (slot : Slot) (raw : String) : R Value (.coerce slot raw) (.coerce slot raw)
  resolve (slot : Slot) (name : String) : R Value (.resolve slot name) (.resolve slot name)
  eval (operator : BinaryOp) (left right : Value) :
    R Value (.ofExcept (operator.eval left right)) (.ofExcept (operator.eval left right))
  note (event : Nat → Event) : (∀ calls, (event calls).IsAt calls) →
    (∀ calls, (event calls).start? = none) →
    R Unit (Exec.calls >>= fun calls => .log (event calls))
      (Exec.calls >>= fun calls => .log (event calls))
  bindName (slot : Slot) (name : String) (value : Value) :
    R Unit (.bindName slot name value) (.bindName slot name value)
  bind {α β : Type} {x y : Exec α} {f g : α → Exec β} : R α x y →
    (∀ a, x.Gives a → R β (f a) (g a)) → R β (x >>= f) (y >>= g)
  inChild {α : Type} (slot : Slot) {f g : Slot → Exec α} : (∀ child, R α (f child) (g child)) →
    R α (.inChild slot f) (.inChild slot g)

/-- A relation that fits also the ends of the fuel, the starts of operations and the calls of a run.
The check of a call may come out differently under two settings. -/
structure Congruence (settings settings' : Settings)
    (R : (α : Type) → Exec α → Exec α → Prop) : Prop extends Steps R where
  unfinished {α : Type} : R α .unfinished .unfinished
  start (op : Operation) (slot : Slot) :
    R Unit (Exec.calls >>= fun calls => .log (.started op slot calls))
      (Exec.calls >>= fun calls => .log (.started op slot calls))
  enter {α : Type} (f : FunctionValue) (args : List Value) {x y : Exec α} : R α x y →
    R α (enter settings f args x) (enter settings' f args y)

def Settings.Agree (settings settings' : Settings) (exit : Exit) : Prop :=
  settings'.returns.escaping exit = settings.returns.escaping exit

/-- The exits that two settings have to treat alike: those of all operations but `return`, which
ends its block in any case, and those of the rounds of a loop. -/
structure SameExits (store : Store) (settings settings' : Settings) (run : Runner) : Prop where
  exits : ∀ slot, ∀ op ∈ store.allOperations, op.opcode ≠ .giveBack →
    ∀ exit, (run slot op).Gives exit → Settings.Agree settings settings' exit
  rounds : ∀ slot names, ∀ op ∈ store.allOperations, op.opcode = .whileLoop ∨ op.opcode = .forLoop →
    ∀ exit, (body store settings run op.id slot names).Gives exit →
      Settings.Agree settings settings' exit

theorem SameExits.of_returns {store : Store} {settings settings' : Settings} {run : Runner}
    (same : settings'.returns = settings.returns) : SameExits store settings settings' run := by
  have agree : ∀ exit, Settings.Agree settings settings' exit := by
    intro exit
    rw [Settings.Agree, same]
  exact ⟨fun _ _ _ _ exit _ => agree exit, fun _ _ _ _ _ exit _ => agree exit⟩

theorem branch_eq_some {store : Store} {op : Operation} {condition : Value} {parent : OpId}
    (chosen : branch store op condition = some parent) :
    op.id = parent ∨ ∃ other ∈ store.children (some op.id), other.opcode = .otherwise ∧
      other.id = parent := by
  unfold branch at chosen
  split at chosen
  · exact .inl (Option.some.inj chosen)
  · obtain ⟨other, found, same⟩ := Option.map_eq_some_iff.1 chosen
    obtain ⟨there, opcode⟩ := Store.firstChild?_some (by decide) found
    exact .inr ⟨other, there, opcode, same⟩

/-- A call comes to the check of the limit only after all else that can fail. -/
theorem check_invoke (store : Store) (settings : Settings) (run : Runner) (slot : Slot)
    (f : FunctionValue) (args : List Value) (next : Option Value → Exec α) :
    (do checkDepth settings; let value ← invoke store settings run slot f args; next value) =
      (do
        let value ← enter settings f args
          (return (← body store settings run f.body slot (f.params.zip args)).value)
        next value) := by
  unfold enter
  rw [LawfulMonad.bind_assoc]
  rfl

namespace Steps

variable {store : Store} {settings settings' : Settings}
  {R : (α : Type) → Exec α → Exec α → Prop} (c : Steps R)
  {run run' : Runner} {slot : Slot}

include c

theorem mapM {f : ι → Exec α} (each : ∀ i, R α (f i) (f i)) (is : List ι) :
    R (List α) (is.mapM f) (is.mapM f) := by
  induction is with
  | nil =>
    rw [List.mapM_nil]
    exact c.pure []
  | cons i is ih =>
    rw [List.mapM_cons]
    apply c.bind (each i)
    intro a _
    apply c.bind ih
    intro as _
    exact c.pure (a :: as)

theorem forM {f : ι → Exec Unit} (each : ∀ i, R Unit (f i) (f i)) (is : List ι) :
    R Unit (is.forM f) (is.forM f) := by
  induction is with
  | nil => exact c.pure ()
  | cons i is ih => exact c.bind (each i) fun _ _ => ih

theorem log_bind {x y : Exec α} {event : Nat → Event}
    (logged : R Unit (Exec.calls >>= fun calls => .log (event calls))
      (Exec.calls >>= fun calls => .log (event calls))) (next : R α x y) :
    R α (Exec.calls >>= fun calls => Exec.log (event calls) >>= fun _ => x)
      (Exec.calls >>= fun calls => Exec.log (event calls) >>= fun _ => y) := by
  have both := c.bind logged fun _ _ => next
  rwa [LawfulMonad.bind_assoc, LawfulMonad.bind_assoc] at both

theorem required (op : Operation) (params : Parameters) (key : String) :
    R String (required op params key) (required op params key) := by
  unfold Execution.required
  cases params.get? key with
  | some text => exact c.pure text
  | none => exact c.fail _ nofun

theorem bindTarget (name : Option String) (value : Option Value) :
    R Unit (bindTarget slot name value) (bindTarget slot name value) := by
  unfold Execution.bindTarget
  split
  · exact c.bindName slot _ _
  · exact c.pure ()

theorem assign (op : Operation) (params : Parameters) :
    R Exit (assign slot op params) (assign slot op params) := by
  apply c.bind (c.required op params "var_name")
  intro name _
  apply c.bind (c.required op params "value")
  intro raw _
  apply c.bind (c.coerce slot raw)
  intro value _
  exact c.bind (c.bindName slot name value) fun _ _ => c.pure _

theorem print (op : Operation) (params : Parameters) :
    R Exit (print slot op params) (print slot op params) := by
  apply c.bind (c.required op params "value")
  intro raw _
  apply c.bind (c.coerce slot raw)
  intro value _
  have printed := c.note (fun _ => .printed value.text) (fun _ => trivial) fun _ => rfl
  exact c.log_bind printed (c.pure _)

theorem binary (operator : BinaryOp) (op : Operation) (params : Parameters) :
    R Exit (binary operator slot op params) (binary operator slot op params) := by
  apply c.bind (c.required op params "left")
  intro raw _
  apply c.bind (c.coerce slot raw)
  intro left _
  apply c.bind (c.required op params "right")
  intro raw' _
  apply c.bind (c.coerce slot raw')
  intro right _
  apply c.bind (c.eval operator left right)
  intro value _
  exact c.bind (c.bindTarget _ _) fun _ _ => c.pure _

theorem giveBack (params : Parameters) :
    R Exit (giveBack slot params) (giveBack slot params) := by
  have value : R (Option Value) ((params.get? "value").mapM fun raw => Exec.coerce slot raw)
      ((params.get? "value").mapM fun raw => Exec.coerce slot raw) := by
    cases params.get? "value" with
    | none => exact c.pure none
    | some raw => exact c.bind (c.coerce slot raw) fun v _ => c.pure (some v)
  apply c.bind value
  intro value _
  have returned := c.note (fun calls => .returned value slot calls) (fun _ => rfl) fun _ => rfl
  exact c.log_bind returned (c.pure _)

theorem define (op : Operation) (params : Parameters) :
    R Exit (define slot op params) (define slot op params) := by
  apply c.bind (c.required op params "name")
  intro name _
  exact c.bind (c.bindName slot name _) fun _ _ => c.pure _

theorem resolveFunction (name : String) :
    R FunctionValue (resolveFunction slot name) (resolveFunction slot name) := by
  apply c.bind (c.resolve slot name)
  intro value _
  cases value with
  | function f => exact c.pure f
  | _ => exact c.fail _ nofun

theorem block {ops : List Operation} (inside : ∀ op ∈ ops, R Exit (run slot op) (run' slot op))
    (exits : ∀ op ∈ ops, op.opcode ≠ .giveBack → ∀ exit, (run slot op).Gives exit →
      Settings.Agree settings settings' exit) :
    R Exit (block settings run slot ops) (block settings' run' slot ops) := by
  induction ops with
  | nil => exact c.pure _
  | cons op rest ih =>
    have later := ih (fun other there => inside other (List.mem_cons_of_mem op there))
      (fun other there => exits other (List.mem_cons_of_mem op there))
    rw [Execution.block, Execution.block]
    by_cases skipped : op.opcode = .otherwise
    · rw [if_pos skipped, if_pos skipped]
      exact later
    · rw [if_neg skipped, if_neg skipped]
      apply c.bind (inside op List.mem_cons_self)
      intro exit given
      by_cases back : op.opcode = .giveBack
      · rw [if_pos back, if_pos back]
        exact c.pure _
      · have agree := exits op List.mem_cons_self back exit given
        rw [if_neg back, if_neg back, agree]
        cases settings.returns.escaping exit with
        | some out => exact c.pure out
        | none => exact later

theorem forEach {round round' : Value → Exec Exit}
    (inside : ∀ item, R Exit (round item) (round' item))
    (exits : ∀ item exit, (round item).Gives exit → Settings.Agree settings settings' exit)
    (items : List Value) :
    R Exit (forEach settings round items) (forEach settings' round' items) := by
  induction items with
  | nil => exact c.pure _
  | cons item rest ih =>
    rw [Execution.forEach, Execution.forEach]
    apply c.bind (inside item)
    intro exit given
    have agree := exits item exit given
    rw [agree]
    cases settings.returns.escaping exit with
    | some out => exact c.pure out
    | none => exact ih

theorem repeatWhile {condition : Exec Bool} {round round' : Exec Exit}
    (unfinished : R Exit .unfinished .unfinished) (test : R Bool condition condition)
    (inside : R Exit round round')
    (exits : ∀ exit, round.Gives exit → Settings.Agree settings settings' exit) (fuel : Nat) :
    R Exit (repeatWhile settings condition round fuel)
      (repeatWhile settings' condition round' fuel) := by
  induction fuel with
  | zero => exact unfinished
  | succ fuel ih =>
    rw [Execution.repeatWhile, Execution.repeatWhile]
    apply c.bind test
    intro holds _
    cases holds with
    | false => exact c.pure _
    | true =>
      apply c.bind inside
      intro exit given
      have agree := exits exit given
      rw [agree]
      cases settings.returns.escaping exit with
      | some out => exact c.pure out
      | none => exact ih

theorem body {parent : OpId}
    (inside : ∀ child, R Exit (Execution.block settings run child (store.children (some parent)))
      (Execution.block settings' run' child (store.children (some parent))))
    (names : List (String × Value)) :
    R Exit (body store settings run parent slot names)
      (body store settings' run' parent slot names) := by
  apply c.inChild slot
  intro child
  have bound := c.forM (fun entry : String × Value => c.bindName child entry.1 entry.2) names
  exact c.bind bound fun _ _ => inside child

theorem conditional {op : Operation}
    (inside : ∀ condition parent, branch store op condition = some parent →
      R Exit (Execution.body store settings run parent slot [])
        (Execution.body store settings' run' parent slot []))
    (params : Parameters) :
    R Exit (conditional store settings run slot op params)
      (conditional store settings' run' slot op params) := by
  apply c.bind (c.required op params "condition")
  intro raw _
  apply c.bind (c.coerce slot raw)
  intro condition _
  cases chosen : branch store op condition with
  | some parent => exact inside condition parent chosen
  | none => exact c.pure _

theorem whileLoop {op : Operation} (unfinished : R Exit .unfinished .unfinished)
    (inside : R Exit (Execution.body store settings run op.id slot [])
      (Execution.body store settings' run' op.id slot []))
    (exits : ∀ exit, (Execution.body store settings run op.id slot []).Gives exit →
      Settings.Agree settings settings' exit) (fuel : Nat) (params : Parameters) :
    R Exit (whileLoop store settings fuel run slot op params)
      (whileLoop store settings' fuel run' slot op params) := by
  apply c.bind (c.required op params "condition")
  intro raw _
  have test := c.bind (c.coerce slot raw) fun value _ => c.pure value.isTruthy
  exact c.repeatWhile unfinished test inside exits fuel

theorem forLoop {op : Operation}
    (inside : ∀ names, R Exit (Execution.body store settings run op.id slot names)
      (Execution.body store settings' run' op.id slot names))
    (exits : ∀ names exit, (Execution.body store settings run op.id slot names).Gives exit →
      Settings.Agree settings settings' exit) (params : Parameters) :
    R Exit (forLoop store settings run slot op params)
      (forLoop store settings' run' slot op params) := by
  apply c.bind (c.required op params "iterator")
  intro iterator _
  apply c.bind (c.required op params "collection")
  intro raw _
  apply c.bind (c.coerce slot raw)
  intro collection _
  cases collection.items? with
  | none => exact c.fail _ nofun
  | some items =>
    exact c.forEach (fun item => inside [(iterator, item)]) (fun item => exits [(iterator, item)])
      items

theorem call {op : Operation}
    (inside : ∀ f args, R (Option Value)
      (enter settings f args
        (return (← Execution.body store settings run f.body slot (f.params.zip args)).value))
      (enter settings' f args
        (return (← Execution.body store settings' run' f.body slot (f.params.zip args)).value)))
    (params : Parameters) :
    R Exit (call store settings run slot op params)
      (call store settings' run' slot op params) := by
  apply c.bind (c.mapM (fun raw => c.coerce slot raw) _)
  intro args _
  apply c.bind (c.required op params "name")
  intro name _
  apply c.bind (c.resolveFunction name)
  intro f _
  -- The check and what it guards are one step: a relation may fit neither of them alone.
  rw [check_invoke, check_invoke]
  apply c.bind (inside f args)
  intro value _
  exact c.bind (c.bindTarget _ value) fun _ _ => c.pure _

theorem perform {op : Operation} (fuel : Nat)
    (conditional : op.opcode = .conditional → ∀ params,
      R Exit (Execution.conditional store settings run slot op params)
        (Execution.conditional store settings' run' slot op params))
    (whileLoop : op.opcode = .whileLoop → ∀ params,
      R Exit (Execution.whileLoop store settings fuel run slot op params)
        (Execution.whileLoop store settings' fuel run' slot op params))
    (forLoop : op.opcode = .forLoop → ∀ params,
      R Exit (Execution.forLoop store settings run slot op params)
        (Execution.forLoop store settings' run' slot op params))
    (call : op.opcode = .call → ∀ params,
      R Exit (Execution.call store settings run slot op params)
        (Execution.call store settings' run' slot op params)) :
    R Exit (perform store settings fuel run slot op)
      (perform store settings' fuel run' slot op) := by
  unfold Execution.perform
  cases opcode : op.opcode with
  | assign => exact c.assign op _
  | print => exact c.print op _
  | binary operator => exact c.binary operator op _
  | conditional => exact conditional opcode _
  | whileLoop => exact whileLoop opcode _
  | forLoop => exact forLoop opcode _
  | giveBack => exact c.giveBack _
  | function => exact c.define op _
  | call => exact call opcode _
  | otherwise => exact c.pure _
  | breakLoop => exact c.pure _
  | continueLoop => exact c.pure _
  | unknown tag => exact c.pure _

end Steps

namespace Congruence

variable {store : Store} {settings settings' : Settings}
  {R : (α : Type) → Exec α → Exec α → Prop} (c : Congruence settings settings' R)
  {run run' : Runner} {slot : Slot}

include c

section Inside

variable (inside : ∀ slot, ∀ op ∈ store.allOperations, R Exit (run slot op) (run' slot op))
  (same : SameExits store settings settings' run)

include inside same

theorem children (slot : Slot) (parent : Option OpId) :
    R Exit (Execution.block settings run slot (store.children parent))
      (Execution.block settings' run' slot (store.children parent)) := by
  have stored : ∀ op ∈ store.children parent, op ∈ store.allOperations := by
    intro op there
    exact (Store.mem_children.1 there).1
  apply c.block
  · intro op there
    exact inside slot op (stored op there)
  · intro op there
    exact same.exits slot op (stored op there)

theorem body (slot : Slot) (parent : OpId) (names : List (String × Value)) :
    R Exit (body store settings run parent slot names)
      (body store settings' run' parent slot names) :=
  c.toSteps.body (fun child => c.children inside same child (some parent)) names

theorem perform (fuel : Nat) {op : Operation} (stored : op ∈ store.allOperations) :
    R Exit (perform store settings fuel run slot op)
      (perform store settings' fuel run' slot op) := by
  have bodies := c.body inside same slot
  refine c.toSteps.perform fuel ?conditional ?whileLoop ?forLoop ?call
  case conditional => exact fun _ params => c.conditional (fun _ parent _ => bodies parent []) params
  case whileLoop =>
    intro opcode params
    have rounds := same.rounds slot [] op stored (.inl opcode)
    exact c.whileLoop c.unfinished (bodies op.id []) rounds fuel params
  case forLoop =>
    intro opcode params
    exact c.forLoop (bodies op.id) (fun names => same.rounds slot names op stored (.inr opcode))
      params
  case call =>
    intro _ params
    refine c.call (fun f args => ?_) params
    exact c.enter f args (c.bind (bodies f.body _) fun exit _ => c.pure exit.value)

end Inside

section Runs

variable (same : ∀ fuel, SameExits store settings settings' (OpTree.execute store settings fuel))

include same

theorem execute (fuel : Nat) (slot : Slot) {op : Operation} (stored : op ∈ store.allOperations) :
    R Exit (execute store settings fuel slot op) (execute store settings' fuel slot op) := by
  induction fuel generalizing slot op with
  | zero => exact c.unfinished
  | succ fuel ih =>
    exact c.log_bind (c.start op slot)
      (c.perform (fun slot op inside => ih slot inside) (same fuel) fuel stored)

theorem runProgram (fuel : Nat) :
    R Exit (runProgram store settings fuel) (runProgram store settings' fuel) :=
  c.children (fun slot _ stored => c.execute same fuel slot stored) (same fuel) Scopes.root none

end Runs

end Congruence

end Execution

end OpTree
