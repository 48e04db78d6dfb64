import OpTree.Proofs.Correspondence

set_option autoImplicit false

namespace OpTree

namespace Exec

variable {α β : Type} {inv : RunState → RunState → Prop} {val : α → β → Prop}
  {err : EvalError → EvalError → Prop}

/-- Ends well and leaves no trace but events that print nothing. -/
def Idle (x : Exec Exit) : Prop :=
  ∀ s, (x.run s).ending = .done (.normal none) ∧ (x.run s).state = s ∧ (x.run s).lines = []

theorem Idle.run_bind {x : Exec Exit} (idle : x.Idle) (f : Exit → Exec α) (s : RunState) :
    (x >>= f).run s = ((f (.normal none)).run s).after (x.run s).events := by
  change (Exec.bind x f).run s = _
  obtain ⟨ending, state, _⟩ := idle s
  rw [Exec.run_bind, ending, state]

theorem Idle.matched_left {x : Exec Exit} {f : Exit → Exec α} {y : Exec β} (idle : x.Idle)
    (next : (f (.normal none)).MatchedBy inv val err y) : (x >>= f).MatchedBy inv val err y := by
  intro s t related
  have silent : ([] : List Event).filterMap Event.line? = (x.run s).events.filterMap Event.line? :=
    (idle s).2.2.symm
  rw [idle.run_bind]
  exact (next s t related).after silent

theorem Idle.matched_right {y : Exec Exit} {g : Exit → Exec β} {x : Exec α} (idle : y.Idle)
    (next : x.MatchedBy inv val err (g (.normal none))) : x.MatchedBy inv val err (y >>= g) := by
  intro s t related
  have silent : (y.run t).events.filterMap Event.line? = ([] : List Event).filterMap Event.line? :=
    (idle t).2.2
  rw [idle.run_bind]
  exact (next s t related).after silent

end Exec

namespace Execution

theorem execute_idle (store : Store) (settings : Settings) (fuel : Nat) (slot : Slot)
    {op : Operation} (idle : op.opcode.isIdle) :
    (execute store settings (fuel + 1) slot op).Idle := by
  intro s
  have nothing : perform store settings fuel (execute store settings fuel) slot op =
      pure (.normal none) := by
    unfold perform
    cases opcode : op.opcode <;> simp_all [Opcode.isIdle]
  simp only [execute, nothing]
  exact ⟨rfl, rfl, rfl⟩

end Execution

namespace Correspondence

open Execution

variable {spare : Nat} {source target : Store} (c : Correspondence spare source target)
  {settings : Settings} {run run' : Runner} {e e' : Slot} {a b : Operation}

abbrev Leaves : Exit → Exit → Prop :=
  Exit.MatchedBy c.Val

structure Paired (run run' : Runner) : Prop where
  matched : ∀ {a b}, c.Op a b → ∀ e e',
    (run e a).MatchedBy (c.Sees e e') c.Leaves c.Err (run' e' b)
  confined : ∀ slot op, (run slot op).Confined slot
  confined' : ∀ slot op, (run' slot op).Confined slot
  idle : ∀ slot op, op.opcode.isIdle → run slot op = .unfinished ∨ (run slot op).Idle
  idle' : 0 < spare → ∀ slot op, op.opcode.isIdle → (run' slot op).Idle

theorem escaping_matched (returns : Returns) {x y : Exit} (xy : c.Leaves x y) :
    Option.Rel c.Leaves (returns.escaping x) (returns.escaping y) := by
  cases xy with
  | normal values => cases returns <;> exact .none
  | returned values =>
    cases returns with
    | shallow => exact .none
    | unwind => exact .some (.returned values)

/-- What goes on after an operation or a round: either its exit is passed on or the rest runs. -/
theorem pass_matched {inv : RunState → RunState → Prop} {err : EvalError → EvalError → Prop}
    {x y : Exit} (xy : c.Leaves x y) {rest rest' : Exec Exit}
    (next : rest.MatchedBy inv c.Leaves err rest') :
    (match settings.returns.escaping x with
      | some exit => pure exit
      | none => rest).MatchedBy inv c.Leaves err
      (match settings.returns.escaping y with
      | some exit => pure exit
      | none => rest') := by
  have both := c.escaping_matched settings.returns xy
  generalize settings.returns.escaping x = left at both ⊢
  generalize settings.returns.escaping y = right at both ⊢
  cases both with
  | some exits => exact .pure exits
  | none => exact next

theorem value_matched {x y : Exit} (xy : c.Leaves x y) : Option.Rel c.Val x.value y.value := by
  cases xy with
  | normal values => exact values
  | returned values => exact values

theorem block_left {inv : RunState → RunState → Prop} {err : EvalError → EvalError → Prop}
    (idle : a.opcode.isIdle) (runs : run e a = .unfinished ∨ (run e a).Idle)
    {rest : List Operation} {y : Exec Exit}
    (next : (block settings run e rest).MatchedBy inv c.Leaves err y) :
    (block settings run e (a :: rest)).MatchedBy inv c.Leaves err y := by
  rw [block]
  split
  · exact next
  · rcases runs with stuck | quiet
    · rw [stuck]
      exact .unfinished _
    · refine quiet.matched_left ?_
      rw [if_neg (by intro back; rw [back] at idle; cases idle)]
      cases settings.returns <;> exact next

theorem block_right {inv : RunState → RunState → Prop} {err : EvalError → EvalError → Prop}
    (idle : b.opcode.isIdle) (quiet : (run' e' b).Idle) {rest : List Operation} {x : Exec Exit}
    (next : x.MatchedBy inv c.Leaves err (block settings run' e' rest)) :
    x.MatchedBy inv c.Leaves err (block settings run' e' (b :: rest)) := by
  rw [block]
  split
  · exact next
  · refine quiet.matched_right ?_
    rw [if_neg (by intro back; rw [back] at idle; cases idle)]
    cases settings.returns <;> exact next

theorem block_matched (settings : Settings) (paired : c.Paired run run') {as bs : List Operation}
    (aligned : Aligned c.Op spare as bs) (e e' : Slot) :
    (block settings run e as).MatchedBy (c.Sees e e') c.Leaves c.Err
      (block settings run' e' bs) := by
  induction aligned with
  | nil => exact .pure (.normal .none)
  | both ab _ ih =>
    rw [block, block, c.opcode ab]
    split
    · exact ih
    · refine (paired.matched ab e e').bind fun x y xy => ?_
      split
      · exact .pure (.returned (c.value_matched xy))
      · exact c.pass_matched xy ih
  | left idle _ ih => exact c.block_left idle (paired.idle e _ idle) ih
  | right fuel idle _ ih => exact c.block_right idle (paired.idle' fuel e' _ idle) ih
  | stop as bs ab back =>
    rw [block, block, c.opcode ab, back]
    exact (paired.matched ab e e').bind fun x y xy => .pure (.returned (c.value_matched xy))

theorem bindName_matched (name : String) {v w : Value} (values : c.Val v w) :
    (Exec.bindName e name v).MatchedBy (c.Sees e e') Eq c.Err (Exec.bindName e' name w) :=
  fun _ _ view => ⟨.done rfl, fun _ => rfl, fun _ => view.bind name values⟩

theorem body_matched (paired : c.Paired run run') {i j : OpId}
    (aligned : Aligned c.Op spare (source.children (some i)) (target.children (some j)))
    {names names' : List (String × Value)}
    (bound : List.Forall₂ (fun x y => x.1 = y.1 ∧ c.Val x.2 y.2) names names') (e e' : Slot) :
    (body source settings run i e names).MatchedBy (c.Sees e e') c.Leaves c.Err
      (body target settings run' j e' names') := by
  intro s t view
  have binding : ∀ child child',
      (names.forM fun entry => Exec.bindName child entry.1 entry.2).MatchedBy
        (c.Sees child child') Eq c.Err
        (names'.forM fun entry => Exec.bindName child' entry.1 entry.2) := by
    intro child child'
    refine .forM (fun x y xy => ?_) bound
    rw [xy.1]
    exact c.bindName_matched y.1 xy.2
  have inside := ((binding s.scopes.depth t.scopes.depth).bind fun _ _ _ =>
    c.block_matched settings paired aligned _ _) _ _ view.openChild
  refine ⟨inside.ending, inside.lines, fun _ => ?_⟩
  -- Either run alone restores its scopes, so the states to compare are the ones before.
  rw [keeps_body source settings paired.confined i names s view.live,
    keeps_body target settings paired.confined' j names' t view.live']
  exact view

theorem required_matched (ab : c.Op a b) (params : Parameters) (key : String) :
    (required a params key).MatchedBy (c.Sees e e') Eq c.Err (required b params key) := by
  unfold required
  cases params.get? key with
  | some text => exact .pure rfl
  | none =>
    rw [c.opcode ab]
    exact .fail (.missing a.opcode key ⟨a, b, ab, rfl, rfl⟩)

theorem bind_coerce_required {α β : Type} {val : α → β → Prop} (ab : c.Op a b)
    (params : Parameters) (key : String) {f : Value → Exec α} {g : Value → Exec β}
    (next : ∀ v w, c.Val v w → (f v).MatchedBy (c.Sees e e') val c.Err (g w)) :
    (do let raw ← required a params key; let v ← Exec.coerce e raw; f v).MatchedBy
      (c.Sees e e') val c.Err
      (do let raw ← required b params key; let w ← Exec.coerce e' raw; g w) := by
  refine (c.required_matched ab params key).bind fun raw raw' same => ?_
  subst same
  exact (c.coerce_matched e e' raw).bind next

theorem bindTarget_matched {v w : Option Value} (values : Option.Rel c.Val v w)
    (name : Option String) {x y : Exit} (xy : c.Leaves x y) :
    (bindTarget e name v >>= fun _ => pure x).MatchedBy (c.Sees e e') c.Leaves c.Err
      (bindTarget e' name w >>= fun _ => pure y) := by
  have bound : (bindTarget e name v).MatchedBy (c.Sees e e') Eq c.Err (bindTarget e' name w) := by
    cases name with
    | none => exact .pure rfl
    | some name =>
      cases values with
      | none => exact .pure rfl
      | some values => exact c.bindName_matched name values
  exact bound.bind fun _ _ _ => .pure xy

theorem assign_matched (ab : c.Op a b) (params : Parameters) :
    (assign e a params).MatchedBy (c.Sees e e') c.Leaves c.Err (assign e' b params) := by
  refine (c.required_matched ab params "var_name").bind fun name name' same => ?_
  subst same
  refine c.bind_coerce_required ab params "value" fun v w values => ?_
  exact (c.bindName_matched name values).bind fun _ _ _ => .pure (.normal .none)

theorem print_matched (ab : c.Op a b) (params : Parameters) :
    (print e a params).MatchedBy (c.Sees e e') c.Leaves c.Err (print e' b params) := by
  refine c.bind_coerce_required ab params "value" fun v w values => ?_
  refine (Exec.MatchedBy.log ?_).bind fun _ _ _ => .pure (.normal .none)
  simp only [Event.line?, values.text]

theorem eval_matched (operator : BinaryOp) {l l' r r' : Value} (left : c.Val l l')
    (right : c.Val r r') : (Exec.ofExcept (operator.eval l r)).MatchedBy (c.Sees e e') c.Val c.Err
      (Exec.ofExcept (operator.eval l' r')) := by
  rw [BinaryOp.eval_congr operator c.oneToOne_body left right]
  have plain := BinaryOp.plain_eval operator l r
  cases result : operator.eval l r with
  | ok value =>
    rw [result] at plain
    exact .pure (.refl_of_kind plain)
  | error error =>
    rw [result] at plain
    exact .fail (.same plain.1)

theorem binary_matched (operator : BinaryOp) (ab : c.Op a b) (params : Parameters) :
    (binary operator e a params).MatchedBy (c.Sees e e') c.Leaves c.Err
      (binary operator e' b params) := by
  refine c.bind_coerce_required ab params "left" fun l l' left => ?_
  refine c.bind_coerce_required ab params "right" fun r r' right => ?_
  refine (c.eval_matched operator left right).bind fun v w values => ?_
  exact c.bindTarget_matched (.some values) _ (.normal (.some values))

theorem branch_matched (ab : c.Op a b) (opcode : a.opcode = .conditional) {v w : Value}
    (values : c.Val v w) : Option.Rel
      (fun i j => Aligned c.Op spare (source.children (some i)) (target.children (some j)))
      (branch source a v) (branch target b w) := by
  unfold branch
  rw [values.isTruthy]
  split
  · exact .some (c.inner ab (by rw [opcode]; rfl))
  · have tag : ∀ o, source.firstChild? a.id .otherwise = some o → o.opcode = .otherwise :=
      fun o found => (Store.firstChild?_some (by decide) found).2
    have both := c.otherwise ab opcode
    generalize source.firstChild? a.id .otherwise = left at both tag
    generalize target.firstChild? b.id .otherwise = right at both
    cases both with
    | none => exact .none
    | some oo => exact .some (c.inner oo (by rw [tag _ rfl]; rfl))

theorem conditional_matched (paired : c.Paired run run') (ab : c.Op a b)
    (opcode : a.opcode = .conditional) (params : Parameters) :
    (conditional source settings run e a params).MatchedBy (c.Sees e e') c.Leaves c.Err
      (conditional target settings run' e' b params) := by
  refine c.bind_coerce_required ab params "condition" fun v w values => ?_
  have branches := c.branch_matched ab opcode values
  generalize branch source a v = left at branches ⊢
  generalize branch target b w = right at branches ⊢
  cases branches with
  | some aligned => exact c.body_matched paired aligned .nil e e'
  | none => exact .pure (.normal .none)

theorem repeatWhile_matched {inv : RunState → RunState → Prop}
    {err : EvalError → EvalError → Prop} {test test' : Exec Bool} {round round' : Exec Exit}
    (tests : test.MatchedBy inv Eq err test') (rounds : round.MatchedBy inv c.Leaves err round')
    (fuel : Nat) : (repeatWhile settings test round fuel).MatchedBy inv c.Leaves err
      (repeatWhile settings test' round' (fuel + spare)) := by
  induction fuel with
  | zero => exact .unfinished _
  | succ fuel ih =>
    rw [Nat.succ_add]
    refine tests.bind fun holds holds' same => ?_
    subst same
    cases holds with
    | true => exact rounds.bind fun x y xy => c.pass_matched xy ih
    | false => exact .pure (.normal .none)

theorem whileLoop_matched (paired : c.Paired run run') (ab : c.Op a b)
    (opcode : a.opcode = .whileLoop) (fuel : Nat) (params : Parameters) :
    (whileLoop source settings fuel run e a params).MatchedBy (c.Sees e e') c.Leaves c.Err
      (whileLoop target settings (fuel + spare) run' e' b params) := by
  refine (c.required_matched ab params "condition").bind fun raw raw' same => ?_
  subst same
  refine c.repeatWhile_matched ?_ (c.body_matched paired ?_ .nil e e') fuel
  · exact (c.coerce_matched e e' raw).bind fun v w values => .pure values.isTruthy.symm
  · exact c.inner ab (by rw [opcode]; rfl)

theorem forEach_matched {inv : RunState → RunState → Prop} {err : EvalError → EvalError → Prop}
    {round round' : Value → Exec Exit} {items : List Value}
    (rounds : ∀ item ∈ items, (round item).MatchedBy inv c.Leaves err (round' item)) :
    (forEach settings round items).MatchedBy inv c.Leaves err (forEach settings round' items) := by
  induction items with
  | nil => exact .pure (.normal .none)
  | cons item rest ih =>
    refine (rounds item List.mem_cons_self).bind fun x y xy => c.pass_matched xy ?_
    exact ih fun other inside => rounds other (List.mem_cons_of_mem _ inside)

theorem forLoop_matched (paired : c.Paired run run') (ab : c.Op a b)
    (opcode : a.opcode = .forLoop) (params : Parameters) :
    (forLoop source settings run e a params).MatchedBy (c.Sees e e') c.Leaves c.Err
      (forLoop target settings run' e' b params) := by
  refine (c.required_matched ab params "iterator").bind fun iterator iterator' same => ?_
  subst same
  refine c.bind_coerce_required ab params "collection" fun v w values => ?_
  rw [values.items?, values.kind]
  cases found : v.items? with
  | none => exact .fail (.same nofun)
  | some items =>
    refine c.forEach_matched fun item inside => ?_
    refine c.body_matched paired (c.inner ab (by rw [opcode]; rfl)) (.cons ⟨rfl, ?_⟩ .nil) e e'
    exact .refl_of_kind (Value.kind_of_mem_items found item inside)

theorem calls_matched : Exec.calls.MatchedBy (c.Sees e e') Eq c.Err Exec.calls :=
  .inspect fun _ _ view => .done view.calls.symm

theorem giveBack_matched (params : Parameters) :
    (giveBack e params).MatchedBy (c.Sees e e') c.Leaves c.Err (giveBack e' params) := by
  have value : ((params.get? "value").mapM fun raw => Exec.coerce e raw).MatchedBy (c.Sees e e')
      (Option.Rel c.Val) c.Err ((params.get? "value").mapM fun raw => Exec.coerce e' raw) := by
    cases params.get? "value" with
    | none => exact .pure .none
    | some raw => exact (c.coerce_matched e e' raw).bind fun v w values => .pure (.some values)
  refine value.bind fun v w values => c.calls_matched.bind fun _ _ _ => ?_
  exact (Exec.MatchedBy.log (by rfl)).bind fun _ _ _ => .pure (.returned values)

theorem define_matched (ab : c.Op a b) (opcode : a.opcode = .function) (params : Parameters) :
    (define e a params).MatchedBy (c.Sees e e') c.Leaves c.Err (define e' b params) := by
  refine (c.required_matched ab params "name").bind fun name name' same => ?_
  subst same
  refine (c.bindName_matched name ?_).bind fun _ _ _ => .pure (.normal .none)
  exact .function name _ ⟨a, b, ab, opcode, rfl, rfl⟩

def Functions (f f' : FunctionValue) : Prop :=
  c.Val (.function f) (.function f')

theorem resolveFunction_matched (name : String) :
    (resolveFunction e name).MatchedBy (c.Sees e e') c.Functions c.Err
      (resolveFunction e' name) := by
  have resolved : (Exec.resolve e name).MatchedBy (c.Sees e e') c.Val c.Err
      (Exec.resolve e' name) := by
    refine .inspect fun s t view => ?_
    have seen := view.lookup name
    unfold Scopes.resolve
    generalize s.scopes.lookup e name = v at seen ⊢
    generalize t.scopes.lookup e' name = w at seen ⊢
    cases seen with
    | some values => exact .done values
    | none => exact .failed (.same nofun)
  refine resolved.bind fun v w values => ?_
  cases values with
  | function name params ij => exact .pure (.function name params ij)
  | _ => exact .fail (.same nofun)

theorem checkDepth_matched :
    (checkDepth settings).MatchedBy (c.Sees e e') Eq c.Err (checkDepth settings) := by
  unfold checkDepth
  cases settings.limit with
  | none => exact .pure rfl
  | some limit =>
    refine c.calls_matched.bind fun calls calls' same => ?_
    subst same
    split
    · exact .fail (.same nofun)
    · exact .pure rfl

theorem inCall_matched {α β : Type} {val : α → β → Prop} {x : Exec α} {y : Exec β}
    (inside : x.MatchedBy (c.Sees e e') val c.Err y) :
    (Exec.inCall x).MatchedBy (c.Sees e e') val c.Err (Exec.inCall y) := by
  intro s t view
  have deeper : c.Sees e e' { s with calls := s.calls + 1 } { t with calls := t.calls + 1 } := by
    rw [view.calls]
    exact view.withCalls (s.calls + 1)
  obtain ⟨ending, lines, state⟩ := inside _ _ deeper
  refine ⟨ending, lines, fun finished => ?_⟩
  have after := state finished
  have fewer := after.withCalls ((x.run { s with calls := s.calls + 1 }).state.calls - 1)
  rw [Exec.run_inCall, Exec.run_inCall]
  simp only [after.calls]
  exact fewer

theorem zip_matched (names : List String) {args args' : List Value}
    (values : List.Forall₂ c.Val args args') :
    List.Forall₂ (fun x y => x.1 = y.1 ∧ c.Val x.2 y.2) (names.zip args) (names.zip args') := by
  induction values generalizing names with
  | nil => cases names <;> exact .nil
  | cons value _ ih =>
    cases names with
    | nil => exact .nil
    | cons name names => exact .cons ⟨rfl, value⟩ (ih names)

theorem invoke_matched (paired : c.Paired run run') {f f' : FunctionValue} (ff : c.Functions f f')
    {args args' : List Value} (values : List.Forall₂ c.Val args args') :
    (invoke source settings run e f args).MatchedBy (c.Sees e e') (Option.Rel c.Val) c.Err
      (invoke target settings run' e' f' args') := by
  obtain ⟨name, params, i⟩ := f
  obtain ⟨name', params', j⟩ := f'
  cases ff with
  | function _ _ ij =>
    obtain ⟨a, b, ab, opcode, rfl, rfl⟩ := ij
    refine c.inCall_matched (c.calls_matched.bind fun _ _ _ => ?_)
    refine (Exec.MatchedBy.log (by rfl)).bind fun _ _ _ => ?_
    have aligned := c.inner ab (by rw [opcode]; rfl)
    exact (c.body_matched paired aligned (c.zip_matched params values) e e').bind
      fun x y xy => .pure (c.value_matched xy)

theorem call_matched (paired : c.Paired run run') (ab : c.Op a b) (params : Parameters) :
    (call source settings run e a params).MatchedBy (c.Sees e e') c.Leaves c.Err
      (call target settings run' e' b params) := by
  refine (Exec.MatchedBy.mapM (fun raw => c.coerce_matched e e' raw) _).bind
    fun args args' values => ?_
  refine (c.required_matched ab params "name").bind fun name name' same => ?_
  subst same
  refine (c.resolveFunction_matched name).bind fun f f' ff => ?_
  refine c.checkDepth_matched.bind fun _ _ _ => ?_
  refine (c.invoke_matched paired ff values).bind fun v w results => ?_
  exact c.bindTarget_matched results _ (.normal results)

theorem perform_matched (paired : c.Paired run run') (ab : c.Op a b) (fuel : Nat) :
    (perform source settings fuel run e a).MatchedBy (c.Sees e e') c.Leaves c.Err
      (perform target settings (fuel + spare) run' e' b) := by
  unfold perform
  rw [c.parameters ab, c.opcode ab]
  cases opcode : a.opcode with
  | assign => exact c.assign_matched ab _
  | print => exact c.print_matched ab _
  | binary operator => exact c.binary_matched operator ab _
  | conditional => exact c.conditional_matched paired ab opcode _
  | whileLoop => exact c.whileLoop_matched paired ab opcode fuel _
  | forLoop => exact c.forLoop_matched paired ab opcode _
  | giveBack => exact c.giveBack_matched _
  | function => exact c.define_matched ab opcode _
  | call => exact c.call_matched paired ab _
  | otherwise => exact .pure (.normal .none)
  | breakLoop => exact .pure (.normal .none)
  | continueLoop => exact .pure (.normal .none)
  | unknown tag => exact .pure (.normal .none)

/-- With fuel to spare, the operation that corresponds to one does what that does. -/
theorem execute_paired (settings : Settings) (fuel : Nat) :
    c.Paired (execute source settings fuel) (execute target settings (fuel + spare)) := by
  induction fuel with
  | zero =>
    -- Only the spare fuel lets an idle operation of the target end here.
    refine ⟨fun _ _ _ => .unfinished _, execute_confined _ _ _, execute_confined _ _ _,
      fun _ _ _ => .inl rfl, fun some slot op idle => ?_⟩
    obtain ⟨more, rfl⟩ := Nat.exists_eq_add_one_of_ne_zero (Nat.ne_of_gt some)
    rw [Nat.zero_add]
    exact execute_idle target settings more slot idle
  | succ fuel ih =>
    rw [Nat.succ_add]
    refine ⟨fun ab e e' => ?_, execute_confined _ _ _, execute_confined _ _ _,
      fun slot op idle => .inr (execute_idle source settings fuel slot idle),
      fun _ slot op idle => execute_idle target settings _ slot idle⟩
    refine c.calls_matched.bind fun _ _ _ => (Exec.MatchedBy.log (by rfl)).bind fun _ _ _ => ?_
    exact c.perform_matched ih ab fuel

theorem runProgram_matched (settings : Settings) (fuel : Nat) :
    (runProgram source settings fuel).MatchedBy (c.Sees Scopes.root Scopes.root) c.Leaves c.Err
      (runProgram target settings (fuel + spare)) :=
  c.block_matched settings (c.execute_paired settings fuel) c.roots _ _

end Correspondence

end OpTree
