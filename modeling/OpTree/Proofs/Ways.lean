import OpTree.Proofs.CallLimit
import OpTree.Proofs.WhileLoops

set_option autoImplicit false

namespace OpTree

def Scopes.bindAll (s : Scopes) (slot : Slot) (names : List (String × Value)) : Scopes :=
  names.foldl (fun scopes entry => scopes.bind slot entry.1 entry.2) s

theorem Scopes.depth_bindAll (s : Scopes) (slot : Slot) (names : List (String × Value)) :
    (s.bindAll slot names).depth = s.depth := by
  induction names generalizing s with
  | nil => rfl
  | cons entry rest ih => exact (ih _).trans (depth_bind entry.2)

def RunState.inBody (s : RunState) (slot : Slot) (names : List (String × Value)) : RunState :=
  { s with scopes := (s.scopes.openChild slot).bindAll s.scopes.depth names }

theorem RunState.live_inBody (s : RunState) (slot : Slot) (names : List (String × Value)) :
    s.scopes.depth < (s.inBody slot names).scopes.depth := by
  rw [inBody, Scopes.depth_bindAll, Scopes.depth_openChild]
  exact Nat.lt_succ_self _

namespace Execution

section Ways

variable (store : Store) (settings : Settings)

/-- An `if` or a loop comes to run what is under a parent with some names bound. -/
inductive Enters (fuel : Nat) (slot : Slot) (op : Operation) (s : RunState) :
    OpId → List (String × Value) → Prop
  | branch {raw : String} {condition : Value} {parent : OpId} : op.opcode = .conditional →
      (store.parametersOf op.id).get? "condition" = some raw →
      s.scopes.coerce slot raw = .ok condition → branch store op condition = some parent →
      Enters fuel slot op s parent []
  | round {raw : String} {condition : Value} : op.opcode = .whileLoop →
      (store.parametersOf op.id).get? "condition" = some raw →
      s.scopes.coerce slot raw = .ok condition → condition.isTruthy →
      Enters fuel slot op s op.id []
  | item {iterator raw : String} {collection item : Value} {earlier later : List Value} :
      op.opcode = .forLoop → (store.parametersOf op.id).get? "iterator" = some iterator →
      (store.parametersOf op.id).get? "collection" = some raw →
      s.scopes.coerce slot raw = .ok collection →
      collection.items? = some (earlier ++ item :: later) →
      (∀ other ∈ earlier, ∃ exit, settings.returns.escaping exit = none ∧
        ((body store settings (execute store settings fuel) op.id slot
          [(iterator, other)]).run s).ending = .done exit) →
      Enters fuel slot op s op.id [(iterator, item)]

/-- The run of a block comes to an operation in some scope and state, through bodies inside the
block but through no call. -/
inductive Reaches : Nat → Slot → List Operation → RunState → Operation → Slot → RunState → Prop
  | here {fuel : Nat} {slot : Slot} {op : Operation} {rest : List Operation} {s : RunState} :
      op.opcode ≠ .otherwise → Reaches (fuel + 1) slot (op :: rest) s op slot s
  | skip {fuel : Nat} {slot scope : Slot} {op r : Operation} {rest : List Operation}
      {s t : RunState} : op.opcode = .otherwise → Reaches fuel slot rest s r scope t →
      Reaches fuel slot (op :: rest) s r scope t
  | next {fuel : Nat} {slot scope : Slot} {op r : Operation} {rest : List Operation}
      {s t : RunState} {exit : Exit} : op.opcode ≠ .otherwise → op.opcode ≠ .giveBack →
      settings.returns.escaping exit = none →
      ((execute store settings fuel slot op).run s).ending = .done exit →
      Reaches fuel slot rest ((execute store settings fuel slot op).run s).state r scope t →
      Reaches fuel slot (op :: rest) s r scope t
  | inside {fuel : Nat} {slot scope : Slot} {op r : Operation} {rest : List Operation}
      {s t : RunState} {parent : OpId} {names : List (String × Value)} :
      Enters store settings fuel slot op s parent names →
      Reaches fuel s.scopes.depth (store.children (some parent)) (s.inBody slot names) r scope t →
      Reaches (fuel + 1) slot (op :: rest) s r scope t

variable {store settings} {fuel : Nat} {slot scope : Slot} {op r : Operation} {s t : RunState}

theorem Reaches.widen (way : Reaches store settings fuel slot [op] s r scope t)
    (rest : List Operation) : Reaches store settings fuel slot (op :: rest) s r scope t := by
  cases way with
  | here kept => exact .here kept
  | skip _ way => cases way
  | next _ _ _ _ way => cases way
  | inside enters way => exact .inside enters way

end Ways

section Bodies

variable (store : Store) (settings : Settings) {run : Runner} {s : RunState}

theorem run_forM_bindName (child : Slot) (names : List (String × Value)) (s : RunState) :
    (names.forM fun entry => Exec.bindName child entry.1 entry.2).run s =
      { ending := .done ()
        state := { s with scopes := s.scopes.bindAll child names }
        events := names.map fun entry => .bound child entry.1 entry.2 } := by
  induction names generalizing s with
  | nil => rfl
  | cons entry rest ih =>
    change (Exec.bind (Exec.bindName child entry.1 entry.2) fun _ => rest.forM _).run s = _
    rw [Exec.run_bind, Exec.run_bindName]
    simp only [ih]
    rfl

theorem run_body (slot : Slot) (parent : OpId) (names : List (String × Value)) (s : RunState) :
    (body store settings run parent slot names).run s =
      let o := (block settings run s.scopes.depth (store.children (some parent))).run
        (s.inBody slot names)
      { ending := o.ending
        state := { o.state with scopes := o.state.scopes.release s.scopes.depth }
        events := names.map (fun entry => .bound s.scopes.depth entry.1 entry.2) ++ o.events } := by
  change (Exec.inChild slot fun child => Exec.bind _ _).run s = _
  rw [Exec.run_inChild, Exec.run_bind, run_forM_bindName]
  rfl

end Bodies

section Sound

variable {store : Store} {settings : Settings} {fuel : Nat} {slot scope : Slot} {op r : Operation}
  {s t : RunState} {ops : List Operation} {event : Event}

theorem mem_events_bind {α β : Type} {x : Exec α} (f : α → Exec β)
    (logged : event ∈ (x.run s).events) : event ∈ ((x >>= f).run s).events :=
  (Exec.prefix_run_bind x f s).subset logged

theorem mem_events_forEach {round : Value → Exec Exit}
    (kept : ∀ item, ((round item).run s).state = s) {item : Value} (earlier later : List Value)
    (passed : ∀ other ∈ earlier, ∃ exit, settings.returns.escaping exit = none ∧
      ((round other).run s).ending = .done exit) (logged : event ∈ ((round item).run s).events) :
    event ∈ ((forEach settings round (earlier ++ item :: later)).run s).events := by
  induction earlier with
  | nil => exact mem_events_bind _ logged
  | cons other earlier ih =>
    obtain ⟨exit, stays, ended⟩ := passed other List.mem_cons_self
    change event ∈ ((Exec.bind (round other) _).run s).events
    rw [Exec.run_bind, ended]
    simp only [stays, kept other]
    exact List.mem_append_right _ (ih fun another there => passed another (.tail _ there))

theorem Reaches.fuel_ne_zero (way : Reaches store settings fuel slot ops s r scope t) :
    fuel ≠ 0 := by
  induction way with
  | here _ => exact Nat.succ_ne_zero _
  | skip _ _ ih => exact ih
  | next _ _ _ _ _ ih => exact ih
  | inside _ _ _ => exact Nat.succ_ne_zero _

theorem Enters.mem_events {parent : OpId} {names : List (String × Value)}
    (enters : Enters store settings fuel slot op s parent names) (live : slot < s.scopes.depth)
    (enough : fuel ≠ 0) (logged : event ∈
      ((body store settings (execute store settings fuel) parent slot names).run s).events) :
    event ∈ ((execute store settings (fuel + 1) slot op).run s).events := by
  rw [run_execute_succ]
  refine List.mem_append_right _ ?_
  unfold perform
  cases enters with
  | branch opcode given coerced chosen =>
    simp only [opcode, conditional]
    rw [run_required_bind given, run_coerce_bind coerced, chosen]
    exact logged
  | round opcode given coerced truthy =>
    obtain ⟨fuel, rfl⟩ := Nat.exists_eq_succ_of_ne_zero enough
    simp only [opcode]
    rw [run_whileLoop given, run_repeatWhile_succ (run_condition_of_truthy coerced truthy)]
    exact mem_events_bind _ logged
  | item opcode named given coerced found passed =>
    simp only [opcode, forLoop]
    rw [run_required_bind named, run_required_bind given, run_coerce_bind coerced, found]
    refine mem_events_forEach (fun item => ?_) _ _ passed logged
    exact keeps_body store settings (execute_confined store settings fuel) op.id _ s live

/-- What a run reaches it starts. -/
theorem Reaches.started (way : Reaches store settings fuel slot ops s r scope t)
    (live : slot < s.scopes.depth) : t.calls = s.calls ∧ .started r scope s.calls ∈
      ((block settings (execute store settings fuel) slot ops).run s).events := by
  induction way with
  | here kept =>
    rw [block, if_neg kept]
    refine ⟨rfl, mem_events_bind _ ?_⟩
    rw [run_execute_succ]
    exact List.mem_append_left _ (List.mem_singleton_self _)
  | skip skipped _ ih =>
    rw [block, if_pos skipped]
    exact ih live
  | @next fuel slot scope op r rest s t exit kept forward stays ended _ ih =>
    obtain ⟨calls, scopes⟩ := execute_confined store settings fuel slot op s live
    have later := ih (scopes.depth ▸ live)
    rw [calls] at later
    rw [block, if_neg kept]
    change _ ∧ _ ∈ ((Exec.bind (execute store settings fuel slot op) _).run s).events
    rw [Exec.run_bind, ended]
    simp only [if_neg forward, stays]
    exact ⟨later.1, List.mem_append_right _ later.2⟩
  | @inside fuel slot scope op r rest s t parent names enters way ih =>
    obtain ⟨calls, inner⟩ := ih (s.live_inBody slot names)
    have kept : op.opcode ≠ .otherwise := by cases enters <;> simp_all
    rw [block, if_neg kept]
    refine ⟨calls, mem_events_bind _ (enters.mem_events live way.fuel_ne_zero ?_)⟩
    rw [run_body]
    exact List.mem_append_right _ inner

end Sound

end Execution

end OpTree
