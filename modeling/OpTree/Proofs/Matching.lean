import OpTree.Exec
import Mathlib.Data.List.Forall2

set_option autoImplicit false

/-!
# Computations that match

One computation is matched by another one if, from related states, the second one ends in a
related way whenever the first one ends, prints the same lines and leaves a related state. What
the second one does while the first one is unfinished is left open, so that the second one may
have more fuel. Binding keeps the relation (`MatchedBy.bind`), hence so does all that is
written with it.
-/

namespace OpTree

variable {α β γ δ : Type}

inductive Ending.MatchedBy (val : α → β → Prop) (err : EvalError → EvalError → Prop) :
    Ending α → Ending β → Prop
  | unfinished {ending : Ending β} : MatchedBy val err .unfinished ending
  | done {a : α} {b : β} : val a b → MatchedBy val err (.done a) (.done b)
  | failed {e e' : EvalError} : err e e' → MatchedBy val err (.failed e) (.failed e')

structure Outcome.MatchedBy (inv : RunState → RunState → Prop) (val : α → β → Prop)
    (err : EvalError → EvalError → Prop) (o : Outcome α) (p : Outcome β) : Prop where
  ending : o.ending.MatchedBy val err p.ending
  lines : o.ending ≠ .unfinished → p.lines = o.lines
  state : o.ending ≠ .unfinished → inv o.state p.state

/-- From states in a relation, a computation is matched by another one, up to such states. -/
def Exec.MatchedBy (inv : RunState → RunState → Prop) (val : α → β → Prop)
    (err : EvalError → EvalError → Prop) (x : Exec α) (y : Exec β) : Prop :=
  ∀ s t, inv s t → (x.run s).MatchedBy inv val err (y.run t)

variable {inv : RunState → RunState → Prop} {val : α → β → Prop} {val' : γ → δ → Prop}
  {err : EvalError → EvalError → Prop}

theorem Ending.MatchedBy.isUnfinished {e : Ending α} {e' : Ending β} (m : e.MatchedBy val err e')
    (stuck : e' = .unfinished) : e = .unfinished := by
  cases m with
  | unfinished => rfl
  | done => cases stuck
  | failed => cases stuck

/-- Endings that match in what stands for equality are equal, if either both or none is one. -/
theorem Ending.MatchedBy.eq {val : α → α → Prop} (values : ∀ a b, val a b → a = b)
    (errors : ∀ e e', err e e' → e = e') {e e' : Ending α} (m : e.MatchedBy val err e')
    (stuck : e = .unfinished → e' = .unfinished) : e' = e := by
  cases m with
  | unfinished => exact stuck rfl
  | done ab => rw [values _ _ ab]
  | failed ee => rw [errors _ _ ee]

theorem Outcome.MatchedBy.of_unfinished {o : Outcome α} (stuck : o.ending = .unfinished)
    (p : Outcome β) : o.MatchedBy inv val err p where
  ending := by rw [stuck]; exact .unfinished
  lines finished := absurd stuck finished
  state finished := absurd stuck finished

theorem Outcome.MatchedBy.after {o : Outcome α} {p : Outcome β} (m : o.MatchedBy inv val err p)
    {earlier earlier' : List Event}
    (same : earlier'.filterMap Event.line? = earlier.filterMap Event.line?) :
    (o.after earlier).MatchedBy inv val err (p.after earlier') where
  ending := m.ending
  lines finished := by
    have later : p.events.filterMap Event.line? = o.events.filterMap Event.line? :=
      m.lines finished
    simp only [Outcome.lines, Outcome.after, List.filterMap_append, same, later]
  state := m.state

namespace Exec

theorem MatchedBy.pure {a : α} {b : β} (ab : val a b) :
    (Pure.pure a : Exec α).MatchedBy inv val err (Pure.pure b) :=
  fun _ _ related => ⟨.done ab, fun _ => rfl, fun _ => related⟩

theorem MatchedBy.fail {e e' : EvalError} (related : err e e') :
    (Exec.fail e : Exec α).MatchedBy inv val err (Exec.fail e' : Exec β) :=
  fun _ _ states => ⟨.failed related, fun _ => rfl, fun _ => states⟩

theorem MatchedBy.unfinished (y : Exec β) :
    (Exec.unfinished : Exec α).MatchedBy inv val err y :=
  fun _ _ _ => .of_unfinished rfl _

/-- Events that print alike match, whatever else they tell. -/
theorem MatchedBy.log {event event' : Event} (same : event'.line? = event.line?) :
    (Exec.log event).MatchedBy inv Eq err (Exec.log event') := by
  intro s t related
  refine ⟨.done rfl, fun _ => ?_, fun _ => related⟩
  simp [run_log, Outcome.lines, List.filterMap_cons, same]

theorem MatchedBy.bind {x : Exec α} {y : Exec β} {f : α → Exec γ} {g : β → Exec δ}
    (first : x.MatchedBy inv val err y)
    (next : ∀ a b, val a b → (f a).MatchedBy inv val' err (g b)) :
    (x >>= f).MatchedBy inv val' err (y >>= g) := by
  intro s t related
  change ((Exec.bind x f).run s).MatchedBy inv val' err ((Exec.bind y g).run t)
  rw [run_bind, run_bind]
  obtain ⟨ending, lines, state⟩ := first s t related
  generalize x.run s = o at ending lines state ⊢
  generalize y.run t = p at ending lines state ⊢
  obtain ⟨left, before, events⟩ := o
  obtain ⟨right, before', events'⟩ := p
  cases ending with
  | unfinished => exact .of_unfinished rfl _
  | done ab => exact (next _ _ ab before before' (state nofun)).after (lines nofun)
  | failed ee => exact ⟨.failed ee, fun _ => lines nofun, fun _ => state nofun⟩

theorem MatchedBy.mapM {ι : Type} {f : ι → Exec α} {g : ι → Exec β}
    (each : ∀ i, (f i).MatchedBy inv val err (g i)) (is : List ι) :
    (is.mapM f).MatchedBy inv (List.Forall₂ val) err (is.mapM g) := by
  induction is with
  | nil =>
    rw [List.mapM_nil, List.mapM_nil]
    exact .pure .nil
  | cons i is ih =>
    rw [List.mapM_cons, List.mapM_cons]
    exact (each i).bind fun a b ab => ih.bind fun as bs all => .pure (.cons ab all)

theorem MatchedBy.forM {R : γ → δ → Prop} {f : γ → Exec Unit} {g : δ → Exec Unit}
    (each : ∀ c d, R c d → (f c).MatchedBy inv Eq err (g d)) {cs : List γ} {ds : List δ}
    (all : List.Forall₂ R cs ds) : (cs.forM f).MatchedBy inv Eq err (ds.forM g) := by
  induction all with
  | nil => exact .pure rfl
  | cons cd _ ih => exact (each _ _ cd).bind fun _ _ _ => ih

def endingOf : Except EvalError α → Ending α
  | .ok a => .done a
  | .error error => .failed error

theorem run_ofExcept (x : Except EvalError α) (s : RunState) :
    (ofExcept x).run s = { ending := endingOf x, state := s, events := [] } := by
  cases x <;> rfl

theorem MatchedBy.inspect {view : RunState → Except EvalError α}
    {view' : RunState → Except EvalError β}
    (seen : ∀ s t, inv s t → (endingOf (view s)).MatchedBy val err (endingOf (view' t))) :
    (Exec.inspect view).MatchedBy inv val err (Exec.inspect view') := by
  intro s t related
  rw [run_inspect, run_inspect, run_ofExcept, run_ofExcept]
  exact ⟨seen s t related, fun _ => rfl, fun _ => related⟩

end Exec

end OpTree
