import OpTree.BinaryEvaluation
import OpTree.Execution

set_option autoImplicit false

namespace OpTree

/-- The same value, up to the body of a function. -/
inductive Value.MatchedBy (body : OpId → OpId → Prop) : Value → Value → Prop
  | int (n : Int64) : MatchedBy body (.int n) (.int n)
  | float (x : Float) : MatchedBy body (.float x) (.float x)
  | bool (b : Bool) : MatchedBy body (.bool b) (.bool b)
  | str (s : String) : MatchedBy body (.str s) (.str s)
  | function (name : String) (params : List String) {i j : OpId} : body i j →
      MatchedBy body (.function ⟨name, params, i⟩) (.function ⟨name, params, j⟩)

inductive Exit.MatchedBy (val : Value → Value → Prop) : Exit → Exit → Prop
  | normal {v w : Option Value} : Option.Rel val v w → MatchedBy val (.normal v) (.normal w)
  | returned {v w : Option Value} : Option.Rel val v w → MatchedBy val (.returned v) (.returned w)

/-- The same error, up to the operation that lacks a parameter. -/
inductive EvalError.MatchedBy (id : OpId → OpId → Prop) : EvalError → EvalError → Prop
  | missing {i j : OpId} (opcode : Opcode) (key : String) : id i j →
      MatchedBy id (.missingParameter i opcode key) (.missingParameter j opcode key)
  | same {e : EvalError} : (∀ i opcode key, e ≠ .missingParameter i opcode key) → MatchedBy id e e

def OneToOne (id : OpId → OpId → Prop) : Prop :=
  ∀ {i j i' j'}, id i j → id i' j' → (i = i' ↔ j = j')

namespace Value

variable {body : OpId → OpId → Prop} {v w v' w' : Value}

theorem MatchedBy.kind (m : MatchedBy body v v') : v'.kind = v.kind := by
  cases m <;> rfl

theorem MatchedBy.isTruthy (m : MatchedBy body v v') : v'.isTruthy = v.isTruthy := by
  cases m <;> rfl

theorem MatchedBy.text (m : MatchedBy body v v') : v'.text = v.text := by
  cases m <;> rfl

theorem MatchedBy.items? (m : MatchedBy body v v') : v'.items? = v.items? := by
  cases m <;> rfl

theorem MatchedBy.number? (m : MatchedBy body v v') : Number.ofValue? v' = Number.ofValue? v := by
  cases m <;> rfl

theorem MatchedBy.refl_of_kind (plain : v.kind ≠ .function) : MatchedBy body v v := by
  cases v with
  | int n => exact .int n
  | float x => exact .float x
  | bool b => exact .bool b
  | str s => exact .str s
  | function f => exact absurd rfl plain

theorem MatchedBy.refl (same : ∀ i, body i i) : MatchedBy body v v := by
  cases v with
  | function f => exact .function f.name f.params (same f.body)
  | _ => exact .refl_of_kind nofun

theorem MatchedBy.eq (same : ∀ {i j}, body i j → i = j) (m : MatchedBy body v v') : v = v' := by
  cases m with
  | function name params ij => rw [same ij]
  | _ => rfl

theorem kind_of_mem_items {items : List Value} (found : v.items? = some items) :
    ∀ item ∈ items, item.kind ≠ .function := by
  cases v with
  | str s =>
    simp only [Value.items?, Option.some.injEq] at found
    subst items
    intro item inside
    obtain ⟨c, _, rfl⟩ := List.mem_map.1 inside
    nofun
  | _ => cases found

end Value

namespace BinaryOp

variable {body : OpId → OpId → Prop} {v w v' w' : Value}

theorem numbers_congr (operator : BinaryOp) (left : v.MatchedBy body v')
    (right : w.MatchedBy body w') : operator.numbers v' w' = operator.numbers v w := by
  unfold numbers
  rw [left.number?, right.number?, left.kind, right.kind]

theorem arithmetic_congr (operator : BinaryOp) (onInts : Int → Int → Int)
    (onFloats : Float → Float → Float) (left : v.MatchedBy body v') (right : w.MatchedBy body w') :
    operator.arithmetic onInts onFloats v' w' = operator.arithmetic onInts onFloats v w := by
  unfold arithmetic
  rw [numbers_congr operator left right]

theorem equal_congr (oneToOne : OneToOne body) (left : v.MatchedBy body v')
    (right : w.MatchedBy body w') : equal v' w' = equal v w := by
  cases left with
  | function name params ij =>
    cases right with
    | function name' params' kl =>
      simp only [equal]
      exact Bool.eq_iff_iff.2 (by simpa using (oneToOne ij kl).symm)
    | _ => rfl
  | _ => cases right <;> rfl

theorem compareBy_congr (operator : BinaryOp) (onTexts : String → String → Bool)
    (onNumbers : Number → Number → Bool) (left : v.MatchedBy body v')
    (right : w.MatchedBy body w') :
    operator.compareBy onTexts onNumbers v' w' = operator.compareBy onTexts onNumbers v w := by
  have same := numbers_congr operator left right
  cases left with
  | function =>
    simp only [compareBy]
    rw [same]
  | _ =>
    cases right with
    | function =>
      simp only [compareBy]
      rw [same]
    | _ => rfl

theorem eval_congr (operator : BinaryOp) (oneToOne : OneToOne body) (left : v.MatchedBy body v')
    (right : w.MatchedBy body w') : operator.eval v' w' = operator.eval v w := by
  cases operator with
  | add => exact arithmetic_congr _ _ _ left right
  | sub => exact arithmetic_congr _ _ _ left right
  | mul => exact arithmetic_congr _ _ _ left right
  | div =>
    simp only [eval, divide]
    rw [numbers_congr .div left right]
  | eq =>
    simp only [eval]
    rw [equal_congr oneToOne left right]
  | lt => exact compareBy_congr _ _ _ left right
  | gt =>
    exact compareBy_congr .gt (fun a b => decide (b < a)) (fun l r => less r l) left right

/-- What an operator can give: no function, and no error about a parameter or about calls. -/
def Plain : Except EvalError Value → Prop
  | .ok value => value.kind ≠ .function
  | .error error => (∀ i opcode key, error ≠ .missingParameter i opcode key) ∧
      ∀ n, error ≠ .callDepthExceeded n

theorem plain_numbers {f : Number × Number → Except EvalError Value} (operator : BinaryOp)
    (next : ∀ pair, Plain (f pair)) : Plain (operator.numbers v w >>= f) := by
  unfold numbers
  cases Number.ofValue? v with
  | none => exact ⟨nofun, nofun⟩
  | some l =>
    cases Number.ofValue? w with
    | none => exact ⟨nofun, nofun⟩
    | some r => exact next (l, r)

theorem plain_arithmetic (operator : BinaryOp) (onInts : Int → Int → Int)
    (onFloats : Float → Float → Float) : Plain (operator.arithmetic onInts onFloats v w) := by
  refine plain_numbers operator fun pair => ?_
  split
  · split
    · exact nofun
    · exact ⟨nofun, nofun⟩
  · exact nofun

theorem plain_compareBy (operator : BinaryOp) (onTexts : String → String → Bool)
    (onNumbers : Number → Number → Bool) : Plain (operator.compareBy onTexts onNumbers v w) := by
  unfold compareBy
  split
  · exact nofun
  · unfold numbers
    split
    · exact nofun
    · exact ⟨nofun, nofun⟩

theorem plain_eval (operator : BinaryOp) (left right : Value) :
    Plain (operator.eval left right) := by
  cases operator with
  | add => exact plain_arithmetic _ _ _
  | sub => exact plain_arithmetic _ _ _
  | mul => exact plain_arithmetic _ _ _
  | div =>
    refine plain_numbers .div fun pair => ?_
    simp only []
    split
    · exact ⟨nofun, nofun⟩
    · exact nofun
  | eq => exact nofun
  | lt => exact plain_compareBy _ _ _
  | gt => exact plain_compareBy .gt (fun a b => decide (b < a)) fun l r => less r l

end BinaryOp

end OpTree
