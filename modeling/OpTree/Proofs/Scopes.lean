import OpTree.Scopes

set_option autoImplicit false

namespace OpTree

theorem Scope.get?_bind (scope : Scope) (name other : String) (value : Value) :
    (scope.bind name value).get? other = if other = name then some value else scope.get? other := by
  obtain ⟨parent, bindings⟩ := scope
  simp only [Scope.bind, Scope.get?]
  induction bindings with
  | nil =>
    by_cases same : other = name
    · simp [bindIn, same]
    · simp [bindIn, same, Ne.symm same]
  | cons entry rest ih =>
    unfold bindIn
    split
    · by_cases same : other = name <;> grind
    · by_cases here : entry.1 = other <;> grind

namespace Scopes

def own? (s : Scopes) (slot : Slot) (name : String) : Option Value :=
  s.slots[slot]?.bind fun scope => scope.get? name

def parent? (s : Scopes) (slot : Slot) : Option Slot :=
  s.slots[slot]?.bind Scope.parent

/-- The scopes are as before, but for what one of them binds a name to. -/
structure SameBut (slot : Slot) (target : Option String) (before after : Scopes) : Prop where
  depth : after.depth = before.depth
  parent : ∀ i, after.parent? i = before.parent? i
  own : ∀ i name, (i = slot → target ≠ some name) → after.own? i name = before.own? i name

structure SameOutside (slot : Slot) (before after : Scopes) : Prop where
  depth : after.depth = before.depth
  others : ∀ i, i ≠ slot → after.slots[i]? = before.slots[i]?

/-- The scopes are there as they were, and there may be others after them. -/
structure KeptIn (before after : Scopes) : Prop where
  depth : before.depth ≤ after.depth
  same : ∀ i, i < before.depth → after.slots[i]? = before.slots[i]?

/-- Every scope was opened after the one around it. -/
def WellFormed (s : Scopes) : Prop :=
  ∀ slot parent, s.parent? slot = some parent → parent < slot

variable {s t u : Scopes} {slot parent : Slot} {name : String}

@[simp] theorem depth_openChild : (s.openChild parent).depth = s.depth + 1 := by
  simp [depth, openChild]

@[simp] theorem depth_bind (value : Value) : (s.bind slot name value).depth = s.depth := by
  simp [depth, bind]

theorem slots_bind (value : Value) (i : Slot) :
    (s.bind slot name value).slots[i]? =
      if i = slot then s.slots[i]?.map fun scope => scope.bind name value else s.slots[i]? := by
  simp only [bind, Array.getElem?_modify, eq_comm]

theorem slots_openChild (i : Slot) :
    (s.openChild parent).slots[i]? =
      if i = s.depth then some { parent := some parent, bindings := [] } else s.slots[i]? :=
  Array.getElem?_push

theorem slots_release (i : Slot) : (s.release slot).slots[i]? =
    if slot ≠ root ∧ slot ≤ i then none else s.slots[i]? := by
  unfold release
  by_cases kept : slot = root
  · rw [if_pos kept, if_neg fun gone => gone.1 kept]
  · have cut : (s.slots.shrink slot)[i]? = if slot ≤ i then none else s.slots[i]? := by
      rw [Array.shrink_eq_take, Array.getElem?_extract]
      grind
    rw [if_neg kept]
    simpa only [ne_eq, kept, not_false_eq_true, true_and] using cut

theorem own?_bind (value : Value) (live : slot < s.depth) (i : Slot) (other : String) :
    (s.bind slot name value).own? i other =
      if i = slot ∧ other = name then some value else s.own? i other := by
  unfold own?
  rw [slots_bind]
  by_cases here : i = slot
  · subst i
    have there : s.slots[slot]? = some s.slots[slot] := Array.getElem?_eq_getElem live
    simp [there, Scope.get?_bind]
  · simp [here]

@[simp] theorem parent?_bind (value : Value) (i : Slot) :
    (s.bind slot name value).parent? i = s.parent? i := by
  unfold parent?
  rw [slots_bind]
  split
  · cases s.slots[i]? <;> rfl
  · rfl

theorem SameBut.refl (target : Option String) : s.SameBut slot target s :=
  ⟨rfl, fun _ => rfl, fun _ _ _ => rfl⟩

theorem SameBut.bind (value : Value) (live : slot < s.depth) :
    s.SameBut slot (some name) (s.bind slot name value) := by
  refine ⟨depth_bind value, parent?_bind value, fun i other elsewhere => ?_⟩
  rw [own?_bind value live]
  refine if_neg fun ⟨here, same⟩ => elsewhere here ?_
  rw [same]

theorem SameOutside.refl : s.SameOutside slot s :=
  ⟨rfl, fun _ _ => rfl⟩

theorem SameOutside.trans (first : s.SameOutside slot t) (second : t.SameOutside slot u) :
    s.SameOutside slot u :=
  ⟨second.depth.trans first.depth,
    fun i other => (second.others i other).trans (first.others i other)⟩

theorem SameOutside.bind (value : Value) : s.SameOutside slot (s.bind slot name value) :=
  ⟨depth_bind value, fun i other => by rw [slots_bind, if_neg other]⟩

theorem KeptIn.openChild : s.KeptIn (s.openChild parent) where
  depth := by
    rw [depth_openChild]
    exact Nat.le_succ _
  same i there := by rw [slots_openChild, if_neg (Nat.ne_of_lt there)]

theorem KeptIn.release (kept : s.KeptIn t) (root : 0 < s.depth) : t.release s.depth = s := by
  have inner : s.depth ≠ Scopes.root := Nat.ne_of_gt root
  have slots : (t.release s.depth).slots = s.slots := by
    refine Array.ext_getElem? fun i => ?_
    rw [slots_release]
    by_cases there : i < s.depth
    · rw [if_neg fun gone => Nat.not_le_of_lt there gone.2, kept.same i there]
    · have beyond : s.depth ≤ i := Nat.le_of_not_lt there
      rw [if_pos ⟨inner, beyond⟩, Array.getElem?_eq_none beyond]
  exact congrArg Scopes.mk slots

/-- Releasing a scope undoes its opening and all that happened in it alone. -/
theorem SameOutside.release_openChild (root : 0 < s.depth)
    (inside : (s.openChild parent).SameOutside s.depth t) : t.release s.depth = s := by
  have opened : s.KeptIn (s.openChild parent) := .openChild
  refine KeptIn.release ⟨?_, fun i there => ?_⟩ root
  · rw [inside.depth]
    exact opened.depth
  · rw [inside.others i (Nat.ne_of_lt there), opened.same i there]

theorem lookupFrom_congr (below : s.WellFormed) (same : ∀ i, i ≤ slot → t.slots[i]? = s.slots[i]?)
    {fuel more : Nat} (enough : slot < fuel) (also : slot < more) :
    t.lookupFrom name more slot = s.lookupFrom name fuel slot := by
  -- Every step goes to an earlier slot, so fuel above the slot never runs out.
  induction slot using Nat.strongRecOn generalizing fuel more with
  | ind slot ih =>
    obtain ⟨fuel, rfl⟩ := Nat.exists_eq_add_one_of_ne_zero (Nat.ne_zero_of_lt enough)
    obtain ⟨more, rfl⟩ := Nat.exists_eq_add_one_of_ne_zero (Nat.ne_zero_of_lt also)
    unfold lookupFrom
    rw [same slot (Nat.le_refl slot)]
    cases found : s.slots[slot]? with
    | none => rfl
    | some scope =>
      simp only []
      cases scope.get? name with
      | some value => rfl
      | none =>
        simp only []
        cases around : scope.parent with
        | none => rfl
        | some parent =>
          have earlier : parent < slot := below slot parent (by simp [parent?, found, around])
          exact ih parent earlier (fun i le => same i (Nat.le_trans le (Nat.le_of_lt earlier)))
            (Nat.lt_of_lt_of_le earlier (Nat.le_of_lt_succ enough))
            (Nat.lt_of_lt_of_le earlier (Nat.le_of_lt_succ also))

/-- What is seen from a scope: what it binds itself, else what is seen from the one around it. -/
theorem lookup_eq (below : s.WellFormed) :
    s.lookup slot name =
      (s.own? slot name).or ((s.parent? slot).bind fun parent => s.lookup parent name) := by
  unfold lookup lookupFrom own? parent?
  cases found : s.slots[slot]? with
  | none => rfl
  | some scope =>
    simp only [Option.bind_some]
    cases scope.get? name with
    | some value => rfl
    | none =>
      simp only [Option.none_or]
      cases around : scope.parent with
      | none => rfl
      | some parent =>
        have earlier : parent < slot := below slot parent (by simp [parent?, found, around])
        exact lookupFrom_congr below (fun _ _ => rfl) (Nat.lt_succ_self parent) earlier

theorem WellFormed.initial : Scopes.initial.WellFormed := by
  intro slot parent around
  match slot with
  | 0 => simp [parent?, Scopes.initial] at around
  | _ + 1 => simp [parent?, Scopes.initial] at around

theorem WellFormed.openChild (below : s.WellFormed) (live : parent < s.depth) :
    (s.openChild parent).WellFormed := by
  intro i p around
  unfold parent? at around
  rw [slots_openChild] at around
  split at around
  case isTrue here =>
    obtain rfl : parent = p := by simpa using around
    rwa [here]
  case isFalse elsewhere => exact below i p around

theorem WellFormed.bind (below : s.WellFormed) (value : Value) :
    (s.bind slot name value).WellFormed := fun i p around =>
  below i p (by rwa [parent?_bind] at around)

theorem lookup_openChild (below : s.WellFormed) (live : parent < s.depth) :
    (s.openChild parent).lookup s.depth name = s.lookup parent name := by
  rw [lookup_eq (below.openChild live)]
  have new : (s.openChild parent).slots[s.depth]? =
      some { parent := some parent, bindings := [] } := by
    rw [slots_openChild, if_pos rfl]
  have empty : (s.openChild parent).own? s.depth name = none := by
    simp [own?, new, Scope.get?]
  have around : (s.openChild parent).parent? s.depth = some parent := by
    simp [parent?, new]
  rw [empty, around, Option.none_or]
  refine lookupFrom_congr below (fun i le => ?_) (Nat.lt_succ_self parent) (Nat.lt_succ_self parent)
  rw [slots_openChild, if_neg (Nat.ne_of_lt (Nat.lt_of_le_of_lt le live))]

theorem lookup_bind (below : s.WellFormed) (live : slot < s.depth) (value : Value)
    (other : String) :
    (s.bind slot name value).lookup slot other =
      if other = name then some value else s.lookup slot other := by
  rw [lookup_eq (below.bind value), own?_bind value live, parent?_bind]
  split
  case isTrue here => rw [if_pos here.2, Option.some_or]
  case isFalse elsewhere =>
    rw [if_neg fun same => elsewhere ⟨rfl, same⟩, lookup_eq below]
    cases around : s.parent? slot with
    | none => rfl
    | some parent =>
      have earlier : parent < slot := below slot parent around
      simp only [Option.bind_some]
      congr 1
      refine lookupFrom_congr below (fun i le => ?_) (Nat.lt_succ_self parent)
        (Nat.lt_succ_self parent)
      rw [slots_bind, if_neg (Nat.ne_of_lt (Nat.lt_of_le_of_lt le earlier))]

end Scopes

end OpTree
