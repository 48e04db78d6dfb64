import OpTree.Operation
import OpTree.Proofs.Words
import Mathlib.Data.List.Nodup

set_option autoImplicit false

namespace OpTree

structure Label where
  tag : String
  params : List (String × String)
  isTag : IsWord tag.toList
  areKeys : ∀ param ∈ params, IsWord param.1.toList
  distinct : (params.map Prod.fst).Nodup
  areValues : ∀ param ∈ params, param.2.toList ≠ [] ∧ '\n' ∉ param.2.toList ∧
    param.2.toList.getLast? ≠ some '\x0d'

inductive Outline where
  | nil
  | node (label : Label) (inner next : Outline)

/-- A node with its number, that of its parent unless it is at the top, and its children's. -/
structure Planted where
  number : Nat
  parent : Option Nat
  label : Label
  children : List Nat

namespace Outline

def size : Outline → Nat
  | nil => 0
  | node _ inner next => inner.size + next.size + 1

def parameterCount : Outline → Nat
  | nil => 0
  | node label inner next => label.params.length + inner.parameterCount + next.parameterCount

/-- The numbers of the nodes at the top, if the first one has a given number. -/
def row (first : Nat) : Outline → List Nat
  | nil => []
  | node _ inner next => first :: next.row (first + inner.size + 1)

/-- The nodes in the order of their numbers. -/
def plant (parent : Option Nat) (first : Nat) : Outline → List Planted
  | nil => []
  | node label inner next =>
    ⟨first, parent, label, inner.row (first + 1)⟩ ::
      (inner.plant (some first) (first + 1) ++ next.plant parent (first + inner.size + 1))

variable {parent : Option Nat} {first : Nat} {outline : Outline} {planted : Planted}

theorem map_number_plant (parent : Option Nat) (first : Nat) (outline : Outline) :
    (outline.plant parent first).map Planted.number = List.range' first outline.size := by
  induction outline generalizing parent first with
  | nil => rfl
  | node label inner next ihInner ihNext =>
    rw [plant, List.map_cons, List.map_append, ihInner, ihNext, size, List.range'_succ]
    rw [show first + inner.size + 1 = first + 1 + 1 * inner.size by omega,
      List.range'_append]

theorem length_plant (parent : Option Nat) (first : Nat) (outline : Outline) :
    (outline.plant parent first).length = outline.size := by
  rw [← List.length_map Planted.number, map_number_plant, List.length_range']

theorem number_of_mem_plant (there : planted ∈ outline.plant parent first) :
    first ≤ planted.number ∧ planted.number < first + outline.size := by
  have numbered : planted.number ∈ List.range' first outline.size := by
    rw [← map_number_plant parent]
    exact List.mem_map_of_mem there
  simpa [List.mem_range'_1] using numbered

theorem parent_of_mem_plant (there : planted ∈ outline.plant parent first) :
    planted.parent = parent ∨
      ∃ p, planted.parent = some p ∧ first ≤ p ∧ p < planted.number := by
  induction outline generalizing parent first with
  | nil => cases there
  | node label inner next ihInner ihNext =>
    rcases List.mem_cons.1 there with rfl | there
    · exact .inl rfl
    · rcases List.mem_append.1 there with there | there
      · have bounds := number_of_mem_plant there
        rcases ihInner there with same | ⟨p, same, low, high⟩
        · exact .inr ⟨first, same, Nat.le_refl _, by omega⟩
        · exact .inr ⟨p, same, by omega, high⟩
      · rcases ihNext there with same | ⟨p, same, low, high⟩
        · exact .inl same
        · exact .inr ⟨p, same, by omega, high⟩

/-- The numbers of the nodes below a given one, or of those at the top. -/
def under (target : Option Nat) (nodes : List Planted) : List Nat :=
  (nodes.filter fun node => node.parent == target).map Planted.number

section Under

variable {target : Option Nat} {nodes : List Planted}

theorem under_append (target : Option Nat) (nodes more : List Planted) :
    under target (nodes ++ more) = under target nodes ++ under target more := by
  simp [under]

theorem under_cons_self (planted : Planted) (nodes : List Planted) :
    under planted.parent (planted :: nodes) = planted.number :: under planted.parent nodes := by
  simp [under]

theorem under_cons_of_ne (other : planted.parent ≠ target) :
    under target (planted :: nodes) = under target nodes := by
  simp [under, other]

theorem under_plant_eq_nil (other : parent ≠ target)
    (outside : ∀ q, target = some q → q < first ∨ first + outline.size ≤ q) :
    under target (outline.plant parent first) = [] := by
  have none : ∀ node ∈ outline.plant parent first, ¬ (node.parent == target) := by
    intro node there here
    rw [beq_iff_eq] at here
    have bounds := number_of_mem_plant there
    rcases parent_of_mem_plant there with same | ⟨p, same, low, high⟩
    · exact other (same.symm.trans here)
    · rcases outside p (here.symm.trans same) with before | after
      · omega
      · omega
  rw [under, List.filter_eq_nil_iff.2 none, List.map_nil]

variable (above : ∀ p, parent = some p → p < first)

include above

theorem under_top : under parent (outline.plant parent first) = outline.row first := by
  induction outline generalizing first with
  | nil => rfl
  | node label inner next ihInner ihNext =>
    have below : under parent (inner.plant (some first) (first + 1)) = [] := by
      refine under_plant_eq_nil ?_ fun q same => .inl ?_
      · rintro rfl
        exact Nat.lt_irrefl _ (above first rfl)
      · have less := above q same
        omega
    have later : under parent (next.plant parent (first + inner.size + 1)) = _ :=
      ihNext fun p same => by
        have less := above p same
        omega
    have first := under_cons_self ⟨first, parent, label, inner.row (first + 1)⟩
      (inner.plant (some first) (first + 1) ++ next.plant parent (first + inner.size + 1))
    rw [plant, first, under_append, below, later, List.nil_append, row]

/-- The nodes that refer to a node are its children in their order. -/
theorem under_inner (there : planted ∈ outline.plant parent first) :
    under (some planted.number) (outline.plant parent first) = planted.children := by
  induction outline generalizing parent first with
  | nil => cases there
  | node label inner next ihInner ihNext =>
    rw [plant] at there ⊢
    have elsewhere : ∀ q, first ≤ q → parent ≠ some q := by
      rintro q low rfl
      have less := above q rfl
      omega
    rcases List.mem_cons.1 there with rfl | there
    · rw [under_cons_of_ne (elsewhere first (Nat.le_refl _)), under_append,
        under_top (fun p same => Option.some.inj same ▸ Nat.lt_succ_self first),
        under_plant_eq_nil (elsewhere first (Nat.le_refl _)) fun q same => .inl ?_,
        List.append_nil]
      cases same
      omega
    · rcases List.mem_append.1 there with there | there
      · have bounds := number_of_mem_plant there
        rw [under_cons_of_ne (elsewhere _ (by omega)), under_append,
          ihInner (fun p same => by cases same; omega) there,
          under_plant_eq_nil (elsewhere _ (by omega)) (fun q same => by cases same; omega),
          List.append_nil]
      · have bounds := number_of_mem_plant there
        have inside : under (some planted.number) (inner.plant (some first) (first + 1)) = [] := by
          refine under_plant_eq_nil (fun same => ?_) fun q same => ?_
          · cases same
            omega
          · cases same
            omega
        have later := ihNext (fun p same => by have less := above p same; omega) there
        rw [under_cons_of_ne (elsewhere _ (by omega)), under_append, inside, later,
          List.nil_append]

end Under

end Outline

end OpTree
