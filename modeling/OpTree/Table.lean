set_option autoImplicit false

/-!
# Tables with keys that are never used again

A table assigns a key to each row that is inserted: one more than the greatest key ever used,
and at least one. The greatest key is remembered after its row is gone, so no key comes twice.
Rows are kept in the order of their keys. Once the greatest integer has been used, nothing can
be inserted any more.
-/

namespace OpTree

structure Table (Row : Type) where
  rows : List (Int64 × Row)
  /-- The greatest key ever used, zero if there was none. -/
  last : Int64
  ascending : rows.Pairwise fun a b => a.1.toInt < b.1.toInt
  bounded : ∀ row ∈ rows, row.1.toInt ≤ last.toInt
  nonneg : 0 ≤ last.toInt
  deriving DecidableEq, Repr

theorem toInt_add_one {n : Int64} (room : n.toInt < 0x7FFFFFFFFFFFFFFF) :
    (n + 1).toInt = n.toInt + 1 := by
  have low := n.le_toInt
  have one : (1 : Int64).toInt = 1 := by decide
  rw [Int64.toInt_add, one]
  exact Int.bmod_eq_of_le (by omega) (by omega)

namespace Table

variable {Row : Type}

def empty : Table Row where
  rows := []
  last := 0
  ascending := List.Pairwise.nil
  bounded := by simp
  nonneg := by decide

def insert (t : Table Row) (row : Row) : Option (Int64 × Table Row) :=
  if room : t.last.toInt < 0x7FFFFFFFFFFFFFFF then
    have next : (t.last + 1).toInt = t.last.toInt + 1 := toInt_add_one room
    some (t.last + 1,
      { rows := t.rows ++ [(t.last + 1, row)]
        last := t.last + 1
        ascending := by
          refine List.pairwise_append.2 ⟨t.ascending, List.pairwise_singleton _ _, ?_⟩
          intro a ha b hb
          have := t.bounded a ha
          rw [List.mem_singleton.1 hb, next]
          omega
        bounded := by
          intro a ha
          rcases List.mem_append.1 ha with ha | ha
          · have := t.bounded a ha
            omega
          · exact Int.le_of_eq (congrArg (fun entry => entry.1.toInt) (List.mem_singleton.1 ha))
        nonneg := by have := t.nonneg; omega })
  else
    none

theorem insert_eq_some {t next : Table Row} {row : Row} {key : Int64}
    (inserted : t.insert row = some (key, next)) :
    key.toInt = t.last.toInt + 1 ∧ next.rows = t.rows ++ [(key, row)] ∧ next.last = key := by
  unfold insert at inserted
  split at inserted
  case isTrue room =>
    cases inserted
    exact ⟨toInt_add_one room, rfl, rfl⟩
  case isFalse => cases inserted

def get? (t : Table Row) (key : Int64) : Option Row :=
  (t.rows.find? fun entry => entry.1 == key).map Prod.snd

def map (t : Table Row) (change : Int64 → Row → Row) : Table Row where
  rows := t.rows.map fun entry => (entry.1, change entry.1 entry.2)
  last := t.last
  ascending := by
    rw [List.pairwise_map]
    exact t.ascending
  bounded := by
    intro entry h
    obtain ⟨old, hold, rfl⟩ := List.mem_map.1 h
    exact t.bounded old hold
  nonneg := t.nonneg

def filter (t : Table Row) (keep : Int64 → Row → Bool) : Table Row where
  rows := t.rows.filter fun entry => keep entry.1 entry.2
  last := t.last
  ascending := t.ascending.filter _
  bounded := fun entry h => t.bounded entry ((List.mem_filter.1 h).1)
  nonneg := t.nonneg

def ofRows? (rows : List (Int64 × Row)) (last : Int64) : Option (Table Row) :=
  if ascending : rows.Pairwise fun a b => a.1.toInt < b.1.toInt then
    if bounded : ∀ row ∈ rows, row.1.toInt ≤ last.toInt then
      if nonneg : 0 ≤ last.toInt then
        some { rows, last, ascending, bounded, nonneg }
      else none
    else none
  else none

theorem ofRows?_rows (t : Table Row) : ofRows? t.rows t.last = some t := by
  simp [ofRows?, t.ascending, t.nonneg]
  exact fun a b h => t.bounded (a, b) h

/-- The table of rows under given keys in any order, if no key comes twice. -/
def ofKeyed? (rows : List (Int64 × Row)) : Option (Table Row) :=
  ofRows? (rows.mergeSort fun a b => decide (a.1.toInt ≤ b.1.toInt))
    (rows.foldl (fun last entry => if last.toInt < entry.1.toInt then entry.1 else last) 0)

def size (t : Table Row) : Nat :=
  t.rows.length

end Table

end OpTree
