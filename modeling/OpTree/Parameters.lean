set_option autoImplicit false

namespace OpTree

structure Parameters where
  entries : List (String × Option String)
  distinct : (entries.map Prod.fst).Nodup
  deriving DecidableEq, Repr

namespace Parameters

def empty : Parameters where
  entries := []
  distinct := List.nodup_nil

def contains (p : Parameters) (key : String) : Bool :=
  p.entries.any fun entry => entry.1 == key

theorem contains_iff_mem {p : Parameters} {key : String} :
    p.contains key = true ↔ key ∈ p.entries.map Prod.fst := by
  simp [contains]

def push (p : Parameters) (key : String) (value : Option String) : Parameters :=
  if h : p.contains key = true then p
  else
    { entries := p.entries ++ [(key, value)]
      distinct := by
        rw [List.map_append, List.nodup_append]
        refine ⟨p.distinct, by simp, ?_⟩
        intro a ha b hb hab
        have hk : b = key := by simpa using hb
        exact h (contains_iff_mem.2 (hk ▸ hab ▸ ha)) }

/-- The parameters that rows of keys and texts give: the first row of a key counts. -/
def ofRows (rows : List (String × Option String)) : Parameters :=
  rows.foldl (fun p row => p.push row.1 row.2) empty

def get? (p : Parameters) (key : String) : Option String :=
  (p.entries.find? fun entry => entry.1 == key).bind Prod.snd

def size (p : Parameters) : Nat :=
  p.entries.length

def isEmpty (p : Parameters) : Bool :=
  p.entries.isEmpty

end Parameters

end OpTree
