import OpTree.Proofs.ParameterMaps
import OpTree.Proofs.Resequencing

set_option autoImplicit false

namespace OpTree

namespace Request

/-- Whether nothing but appends can change which operations are under a parent, and in which order.
Renumbering them does not. -/
def leavesOrder (parent : Option OpId) : Request → Bool
  | create _ other _ => other != parent
  | delete _ => false
  | _ => true

def appended? (parent : Option OpId) : Request → Answer → Option (OpId × Opcode)
  | append opcode other, .created id =>
    if other = parent then some (id, Opcode.ofTag opcode.tag) else none
  | _, _ => none

end Request

namespace Store

variable {s t : Store} {parent : Option OpId} {request : Request}

def listing (s : Store) (parent : Option OpId) : List (OpId × Opcode) :=
  (s.children parent).map fun op => (op.id, op.opcode)

/-- What a history appends under a parent, in the order of the calls. -/
def appendedUnder (s : Store) (parent : Option OpId) (history : List Request) :
    List (OpId × Opcode) :=
  (history.zip (s.answers history)).filterMap fun served => served.1.appended? parent served.2

theorem appendedUnder_cons (s : Store) (parent : Option OpId) (request : Request)
    (rest : List Request) : s.appendedUnder parent (request :: rest) =
      (request.appended? parent (s.serve request).1).toList ++
        (s.serve request).2.appendedUnder parent rest := by
  simp only [appendedUnder, answers, List.zip_cons_cons, List.filterMap_cons]
  cases request.appended? parent (s.serve request).1 <;> rfl

theorem listing_of_operations (same : t.operations = s.operations) (parent : Option OpId) :
    t.listing parent = s.listing parent := by
  rw [listing, listing, children, children, childrenById, childrenById, same]

theorem listing_append {opcode : Opcode} {other : Option OpId} {id : OpId}
    (made : s.append opcode other = .ok (id, t)) : t.listing parent = s.listing parent ++
      ((Request.append opcode other).appended? parent (.created id)).toList := by
  obtain ⟨op, lands, rfl, opcodes, rfl, _, last⟩ := lands_of_append made
  rw [Request.appended?, listing, listing]
  by_cases here : op.parent = parent
  · rw [if_pos here, ← here, last, List.map_append, ← opcodes]
    rfl
  · rw [if_neg here, lands.elsewhere parent (Ne.symm here)]
    exact (List.append_nil _).symm

theorem listing_resequence (sound : s.Sound) {other : Option OpId} {n : Nat}
    (done : s.resequence other = .ok (n, t)) : t.listing parent = s.listing parent := by
  obtain ⟨_, _, rfl⟩ := resequence_eq_ok.1 done
  rw [listing, children_resequenced (length_children_lt sound.positive), List.map_map]
  exact List.map_congr_left fun op _ => by simp

theorem listing_serve (sound : s.Sound) (leaves : request.leavesOrder parent) :
    (s.serve request).2.listing parent = s.listing parent ++
      (request.appended? parent (s.serve request).1).toList := by
  -- All but an append leave the listing as it is and count for nothing.
  have quiet : ∀ {t : Store}, t.listing parent = s.listing parent →
      t.listing parent = s.listing parent ++ (none : Option (OpId × Opcode)).toList := by
    intro t same
    rw [same]
    exact (List.append_nil _).symm
  cases attempted : s.attempt request with
  | error error =>
    rw [serve, attempted]
    cases request <;> exact quiet rfl
  | ok served =>
    have same : s.serve request = served := by rw [serve, attempted]
    cases request with
    | create opcode other sequence =>
      obtain ⟨⟨id, u⟩, made, rfl⟩ := map_eq_ok.1 attempted
      have apart : other ≠ parent := by simpa [Request.leavesOrder] using leaves
      have kept := (lands_of_create made).elsewhere parent (Ne.symm apart)
      rw [same]
      exact quiet (by rw [listing, kept, listing])
    | append opcode other =>
      obtain ⟨⟨id, u⟩, made, rfl⟩ := map_eq_ok.1 attempted
      rw [same]
      exact listing_append made
    | setParameter owner key value =>
      exact quiet (listing_of_operations (operations_setParameter s owner key value) parent)
    | addParameter owner key value =>
      exact quiet (listing_of_operations (operations_addParameter s owner key value) parent)
    | delete id => cases leaves
    | resequence other =>
      obtain ⟨⟨count, u⟩, done, rfl⟩ := map_eq_ok.1 attempted
      rw [same]
      exact quiet (listing_resequence sound done)
    | reopen =>
      have reopened : s.serve .reopen = (.reopened, s) := by rw [serve, attempt, reopen_eq]
      rw [reopened]
      exact quiet rfl

theorem listing_after (sound : s.Sound) (history : List Request)
    (leaves : ∀ request ∈ history, request.leavesOrder parent) :
    (s.after history).listing parent = s.listing parent ++ s.appendedUnder parent history := by
  induction history generalizing s with
  | nil => exact (List.append_nil _).symm
  | cons request rest ih =>
    have first := listing_serve sound (leaves request List.mem_cons_self)
    have later := ih (sound.change (s.change_serve request)) fun other there =>
      leaves other (List.mem_cons_of_mem request there)
    rw [after, later, first, appendedUnder_cons, List.append_assoc]

/-- A new operation comes behind its siblings with the same or a smaller sequence number, an
appended one behind all of them, and the rest stays as it was. The tag is read as the opcode that
has it, if there is one. So appends under a parent are listed in the order of the calls. -/
theorem new_operations_land (s : Store) (parent : Option OpId) :
    (∀ opcode sequence id t, s.create opcode parent sequence = .ok (id, t) →
      s.Lands t ⟨id, Opcode.ofTag opcode.tag, parent, sequence⟩) ∧
    (∀ opcode id t, s.append opcode parent = .ok (id, t) →
      ∃ op, s.Lands t op ∧ op.id = id ∧ op.opcode = Opcode.ofTag opcode.tag ∧ op.parent = parent ∧
        t.children parent = s.children parent ++ [op]) ∧
    (∀ tag, (Opcode.ofTag tag).tag = tag ∧
      (∀ known ∈ Opcode.glossary, known.tag = tag → Opcode.ofTag tag = known) ∧
      ((∀ known ∈ Opcode.glossary, known.tag ≠ tag) → Opcode.ofTag tag = .unknown tag)) ∧
    (s.Sound → ∀ history, (∀ request ∈ history, Request.leavesOrder parent request) →
      (s.after history).listing parent = s.listing parent ++ s.appendedUnder parent history) := by
  refine ⟨fun opcode sequence id t made => lands_of_create made, fun opcode id t made => ?_,
    fun tag => ⟨Opcode.tag_ofTag tag, fun known => Opcode.ofTag_of_listed,
      Opcode.ofTag_of_unlisted⟩, fun sound history leaves => listing_after sound history leaves⟩
  obtain ⟨op, lands, same, opcodes, under, _, last⟩ := lands_of_append made
  exact ⟨op, lands, same, opcodes, under, last⟩

/-- Equal numbers below zero, a tag that is read as a known opcode, a renumbering in between. -/
theorem new_operations_land_tied :
    let s := Store.empty.after [.append .function none, .create .print (some ⟨1⟩) (-4),
      .create (.unknown "print") (some ⟨1⟩) (-9), .create .call (some ⟨1⟩) (-4),
      .create .call (some ⟨1⟩) 2]
    let t := (s.serve (.create (.unknown "print") (some ⟨1⟩) (-4))).2
    let u := (s.serve (.append .print (some ⟨1⟩))).2
    let history : List Request := [.append (.unknown "print") (some ⟨1⟩), .append .call (some ⟨9⟩),
      .resequence (some ⟨1⟩), .append .call none, .append (.unknown "loop") (some ⟨1⟩)]
    s.create (.unknown "print") (some ⟨1⟩) (-4) = .ok (⟨6⟩, t) ∧
      s.Lands t ⟨⟨6⟩, .print, some ⟨1⟩, -4⟩ ∧
      (t.children (some ⟨1⟩)).map Operation.id = [⟨3⟩, ⟨2⟩, ⟨4⟩, ⟨6⟩, ⟨5⟩] ∧
      s.append .print (some ⟨1⟩) = .ok (⟨6⟩, u) ∧
      (∃ op, s.Lands u op ∧ u.children (some ⟨1⟩) = s.children (some ⟨1⟩) ++ [op]) ∧
      Opcode.print ∈ Opcode.glossary ∧ (∀ known ∈ Opcode.glossary, known.tag ≠ "loop") ∧
      s.Sound ∧ (∀ request ∈ history, Request.leavesOrder (some ⟨1⟩) request) ∧
      (s.after history).listing (some ⟨1⟩) = [(⟨3⟩, .print), (⟨2⟩, .print), (⟨4⟩, .call),
        (⟨5⟩, .call), (⟨6⟩, .print), (⟨8⟩, .unknown "loop")] := by
  intro s t u history
  obtain ⟨lands, last, tags, order⟩ := new_operations_land s (some ⟨1⟩)
  have made : s.create (.unknown "print") (some ⟨1⟩) (-4) = .ok (⟨6⟩, t) := by decide
  have appended : s.append .print (some ⟨1⟩) = .ok (⟨6⟩, u) := by decide
  have listed : Opcode.print ∈ Opcode.glossary := by decide
  have absent : ∀ known ∈ Opcode.glossary, known.tag ≠ "loop" := by decide
  have sound : s.Sound := sound_after _
  have leaves : ∀ request ∈ history, Request.leavesOrder (some ⟨1⟩) request := by decide
  have known : Opcode.ofTag "print" = .print := (tags "print").2.1 .print listed rfl
  have there : s.Lands t ⟨⟨6⟩, Opcode.ofTag "print", some ⟨1⟩, -4⟩ := lands _ _ _ _ made
  rw [known] at there
  obtain ⟨op, arrived, _, _, _, behind⟩ := last _ _ _ appended
  have before : s.listing (some ⟨1⟩) =
      [(⟨3⟩, .print), (⟨2⟩, .print), (⟨4⟩, .call), (⟨5⟩, .call)] := by decide
  have added : s.appendedUnder (some ⟨1⟩) history = [(⟨6⟩, .print), (⟨8⟩, .unknown "loop")] := by
    decide
  refine ⟨made, there, by decide, appended, ⟨op, arrived, behind⟩, listed, absent, sound, leaves,
    ?_⟩
  rw [order sound history leaves, before, added]
  rfl

end Store

end OpTree
