import OpTree.Proofs.Placement
import OpTree.Proofs.Statements

set_option autoImplicit false

namespace OpTree

theorem Table.insert_eq_none {Row : Type} {t : Table Row} (row : Row) :
    t.insert row = none ↔ t.last = Int64.maxValue := by
  unfold Table.insert
  rw [eq_maxValue_iff]
  split <;> simp [*]

theorem Table.exists_insert {Row : Type} {t : Table Row} (room : t.last ≠ Int64.maxValue)
    (row : Row) : ∃ key next, t.insert row = some (key, next) ∧ key.toInt = t.last.toInt + 1 ∧
      next.rows = t.rows ++ [(key, row)] ∧ next.last = key := by
  cases inserted : t.insert row with
  | none => exact absurd ((Table.insert_eq_none row).1 inserted) room
  | some made => exact ⟨made.1, made.2, rfl, Table.insert_eq_some inserted⟩

namespace Store

variable {s : Store} {id owner : OpId} {parent : Option OpId} {error : StoreError}

/-- The operation is not stored, and that is the error. -/
def Lacks (s : Store) (id : OpId) (error : StoreError) : Prop :=
  ¬ s.contains id ∧ error = .noSuchOperation id

def RefusesCreation (s : Store) (parent : Option OpId) (error : StoreError) : Prop :=
  (∃ p, parent = some p ∧ s.Lacks p error) ∨
    (∀ p, parent = some p → s.contains p) ∧ s.operations.last = Int64.maxValue ∧
      error = .keysExhausted

def IsFullOfParameters (s : Store) (error : StoreError) : Prop :=
  s.parameters.last = Int64.maxValue ∧ error = .keysExhausted

def Refuses (s : Store) : Request → StoreError → Prop
  | .create _ parent _, error => s.RefusesCreation parent error
  | .append _ parent, error =>
    s.IsFullUnder parent ∧ error = .sequenceExhausted ∨
      ¬ s.IsFullUnder parent ∧ s.RefusesCreation parent error
  | .addParameter owner _ _, error =>
    s.Lacks owner error ∨ s.contains owner ∧ s.IsFullOfParameters error
  | .setParameter owner key _, error =>
    s.Lacks owner error ∨ s.contains owner ∧
      (∀ entry ∈ s.parameters.rows, ¬ (entry.2.owner = owner ∧ entry.2.key = key)) ∧
        s.IsFullOfParameters error
  | .delete id, error => s.Lacks id error
  | .resequence parent, error => ∃ p, parent = some p ∧ s.Lacks p error
  | .reopen, _ => False

theorem require_eq_error : s.require id = .error error ↔ s.Lacks id error := by
  unfold require Lacks
  split <;> simp [*, eq_comm]

theorem require_bind_eq_error {α : Type} {x : Except StoreError α} :
    (s.require id >>= fun _ => x) = .error error ↔
      s.Lacks id error ∨ s.contains id ∧ x = .error error := by
  rw [bind_eq_error, require_eq_error]
  refine or_congr_right ⟨fun ⟨_, known, refused⟩ => ⟨require_eq_ok.1 known, refused⟩, ?_⟩
  exact fun ⟨known, refused⟩ => ⟨(), require_eq_ok.2 known, refused⟩

theorem requireParent_eq_error : s.requireParent parent = .error error ↔
    ∃ p, parent = some p ∧ s.Lacks p error := by
  cases parent with
  | none => simp [requireParent]
  | some p => simp [requireParent, require_eq_error]

theorem create_eq_error {opcode : Opcode} {sequence : Int64} :
    s.create opcode parent sequence = .error error ↔ s.RefusesCreation parent error := by
  unfold create RefusesCreation
  rw [bind_eq_error, requireParent_eq_error]
  refine or_congr_right ?_
  constructor
  · rintro ⟨_, known, refused⟩
    refine ⟨requireParent_eq_ok.1 known, ?_⟩
    split at refused
    · rename_i full
      cases refused
      exact ⟨(Table.insert_eq_none _).1 full, rfl⟩
    · cases refused
  · rintro ⟨known, full, rfl⟩
    refine ⟨(), requireParent_eq_ok.2 known, ?_⟩
    rw [(Table.insert_eq_none _).2 full]

theorem append_eq_error {opcode : Opcode} : s.append opcode parent = .error error ↔
    s.IsFullUnder parent ∧ error = .sequenceExhausted ∨
      ¬ s.IsFullUnder parent ∧ s.RefusesCreation parent error := by
  unfold append
  rw [bind_eq_error, nextSequence_eq_error]
  refine or_congr_right ?_
  simp only [create_eq_error]
  constructor
  · rintro ⟨sequence, next, refused⟩
    refine ⟨fun full => ?_, refused⟩
    cases next.symm.trans (nextSequence_eq_error.2 ⟨full, rfl⟩)
  · rintro ⟨room, refused⟩
    cases next : s.nextSequence parent with
    | ok sequence => exact ⟨sequence, rfl, refused⟩
    | error other => exact absurd (nextSequence_eq_error.1 next).1 room

theorem insertParameter_eq_error {row : ParameterRow} :
    s.insertParameter row = .error error ↔ s.IsFullOfParameters error := by
  unfold insertParameter IsFullOfParameters
  rw [← Table.insert_eq_none row]
  split <;> simp [*, eq_comm]

theorem addParameter_eq_error {key : String} {value : Option String} :
    s.addParameter owner key value = .error error ↔
      s.Lacks owner error ∨ s.contains owner ∧ s.IsFullOfParameters error := by
  rw [addParameter, require_bind_eq_error, insertParameter_eq_error]

theorem firstParameter?_eq_none {key : String} : s.firstParameter? owner key = none ↔
    ∀ entry ∈ s.parameters.rows, ¬ (entry.2.owner = owner ∧ entry.2.key = key) := by
  simp [firstParameter?]

theorem setParameter_eq_error {key value : String} :
    s.setParameter owner key value = .error error ↔
      s.Lacks owner error ∨ s.contains owner ∧
        (∀ entry ∈ s.parameters.rows, ¬ (entry.2.owner = owner ∧ entry.2.key = key)) ∧
          s.IsFullOfParameters error := by
  rw [setParameter, require_bind_eq_error, ← firstParameter?_eq_none]
  cases s.firstParameter? owner key with
  | none => simp [insertParameter_eq_error]
  | some row => simp

theorem delete_eq_error : s.delete id = .error error ↔ s.Lacks id error := by
  simp [delete, require_bind_eq_error]

theorem resequence_eq_error : s.resequence parent = .error error ↔
    ∃ p, parent = some p ∧ s.Lacks p error := by
  simp [resequence, bind_eq_error, requireParent_eq_error]

theorem attempt_eq_error {request : Request} :
    s.attempt request = .error error ↔ s.Refuses request error := by
  cases request with
  | create opcode parent sequence => exact map_eq_error.trans create_eq_error
  | append opcode parent => exact map_eq_error.trans append_eq_error
  | setParameter owner key value => exact map_eq_error.trans setParameter_eq_error
  | addParameter owner key value => exact map_eq_error.trans addParameter_eq_error
  | delete id => exact map_eq_error.trans delete_eq_error
  | resequence parent => exact map_eq_error.trans resequence_eq_error
  | reopen => simp [attempt, Refuses]

theorem answer_of_attempt {request : Request} {answer : Answer} {t : Store}
    (served : s.attempt request = .ok (answer, t)) : answer ≠ .failed error := by
  rintro rfl
  cases request with
  | reopen =>
    have same : s.reopen = (.failed error, t) := Except.ok.inj served
    rw [reopen_eq] at same
    cases same
  | _ =>
    obtain ⟨_, _, same⟩ := map_eq_ok.1 served
    cases same

theorem serve_failed_iff {request : Request} :
    (s.serve request).1 = .failed error ↔ s.Refuses request error := by
  rw [← attempt_eq_error, serve]
  cases attempted : s.attempt request with
  | ok served => simpa using answer_of_attempt attempted
  | error other => simp

/-- A write is served as a whole or refused for one of the reasons given, and then nothing is
changed: neither at once nor by single statements, of which those of a deletion come to an end. -/
theorem served_or_refused (s : Store) (acyclic : s.Acyclic) (request : Request) (fuel : Nat)
    (enough : s.operations.size < fuel) :
    (∀ error, (s.serve request).1 = .failed error ↔ s.Refuses request error) ∧
      ((∃ error, s.serve request = (.failed error, s) ∧
          Statement.perform fuel request s = .error (.refused error) s) ∨
        (∀ error, ¬ s.Refuses request error) ∧
          Statement.perform fuel request s = .ok (s.serve request).1 (s.serve request).2) := by
  refine ⟨fun error => serve_failed_iff, ?_⟩
  have run := Statement.perform_eq acyclic enough request
  cases attempted : s.attempt request with
  | error error =>
    rw [attempted] at run
    exact .inl ⟨error, by rw [serve, attempted], run⟩
  | ok served =>
    rw [attempted] at run
    refine .inr ⟨fun error refused => ?_, by rw [serve, attempted, run, Statement.result]⟩
    cases attempted.symm.trans (attempt_eq_error.2 refused)

/-- A child with the greatest sequence number was stored before its parent, and no identifier is
left: the sequence number is what counts, and deletion goes on as ever. -/
theorem served_or_refused_last :
    let s : Store := {
      operations := {
        rows := [(1, ⟨"print", some ⟨2⟩, Int64.maxValue⟩), (2, ⟨"if", none, 1⟩)]
        last := Int64.maxValue
        ascending := by decide
        bounded := by decide
        nonneg := by decide }
      parameters := .empty }
    s.Acyclic ∧ s.operations.size < 3 ∧
      (s.serve (.append .print (some ⟨2⟩))).1 = .failed .sequenceExhausted ∧
      (s.serve (.append .print none)).1 = .failed .keysExhausted ∧
      Statement.perform 3 (.delete ⟨2⟩) s = .ok (.counted 2) (s.serve (.delete ⟨2⟩)).2 := by
  intro s
  have climbs : ∀ a ∈ s.allOperations, ∀ b ∈ s.allOperations, b.parent = some a.id →
      (if a.id = ⟨2⟩ then 0 else 1) < if b.id = ⟨2⟩ then 0 else 1 := by decide
  have acyclic : s.Acyclic := acyclic_of_rank (fun op => if op.id = ⟨2⟩ then 0 else 1)
    fun a b edge => climbs a edge.1 b edge.2.1 edge.2.2
  have small : s.operations.size < 3 := by decide
  have full : s.IsFullUnder (some ⟨2⟩) :=
    ⟨⟨⟨1⟩, .print, some ⟨2⟩, Int64.maxValue⟩, by decide, rfl, rfl⟩
  have room : ¬ s.IsFullUnder none := by
    rintro ⟨op, there, under, last⟩
    have other : ∀ op ∈ s.allOperations, op.parent = none → op.sequence ≠ Int64.maxValue := by
      decide
    exact other op there under last
  have first := (served_or_refused s acyclic (.append .print (some ⟨2⟩)) 3 small).1
  have second := (served_or_refused s acyclic (.append .print none) 3 small).1
  refine ⟨acyclic, small, (first _).2 (.inl ⟨full, rfl⟩),
    (second _).2 (.inr ⟨room, .inr ⟨nofun, rfl, rfl⟩⟩), ?_⟩
  have counted : (s.serve (.delete ⟨2⟩)).1 = .counted 2 := by decide
  rcases (served_or_refused s acyclic (.delete ⟨2⟩) 3 small).2 with ⟨error, failed, _⟩ | ⟨_, done⟩
  · cases counted.symm.trans (congrArg Prod.fst failed)
  · rw [done, counted]

end Store

end OpTree
