import OpTree.Proofs.Commands
import OpTree.Proofs.Outlines
import OpTree.Proofs.WrittenLines

set_option autoImplicit false

namespace OpTree

def nodeId (number : Nat) : OpId :=
  ⟨Int64.ofNat number⟩

namespace Planted

def id (node : Planted) : OpId :=
  nodeId node.number

def parentId (node : Planted) : Option OpId :=
  node.parent.map nodeId

def parentText : Option OpId → String
  | none => "root"
  | some id => id.text

def addLine (parent : Option OpId) (tag : String) : String :=
  "add " ++ parentText parent ++ " " ++ tag

def setLine (id : OpId) (param : String × String) : String :=
  "set " ++ id.text ++ " " ++ param.1 ++ " " ++ param.2

def lines (node : Planted) : List String :=
  addLine node.parentId node.label.tag :: node.label.params.map (setLine node.id)

def requests (node : Planted) : List Request :=
  .append (Opcode.ofTag node.label.tag) node.parentId ::
    node.label.params.map fun param => .setParameter node.id param.1 param.2

end Planted

namespace Outline

def nodes (outline : Outline) : List Planted :=
  outline.plant none 1

def lines (outline : Outline) : List String :=
  outline.nodes.flatMap Planted.lines

def script (outline : Outline) : String :=
  String.join (outline.lines.map (· ++ "\n"))

end Outline

namespace Editor

section Arguments

variable {word : List Char} (isWord : IsWord word) (command name : String)

include isWord

theorem argument_append (rest : List Char) :
    argument command name (word ++ ' ' :: rest) = .ok (word, rest) := by
  rw [argument, isWord.nextWord_append (by decide)]

theorem argument_self : argument command name word = .ok (word, []) := by
  rw [argument, isWord.nextWord_self]

theorem readLine_append (rest : List Char) :
    readLine (String.ofList (word ++ ' ' :: rest)) = readCommand (String.ofList word) rest := by
  rw [readLine, String.toList_ofList, isWord.nextWord_append (by decide)]

end Arguments

open Planted

variable {id : OpId} {parent : Option OpId} {tag : String} {param : String × String}

theorem parseId_text (id : OpId) : parseId id.text.toList = .ok id := by
  have read : readId? id.text.toList = .ok id := by
    rw [readId?, (isWord_text id).trim_eq, OpId.text, String.toList_ofList,
      Numeral.readSigned_writeSigned]
    rfl
  rw [parseId, read]

theorem isWord_parentText (parent : Option OpId) : IsWord (parentText parent).toList := by
  cases parent with
  | none => decide
  | some id => exact isWord_text id

/-- No identifier is written like the word for no parent. -/
theorem text_ne_root (id : OpId) : id.text.toList ≠ "root".toList := by
  intro same
  have read := parseId_text id
  rw [same] at read
  cases read

theorem parseParent_parentText (parent : Option OpId) :
    parseParent (parentText parent).toList = .ok parent := by
  cases parent with
  | none => rfl
  | some id => rw [parentText, parseParent, if_neg (text_ne_root id), parseId_text]; rfl

theorem readAdd_typed (isTag : IsWord tag.toList) (parent : Option OpId) :
    readAdd ((parentText parent).toList ++ ' ' :: tag.toList) =
      .ok (.write (.append (Opcode.ofTag tag) parent)) := by
  rw [readAdd, argument_append (isWord_parentText parent)]
  change argument _ _ tag.toList >>= _ = _
  rw [argument_self isTag]
  change parseParent (parentText parent).toList >>= _ = _
  rw [parseParent_parentText]
  change Except.ok (Command.write (.append (Opcode.ofTag (String.ofList tag.toList)) parent)) = _
  rw [String.ofList_toList]

theorem readLine_add (isTag : IsWord tag.toList) (parent : Option OpId) :
    readLine (addLine parent tag) = .ok (.write (.append (Opcode.ofTag tag) parent)) := by
  have add : IsWord "add".toList := by decide
  have typed : addLine parent tag = String.ofList ("add".toList ++ ' ' ::
      ((parentText parent).toList ++ ' ' :: tag.toList)) := by
    rw [← String.toList_inj]
    simp [addLine]
  rw [typed, readLine_append add]
  exact readAdd_typed isTag parent

theorem readSet_typed (isKey : IsWord param.1.toList) (filled : param.2.toList ≠ []) (id : OpId) :
    readSet (id.text.toList ++ ' ' :: (param.1.toList ++ ' ' :: param.2.toList)) =
      .ok (.write (.setParameter id param.1 param.2)) := by
  rw [readSet, argument_append (isWord_text id)]
  change argument _ _ (param.1.toList ++ ' ' :: param.2.toList) >>= _ = _
  rw [argument_append isKey]
  change (if param.2.toList.isEmpty then _ else _) = _
  rw [if_neg (by simpa using filled), parseId_text]
  change Except.ok (Command.write (.setParameter id (String.ofList param.1.toList)
    (String.ofList param.2.toList))) = _
  rw [String.ofList_toList, String.ofList_toList]

theorem readLine_set (isKey : IsWord param.1.toList) (filled : param.2.toList ≠ []) (id : OpId) :
    readLine (setLine id param) = .ok (.write (.setParameter id param.1 param.2)) := by
  have set : IsWord "set".toList := by decide
  have typed : setLine id param = String.ofList ("set".toList ++ ' ' ::
      (id.text.toList ++ ' ' :: (param.1.toList ++ ' ' :: param.2.toList))) := by
    rw [← String.toList_inj]
    simp [setLine]
  rw [typed, readLine_append set]
  exact readSet_typed isKey filled id

theorem readLine_lines (node : Planted) : List.Forall₂
    (fun line request => readLine line = .ok (.write request)) node.lines node.requests := by
  refine .cons (readLine_add node.label.isTag _) ?_
  rw [List.forall₂_map_left_iff, List.forall₂_map_right_iff, List.forall₂_same]
  intro param there
  exact readLine_set (node.label.areKeys param there) (node.label.areValues param there).1 _

end Editor

namespace Planted

/-- A line with nothing that ends a line, before the end or at it. -/
def IsPlain (line : String) : Prop :=
  '\n' ∉ line.toList ∧ line.toList.getLast? ≠ some '\x0d'

theorem isPlain_append {start last : String} (filled : last.toList ≠ [])
    (absent : '\n' ∉ start.toList) (plain : IsPlain last) : IsPlain (start ++ last) := by
  rw [IsPlain, String.toList_append, List.mem_append, not_or,
    List.getLast?_append_of_ne_nil _ filled]
  exact ⟨⟨absent, plain.1⟩, plain.2⟩

theorem isPlain_of_isWord {word : String} (isWord : IsWord word.toList) : IsPlain word :=
  ⟨isWord.notMem (by decide), fun last => isWord.notMem (by decide) (List.mem_of_getLast? last)⟩

theorem isPlain_lines (node : Planted) : ∀ line ∈ node.lines, IsPlain line := by
  intro line there
  rcases List.mem_cons.1 there with rfl | there
  · have parent := Editor.isWord_parentText node.parentId
    refine isPlain_append node.label.isTag.filled ?_ (isPlain_of_isWord node.label.isTag)
    simp [parent.notMem (c := '\n') (by decide)]
  · obtain ⟨param, given, rfl⟩ := List.mem_map.1 there
    have id := isWord_text node.id
    have key := node.label.areKeys param given
    obtain ⟨filled, value⟩ := node.label.areValues param given
    refine isPlain_append filled ?_ value
    simp [id.notMem (c := '\n') (by decide), key.notMem (c := '\n') (by decide)]

end Planted

namespace Outline

theorem ofText_script (outline : Outline) :
    Input.ofText outline.script = outline.lines.map some := by
  have plain : ∀ line ∈ outline.lines, Planted.IsPlain line := by
    intro line there
    obtain ⟨node, _, typed⟩ := List.mem_flatMap.1 there
    exact node.isPlain_lines line typed
  exact Input.ofText_join (fun line there => (plain line there).1)
    fun line there => (plain line there).2

/-- What the lines of an outline ask for. -/
def requests (outline : Outline) : List Request :=
  outline.nodes.flatMap Planted.requests

theorem readLine_lines (outline : Outline) : List.Forall₂
    (fun line request => Editor.readLine line = .ok (.write request))
    outline.lines outline.requests := by
  unfold lines requests
  induction outline.nodes with
  | nil => exact .nil
  | cons node nodes ih => exact List.rel_append (Editor.readLine_lines node) ih

end Outline

end OpTree
