import Unpacking.Java.Outline
import Unpacking.Renaming.Declared
import Unpacking.Toolkit

/-!
Renaming the names that one class declares. Every identifier of the class is looked at in its
place in the tree, and those that get a new name are replaced in the source, the last one first, so
that the places of the others stay as they are.
-/

namespace Unpacking.Renaming

open Text Java

/-- A class after renaming. -/
structure RenamedClass where
  /-- The simple name that was asked for. -/
  className : Text
  source : Text
  fields : NewNames
  methods : NewNames
deriving DecidableEq, Repr

/-! ### Identifiers -/

/-- The type that has a given name, or else the first one. -/
def selectType? (source className : Text) (root : Node) : Option Node :=
  let types := root.children.filter fun child => child.kind.typeKind?.isSome
  (types.find? fun type => (type.childAs? .name).any fun name =>
    name.text source == className).or types.head?

/-- The type that is renamed, and its body. -/
def selectBody? (source className : Text) (root : Node) : Option (Node × Node) := do
  let type ← selectType? source className root
  let body ← type.childAs? .body
  pure (type, body)

/-- Whether a member belongs to the class itself: there is no object, or the object is `this` or
the class. -/
def isOwn (source className : Text) : Option Node → Bool
  | none => true
  | some object =>
    object.kind == .this || object.text source == "this".toList || object.text source == className

/-- What an identifier stands for in its parent. -/
inductive NameUse where
  /-- The name of a method where it is declared. -/
  | declaredMethod
  | calledMethod
  | accessedField
  /-- A name that is never changed. -/
  | fixed
  /-- A variable, or a field without an object. -/
  | plain
deriving DecidableEq, Repr

/-- What an identifier stands for in its parent. -/
def nameUse (parent node : Node) : NameUse :=
  let plays (part : FieldName) : Bool := (parent.childAs? part).map Node.id == some node.id
  match parent.kind with
  | .methodDeclaration => if plays .name then .declaredMethod else .plain
  | .methodInvocation => if plays .name then .calledMethod else .plain
  | .fieldAccess => if plays .field then .accessedField else .plain
  | .classDeclaration | .interfaceDeclaration | .enumDeclaration | .constructorDeclaration
  | .enumConstant | .labeledStatement | .breakStatement | .continueStatement | .markerUse
  | .annotationUse | .methodReference | .scopedIdentifier => .fixed
  | _ => .plain

/-- A type whose names get new ones. -/
structure Subject where
  className : Text
  source : Text
  /-- The direct members of the type. -/
  members : List Node
  declared : Declared

namespace Subject

/-- A type with a body, whose members get new names. -/
def ofBody (taken : List Text) (className source : Text) (body : Node) : Subject :=
  { className
    source
    members := Renaming.members body
    declared := declare taken source (Renaming.members body) }

/-- The new name of an identifier, if it gets one. A variable hides a field of its name. -/
def newName? (subject : Subject) (parent node : Node) : Option Text :=
  let text := node.text subject.source
  let isOwn := isOwn subject.source subject.className (parent.childAs? .object)
  match nameUse parent node with
  | .declaredMethod =>
    if (subject.members.map Node.id).contains parent.id then subject.declared.methods.lookup text
    else none
  | .calledMethod => if isOwn then subject.declared.methods.lookup text else none
  | .accessedField => if isOwn then subject.declared.fields.lookup text else none
  | .fixed => none
  | .plain =>
    (subject.declared.variableAt? node.start text).or (subject.declared.fields.lookup text)

end Subject

/-! ### Edits -/

/-- A part of a source that is replaced. -/
structure Edit where
  start : Nat
  stop : Nat
  new : Text
deriving DecidableEq, Repr

/-- The edit for a node, if it is an identifier that gets a new name. -/
def Subject.edit? (subject : Subject) (link : Node × Node) : Option Edit :=
  if link.2.kind == .identifier then
    (subject.newName? link.1 link.2).map fun new =>
      { start := link.2.start, stop := link.2.stop, new }
  else none

/-- Insert an edit into a list in which later places come first. -/
def Edit.insertInto (edit : Edit) : List Edit → List Edit
  | [] => [edit]
  | first :: rest =>
    if first.start ≤ edit.start then edit :: first :: rest else first :: edit.insertInto rest

/-- Sort some edits, later places first. Edits with the same start keep their order. -/
def sortEdits (edits : List Edit) : List Edit :=
  edits.foldr Edit.insertInto []

/-- Leave out every edit that has the same start as the one before it. -/
def distinctEdits (before? : Option Nat) : List Edit → List Edit
  | [] => []
  | edit :: rest =>
    if before? == some edit.start then distinctEdits before? rest
    else edit :: distinctEdits (some edit.start) rest

/-- The edits that are carried out, in their order. -/
def finalEdits (edits : List Edit) : List Edit :=
  distinctEdits none (sortEdits edits)

/-- Carry out some edits, one after the other. -/
def splice (edits : List Edit) (source : Text) : Text :=
  edits.foldl (fun text edit => replaceRange edit.start edit.stop edit.new text) source

/-! ### Classes -/

/-- Rename what one class declares in a source with a tree, and add the new names to those handed
out. -/
def renameTree (taken : List Text) (className source : Text) (root : Node) :
    RenamedClass × List Text :=
  match selectBody? source className root with
  | none => ({ className, source, fields := [], methods := [] }, taken)
  | some (type, body) =>
    let subject := Subject.ofBody taken className source body
    ({ className
       source := splice (finalEdits (type.links.filterMap subject.edit?)) source
       fields := subject.declared.fields
       methods := subject.declared.methods }, subject.declared.taken)

/-- Rename what one class declares, and add the new names to those handed out. -/
def renameClass (parser : Parser) (taken : List Text) (className source : Text) :
    Except RewriteError RenamedClass × List Text :=
  match parser.parse source with
  | .error message => (.error (.parse className message), taken)
  | .ok root =>
    let (renamed, taken) := renameTree taken className source root
    (.ok renamed, taken)

end Unpacking.Renaming
