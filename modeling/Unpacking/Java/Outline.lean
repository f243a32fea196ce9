import Unpacking.Java.Node
import Unpacking.Text.Blank

/-!
The outline of a source file: its package, its imports and its top-level types. Anything else at
the top level is passed over.
-/

namespace Unpacking.Java

open Text

/-- The kind of a top-level class that counts as a type of the file. -/
inductive TypeKind where
  | ordinary
  | interface
  | enum
deriving DecidableEq, Repr

/-- The kind of a type, if a node declares one. -/
def NodeKind.typeKind? : NodeKind → Option TypeKind
  | .classDeclaration => some .ordinary
  | .interfaceDeclaration => some .interface
  | .enumDeclaration => some .enum
  | _ => none

/-- A top-level type. -/
structure TypeOutline where
  kind : TypeKind
  name : Text
  /-- The superclass as written. -/
  superclass : Option Text
deriving DecidableEq, Repr

/-- The outline of a source file. -/
structure Outline where
  package : Option Text
  imports : List Text
  types : List TypeOutline
deriving DecidableEq, Repr

namespace Node

/-- The first name among the children, with or without dots. -/
def dottedName? (source : Text) (node : Node) : Option Text :=
  (node.children.find? fun child =>
    child.kind == .scopedIdentifier || child.kind == .identifier).map (text source)

/-- The package that a node declares. -/
def package? (source : Text) (node : Node) : Option Text :=
  if node.kind == .packageDeclaration then node.dottedName? source else none

/-- The name that a node imports; a star stands for all names of a package. -/
def import? (source : Text) (node : Node) : Option Text :=
  if node.kind == .importDeclaration then
    (node.dottedName? source).map fun name =>
      if node.children.any fun child => child.kind == .asterisk then name ++ ".*" else name
  else none

/-- The superclass of a type as written: whatever stands first behind `extends`. -/
def superclass? (source : Text) (node : Node) : Option Text := do
  let clause ← node.childAs? .superclass
  let written ← clause.children.find? fun child => child.kind != .extends
  pure (trim (written.text source))

/-- The type that a node declares. -/
def type? (source : Text) (node : Node) : Option TypeOutline := do
  let kind ← node.kind.typeKind?
  let name ← node.childAs? .name
  pure { kind, name := name.text source, superclass := node.superclass? source }

/-- The outline of a source. The first package declaration counts. -/
def outline (source : Text) (root : Node) : Outline where
  package := root.children.findSome? (package? source)
  imports := root.children.filterMap (import? source)
  types := root.children.filterMap (type? source)

end Node

namespace Outline

/-- The full name of a name that is declared in a file. -/
def qualify (outline : Outline) (name : Text) : Text :=
  match outline.package with
  | some package => if package.isEmpty then name else package ++ "." ++ name
  | none => name

/-- The full name of a type as written, without its arguments. A name with a dot is full already.
Any other name is looked up among the imports, and belongs to the package of the file if none of
them ends with it. -/
def resolve (outline : Outline) (written : Text) : Text :=
  let base := trim (written.takeWhile (· != '<'))
  if base.contains '.' then base
  else
    match outline.imports.find? fun name => ends ("." ++ base) name with
    | some name => name
    | none => outline.qualify base

end Outline

end Unpacking.Java
