import Unpacking.Text.Bytes

/-!
Syntax trees of Java source. A node knows its kind, the part that it plays in its parent, and the
bytes of the source that it takes. A parser is anything that gives trees whose nodes stand in the
source, whose identifiers do not overlap, and whose nodes can be told apart.
-/

namespace Unpacking.Java

open Text

/-- The kinds of nodes that anybody asks about. -/
inductive NodeKind where
  | identifier
  | scopedIdentifier
  | this
  | extends
  | asterisk
  | modifiers
  | markerUse
  | annotationUse
  | packageDeclaration
  | importDeclaration
  | classDeclaration
  | interfaceDeclaration
  | enumDeclaration
  | enumBodyDeclarations
  | enumConstant
  | fieldDeclaration
  | methodDeclaration
  | constructorDeclaration
  | variableDeclarator
  | formalParameter
  | spreadParameter
  | catchFormalParameter
  | localVariableDeclaration
  | enhancedForStatement
  | resource
  | lambdaExpression
  | inferredParameters
  | methodInvocation
  | fieldAccess
  | methodReference
  | labeledStatement
  | breakStatement
  | continueStatement
  /-- Any other kind by its name. -/
  | other (name : Text)
deriving DecidableEq, Repr

/-- The parts in a parent that anybody asks about. -/
inductive FieldName where
  | name
  | body
  | declarator
  | parameters
  | object
  | field
  | superclass
deriving DecidableEq, Repr

/-- What a node says about itself. -/
structure NodeLabel where
  /-- The number of the node in its tree. -/
  id : Nat
  kind : NodeKind
  /-- Whether the node is more than a mark or a keyword. -/
  isNamed : Bool
  /-- The part that the node plays in its parent. -/
  field : Option FieldName
  /-- The offset of its first byte. -/
  start : Nat
  /-- The offset behind its last byte. -/
  stop : Nat
deriving DecidableEq, Repr

/-- A node with everything below it. -/
inductive Node where
  | mk (label : NodeLabel) (children : List Node)

namespace Node

def label : Node → NodeLabel
  | .mk label _ => label

def children : Node → List Node
  | .mk _ children => children

/-- The number of a node. -/
abbrev id (node : Node) : Nat :=
  node.label.id

abbrev kind (node : Node) : NodeKind :=
  node.label.kind

abbrev isNamed (node : Node) : Bool :=
  node.label.isNamed

abbrev field (node : Node) : Option FieldName :=
  node.label.field

abbrev start (node : Node) : Nat :=
  node.label.start

abbrev stop (node : Node) : Nat :=
  node.label.stop

/-- The children that are more than marks and keywords. -/
def namedChildren (node : Node) : List Node :=
  node.children.filter isNamed

/-- The children that play a part. -/
def childrenAs (part : FieldName) (node : Node) : List Node :=
  node.children.filter fun child => child.field == some part

/-- The first child that plays a part. -/
def childAs? (part : FieldName) (node : Node) : Option Node :=
  node.children.find? fun child => child.field == some part

/-- The text of a node. -/
def text (source : Text) (node : Node) : Text :=
  slice node.start node.stop source

mutual

/-- The nodes below a node, each with its parent, in the order of a walk that comes to a node
before its children. -/
def links : Node → List (Node × Node)
  | .mk label children => linksOf (.mk label children) children

/-- The links to some children of a node, and those below them. -/
def linksOf (parent : Node) : List Node → List (Node × Node)
  | [] => []
  | child :: rest => (parent, child) :: (child.links ++ linksOf parent rest)

end

/-- A node and all nodes below it, in the order of a walk. -/
def nodes (node : Node) : List Node :=
  node :: node.links.map Prod.snd

/-- The identifiers of a tree, in the order of a walk. -/
def identifiers (node : Node) : List Node :=
  node.nodes.filter fun one => one.kind == .identifier

/-- A node takes some characters of a source. -/
def StandsIn (source : Text) (node : Node) : Prop :=
  ∃ before text behind, source = before ++ text ++ behind ∧
    node.start = byteLength before ∧ node.stop = byteLength before + byteLength text

/-- Two nodes do not overlap. -/
def IsApart (node other : Node) : Prop :=
  node.stop ≤ other.start ∨ other.stop ≤ node.start

/-- What can be said of every tree of a source. -/
structure IsTreeOf (source : Text) (root : Node) : Prop where
  /-- The nodes stand in the source. -/
  within : ∀ node ∈ root.nodes, node.StandsIn source
  /-- The identifiers do not overlap. -/
  apart : root.identifiers.Pairwise IsApart
  /-- No two nodes have the same number. -/
  distinct : (root.nodes.map id).Nodup

end Node

/-- A parser for Java. It need not understand all of a source, and may fail. -/
structure Parser where
  /-- The tree of a source, or why there is none. -/
  parse : Text → Except Text Node
  isTreeOf : ∀ {source root}, parse source = .ok root → root.IsTreeOf source

end Unpacking.Java
