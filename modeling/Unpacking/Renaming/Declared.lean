import Unpacking.Java.Node
import Unpacking.Renaming.Fresh

/-!
The new names of everything that a class declares: its fields, its methods, and the parameters and
local variables of each method and constructor.
-/

namespace Unpacking.Renaming

open Java

/-- The methods that are found by their name when the program runs, or by a later stage. -/
def lifecycleMethods : List Text :=
  ["main", "onCreate", "attachBaseContext"]

/-- Whether a method is marked as overriding. -/
def isOverriding (source : Text) (method : Node) : Bool :=
  match method.children.find? fun child => child.kind == .modifiers with
  | none => false
  | some modifiers =>
    modifiers.children.any fun child =>
      (child.kind == .markerUse || child.kind == .annotationUse) &&
        (child.childAs? .name).any fun name => name.text source == "Override".toList

/-- Whether a method of a name keeps it. -/
def isProtected (source : Text) (method : Node) (name : Text) : Bool :=
  lifecycleMethods.contains name || isOverriding source method

/-- The direct members in the body of a type. Those of an enumeration stand behind its constants. -/
def members (body : Node) : List Node :=
  body.namedChildren.flatMap fun child =>
    if child.kind == .enumBodyDeclarations then child.namedChildren else [child]

/-- The names of the variables that a node declares, with their roles. -/
def bindings (node : Node) : List (Role × Node) :=
  match node.kind with
  | .formalParameter => (node.childAs? .name).toList.map fun name => (.parameter, name)
  | .spreadParameter =>
    let declarator? := node.namedChildren.find? fun child => child.kind == .variableDeclarator
    (declarator?.bind (Node.childAs? .name)).toList.map fun name => (.parameter, name)
  | .catchFormalParameter | .enhancedForStatement | .resource =>
    (node.childAs? .name).toList.map fun name => (.localVariable, name)
  | .localVariableDeclaration =>
    ((node.childrenAs .declarator).filterMap (Node.childAs? .name)).map fun name =>
      (.localVariable, name)
  | .lambdaExpression =>
    match node.childAs? .parameters with
    | none => []
    | some parameters =>
      if parameters.kind == .identifier then [(.localVariable, parameters)]
      else if parameters.kind == .inferredParameters then
        parameters.namedChildren.map fun name => (.localVariable, name)
      else []
  | _ => []

/-- The new names of all variables that are declared inside a member. -/
def variablesOf (taken : List Text) (source : Text) (member : Node) : Naming :=
  (member.nodes.flatMap bindings).foldl
    (fun naming binding => naming.declare binding.1 (binding.2.text source)) { taken, names := [] }

/-- The part of a source in which some variables are known. -/
structure Scope where
  start : Nat
  stop : Nat
  names : NewNames
deriving DecidableEq, Repr

/-- The new names in a class. -/
structure Declared where
  /-- Everything handed out so far, the latest name last. -/
  taken : List Text
  fields : NewNames := []
  methods : NewNames := []
  /-- The variables of the methods and constructors. -/
  scopes : List Scope := []
deriving DecidableEq, Repr

namespace Declared

/-- The new names after the fields of one more member. -/
def addFields (source : Text) (declared : Declared) (member : Node) : Declared :=
  let names := (member.childrenAs .declarator).filterMap (Node.childAs? .name)
  let naming := names.foldl
    (fun (naming : Naming) name => naming.declare .field (name.text source))
    { taken := declared.taken, names := declared.fields }
  { declared with taken := naming.taken, fields := naming.names }

/-- The new names after the name of one more method. -/
def addMethod (source : Text) (declared : Declared) (member : Node) : Declared :=
  match member.childAs? .name with
  | none => declared
  | some name =>
    if isProtected source member (name.text source) then declared
    else
      let naming := Naming.declare .method { taken := declared.taken, names := declared.methods }
        (name.text source)
      { declared with taken := naming.taken, methods := naming.names }

/-- The new names after the variables of one more member. -/
def addScope (source : Text) (declared : Declared) (member : Node) : Declared :=
  let naming := variablesOf declared.taken source member
  { declared with
    taken := naming.taken
    scopes := declared.scopes ++
      [{ start := member.start, stop := member.stop, names := naming.names }] }

/-- The new names after one more member. -/
def add (source : Text) (declared : Declared) (member : Node) : Declared :=
  match member.kind with
  | .fieldDeclaration => declared.addFields source member
  | .methodDeclaration => (declared.addMethod source member).addScope source member
  | .constructorDeclaration => declared.addScope source member
  | _ => declared

/-- The variable of a name at an offset, in the first member that the offset lies in. -/
def variableAt? (declared : Declared) (offset : Nat) (name : Text) : Option Text :=
  (declared.scopes.find? fun scope => scope.start ≤ offset && offset < scope.stop).bind
    fun scope => scope.names.lookup name

end Declared

/-- The new names of some members. -/
def declare (taken : List Text) (source : Text) (members : List Node) : Declared :=
  members.foldl (Declared.add source) { taken }

end Unpacking.Renaming
