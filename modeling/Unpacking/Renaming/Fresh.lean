import Unpacking.Text.Basic

/-!
Fresh names. A declared name gets a label for its role, and a number behind it when the labelled
name is taken. Names that were handed out are never handed out again.
-/

namespace Unpacking.Renaming

/-- The role of a declared name. -/
inductive Role where
  | field
  | method
  | parameter
  | localVariable
deriving DecidableEq, Repr

/-- The label of the new names of a role. -/
def Role.label : Role → Text
  | .field => "field_"
  | .method => "method_"
  | .parameter => "arg_"
  | .localVariable => "local_"

/-- The candidates for a new name: the name itself, then the name with a number. -/
def candidate (name : Text) : Nat → Text
  | 0 => name
  | number + 1 => name ++ "_" ++ Nat.toDigits 10 (number + 1)

/-- The number of the first candidate that is not taken. Among more candidates than taken names
there is one. -/
def firstFree (taken : List Text) (name : Text) : Nat :=
  ((List.range (taken.length + 1)).find? fun number =>
    !taken.contains (candidate name number)).getD 0

/-- A new name for a role that is not taken. -/
def fresh (taken : List Text) (role : Role) (name : Text) : Text :=
  candidate (role.label ++ name) (firstFree taken (role.label ++ name))

/-- New names by old ones, in the order of their declaration. -/
abbrev NewNames := List (Text × Text)

/-- The names of a scope together with all names handed out so far. -/
structure Naming where
  /-- Everything handed out so far, the latest name last. -/
  taken : List Text
  names : NewNames
deriving Repr

/-- Give a declared name a new one, unless it has one in this scope. -/
def Naming.declare (role : Role) (naming : Naming) (name : Text) : Naming :=
  match naming.names.lookup name with
  | some _ => naming
  | none =>
    let new := fresh naming.taken role name
    { taken := naming.taken ++ [new], names := naming.names ++ [(name, new)] }

end Unpacking.Renaming
