import Unpacking.Text.Order

/-!
Paths of files. A path is a text whose names are separated by slashes. Empty names and single dots
say nothing, except for a dot that stands first.
-/

namespace Unpacking

open Text

/-- One part of a path. -/
inductive Component where
  | root
  | current
  | parent
  | name (name : Text)
deriving DecidableEq, Repr

namespace Path

/-- The component that a name between slashes stands for; `first` tells whether it begins the
path. -/
def component? (first : Bool) (name : Text) : Option Component :=
  if name == [] then none
  else if name == "." then if first then some .current else none
  else if name == ".." then some .parent
  else some (.name name)

/-- A name that can stand in a directory. -/
def isPlain (name : Text) : Bool :=
  name != [] && name != "." && name != ".." && !name.contains '/'

/-- The components of a path. -/
def components (path : Text) : List Component :=
  match fields (· == '/') path with
  | [] => []
  | first :: rest =>
    (if begins "/" path then [.root] else []) ++ (component? true first).toList ++
      rest.filterMap (component? false)

/-- The name at the end of a path. -/
def fileName? (path : Text) : Option Text :=
  match (components path).getLast? with
  | some (.name name) => some name
  | _ => none

/-- The parts of a file name before and behind its last dot. A name whose only dot comes first has
no such parts. -/
def cutName? (name : Text) : Option (Text × Text) :=
  match cutLast? '.' name with
  | some ([], _) => none
  | parts => parts

/-- A file name without its extension. -/
def nameStem (name : Text) : Text :=
  match cutName? name with
  | some (stem, _) => stem
  | none => name

/-- The name at the end of a path, without its extension. -/
def fileStem? (path : Text) : Option Text :=
  (fileName? path).map nameStem

/-- The part of the file name behind its last dot. -/
def extension? (path : Text) : Option Text :=
  (fileName? path).bind fun name => (cutName? name).map Prod.snd

/-- A path continued by a relative path. -/
def join (base relative : Text) : Text :=
  if begins "/" relative then relative
  else if base.isEmpty || ends "/" base then base ++ relative
  else base ++ "/" ++ relative

end Path

/-- The rank of the kinds of components. -/
def Component.rank : Component → Nat
  | .root => 0
  | .current => 1
  | .parent => 2
  | .name _ => 3

/-- A component comes strictly before another one. -/
def Component.precedes (left right : Component) : Bool :=
  match left, right with
  | .name a, .name b => Text.precedes a b
  | _, _ => left.rank < right.rank

namespace Path

/-- A list of components comes strictly before another one. -/
def componentsPrecede : List Component → List Component → Bool
  | _, [] => false
  | [], _ :: _ => true
  | a :: left, b :: right => if a = b then componentsPrecede left right else a.precedes b

/-- Paths are ordered by their components. -/
def precedes (left right : Text) : Bool :=
  componentsPrecede (components left) (components right)

end Path

end Unpacking
