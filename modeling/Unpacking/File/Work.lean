import Unpacking.File.Tree

/-!
Work on a tree of files that several workers share. It is cut into single accesses: each access sees
the tree at one moment and changes it in one go, and between two accesses other workers may change
the tree.
-/

namespace Unpacking

/-- Work on a tree of files, cut into single accesses. -/
inductive Work (α : Type) : Type 1 where
  | done (value : α)
  /-- An access changes the tree, and what it has seen decides how the work goes on. -/
  | access {Seen : Type} (operation : Tree → Tree × Seen) (next : Seen → Work α)

namespace Work

variable {α β : Type}

/-- Work that goes on with the value of other work. -/
def bind : Work α → (α → Work β) → Work β
  | .done value, rest => rest value
  | .access operation next, rest => .access operation fun seen => (next seen).bind rest

instance : Monad Work where
  pure := .done
  bind := .bind

/-- Work of one access. -/
def single (operation : Tree → Tree × α) : Work α :=
  .access operation .done

/-- Carry out work while nobody else changes the tree. -/
def run : Work α → Tree → Tree × α
  | .done value, tree => (tree, value)
  | .access operation next, tree =>
    let (tree, seen) := operation tree
    (next seen).run tree

/-- Carry out several pieces of work, one after the other. -/
def runAll : List (Work α) → Tree → Tree × List α
  | [], tree => (tree, [])
  | work :: rest, tree =>
    let (tree, value) := work.run tree
    let (tree, values) := runAll rest tree
    (tree, value :: values)

end Work

namespace Tree

/-- Go one part of a path further from a place, make a directory where nothing stands, and give the
new place. -/
def advance (names : Names) (part : Text) (tree : Tree) : Tree × Except FileError Names :=
  match enterOrCreate (tree, names) part with
  | .ok (changed, place) => (changed, .ok place)
  | .error error => (tree, .error error)

end Tree

namespace Work

/-- Make the directories along some parts of a path, each by an access of its own. -/
def makeAlong (names : Names) : List Text → Work (Except FileError Unit)
  | [] => .done (.ok ())
  | part :: rest => .access (Tree.advance names part) fun
    | .ok place => makeAlong place rest
    | .error error => .done (.error error)

/-- Make all directories on a path, each by an access of its own. The empty path needs none. -/
def makeDirectories (path : Text) : Work (Except FileError Unit) :=
  if path.isEmpty then .done (.ok ())
  else
    let (names, parts) := Tree.start path
    makeAlong names parts

end Work

end Unpacking
