import Unpacking.Text.Blank

/-!
The draft of a standalone program: the sources of its classes in collection order, kept apart so
that a stage can treat each class on its own.
-/

namespace Unpacking

open Text

/-- The source of one class of a draft. -/
structure Segment where
  /-- The full name of the class. -/
  className : Text
  imports : List Text
  text : Text
deriving DecidableEq, Repr

/-- A draft is the list of its segments in collection order. -/
abbrev Draft := List Segment

namespace Draft

/-- Change the text of every segment. -/
def mapText (change : Text → Text) (draft : Draft) : Draft :=
  draft.map fun segment => { segment with text := change segment.text }

/-- Put a new text in place of the text of one segment. -/
def setText (index : Nat) (text : Text) (draft : Draft) : Draft :=
  draft.modify index fun segment => { segment with text }

/-- The segments as one text, each closed by an empty line. -/
def merged (draft : Draft) : Text :=
  draft.flatMap fun segment => trimEnd segment.text ++ "\n\n"

end Draft

end Unpacking
