import Unpacking.Text.Basic

/-!
Styles of terminal text.
-/

namespace Unpacking

open Text

/-- The colors that a report uses. -/
inductive Color where
  | red
  | green
  | yellow
  | cyan
  | white
deriving DecidableEq, Repr

/-- The code of a color. -/
def Color.code : Color → Text
  | .red => "31"
  | .green => "32"
  | .yellow => "33"
  | .cyan => "36"
  | .white => "37"

/-- The style of a piece of text. -/
structure Style where
  bold : Bool := false
  dimmed : Bool := false
  color : Option Color := none
deriving DecidableEq, Repr

namespace Style

/-- The end of a styled piece. -/
def reset : Text :=
  "\x1b[0m"

/-- The beginning of a styled piece. -/
def opening (style : Style) : Text :=
  let codes := (if style.bold then ["1".toList] else []) ++
    (if style.dimmed then ["2".toList] else []) ++ (style.color.map Color.code).toList
  "\x1b[" ++ join ";" codes ++ "m"

/-- Open a style again behind every end of a styled piece in a text; the first `skip` characters
belong to such an end. -/
def reopen (start : Text) : Nat → Text → Text
  | _, [] => []
  | 1, c :: rest => c :: start ++ reopen start 0 rest
  | skip + 2, c :: rest => c :: reopen start (skip + 1) rest
  | 0, c :: rest =>
    if begins reset (c :: rest) then c :: reopen start (reset.length - 1) rest
    else c :: reopen start 0 rest

/-- A piece of text in a style, if colors are on. -/
def paint (style : Style) (colors : Bool) (text : Text) : Text :=
  if colors then style.opening ++ reopen style.opening 0 text ++ reset else text

/-- A bold style. -/
def strong : Style :=
  { bold := true }

/-- A dimmed style. -/
def faint : Style :=
  { dimmed := true }

/-- A color. -/
def plain (color : Color) : Style :=
  { color := some color }

/-- A bold color. -/
def vivid (color : Color) : Style :=
  { bold := true, color := some color }

end Style

end Unpacking
