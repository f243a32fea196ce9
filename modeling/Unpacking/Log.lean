import Unpacking.Text.Basic

/-!
The messages that an analysis leaves behind, oldest first.
-/

namespace Unpacking

/-- A log is the list of its messages, oldest first. -/
abbrev Log := List Text

namespace Log

/-- An error message is marked as one. -/
def error (message : Text) : Text :=
  "ERROR: " ++ message

/-- A list of items is set between two marks, so that it can be cut out of the log again. -/
def enumeration (title : Text) (items : List Text) : Log :=
  ["[BEGIN_LIST] " ++ title] ++ items ++ ["[END_LIST] " ++ title]

/-- Whether some message contains a text. -/
def mentions (needle : Text) (log : Log) : Bool :=
  log.any (Text.occursIn needle)

/-- The log as a file, one message after the other, each closed by a line feed. -/
def contents (log : Log) : Text :=
  log.flatMap fun message => message ++ ['\n']

end Log

end Unpacking
