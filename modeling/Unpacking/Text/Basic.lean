/-!
Texts as lists of characters, and the elementary questions about their beginnings and parts.
-/

namespace Unpacking

/-- A text is the list of its characters. -/
abbrev Text := List Char

instance : Coe String Text := ⟨String.toList⟩

namespace Text

/-- The rest of a text after a given beginning, if the text has that beginning. -/
def after? : Text → Text → Option Text
  | [], text => some text
  | w :: word, c :: rest => if w = c then after? word rest else none
  | _ :: _, [] => none

/-- A word begins a text when the text can be cut after it. -/
def begins (word text : Text) : Bool :=
  word.isPrefixOf text

/-- A word ends a text when the text can be cut before it. -/
def ends (word text : Text) : Bool :=
  word.isSuffixOf text

/-- A word occurs in a text when it begins some tail of the text. -/
def occursIn (word : Text) : Text → Bool
  | [] => word.isEmpty
  | c :: rest => begins word (c :: rest) || occursIn word rest

/-- The size of the UTF-8 form, in bytes. -/
def byteLength (text : Text) : Nat :=
  text.foldr (fun c size => c.utf8Size + size) 0

/-- The pieces of a text between its separators; there is one piece more than separators. -/
def fields (separator : Char → Bool) : Text → List Text
  | [] => [[]]
  | c :: rest =>
    match fields separator rest with
    | [] => [[c]]
    | piece :: pieces =>
      if separator c then [] :: piece :: pieces else (c :: piece) :: pieces

/-- Texts joined with a separator between neighbours. -/
def join (separator : Text) : List Text → Text
  | [] => []
  | [text] => text
  | text :: texts => text ++ separator ++ join separator texts

/-- The part before the first occurrence of a character and the part after it. -/
def cut? (mark : Char) : Text → Option (Text × Text)
  | [] => none
  | c :: rest =>
    if c = mark then some ([], rest)
    else (cut? mark rest).map fun (left, right) => (c :: left, right)

/-- The part before the last occurrence of a character and the part after it. -/
def cutLast? (mark : Char) (text : Text) : Option (Text × Text) :=
  (cut? mark text.reverse).map fun (right, left) => (left.reverse, right.reverse)

/-- Every occurrence of a character is replaced by a text. -/
def substitute (mark : Char) (replacement : Text) (text : Text) : Text :=
  text.flatMap fun c => if c = mark then replacement else [c]

end Text

end Unpacking
