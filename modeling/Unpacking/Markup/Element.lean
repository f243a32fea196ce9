import Unpacking.Markup.Attribute

/-!
The elements that a markup text opens, in document order. The scan stops at the first construct
that is not well formed; what was opened before it counts.
-/

namespace Unpacking.Markup

open Text

/-- An element with its attributes. -/
structure Element where
  name : Text
  attributes : List Attribute
deriving DecidableEq, Repr

/-- The text up to the first `>` outside quotes, and the text behind it. A tag that does not close
runs to the end. -/
def tagContent (quote : Option Char) : Text → Text × Text
  | [] => ([], [])
  | c :: rest =>
    let continued (quote : Option Char) :=
      let (content, behind) := tagContent quote rest
      (c :: content, behind)
    match quote with
    | some mark => continued (if c = mark then none else some mark)
    | none =>
      if c = '>' then ([], rest)
      else continued (if c == '"' || c == '\'' then some c else none)

/-- The text up to the next `>`, and the text behind it; without one, all of it. -/
def untilClose (text : Text) : Text × Text :=
  (cut? '>' text).getD (text, [])

/-- The text behind the first occurrence of a word. -/
def behind? (word : Text) : Text → Option Text
  | [] => after? word []
  | c :: rest =>
    match after? word (c :: rest) with
    | some found => some found
    | none => behind? word rest

/-- The content of a document type declaration up to the `>` that leaves no angle bracket open,
and the text behind it. -/
def doctype? (depth : Int) : Text → Option (Text × Text)
  | [] => none
  | c :: rest =>
    if c = '>' && depth = 0 then some ([], rest)
    else
      let depth := if c = '<' then depth + 1 else if c = '>' then depth - 1 else depth
      (doctype? depth rest).map fun (content, behind) => (c :: content, behind)

/-- A word of lower-case letters stands at the front, in any case. -/
def afterAnyCase? : Text → Text → Option Text
  | [], text => some text
  | w :: word, c :: rest => if w = c.toLower then afterAnyCase? word rest else none
  | _ :: _, [] => none

/-- The text behind a construct that begins with an exclamation mark. -/
def afterDeclaration? : Text → Option Text
  | '[' :: rest => do
    let content ← afterAnyCase? "cdata[" rest
    behind? "]]>" content
  | '-' :: rest => do
    let content ← after? "-" rest
    behind? "-->" content
  | c :: rest =>
    if c == 'D' || c == 'd' then do
      let (content, behind) ← doctype? 0 (c :: rest)
      let name ← afterAnyCase? "doctype" content
      if name.all isSpace then none else some behind
    else none
  | [] => none

/-- The text behind a processing instruction, whose content is closed by a question mark. -/
def afterInstruction? (text : Text) : Option Text :=
  let (content, behind) := untilClose text
  if content.length > 1 && content.getLast? == some '?' then some behind else none

/-- The name of a closing tag, without the white space behind it. -/
def closingName (content : Text) : Text :=
  if content.all isSpace then content else (content.reverse.dropWhile isSpace).reverse

/-- The element of a tag, and whether the element stays open. -/
def readTag (content : Text) : Element × Bool :=
  let isEmpty := content.getLast? == some '/'
  let content := if isEmpty then content.dropLast else content
  let name := content.takeWhile (!isSpace ·)
  ({ name, attributes := attributes (content.drop name.length) }, !isEmpty)

/-- The elements opened from a place on, by at most `limit` constructs, given the names of the
elements that are open there, innermost first. -/
def elementsUpTo : Nat → List Text → Text → List Element
  | 0, _, _ => []
  | limit + 1, openNames, text =>
    match text.dropWhile (· != '<') with
    | [] | [_] => []
    | _ :: '!' :: rest =>
      match afterDeclaration? rest with
      | some behind => elementsUpTo limit openNames behind
      | none => []
    | _ :: '?' :: rest =>
      match afterInstruction? rest with
      | some behind => elementsUpTo limit openNames behind
      | none => []
    | _ :: '/' :: rest =>
      let (content, behind) := untilClose rest
      match openNames with
      | name :: outer =>
        if closingName content == name then elementsUpTo limit outer behind else []
      | [] => []
    | _ :: rest =>
      let (content, behind) := tagContent none rest
      let (element, staysOpen) := readTag content
      element ::
        elementsUpTo limit (if staysOpen then element.name :: openNames else openNames) behind

/-- The elements that a text opens. Each construct takes a character at least, so the length of
the text bounds their number. -/
def elements (text : Text) : List Element :=
  elementsUpTo text.length [] text

end Unpacking.Markup
