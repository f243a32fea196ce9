import Unpacking.Java.Lexeme
import Unpacking.Java.Node

/-!
Rules for the constructs of a language, and the trees that they read off a list of tokens. A rule is
tried at the front of the tokens, alternatives in their order, and what it reads joins the nodes
read before it. Comments belong to the token behind them, and stay in front of a construct that
begins with this token.
-/

namespace Unpacking.Java

open Text

/-! ### Tokens -/

/-- A node without children. -/
def leaf (kind : NodeKind) (isNamed : Bool) (start stop : Nat) : Node :=
  .mk { id := 0, kind, isNamed, field := none, start, stop } []

/-- The kind of a comment. -/
def commentKind : NodeKind :=
  .other "comment"

/-- A lexeme other than blanks and comments, with its place in the source. -/
structure Token where
  kind : LexemeKind
  text : Text
  start : Nat
  stop : Nat
  /-- The comments between the token before and this one. -/
  comments : List Node

/-- The tokens of some lexemes that begin at an offset, with some comments before them. -/
def tokensFrom (offset : Nat) (comments : List Node) : List Lexeme → List Token
  | [] => []
  | lexeme :: rest =>
    let stop := offset + byteLength lexeme.text
    match lexeme.kind with
    | .blank => tokensFrom stop comments rest
    | .comment => tokensFrom stop (comments ++ [leaf commentKind true offset stop]) rest
    | kind => { kind, text := lexeme.text, start := offset, stop, comments } ::
      tokensFrom stop [] rest

/-- The tokens of a source. -/
def tokens (source : Text) : List Token :=
  tokensFrom 0 [] (lexemes source)

/-- A token as a node, behind its comments. -/
def Token.nodes (kind : NodeKind) (isNamed : Bool) (token : Token) : List Node :=
  token.comments ++ [leaf kind isNamed token.start token.stop]

/-! ### Rules -/

/-- The constructs that hold each other. -/
inductive Construct where
  /-- A type, with the brackets of its dimensions. -/
  | type
  | annotationUse
  /-- An expression; inside a `case` label an arrow ends it. -/
  | expression (inLabel : Bool)
  /-- A part of an expression between two operators. -/
  | operand (inLabel : Bool)
  /-- An array in braces, or an expression. -/
  | initializer
  /-- A pattern that takes a record apart. -/
  | recordPattern
  | statement
  | block
  /-- The body of a class. -/
  | classBody
  /-- The parameters of a method in their parentheses. -/
  | parameters
  /-- The declaration of a class, at the top level or inside another construct. -/
  | typeDeclaration
  /-- A token that nothing is known about, or all that stands between its brackets. -/
  | unknown
deriving DecidableEq, Repr

/-- A rule for reading a construct. -/
inductive Rule where
  /-- One token, which becomes a node of a kind. -/
  | token (test : Token → Bool) (kind : NodeKind) (isNamed : Bool)
  | nothing
  | sequence (first second : Rule)
  | choice (first second : Rule)
  /-- As often as possible. -/
  | many (rule : Rule)
  /-- Succeed where a rule would succeed, without taking anything. -/
  | ahead (rule : Rule)
  /-- Succeed where a rule would fail. -/
  | notAhead (rule : Rule)
  /-- What a rule reads, apart from what was read before. -/
  | alone (rule : Rule)
  /-- What a rule reads becomes one node. -/
  | node (kind : NodeKind) (rule : Rule)
  /-- What was read before becomes one node with what a rule reads, and may play a part in it. -/
  | onto (kind : NodeKind) (part? : Option FieldName) (rule : Rule)
  /-- What a rule reads plays a part in its parent. -/
  | labelled (part : FieldName) (rule : Rule)
  | call (construct : Construct)

instance : Append Rule := ⟨.sequence⟩

instance : OrElse Rule := ⟨fun first second => .choice first (second ())⟩

/-- A reader gets the nodes read before and the tokens that are left, and fails or gives more nodes
and fewer tokens. -/
abbrev Reader := List Node → List Token → Option (List Node × List Token)

/-- Whether a node is a comment. -/
def isComment (node : Node) : Bool :=
  node.kind == commentKind

/-- Some nodes as one node of a kind, behind the comments in front of them. -/
def wrap (kind : NodeKind) (nodes : List Node) : List Node :=
  let comments := nodes.takeWhile isComment
  match nodes.dropWhile isComment with
  | [] => comments
  | first :: rest =>
    let stop := ((first :: rest).getLast (by simp)).stop
    comments ++
      [.mk { id := 0, kind, isNamed := true, field := none, start := first.start, stop }
        (first :: rest)]

/-- A node that plays a part in its parent. Comments play none. -/
def withPart (part : FieldName) (node : Node) : Node :=
  if isComment node then node
  else .mk { node.label with field := some part } node.children

/-- Some nodes that may play a part in their parent. -/
def withPart? : Option FieldName → List Node → List Node
  | some part, nodes => nodes.map (withPart part)
  | none, nodes => nodes

/-- Read as often as possible, at most `limit` times. -/
def readMany (read : Reader) : Nat → List Node → List Token → List Node × List Token
  | 0, before, tokens => (before, tokens)
  | limit + 1, before, tokens =>
    match read before tokens with
    | none => (before, tokens)
    | some (before, rest) => readMany read limit before rest

/-- Read by a rule, given the readers of the constructs. -/
def Rule.read (calls : Construct → Reader) : Rule → Reader
  | .token test kind isNamed => fun before tokens =>
    match tokens with
    | [] => none
    | next :: rest =>
      if test next then some (before ++ next.nodes kind isNamed, rest) else none
  | .nothing => fun before tokens => some (before, tokens)
  | .sequence first second => fun before tokens =>
    match first.read calls before tokens with
    | none => none
    | some (before, rest) => second.read calls before rest
  | .choice first second => fun before tokens =>
    match first.read calls before tokens with
    | some result => some result
    | none => second.read calls before tokens
  | .many rule => fun before tokens =>
    -- Each time takes a token at least.
    some (readMany (rule.read calls) tokens.length before tokens)
  | .ahead rule => fun before tokens =>
    match rule.read calls [] tokens with
    | some _ => some (before, tokens)
    | none => none
  | .notAhead rule => fun before tokens =>
    match rule.read calls [] tokens with
    | some _ => none
    | none => some (before, tokens)
  | .alone rule => fun before tokens =>
    match rule.read calls [] tokens with
    | none => none
    | some (found, rest) => some (before ++ found, rest)
  | .node kind rule => fun before tokens =>
    match rule.read calls [] tokens with
    | none => none
    | some (found, rest) => some (before ++ wrap kind found, rest)
  | .onto kind part? rule => fun before tokens =>
    match rule.read calls (withPart? part? before) tokens with
    | none => none
    | some (found, rest) => some (wrap kind found, rest)
  | .labelled part rule => fun before tokens =>
    match rule.read calls [] tokens with
    | none => none
    | some (found, rest) => some (before ++ found.map (withPart part), rest)
  | .call construct => calls construct

namespace Rule

/-! ### Common rules -/

/-- A rule that may be left out. -/
def optional (rule : Rule) : Rule :=
  rule <|> .nothing

/-- Once or more often. -/
def repeated (rule : Rule) : Rule :=
  rule ++ .many rule

/-- Once or more often, with a rule between neighbours. -/
def separated (separator rule : Rule) : Rule :=
  rule ++ .many (separator ++ rule)

/-- A rule, with any number of continuations that take up what was read before. -/
def grown (first next : Rule) : Rule :=
  .alone (first ++ .many next)

/-- A given symbol. -/
def symbol (text : Text) : Rule :=
  .token (fun token => token.kind == .symbol && token.text == text) (.other text) false

/-- A given word. -/
def word (text : Text) : Rule :=
  .token (fun token => token.kind == .word && token.text == text) (.other text) false

/-- A list between a pair of symbols, with commas between neighbours. -/
def listed (opening : Text) (rule : Rule) (closing : Text) : Rule :=
  symbol opening ++ optional (separated (symbol ",") rule) ++ symbol closing

/-- The first of some alternatives that can be read. -/
def firstOf : List Rule → Rule
  | [] => .notAhead .nothing
  | [rule] => rule
  | rule :: rest => rule <|> firstOf rest

end Rule

/-- The words that cannot be names. -/
def reservedWords : List Text :=
  List.map String.toList
    ["abstract", "assert", "boolean", "break", "byte", "case", "catch", "char", "class",
    "continue", "default", "do", "double", "else", "enum", "extends", "final", "finally",
    "float", "for", "if", "implements", "import", "instanceof", "int", "interface", "long",
    "native", "new", "package", "private", "protected", "public", "return", "short", "static",
    "strictfp", "super", "switch", "synchronized", "this", "throw", "throws", "transient",
    "try", "void", "volatile", "while", "true", "false", "null"]

/-- Whether a token is a name. -/
def Token.isName (token : Token) : Bool :=
  token.kind == .word && !reservedWords.contains token.text

namespace Rule

/-- The name of a variable, a method or a class where it is declared. -/
def identifier : Rule :=
  .token Token.isName .identifier true

/-- The name of a type where it is used. -/
def typeIdentifier : Rule :=
  .token Token.isName (.other "type_identifier") true

/-- One of some words. -/
def oneOf (kind : NodeKind) (texts : List Text) : Rule :=
  .token (fun token => token.kind == .word && texts.contains token.text) kind true

/-- A literal. -/
def literal : Rule :=
  .token (fun token => token.kind == .literal ||
    (token.kind == .word && (["true", "false", "null"] : List Text).contains token.text))
    (.other "literal") true

/-- A name with dots in it, or without. -/
def dottedName : Rule :=
  grown identifier (.onto .scopedIdentifier none (symbol "." ++ identifier))

end Rule

end Unpacking.Java
