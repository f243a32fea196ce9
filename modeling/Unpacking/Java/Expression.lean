import Unpacking.Java.TypeUse

/-!
Expressions. Operators and their operands form one chain without regard to precedence.
-/

namespace Unpacking.Java.Rule

/-- A whole expression outside a `case` label. -/
def expression : Rule :=
  .call (.expression false)

/-- The arguments of a call in their parentheses. -/
def arguments : Rule :=
  .node (.other "argument_list") (listed "(" expression ")")

/-- An array in braces. -/
def arrayInitializer : Rule :=
  .node (.other "array_initializer") (symbol "\x7b" ++
    optional (separated (symbol ",") annotationValue) ++ optional (symbol ",") ++ symbol "\x7d")

/-- An array in braces, or an expression. -/
def initializer : Rule :=
  arrayInitializer <|> expression

/-- One dimension of a new array, with or without its size. -/
def newDimension : Rule :=
  annotations ++ symbol "[" ++ optional expression ++ symbol "]"

/-- A new object or array. -/
def creation : Rule :=
  word "new" ++ annotations ++ optional typeArguments ++ annotations ++ simpleType ++
    (arguments ++ optional (.call .classBody) <|>
      repeated newDimension ++ optional arrayInitializer)

/-- The parameters of a lambda: a bare name, names without types, or names with types. -/
def lambdaParameters : Rule :=
  firstOf [identifier,
    .node .inferredParameters (symbol "(" ++ separated (symbol ",") identifier ++ symbol ")"),
    .call .parameters]

/-- A lambda. -/
def lambda : Rule :=
  .node .lambdaExpression (.labelled .parameters lambdaParameters ++ symbol "->" ++
    (.call .block <|> expression))

/-- Whether a token can begin the operand of a cast. A sign can do so only behind a type that
could not be an operand itself. -/
def beginsOperand (signs : Bool) (token : Token) : Bool :=
  match token.kind with
  | .literal => true
  | .symbol =>
    (["(", "!", "~"] : List Text).contains token.text ||
      (signs && (["+", "-", "++", "--"] : List Text).contains token.text)
  | .word =>
    !reservedWords.contains token.text || primitiveTypes.contains token.text ||
      (["this", "super", "new", "switch", "true", "false", "null"] : List Text).contains token.text
  | _ => false

/-- The types of a cast in their parentheses, with the next token beginning an operand. -/
def castTypes : Rule :=
  let isName := symbol "(" ++ dottedName ++ symbol ")"
  let types := symbol "(" ++ separated (symbol "&") (.call .type) ++ symbol ")"
  let operandBehind signs := Rule.ahead (.token (beginsOperand signs) (.other "operand") true)
  .ahead isName ++ types ++ operandBehind false <|>
    .notAhead isName ++ types ++ operandBehind true

/-- A type as the subject of a class literal or of a method reference. A dotted name before a
method reference is an object and its members instead. -/
def typeReference : Rule :=
  .node (.other "class_literal") (simpleType ++ dimensions ++ symbol "." ++ word "class") <|>
  .notAhead (dottedName ++ symbol "::") ++ .node (.other "type") (simpleType ++ dimensions) ++
    .ahead (symbol "::")

/-- A pattern that takes a record apart. -/
def recordPattern : Rule :=
  .node (.other "record_pattern") (identifier ++ optional typeArguments ++
    listed "(" (.call .recordPattern <|>
      .node (.other "record_pattern_component") (.call .type ++ identifier)) ")")

/-- What stands behind `instanceof`: a pattern, or a type with or without a name. -/
def typeTest : Rule :=
  optional (word "final") ++ (.call .recordPattern <|> .call .type ++ optional identifier)

/-- A pattern of a `case` label: a record pattern, or a type with a name. -/
def casePattern : Rule :=
  .node (.other "pattern") (.call .recordPattern <|> .call .type ++ identifier) ++
    .ahead (firstOf [symbol ":", symbol "->", symbol ",", word "when"])

/-- A label of a `switch`, up to its colon or arrow. -/
def switchLabel : Rule :=
  let inLabel := Rule.call (.expression true)
  let cases := separated (symbol ",") (firstOf [casePattern, inLabel, word "default"])
  .node (.other "switch_label") (word "default" <|>
    word "case" ++ cases ++ optional (word "when" ++ inLabel)) ++ (symbol ":" <|> symbol "->")

/-- A `switch` with its body. -/
def switch : Rule :=
  .node (.other "switch_expression") (word "switch" ++ symbol "(" ++ expression ++ symbol ")" ++
    .node (.other "switch_block")
      (symbol "\x7b" ++ .many (switchLabel <|> .call .statement) ++ symbol "\x7d"))

/-- The object that is at work. -/
def thisObject : Rule :=
  .token (fun token => token.kind == .word && token.text == "this") .this true

/-- The object that is at work, as one of the superclass. -/
def superObject : Rule :=
  .token (fun token => token.kind == .word && token.text == "super") (.other "super") true

/-- The dot behind an object, perhaps with the word for its superclass. -/
def memberDot : Rule :=
  symbol "." ++ optional (superObject ++ symbol ".") ++ optional typeArguments

/-- What may follow an operand. -/
def continuation : Rule :=
  firstOf [
    .onto (.other "object_creation_expression") none (symbol "." ++ creation),
    .onto .fieldAccess (some .object)
      (symbol "." ++ .labelled .field (thisObject <|> word "class")),
    .onto .methodInvocation (some .object)
      (memberDot ++ .labelled .name identifier ++ arguments),
    .onto .fieldAccess (some .object) (memberDot ++ .labelled .field identifier),
    .onto (.other "explicit_constructor_invocation") none
      (symbol "." ++ superObject ++ optional arguments),
    .onto (.other "literal_access") none (symbol "." ++ literal),
    .onto (.other "array_access") none (symbol "[" ++ expression ++ symbol "]"),
    .onto .methodReference none
      (symbol "::" ++ optional typeArguments ++ (identifier <|> word "new")),
    .onto (.other "update_expression") none (symbol "++" <|> symbol "--")]

/-- The beginning of an operand, before any dot or bracket. -/
def primary : Rule :=
  let object := thisObject <|> superObject
  firstOf [
    literal,
    .node (.other "explicit_constructor_invocation") (object ++ arguments),
    object,
    .node (.other "parenthesized_expression") (symbol "(" ++ expression ++ symbol ")"),
    .node (.other "object_creation_expression") creation,
    switch,
    typeReference,
    .node .methodInvocation (.labelled .name identifier ++ arguments),
    identifier]

/-- The operators before an operand. -/
def leadingOperator : Rule :=
  firstOf [symbol "+", symbol "-", symbol "!", symbol "~", symbol "++", symbol "--"]

/-- An operand with everything that belongs to it. In a label an arrow does not make a lambda. -/
def operand (inLabel : Bool) : Rule :=
  let inner := Rule.call (.operand inLabel)
  firstOf [
    .node (.other "unary_expression") (leadingOperator ++ inner),
    if inLabel then .notAhead .nothing else lambda,
    .node (.other "cast_expression") (castTypes ++ inner),
    grown primary continuation]

/-- The operators between two operands, besides those that begin with a closing angle bracket. -/
def infixOperators : List Text :=
  ["=", "+=", "-=", "*=", "/=", "&=", "|=", "^=", "%=", "<<=", "||", "&&", "|", "^", "&", "==",
    "!=", "<", "<=", "<<", "+", "-", "*", "/", "%"]

/-- An operator between two operands. -/
def infixOperator : Rule :=
  .token (fun token => token.kind == .symbol && infixOperators.contains token.text)
    (.other "operator") false <|>
  symbol ">" ++ .many (symbol ">") ++ optional (symbol "=" <|> symbol "==")

/-- A further part of an expression, behind an operand. -/
def furtherPart (inLabel : Bool) : Rule :=
  firstOf [
    word "instanceof" ++ typeTest,
    symbol "?" ++ expression ++ symbol ":" ++ .call (.expression inLabel),
    infixOperator ++ .call (.operand inLabel)]

/-- An expression, perhaps inside a `case` label. -/
def operands (inLabel : Bool) : Rule :=
  grown (.call (.operand inLabel)) (.onto (.other "binary_expression") none (furtherPart inLabel))

end Unpacking.Java.Rule
