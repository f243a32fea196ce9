import Unpacking.Java.Expression

/-!
Statements, and the variables that they declare.
-/

namespace Unpacking.Java.Rule

/-- One declared name with its dimensions and first value. -/
def declarator : Rule :=
  .node .variableDeclarator (.labelled .name identifier ++ dimensions ++
    optional (symbol "=" ++ .call .initializer))

/-- One declared name or more. -/
def declarators : Rule :=
  separated (symbol ",") (.labelled .declarator declarator)

/-- The declaration of local variables with its semicolon. -/
def localDeclaration : Rule :=
  .node .localVariableDeclaration (modifiers ++ .call .type ++ declarators ++ symbol ";")

/-- A variable that stands for itself: its modifiers, its type and its name. -/
def soleVariable (type : Rule) : Rule :=
  modifiers ++ type ++ .labelled .name identifier ++ dimensions

/-- An expression in parentheses. -/
def condition : Rule :=
  .node (.other "parenthesized_expression") (symbol "(" ++ expression ++ symbol ")")

/-- An `if` with or without its `else`. -/
def ifStatement : Rule :=
  .node (.other "if_statement") (word "if" ++ condition ++ .call .statement ++
    optional (word "else" ++ .call .statement))

/-- A `while` loop. -/
def whileStatement : Rule :=
  .node (.other "while_statement") (word "while" ++ condition ++ .call .statement)

/-- A `do` loop. -/
def doStatement : Rule :=
  .node (.other "do_statement") (word "do" ++ .call .statement ++ word "while" ++ condition ++
    symbol ";")

/-- A loop over the members of a collection. -/
def eachStatement : Rule :=
  .node .enhancedForStatement (word "for" ++ symbol "(" ++ soleVariable (.call .type) ++
    symbol ":" ++ expression ++ symbol ")" ++ .call .statement)

/-- A counting loop. -/
def forStatement : Rule :=
  let expressions := optional (separated (symbol ",") expression)
  .node (.other "for_statement") (word "for" ++ symbol "(" ++
    (localDeclaration <|> expressions ++ symbol ";") ++ optional expression ++ symbol ";" ++
    expressions ++ symbol ")" ++ .call .statement)

/-- A resource of a `try`, which may be declared there. -/
def resource : Rule :=
  .node .resource (soleVariable (.call .type) ++ symbol "=" ++ expression) <|>
    .node .resource expression

/-- The resources of a `try` in their parentheses. -/
def resources : Rule :=
  .node (.other "resource_specification") (symbol "(" ++ separated (symbol ";") resource ++
    optional (symbol ";") ++ symbol ")")

/-- A `catch` with its block. -/
def catchClause : Rule :=
  .node (.other "catch_clause") (word "catch" ++ symbol "(" ++
    .node .catchFormalParameter
      (soleVariable (.node (.other "catch_type") (separated (symbol "|") (.call .type)))) ++
    symbol ")" ++ .call .block)

/-- A `try` with everything that belongs to it. -/
def tryStatement : Rule :=
  .node (.other "try_statement") (word "try" ++ optional resources ++ .call .block ++
    .many catchClause ++ optional (word "finally" ++ .call .block))

/-- A jump, perhaps to a label. -/
def jumpStatement (kind : NodeKind) (keyword : Text) : Rule :=
  .node kind (word keyword ++ optional identifier ++ symbol ";")

/-- A `return`, `throw` or `yield`. -/
def leavingStatement : Rule :=
  .node (.other "return_statement") (oneOf (.other "keyword") ["return", "throw", "yield"] ++
    optional expression ++ symbol ";")

/-- An `assert` with or without its message. -/
def assertStatement : Rule :=
  .node (.other "assert_statement") (word "assert" ++ expression ++
    optional (symbol ":" ++ expression) ++ symbol ";")

/-- A block that holds a lock. -/
def lockedStatement : Rule :=
  .node (.other "synchronized_statement") (word "synchronized" ++ condition ++ .call .block)

/-- A statement with a label. -/
def labeledStatement : Rule :=
  .node .labeledStatement (identifier ++ symbol ":" ++ .call .statement)

/-- An expression with its semicolon. -/
def expressionStatement : Rule :=
  .node (.other "expression_statement") (optional typeArguments ++ expression ++ symbol ";")

/-- A statement. -/
def statement : Rule :=
  firstOf [symbol ";", .call .block, ifStatement, whileStatement, doStatement, eachStatement,
    forStatement, tryStatement, switch, lockedStatement, jumpStatement .breakStatement "break",
    jumpStatement .continueStatement "continue", leavingStatement, assertStatement,
    labeledStatement, .call .typeDeclaration, localDeclaration, expressionStatement]

/-- A block in braces. -/
def block : Rule :=
  .node (.other "block") (symbol "\x7b" ++ .many (.call .statement) ++ symbol "\x7d")

end Unpacking.Java.Rule
