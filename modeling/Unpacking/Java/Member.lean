import Unpacking.Java.Statement

/-!
Members of classes, and the declarations of classes themselves.
-/

namespace Unpacking.Java

/-- The kind of a declared class. -/
inductive ClassKind where
  | ordinary
  | interface
  | enum
  | record
  /-- A class of annotations. -/
  | marker
deriving DecidableEq, Repr

namespace Rule

/-- One parameter of a method. A receiver declares nothing. -/
def parameter : Rule :=
  firstOf [
    .node (.other "receiver_parameter")
      (modifiers ++ .call .type ++ optional (identifier ++ symbol ".") ++ thisObject),
    .node .spreadParameter
      (modifiers ++ .call .type ++ symbol "..." ++ annotations ++ declarator),
    .node .formalParameter (soleVariable (.call .type))]

/-- The parameters of a method in their parentheses. -/
def parameters : Rule :=
  .node (.other "formal_parameters") (listed "(" parameter ")")

/-- The types that a method may throw. -/
def throwing : Rule :=
  optional (.node (.other "throws") (word "throws" ++ separated (symbol ",") (.call .type)))

/-- A constructor; one of a record may leave out its parameters. -/
def constructor : Rule :=
  let named := modifiers ++ typeParameters ++ .labelled .name identifier
  .node .constructorDeclaration (named ++ parameters ++ throwing ++ .call .block) <|>
    .node (.other "compact_constructor_declaration") (named ++ .call .block)

/-- A method. In a class of annotations it declares an element. -/
def method (kind : ClassKind) : Rule :=
  .node (if kind == .marker then .other "annotation_type_element_declaration"
      else .methodDeclaration)
    (modifiers ++ typeParameters ++ annotations ++ .call .type ++ .labelled .name identifier ++
      parameters ++ dimensions ++ throwing ++ optional (word "default" ++ annotationValue) ++
      (.call .block <|> symbol ";"))

/-- Fields. In an interface they are constants. -/
def fields (kind : ClassKind) : Rule :=
  .node (if kind == .interface || kind == .marker then .other "constant_declaration"
      else .fieldDeclaration)
    (modifiers ++ .call .type ++ declarators ++ symbol ";")

/-- A member of a class of some kind. -/
def classMember (kind : ClassKind) : Rule :=
  firstOf [symbol ";",
    .node (.other "static_initializer") (optional (word "static") ++ .call .block),
    .call .typeDeclaration, constructor, method kind, fields kind]

/-- A constant of an enumeration. -/
def enumConstant : Rule :=
  .node .enumConstant (modifiers ++ .labelled .name identifier ++ optional arguments ++
    optional (.call .classBody))

/-- The members between the braces of a class. The constants of an enumeration come first. -/
def classBody (kind : ClassKind) : Rule :=
  let members := Rule.many (classMember kind)
  .node (.other "class_body") (symbol "\x7b" ++
    (if kind == .enum then
      optional (separated (symbol ",") enumConstant) ++ optional (symbol ",") ++
        optional (.node .enumBodyDeclarations (symbol ";" ++ members))
    else members) ++ symbol "\x7d")

/-- The superclass of a class. -/
def superclass : Rule :=
  .node (.other "superclass")
    (.token (fun token => token.kind == .word && token.text == "extends") .extends false ++
      .call .type)

/-- A list of types behind one of some words, if there is one. -/
def typeList (words : List Text) : Rule :=
  optional (.node (.other "type_list")
    (oneOf (.other "keyword") words ++ separated (symbol ",") (.call .type)))

/-- What stands behind the word that tells the kind of a class. -/
def declarationRest (kind : ClassKind) : Rule :=
  .labelled .name identifier ++ typeParameters ++
    (if kind == .record then parameters else .nothing) ++
    (if kind == .ordinary then optional (.labelled .superclass superclass) else .nothing) ++
    typeList ["implements", "extends"] ++ typeList ["permits"] ++
    .labelled .body (classBody kind)

/-- The declaration of a class of some kind. -/
def declaration (node : NodeKind) (keyword : Rule) (kind : ClassKind) : Rule :=
  .node node (modifiers ++ keyword ++ declarationRest kind)

/-- The declaration of a class. -/
def typeDeclaration : Rule :=
  firstOf [
    declaration .classDeclaration (word "class") .ordinary,
    declaration .interfaceDeclaration (word "interface") .interface,
    declaration .enumDeclaration (word "enum") .enum,
    declaration (.other "record_declaration") (word "record") .record,
    declaration (.other "annotation_type_declaration") (symbol "@" ++ word "interface") .marker]

/-- One of some symbols. -/
def oneSymbol (texts : List Text) : Rule :=
  .token (fun token => token.kind == .symbol && texts.contains token.text) (.other "symbol") false

/-- A token that nothing is known about, or all that stands between its brackets. -/
def unknown : Rule :=
  oneSymbol ["\x7b", "("] ++
    .many (.notAhead (oneSymbol ["\x7d", ")"]) ++ .call .unknown) ++ oneSymbol ["\x7d", ")"] <|>
  .token (fun _ => true) (.other "token") false

/-- A package declaration. -/
def packageDeclaration : Rule :=
  .node .packageDeclaration (annotations ++ word "package" ++ dottedName ++ symbol ";")

/-- An import; a star stands for all names of a package. -/
def importDeclaration : Rule :=
  let star := Rule.token (fun token => token.kind == .symbol && token.text == "*") .asterisk true
  .node .importDeclaration (word "import" ++ optional (word "static") ++ dottedName ++
    optional (symbol "." ++ star) ++ symbol ";")

/-- Everything that stands at the top level of a source. -/
def sourceFile : Rule :=
  .many (firstOf [packageDeclaration, importDeclaration, .call .typeDeclaration, .call .unknown])

/-- The rule of a construct. -/
def of : Construct → Rule
  | .type => typeUse
  | .annotationUse => annotationUse
  | .expression inLabel => operands inLabel
  | .operand inLabel => operand inLabel
  | .initializer => initializer
  | .recordPattern => recordPattern
  | .statement => statement
  | .block => block
  | .classBody => classBody .ordinary
  | .parameters => parameters
  | .typeDeclaration => typeDeclaration
  | .unknown => unknown

end Rule

end Unpacking.Java
