import Unpacking.Java.Rule

/-!
Types, annotations and modifiers. The names of types are no identifiers; those inside the arguments
of annotations may be.
-/

namespace Unpacking.Java.Rule

/-- The names of types that are reserved words. -/
def primitiveTypes : List Text :=
  ["boolean", "byte", "char", "double", "float", "int", "long", "short", "void"]

/-- A value in an annotation: an annotation, an array of values or an expression. -/
def annotationValue : Rule :=
  .call .annotationUse <|> .call .initializer

/-- An argument of an annotation, with or without a key. -/
def annotationArgument : Rule :=
  .node (.other "element_value_pair") (identifier ++ symbol "=" ++ annotationValue) <|>
    annotationValue

/-- An annotation with its arguments, or without any. -/
def annotationUse : Rule :=
  let named := symbol "@" ++ .labelled .name dottedName
  .node .annotationUse (named ++
    .node (.other "annotation_argument_list") (listed "(" annotationArgument ")")) <|>
  .node .markerUse named

/-- Any number of annotations. -/
def annotations : Rule :=
  .many (.call .annotationUse)

/-- An argument of a generic type. -/
def typeArgument : Rule :=
  .node (.other "wildcard") (annotations ++ symbol "?" ++
    optional (oneOf (.other "bound") ["extends", "super"] ++ .call .type)) <|> .call .type

/-- The arguments of a generic type. -/
def typeArguments : Rule :=
  .node (.other "type_arguments") (listed "<" typeArgument ">")

/-- A name of a type, perhaps with arguments. -/
def typeName : Rule :=
  typeIdentifier ++ optional typeArguments

/-- A type without dimensions. -/
def simpleType : Rule :=
  oneOf (.other "primitive_type") primitiveTypes <|>
    typeName ++ .many (symbol "." ++ annotations ++ typeName)

/-- Any number of empty dimensions. -/
def dimensions : Rule :=
  .many (annotations ++ symbol "[" ++ symbol "]")

/-- A type with its annotations and dimensions. -/
def typeUse : Rule :=
  .node (.other "type") (annotations ++ simpleType ++ dimensions)

/-- One of the parameters of a generic declaration. -/
def typeParameter : Rule :=
  .node (.other "type_parameter") (annotations ++ typeIdentifier ++
    optional (word "extends" ++ separated (symbol "&") (.call .type)))

/-- The parameters of a generic declaration, if there are any. -/
def typeParameters : Rule :=
  optional (.node (.other "type_parameters")
    (symbol "<" ++ separated (symbol ",") typeParameter ++ symbol ">"))

/-- The words that may stand before a declaration. -/
def modifierWords : List Text :=
  ["public", "protected", "private", "abstract", "static", "final", "strictfp", "default",
    "synchronized", "native", "transient", "volatile"]

/-- A word, whichever it is. -/
def anyWord : Rule :=
  .token (fun token => token.kind == .word) (.other "word") true

/-- One modifier of a declaration. -/
def modifier : Rule :=
  firstOf [oneOf (.other "modifier") modifierWords, word "sealed" ++ .ahead anyWord,
    word "non" ++ symbol "-" ++ word "sealed", .call .annotationUse]

/-- The modifiers of a declaration, if there are any. -/
def modifiers : Rule :=
  optional (.node .modifiers (repeated modifier))

end Unpacking.Java.Rule
