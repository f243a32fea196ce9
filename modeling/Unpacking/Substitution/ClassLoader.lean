import Unpacking.Text.Pattern

/-!
Class loaders of the platform become class loaders over the same file.
-/

namespace Unpacking.Substitution

open Text

/-- The text behind the name of a platform class loader. -/
def loaderName? (text : Text) : Option Text :=
  (after? "DexClassLoader" text).or (after? "PathClassLoader" text)

/-- The arguments up to the closing parenthesis of a call, and the text behind it. Parentheses may
be nested once. -/
def callArguments? (nested : Bool) : Text → Option (Text × Text)
  | [] => none
  | c :: rest =>
    let continued (nested : Bool) :=
      (callArguments? nested rest).map fun (arguments, rest) => (c :: arguments, rest)
    if c = ')' then if nested then continued false else some ([], rest)
    else if c = '(' then if nested then none else continued true
    else continued nested

/-- The arguments of a class loader construction, and the text behind it. -/
def construction? (text : Text) : Option (Text × Text) := do
  let rest ← after? "new" text
  let rest ← afterBlanks? rest
  let rest ← loaderName? rest
  let rest ← after? "(" (trimStart rest)
  callArguments? false rest

/-- The step of one character on the bracket depth. -/
def bracketStep (c : Char) : Int :=
  if c == '(' || c == '[' || c == '{' then 1
  else if c == ')' || c == ']' || c == '}' then -1
  else 0

/-- The pieces of an argument list between its commas outside brackets. -/
def pieces (depth : Int) : Text → List Text
  | [] => [[]]
  | c :: rest =>
    if c = ',' && depth = 0 then [] :: pieces depth rest
    else
      match pieces (depth + bracketStep c) rest with
      | [] => [[c]]
      | piece :: more => (c :: piece) :: more

/-- The arguments of a call without their surrounding blanks; a blank last piece is no argument. -/
def splitArguments (text : Text) : List Text :=
  let arguments := (pieces 0 text).map trim
  if arguments.getLast? == some [] then arguments.dropLast else arguments

/-- The construction of a loader over a file, with its first argument as the path and its last as
the parent. -/
def urlLoader (arguments : List Text) : Text :=
  let path := arguments.head?.getD "\"\""
  let parent :=
    if arguments.length > 1 then arguments.getLast?.getD "null"
    else "ClassLoader.getSystemClassLoader()"
  "new java.net.URLClassLoader(new java.net.URL[] \x7b new java.io.File(" ++ path ++
    ").toURI().toURL() \x7d, " ++ parent ++ ")"

/-- The replacement of a loader construction. -/
def replaceConstruction (matched : Text) : Text :=
  match construction? matched with
  | some (arguments, _) => urlLoader (splitArguments arguments)
  | none => matched

/-- A class loader construction of the platform. -/
def constructionPattern : Pattern :=
  Pattern.ofReader fun text => (construction? text).map Prod.snd

/-- The name of a platform class loader as a whole word. -/
def loaderType : Pattern :=
  Pattern.toBoundary (Pattern.atBoundary (Pattern.ofReader loaderName?))

/-- Replace the class loaders of the platform on a line. -/
def classLoader (line : Text) : Text :=
  loaderType.replaceAll (fun _ => "java.net.URLClassLoader")
    (constructionPattern.replaceAll replaceConstruction line)

end Unpacking.Substitution
