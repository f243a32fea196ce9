import Unpacking.Text.Lines
import Unpacking.Text.Reading

/-!
Package lines and imports of the platform, which a standalone program cannot keep.
-/

namespace Unpacking.Stage

open Text

/-- A line that is put behind two slashes. -/
def commentOut (line : Line) : Line :=
  "// " ++ line

/-- A line that begins with a package declaration. -/
def isPackageLine (line : Line) : Bool :=
  (do
    let rest ← after? "package" (trimStart line)
    let rest ← afterBlanks? rest
    let (_, rest) ← run? (fun c => isWord c || c == '.') rest
    after? ";" (trimStart rest)).isSome

/-- A line with a package declaration commented out. -/
def withoutPackage (line : Line) : Line :=
  if isPackageLine line then commentOut line else line

/-- Comment out every package line. -/
def commentPackageLines (text : Text) : Text :=
  mapLines withoutPackage text

/-- The name that stands before a semicolon, with a star for all names of a package. -/
def importedName? (text : Text) : Option Text := do
  let (name, rest) ← run? (fun c => isWord c || c == '.') text
  if begins ";" (trimStart rest) then some name
  else
    let rest ← after? "*" rest
    if begins ";" (trimStart rest) && name.length > 1 && name.getLast? == some '.' then
      some (name ++ "*")
    else none

/-- The name that a line imports. -/
def importLine? (line : Line) : Option Text := do
  let rest ← after? "import" (trimStart line)
  let rest ← afterBlanks? rest
  match (oneOf? ["static"] rest).bind fun (_, rest) => importedName? rest with
  | some name => some name
  | none => importedName? rest

/-- A name lies in a namespace if it continues it with a dot. -/
def isInside (name space : Text) : Bool :=
  match after? space name with
  | some (c :: _) => c == '.'
  | _ => false

/-- A name of the platform lies in one of its namespaces. -/
def isPlatformName (namespaces : List Text) (name : Text) : Bool :=
  namespaces.any (isInside name)

/-- A line with an import from the platform commented out. -/
def withoutPlatformImport (namespaces : List Text) (line : Line) : Line :=
  match importLine? line with
  | some name => if isPlatformName namespaces name then commentOut line else line
  | none => line

/-- Comment out the imports from the platform namespaces. -/
def commentPlatformImports (namespaces : List Text) (text : Text) : Text :=
  mapLines (withoutPlatformImport namespaces) text

end Unpacking.Stage
