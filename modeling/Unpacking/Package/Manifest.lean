import Unpacking.Markup.Element
import Unpacking.Package.ClassFact
import Unpacking.Text.NameSet

/-!
What the analysis needs of a manifest: the package, the application class and the classes of the
declared components.
-/

namespace Unpacking

open Text Markup

/-- The summary of a manifest. -/
structure Manifest where
  package : Option Text := none
  /-- The full name of the application class. -/
  applicationClass : Option Text := none
  /-- The classes of the components, in payload form. -/
  componentClasses : NameSet := .empty

namespace Manifest

/-- The elements that declare a component. -/
def componentTags : List Text :=
  ["activity", "service", "receiver", "provider"]

/-- The values of an attribute on the elements that satisfy a condition, in document order. -/
def values (condition : Element → Bool) (key : Text) (elements : List Element) : List Text :=
  elements.flatMap fun element =>
    if condition element then
      (element.attributes.filter fun entry => entry.key == key).map Attribute.value
    else []

/-- A name that begins with a dot or has none belongs to the package of the manifest. -/
def resolve (package : Option Text) (name : Text) : Text :=
  let within (relative : Text) :=
    match package with
    | some package => package ++ "." ++ relative
    | none => relative
  match name with
  | '.' :: relative => within relative
  | _ => if name.contains '.' then name else within name

/-- The summary of the elements of a manifest. Of several packages or application classes the last
one counts, and names are resolved against it wherever it stands. -/
def ofElements (elements : List Element) : Manifest :=
  let package := (values (fun element => element.name == "manifest") "package" elements).getLast?
  let application :=
    (values (fun element => element.name == "application") "android:name" elements).getLast?
  let components :=
    values (fun element => componentTags.contains element.name) "android:name" elements
  { package
    applicationClass := application.map (resolve package)
    componentClasses :=
      NameSet.ofList (components.map fun name => payloadName (resolve package name)) }

/-- The summary of a manifest text. -/
def parse (text : Text) : Manifest :=
  ofElements (elements text)

end Manifest

end Unpacking
