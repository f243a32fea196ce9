import Unpacking.Reflection.Removal
import Unpacking.Stage.BaseClass
import Unpacking.Stage.EntryPoint
import Unpacking.Stage.StaticMember
import Unpacking.Substitution.Table

/-!
The stages as values: each step carries what its stage needs, and can be run on a text.
-/

namespace Unpacking.Stage

/-- A stage with its parameters. -/
inductive Step where
  | renameClass (old new : Text)
  | stripBaseClass
  | commentSuperclassCalls
  | entryPoint (standIn : Text)
  | commentPackageLines
  | makeMethodsStatic
  | makeFieldsStatic
  | removeSelfReferences
  | commentPlatformImports (namespaces : List Text)
  | substitute (namespaces : List Text) (context : Substitution.Context) (imports : List Text)
  | removeReflection (terms : List Text)

/-- What a step tells besides its text. -/
inductive Note where
  | none
  | entryPoint (parameter : Option Text) (replacements : Nat)
  | substitution (unhandled : List Text) (log : Log)
  | removal (removal : Reflection.Removal)

/-- The text after a step, and what the step tells about it. -/
structure Outcome where
  text : Text
  note : Note := .none

/-- Run a step on a text. Only the removal of reflection can fail. -/
def Step.run (text : Text) : Step → Except Reflection.RemovalError Outcome
  | .renameClass old new => .ok { text := Stage.renameClass old new text }
  | .stripBaseClass => .ok { text := Stage.stripBaseClass text }
  | .commentSuperclassCalls => .ok { text := Stage.commentSuperclassCalls text }
  | .entryPoint standIn =>
    let result := Stage.entryPoint standIn text
    .ok { text := result.text, note := .entryPoint result.parameter result.replacements }
  | .commentPackageLines => .ok { text := Stage.commentPackageLines text }
  | .makeMethodsStatic => .ok { text := Stage.makeMethodsStatic text }
  | .makeFieldsStatic => .ok { text := Stage.makeFieldsStatic text }
  | .removeSelfReferences => .ok { text := Stage.removeSelfReferences text }
  | .commentPlatformImports namespaces =>
    .ok { text := Stage.commentPlatformImports namespaces text }
  | .substitute namespaces context imports =>
    let result := Substitution.apply namespaces context imports text
    .ok { text := result.text, note := .substitution result.unhandled result.log }
  | .removeReflection terms =>
    match Reflection.remove terms text with
    | .error error => .error error
    | .ok removal => .ok { text := removal.text, note := .removal removal }

end Unpacking.Stage
