import Mathlib.Data.List.Forall2
import Unpacking.Proofs.Renaming.Fresh
import Unpacking.Renaming.Qualified

/-!
No two names that a renamer hands out are the same. A renamer serves one request after the other and
remembers every name that it has given to a field, a method, a parameter or a local variable, also
when a request fails. Main statement: `distinct_newNames`.
-/

namespace Unpacking.Renaming

open Java

/-! ### The names of one class -/

namespace Declared

/-- The new names of the fields, the methods and the variables of a class, by their old ones. -/
def pairs (declared : Declared) : NewNames :=
  declared.fields ++ declared.methods ++ declared.scopes.flatMap Scope.names

/-- The new names of the fields, the methods and the variables of a class. -/
def newNames (declared : Declared) : List Text :=
  declared.pairs.map Prod.snd

/-- What was handed out is what was handed out before and the new names of the class, each name
once. -/
structure Accounts (taken : List Text) (declared : Declared) : Prop where
  distinct : declared.taken.Nodup
  complete : declared.taken.Perm (taken ++ declared.newNames)

theorem Accounts.add {taken : List Text} {declared : Declared} (accounts : Accounts taken declared)
    (source : Text) (member : Node) : Accounts taken (declared.add source member) := by
  obtain ⟨newFields, newMethods, newScopes, adds, -⟩ := declared.exists_adds source member
  refine ⟨adds.distinct accounts.distinct, List.perm_iff_count.mpr ?_⟩
  intro name
  have before := List.perm_iff_count.mp accounts.complete name
  simp only [newNames, pairs, List.map_append, List.count_append] at before
  simp only [newNames, pairs, adds.taken, adds.fields, adds.methods, adds.scopes, List.map_append,
    List.flatMap_append, List.count_append]
  omega

end Declared

theorem accounts_declare {taken : List Text} (distinct : taken.Nodup) (source : Text)
    (members : List Node) : Declared.Accounts taken (declare taken source members) := by
  apply declare_induction
  · exact ⟨distinct, by simp [Declared.newNames, Declared.pairs]⟩
  · intro declared member _ accounts
    exact accounts.add source member

/-- What the class of a tree declares. -/
def declaredBy (taken : List Text) (className source : Text) (root : Node) : Declared :=
  match selectBody? source className root with
  | none => { taken }
  | some (_, body) => declare taken source (members body)

theorem accounts_declaredBy {taken : List Text} (distinct : taken.Nodup)
    (className source : Text) (root : Node) :
    Declared.Accounts taken (declaredBy taken className source root) := by
  rw [declaredBy]
  split
  · exact ⟨distinct, by simp [Declared.newNames, Declared.pairs]⟩
  · exact accounts_declare distinct source _

/-- A renamed class shows the fields and methods that it declares, and everything that it declares
is remembered. -/
theorem renameTree_eq_declaredBy (taken : List Text) (className source : Text) (root : Node) :
    (renameTree taken className source root).1.fields =
        (declaredBy taken className source root).fields ∧
      (renameTree taken className source root).1.methods =
        (declaredBy taken className source root).methods ∧
      (renameTree taken className source root).2 =
        (declaredBy taken className source root).taken := by
  rw [renameTree, declaredBy]
  cases selectBody? source className root with
  | none => exact ⟨rfl, rfl, rfl⟩
  | some selected => exact ⟨rfl, rfl, rfl⟩

/-! ### The names of several classes -/

/-- The members of a renamed class with their new names. -/
def RenamedClass.shown (renamed : RenamedClass) : NewNames × NewNames :=
  (renamed.fields, renamed.methods)

/-- The members of a class with their new names. -/
def Declared.shown (declared : Declared) : NewNames × NewNames :=
  (declared.fields, declared.methods)

/-- What each of some classes declares when they are renamed one after the other. A class that
cannot be parsed ends it. -/
def declaredAlong (parser : Parser) (taken : List Text) : List (Text × Text) → List Declared
  | [] => []
  | (className, source) :: rest =>
    match parser.parse source with
    | .error _ => []
    | .ok root =>
      let declared := declaredBy taken className source root
      declared :: declaredAlong parser declared.taken rest

/-- What is taken after some classes. -/
def takenAfter (taken : List Text) (classes : List Declared) : List Text :=
  (classes.getLast?.map Declared.taken).getD taken

theorem takenAfter_cons (taken : List Text) (declared : Declared) (rest : List Declared) :
    takenAfter taken (declared :: rest) = takenAfter declared.taken rest := by
  cases rest with
  | nil => rfl
  | cons next rest =>
      rw [takenAfter, takenAfter, List.getLast?_cons_cons, List.getLast?_eq_some_getLast (by simp)]
      rfl

/-- Renaming some classes one after the other shows what they declare and remembers all of it. -/
theorem renameSeparately_eq (parser : Parser) (taken : List Text)
    (classes : List (Text × Text)) :
    (∀ renamed, (renameSeparately parser taken classes).1 = .ok renamed →
        renamed.map RenamedClass.shown =
          (declaredAlong parser taken classes).map Declared.shown) ∧
      (renameSeparately parser taken classes).2 =
        takenAfter taken (declaredAlong parser taken classes) := by
  induction classes generalizing taken with
  | nil =>
      refine ⟨?_, rfl⟩
      rintro renamed ⟨⟩
      rfl
  | cons first rest inductionHypothesis =>
      obtain ⟨className, source⟩ := first
      rw [renameSeparately, renameClass, declaredAlong]
      cases parser.parse source with
      | error reason => exact ⟨by simp, rfl⟩
      | ok root =>
          obtain ⟨fields, methods, remembered⟩ :=
            renameTree_eq_declaredBy taken className source root
          obtain ⟨shown, later⟩ :=
            inductionHypothesis (declaredBy taken className source root).taken
          dsimp only
          rw [remembered, takenAfter_cons]
          cases others : renameSeparately parser (declaredBy taken className source root).taken
            rest with
          | mk result left =>
              rw [others] at shown later
              cases result with
              | error error => exact ⟨by simp, later⟩
              | ok renamed =>
                  refine ⟨?_, later⟩
                  rintro all ⟨⟩
                  rw [List.map_cons, List.map_cons, shown renamed rfl, RenamedClass.shown,
                    Declared.shown, fields, methods]

/-- A class is renamed by itself, with the names that are taken when its turn comes. -/
def IsRenamedAlong (parser : Parser) (taken : List Text) (classes : List (Text × Text))
    (entry : Text × Text) (one : RenamedClass) : Prop :=
  ∃ before root, parser.parse entry.2 = .ok root ∧
    one = (renameTree before entry.1 entry.2 root).1 ∧
    declaredBy before entry.1 entry.2 root ∈ declaredAlong parser taken classes

section Along

variable {parser : Parser} {taken : List Text} {classes : List (Text × Text)}
  {renamed : List RenamedClass} (ran : (renameSeparately parser taken classes).1 = .ok renamed)

include ran

theorem forall₂_renameSeparately :
    List.Forall₂ (IsRenamedAlong parser taken classes) classes renamed := by
  induction classes generalizing taken renamed with
  | nil =>
      cases ran
      exact .nil
  | cons first rest inductionHypothesis =>
      obtain ⟨className, source⟩ := first
      rw [renameSeparately, renameClass] at ran
      cases parsed : parser.parse source with
      | error reason => simp [parsed] at ran
      | ok root =>
          have listed : declaredAlong parser taken ((className, source) :: rest) =
              declaredBy taken className source root ::
                declaredAlong parser (declaredBy taken className source root).taken rest := by
            rw [declaredAlong, parsed]
          simp only [parsed] at ran
          rw [(renameTree_eq_declaredBy taken className source root).2.2] at ran
          generalize others : renameSeparately parser
            (declaredBy taken className source root).taken rest = run at ran
          obtain ⟨error | more, left⟩ := run
          · simp at ran
          · cases ran
            refine .cons ⟨taken, root, parsed, rfl, listed ▸ List.mem_cons_self ..⟩ ?_
            apply (inductionHypothesis (congrArg Prod.fst others)).imp
            rintro entry one ⟨before, tree, alsoParsed, same, inside⟩
            exact ⟨before, tree, alsoParsed, same, listed ▸ List.mem_cons_of_mem _ inside⟩

theorem exists_isRenamedAlong_of_mem {one : RenamedClass} (inside : one ∈ renamed) :
    ∃ entry ∈ classes, IsRenamedAlong parser taken classes entry one := by
  have along := forall₂_renameSeparately ran
  obtain ⟨index, bound, rfl⟩ := List.mem_iff_getElem.mp inside
  have alsoBound : index < classes.length := along.length_eq ▸ bound
  exact ⟨classes[index], List.getElem_mem alsoBound, along.get alsoBound bound⟩

theorem exists_isRenamedAlong_of_getElem? {index : Nat} {entry : Text × Text}
    (present : classes[index]? = some entry) :
    ∃ one, renamed[index]? = some one ∧ IsRenamedAlong parser taken classes entry one := by
  have along := forall₂_renameSeparately ran
  obtain ⟨bound, rfl⟩ := List.getElem?_eq_some_iff.mp present
  have alsoBound : index < renamed.length := along.length_eq ▸ bound
  exact ⟨renamed[index], List.getElem?_eq_getElem alsoBound, along.get bound alsoBound⟩

end Along

/-- Classes that are renamed together are renamed one by one first. -/
theorem renameAll_eq_ok {renamer : Renamer} {taken : List Text} {classes : List (Text × Text)}
    {renamed : List RenamedClass} (ran : (renameAll renamer taken classes).1 = .ok renamed) :
    ∃ separate, (renameSeparately renamer.parser taken classes).1 = .ok separate ∧
      renamed = renameUses renamer.order separate := by
  rw [renameAll] at ran
  generalize renameSeparately renamer.parser taken classes = run at ran ⊢
  obtain ⟨error | separate, left⟩ := run
  · simp at ran
  · dsimp only at ran
    split at ran
    · simp at ran
    · exact ⟨separate, rfl, (Except.ok.inj ran).symm⟩

/-- The order in which the members of a class are visited does not matter. -/
theorem mem_membersIn {order : MapOrder} {renamed : RenamedClass} {entry : Text × Text} :
    entry ∈ renamed.membersIn order ↔ entry ∈ renamed.fields ++ renamed.methods := by
  rw [RenamedClass.membersIn, List.mem_append, List.mem_append, (order.perm _).mem_iff,
    (order.perm _).mem_iff]

theorem takenAfter_declaredAlong {taken : List Text} (distinct : taken.Nodup) (parser : Parser)
    (classes : List (Text × Text)) :
    (takenAfter taken (declaredAlong parser taken classes)).Nodup ∧
      (takenAfter taken (declaredAlong parser taken classes)).Perm
        (taken ++ (declaredAlong parser taken classes).flatMap Declared.newNames) := by
  induction classes generalizing taken with
  | nil => exact ⟨distinct, by simp [takenAfter, declaredAlong]⟩
  | cons first rest inductionHypothesis =>
      obtain ⟨className, source⟩ := first
      rw [declaredAlong]
      cases parser.parse source with
      | error reason => exact ⟨distinct, by simp [takenAfter]⟩
      | ok root =>
          have accounts := accounts_declaredBy distinct className source root
          obtain ⟨later, complete⟩ := inductionHypothesis accounts.distinct
          dsimp only
          rw [takenAfter_cons, List.flatMap_cons, ← List.append_assoc]
          exact ⟨later, complete.trans (accounts.complete.append_right _)⟩

/-! ### Requests -/

/-- What a renamer may be asked for: one class alone, or several classes with the uses of their
members in each other. -/
inductive Request where
  | single (className source : Text)
  | group (classes : List (Text × Text))

namespace Request

/-- The classes of a request. -/
def classes : Request → List (Text × Text)
  | .single className source => [(className, source)]
  | .group classes => classes

/-- Serve a request, and add the new names to those handed out. -/
def serve (renamer : Renamer) (taken : List Text) :
    Request → Except RewriteError (List RenamedClass) × List Text
  | .single className source =>
    let (result, taken) := renameClass renamer.parser taken className source
    (result.map fun renamed => [renamed], taken)
  | .group classes => renameAll renamer taken classes

/-- Serve some requests one after the other. -/
def serveAll (renamer : Renamer) (taken : List Text) :
    List Request → List (Except RewriteError (List RenamedClass)) × List Text
  | [] => ([], taken)
  | request :: rest =>
    let (result, taken) := request.serve renamer taken
    let (results, taken) := serveAll renamer taken rest
    (result :: results, taken)

/-- What the classes of each request declare. -/
def declaredOver (parser : Parser) (taken : List Text) : List Request → List (List Declared)
  | [] => []
  | request :: rest =>
    let here := declaredAlong parser taken request.classes
    here :: declaredOver parser (takenAfter taken here) rest

/-- A result shows what some classes declare, if there is a result. -/
def Shows (result : Except RewriteError (List RenamedClass)) (classes : List Declared) : Prop :=
  ∀ renamed, result = .ok renamed → renamed.map RenamedClass.shown = classes.map Declared.shown

/-- A request hands out the names that its classes get one after the other. -/
theorem serve_eq (renamer : Renamer) (taken : List Text) (request : Request) :
    Shows (request.serve renamer taken).1
        (declaredAlong renamer.parser taken request.classes) ∧
      (request.serve renamer taken).2 =
        takenAfter taken (declaredAlong renamer.parser taken request.classes) := by
  obtain ⟨shown, remembered⟩ := renameSeparately_eq renamer.parser taken request.classes
  cases request with
  | single className source =>
      have alone : renameSeparately renamer.parser taken [(className, source)] =
          Request.serve renamer taken (.single className source) := by
        rw [renameSeparately, serve]
        rcases renameClass renamer.parser taken className source with ⟨error | renamed, left⟩
        · rfl
        · rfl
      rw [← alone]
      exact ⟨shown, remembered⟩
  | group classes =>
      rw [serve, renameAll]
      rw [Request.classes] at shown remembered ⊢
      generalize renameSeparately renamer.parser taken classes = run at shown remembered ⊢
      obtain ⟨error | renamed, left⟩ := run
      · exact ⟨by simp [Shows], remembered⟩
      · dsimp only
        split
        · exact ⟨by simp [Shows], remembered⟩
        · refine ⟨?_, remembered⟩
          rintro all ⟨⟩
          rw [renameUses, List.map_map, ← shown renamed rfl]
          rfl

theorem serveAll_eq {taken : List Text} (distinct : taken.Nodup) (renamer : Renamer)
    (requests : List Request) :
    List.Forall₂ Shows (serveAll renamer taken requests).1
        (declaredOver renamer.parser taken requests) ∧
      (serveAll renamer taken requests).2.Nodup ∧
      (serveAll renamer taken requests).2.Perm
        (taken ++ (declaredOver renamer.parser taken requests).flatten.flatMap
          Declared.newNames) := by
  induction requests generalizing taken with
  | nil => exact ⟨.nil, distinct, by simp [serveAll, declaredOver]⟩
  | cons request rest inductionHypothesis =>
      obtain ⟨shown, remembered⟩ := serve_eq renamer taken request
      obtain ⟨here, complete⟩ :=
        takenAfter_declaredAlong distinct renamer.parser request.classes
      obtain ⟨others, later, laterComplete⟩ := inductionHypothesis here
      simp only [serveAll, declaredOver, remembered, List.flatten_cons, List.flatMap_append]
      refine ⟨.cons shown others, later, laterComplete.trans ?_⟩
      rw [← List.append_assoc]
      exact complete.append_right _

end Request

/-- Whatever a renamer is asked for, the search for a fresh name ends, the names that it gives to
fields, methods, parameters and local variables are all different, over all roles, methods, classes
and requests, and the names that it remembers are exactly these. -/
theorem distinct_newNames (renamer : Renamer) (requests : List Request) :
    (∀ taken role name, ∃ number ≤ taken.length,
        IsFirstFree taken (Role.label role ++ name) number ∧
          fresh taken role name = candidate (role.label ++ name) number) ∧
      List.Forall₂ Request.Shows (Request.serveAll renamer [] requests).1
        (Request.declaredOver renamer.parser [] requests) ∧
      ((Request.declaredOver renamer.parser [] requests).flatten.flatMap
        Declared.newNames).Nodup ∧
      ∀ name, name ∈ (Request.serveAll renamer [] requests).2 ↔
        name ∈ (Request.declaredOver renamer.parser [] requests).flatten.flatMap
          Declared.newNames := by
  obtain ⟨shown, distinct, complete⟩ := Request.serveAll_eq List.nodup_nil renamer requests
  rw [List.nil_append] at complete
  refine ⟨?_, shown, complete.nodup_iff.mp distinct, ?_⟩
  · intro taken role name
    obtain ⟨bound, isFirst⟩ := isFirstFree_firstFree taken (role.label ++ name)
    exact ⟨_, bound, isFirst, rfl⟩
  · intro name
    exact complete.mem_iff

example : (Request.serveAll {} [] [.single "A" "class A \x7b int x; \x7d",
    .group [("B", "class B \x7b int x; int x_1; \x7d")]]).2 =
      ["field_x".toList, "field_x_1".toList, "field_x_1_1".toList] := by decide +kernel

end Unpacking.Renaming
