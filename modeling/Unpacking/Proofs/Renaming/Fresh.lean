import Mathlib.Data.List.Nodup
import Unpacking.Renaming.Declared

/-!
Fresh names. The numbered candidates for a name are all different, so one of the first candidates is
free, and the search for it ends. A scope grows by names of which none was handed out before.
-/

namespace Unpacking.Renaming

open Java

/-! ### The search for a free candidate -/

theorem candidate_injective (name : Text) : Function.Injective (candidate name) := by
  intro number other same
  have longer (number : Nat) : candidate name (number + 1) ≠ name := by
    intro equal
    have sizes := congrArg List.length equal
    simp [candidate] at sizes
  cases number with
  | zero =>
      cases other with
      | zero => rfl
      | succ other => exact absurd same.symm (longer other)
  | succ number =>
      cases other with
      | zero => exact absurd same (longer number)
      | succ other =>
          have digits := congrArg (fun digits => Nat.ofDigitChars 10 digits 0)
            (List.append_cancel_left same)
          simpa using digits

/-- The first free candidate: it is not taken, and every candidate before it is. -/
structure IsFirstFree (taken : List Text) (name : Text) (number : Nat) : Prop where
  free : candidate name number ∉ taken
  earlier : ∀ smaller < number, candidate name smaller ∈ taken

/-- The taken names cannot use up one candidate more than there are taken names. -/
theorem exists_free_candidate (taken : List Text) (name : Text) :
    ∃ number ≤ taken.length, candidate name number ∉ taken := by
  by_contra exhausted
  push Not at exhausted
  have all : (List.range (taken.length + 1)).map (candidate name) ⊆ taken := by
    intro new member
    obtain ⟨number, inRange, rfl⟩ := List.mem_map.mp member
    exact exhausted number (Nat.lt_succ_iff.mp (List.mem_range.mp inRange))
  have distinct : ((List.range (taken.length + 1)).map (candidate name)).Nodup :=
    List.nodup_range.map (candidate_injective name)
  have sizes := distinct.length_le_of_subset all
  rw [List.length_map, List.length_range] at sizes
  omega

theorem isFirstFree_firstFree (taken : List Text) (name : Text) :
    firstFree taken name ≤ taken.length ∧ IsFirstFree taken name (firstFree taken name) := by
  obtain ⟨number, bound, free⟩ := exists_free_candidate taken name
  have found : ((List.range (taken.length + 1)).find? fun number =>
      !taken.contains (candidate name number)).isSome = true := by
    rw [List.find?_isSome]
    exact ⟨number, List.mem_range.mpr (Nat.lt_succ_of_le bound), by simpa using free⟩
  obtain ⟨first, isFirst⟩ := Option.isSome_iff_exists.mp found
  have same : firstFree taken name = first := by rw [firstFree, isFirst, Option.getD_some]
  obtain ⟨free, inRange, earlier⟩ := List.find?_range_eq_some.mp isFirst
  rw [same]
  refine ⟨Nat.lt_succ_iff.mp (List.mem_range.mp inRange), by simpa using free, ?_⟩
  intro smaller before
  simpa using earlier smaller before

theorem fresh_not_mem (taken : List Text) (role : Role) (name : Text) :
    fresh taken role name ∉ taken :=
  (isFirstFree_firstFree taken (role.label ++ name)).2.free

/-! ### Growing scopes -/

/-- A new name is one of the candidates for its old name in some role. -/
def IsNewName (old new : Text) : Prop :=
  ∃ (role : Role) (number : Nat), new = candidate (role.label ++ old) number

/-- A scope has got some more names, which are handed out in the order in which they are added. -/
structure Naming.Grows (naming next : Naming) (added : NewNames) : Prop where
  taken : next.taken = naming.taken ++ added.map Prod.snd
  names : next.names = naming.names ++ added
  labelled : ∀ entry ∈ added, IsNewName entry.1 entry.2
  distinct : naming.taken.Nodup → next.taken.Nodup

namespace Naming

theorem Grows.refl (naming : Naming) : naming.Grows naming [] where
  taken := by simp
  names := by simp
  labelled := by simp
  distinct := id

theorem Grows.trans {naming next last : Naming} {added more : NewNames}
    (first : naming.Grows next added) (second : next.Grows last more) :
    naming.Grows last (added ++ more) where
  taken := by rw [second.taken, first.taken, List.map_append, List.append_assoc]
  names := by rw [second.names, first.names, List.append_assoc]
  labelled := by
    intro entry member
    rcases List.mem_append.mp member with early | late
    · exact first.labelled entry early
    · exact second.labelled entry late
  distinct := fun before => second.distinct (first.distinct before)

theorem exists_grows_declare (naming : Naming) (role : Role) (name : Text) :
    ∃ added, naming.Grows (naming.declare role name) added := by
  rw [declare]
  split
  · exact ⟨[], .refl naming⟩
  · refine ⟨[(name, fresh naming.taken role name)], rfl, rfl, ?_, ?_⟩
    · intro entry member
      rw [List.mem_singleton] at member
      subst member
      exact ⟨role, _, rfl⟩
    · intro before
      have longer := before.concat (fresh_not_mem naming.taken role name)
      rw [List.concat_eq_append] at longer
      exact longer

/-- What grows by steps grows. -/
theorem exists_grows_foldl {α : Type} {step : Naming → α → Naming}
    (grows : ∀ (naming : Naming) (item : α), ∃ added, naming.Grows (step naming item) added)
    (items : List α) (naming : Naming) : ∃ added, naming.Grows (items.foldl step naming) added := by
  induction items generalizing naming with
  | nil => exact ⟨[], .refl naming⟩
  | cons item items inductionHypothesis =>
      obtain ⟨added, first⟩ := grows naming item
      obtain ⟨more, rest⟩ := inductionHypothesis (step naming item)
      exact ⟨added ++ more, first.trans rest⟩

end Naming

theorem exists_grows_variablesOf (taken : List Text) (source : Text) (member : Node) :
    ∃ added, ({ taken, names := [] } : Naming).Grows (variablesOf taken source member) added := by
  apply Naming.exists_grows_foldl
  intro naming binding
  exact naming.exists_grows_declare binding.1 (binding.2.text source)

/-! ### Members -/

/-- A method or a constructor has a scope. -/
def IsScopeMember (member : Node) : Prop :=
  member.kind = .methodDeclaration ∨ member.kind = .constructorDeclaration

/-- The scope of a member, with the names of its own variables. -/
def scopeOf (taken : List Text) (source : Text) (member : Node) : Scope :=
  { start := member.start
    stop := member.stop
    names := (variablesOf taken source member).names }

/-- The scopes that a member opens: one for a method or a constructor. -/
def IsScopeOf (source : Text) (member : Node) (scopes : List Scope) : Prop :=
  scopes = [] ∨ IsScopeMember member ∧ ∃ taken, scopes = [scopeOf taken source member]

/-- A member adds new names to those of its class: of fields, of methods and of its variables. -/
structure Declared.Adds (declared next : Declared) (newFields newMethods : NewNames)
    (newScopes : List Scope) : Prop where
  taken : next.taken =
    declared.taken ++ (newFields ++ newMethods ++ newScopes.flatMap Scope.names).map Prod.snd
  fields : next.fields = declared.fields ++ newFields
  methods : next.methods = declared.methods ++ newMethods
  scopes : next.scopes = declared.scopes ++ newScopes
  labelled : ∀ entry ∈ newFields ++ newMethods ++ newScopes.flatMap Scope.names,
    IsNewName entry.1 entry.2
  distinct : declared.taken.Nodup → next.taken.Nodup

namespace Declared

theorem Adds.refl (declared : Declared) : declared.Adds declared [] [] [] where
  taken := by simp
  fields := by simp
  methods := by simp
  scopes := by simp
  labelled := by simp
  distinct := id

theorem exists_adds_addFields (source : Text) (declared : Declared) (member : Node) :
    ∃ newFields, declared.Adds (declared.addFields source member) newFields [] [] := by
  let start : Naming := { taken := declared.taken, names := declared.fields }
  obtain ⟨newFields, grows⟩ := Naming.exists_grows_foldl
    (fun naming name => naming.exists_grows_declare .field (Node.text source name))
    ((member.childrenAs .declarator).filterMap (Node.childAs? .name)) start
  refine ⟨newFields, ?_, grows.names, by simp [addFields], by simp [addFields], ?_,
    grows.distinct⟩
  · simpa [addFields] using grows.taken
  · simpa using grows.labelled

theorem exists_adds_addMethod (source : Text) (declared : Declared) (member : Node) :
    ∃ newMethods, declared.Adds (declared.addMethod source member) [] newMethods [] := by
  rw [addMethod]
  cases member.childAs? .name with
  | none => exact ⟨[], .refl declared⟩
  | some name =>
      dsimp only
      split
      · exact ⟨[], .refl declared⟩
      · let start : Naming := { taken := declared.taken, names := declared.methods }
        obtain ⟨newMethods, grows⟩ := start.exists_grows_declare .method (name.text source)
        refine ⟨newMethods, ?_, by simp, grows.names, by simp, ?_, grows.distinct⟩
        · simpa using grows.taken
        · simpa using grows.labelled

theorem adds_addScope (source : Text) (declared : Declared) (member : Node) :
    declared.Adds (declared.addScope source member) [] []
      [scopeOf declared.taken source member] := by
  obtain ⟨added, grows⟩ := exists_grows_variablesOf declared.taken source member
  have names : (scopeOf declared.taken source member).names = added := by
    simpa [scopeOf] using grows.names
  refine ⟨?_, by simp [addScope], by simp [addScope], rfl, ?_, grows.distinct⟩
  · simpa [addScope, names] using grows.taken
  · simpa [names] using grows.labelled

/-- What two additions bring one after the other, when the first one opens no scope and the second
one names no member. -/
theorem Adds.trans {declared next last : Declared} {newMethods : NewNames}
    {newScopes : List Scope} (first : declared.Adds next [] newMethods [])
    (second : next.Adds last [] [] newScopes) : declared.Adds last [] newMethods newScopes where
  taken := by
    rw [second.taken, first.taken]
    simp
  fields := by rw [second.fields, first.fields, List.append_assoc, List.append_nil]
  methods := by rw [second.methods, first.methods, List.append_nil]
  scopes := by rw [second.scopes, first.scopes, List.append_nil]
  labelled := by
    intro entry member
    rw [List.nil_append] at member
    rcases List.mem_append.mp member with early | late
    · exact first.labelled entry (by simp [early])
    · exact second.labelled entry (by simpa using late)
  distinct := fun before => second.distinct (first.distinct before)

theorem exists_adds (source : Text) (declared : Declared) (member : Node) :
    ∃ newFields newMethods newScopes,
      declared.Adds (declared.add source member) newFields newMethods newScopes ∧
        IsScopeOf source member newScopes := by
  rw [add]
  split
  · obtain ⟨newFields, adds⟩ := exists_adds_addFields source declared member
    exact ⟨newFields, [], [], adds, .inl rfl⟩
  · rename_i isMethod
    obtain ⟨newMethods, first⟩ := exists_adds_addMethod source declared member
    have second := adds_addScope source (declared.addMethod source member) member
    exact ⟨[], newMethods, _, first.trans second, .inr ⟨.inl isMethod, _, rfl⟩⟩
  · rename_i isConstructor
    have adds := adds_addScope source declared member
    exact ⟨[], [], _, adds, .inr ⟨.inr isConstructor, _, rfl⟩⟩
  · exact ⟨[], [], [], .refl declared, .inl rfl⟩

end Declared

/-- What one member keeps, all members keep. -/
theorem declare_induction {motive : Declared → Prop} {taken : List Text} {source : Text}
    {members : List Node} (start : motive { taken })
    (step : ∀ declared member, member ∈ members → motive declared →
      motive (declared.add source member)) : motive (declare taken source members) := by
  apply List.foldlRecOn members (Declared.add source) start
  intro declared holds member inside
  exact step declared member inside holds

end Unpacking.Renaming
