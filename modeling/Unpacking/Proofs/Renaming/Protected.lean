import Unpacking.Proofs.Renaming.Edit

/-!
The names that renaming keeps. Methods are renamed by their name, so a method that overrides another
one keeps its name only if no method of that name is declared without being marked as overriding.
The methods that are found by their name and the constructors always keep theirs. Main statement:
`renameClass_of_member`.
-/

namespace Unpacking.Renaming

open Java

/-! ### The methods that get a new name -/

theorem Naming.isSome_lookup_declare (naming : Naming) (role : Role) (old name : Text) :
    ((naming.declare role old).names.lookup name).isSome = true ↔
      (naming.names.lookup name).isSome = true ∨ old = name := by
  rw [Naming.declare]
  split
  · rename_i known
    constructor
    · exact .inl
    · rintro (found | rfl)
      · exact found
      · rw [known]
        rfl
  · by_cases same : name = old
    · simp [List.lookup_append, same]
    · simp [List.lookup_append, List.lookup_cons, beq_eq_false_iff_ne.mpr same, Ne.symm same]

/-- Whether a member of some kind has a name. -/
def isNamed (source : Text) (kind : NodeKind) (member : Node) (name : Text) : Bool :=
  member.kind == kind && (member.childAs? .name).any fun node => node.text source == name

/-- Some method of this name is not protected. -/
def RenamesMethod (source : Text) (members : List Node) (name : Text) : Prop :=
  ∃ member ∈ members, isNamed source .methodDeclaration member name = true ∧
    isProtected source member name = false

theorem isSome_lookup_addMethod (source : Text) (declared : Declared) {member : Node}
    (isMethod : member.kind = .methodDeclaration) (name : Text) :
    ((declared.addMethod source member).methods.lookup name).isSome = true ↔
      (declared.methods.lookup name).isSome = true ∨ RenamesMethod source [member] name := by
  have alone : RenamesMethod source [member] name ↔
      (∃ node, member.childAs? .name = some node ∧ node.text source = name) ∧
        isProtected source member name = false := by
    simp [RenamesMethod, isNamed, isMethod, Option.any_eq_true]
  rw [alone, Declared.addMethod]
  cases member.childAs? .name with
  | none => simp
  | some node =>
      dsimp only
      split
      · rename_i kept
        constructor
        · exact .inl
        · rintro (found | ⟨⟨other, same, rfl⟩, free⟩)
          · exact found
          · rw [← Option.some.inj same, kept] at free
            exact absurd free (by decide)
      · rename_i free
        rw [Naming.isSome_lookup_declare]
        apply or_congr Iff.rfl
        constructor
        · rintro rfl
          exact ⟨⟨node, rfl, rfl⟩, Bool.eq_false_iff.mpr free⟩
        · rintro ⟨⟨other, same, rfl⟩, -⟩
          rw [Option.some.inj same]

theorem isSome_lookup_add (source : Text) (declared : Declared) (member : Node) (name : Text) :
    ((declared.add source member).methods.lookup name).isSome = true ↔
      (declared.methods.lookup name).isSome = true ∨ RenamesMethod source [member] name := by
  rw [Declared.add]
  split
  · rename_i isField
    simp [Declared.addFields, RenamesMethod, isNamed, isField]
  · rename_i isMethod
    exact isSome_lookup_addMethod source declared isMethod name
  · rename_i isConstructor
    simp [Declared.addScope, RenamesMethod, isNamed, isConstructor]
  · rename_i _ noMethod _
    have other : ¬member.kind = .methodDeclaration := noMethod
    simp [RenamesMethod, isNamed, other]

/-- A name is the name of a renamed method exactly if some method of it is not protected. -/
theorem isSome_lookup_declare (taken : List Text) (source : Text) (members : List Node)
    (name : Text) :
    ((declare taken source members).methods.lookup name).isSome = true ↔
      RenamesMethod source members name := by
  have along (declared : Declared) :
      ((members.foldl (Declared.add source) declared).methods.lookup name).isSome = true ↔
        (declared.methods.lookup name).isSome = true ∨ RenamesMethod source members name := by
    induction members generalizing declared with
    | nil => simp [RenamesMethod]
    | cons member members inductionHypothesis =>
        rw [List.foldl_cons, inductionHypothesis, isSome_lookup_add, or_assoc]
        simp [RenamesMethod]
  rw [declare, along]
  simp

theorem not_renamesMethod_iff {source : Text} {members : List Node} {name : Text} :
    ¬RenamesMethod source members name ↔ name ∈ lifecycleMethods ∨
      ∀ other ∈ members, isNamed source .methodDeclaration other name = true →
        isOverriding source other = true := by
  by_cases lifecycle : name ∈ lifecycleMethods
  · simp [RenamesMethod, isProtected, lifecycle]
  · simp [RenamesMethod, isProtected, lifecycle]

theorem IsNewName.ne {old new : Text} (isNew : IsNewName old new) : new ≠ old := by
  rintro rfl
  obtain ⟨role, number, same⟩ := isNew
  have sizes := congrArg List.length same
  have label : 0 < role.label.length := by cases role <;> decide
  cases number with
  | zero =>
      simp only [candidate, List.length_append] at sizes
      omega
  | succ number =>
      simp only [candidate, List.length_append] at sizes
      omega

/-! ### The name of a member -/

section Member

variable {source className : Text} {taken : List Text} {root type body member name : Node}

/-- The name of a member is a node of the selected type. -/
theorem mem_links_of_name (selected : selectBody? source className root = some (type, body))
    (inside : member ∈ members body) (named : member.childAs? .name = some name) :
    (member, name) ∈ type.links := by
  have inBody := Node.links_subset_of_mem_children
    (Node.mem_of_childAs? (selectBody?_eq_some selected).2)
  exact inBody (links_subset_of_mem_members inside
    (Node.mem_links_of_mem_children (Node.mem_of_childAs? named)))

/-- Inside of the selected type every identifier gets the name that the type has for it. -/
theorem replaced?_of_mem {subject : Subject} {link : Node × Node}
    (inside : link ∈ type.links) :
    subject.replaced? type link = subject.newName? link.1 link.2 := by
  rw [Subject.replaced?, if_pos]
  rw [List.contains_iff_mem]
  exact List.mem_map_of_mem inside

theorem newName?_of_method (isMethod : member.kind = .methodDeclaration)
    (inside : member ∈ members body) (named : member.childAs? .name = some name) :
    (Subject.ofBody taken className source body).newName? member name =
      (declare taken source (members body)).methods.lookup (name.text source) := by
  have use : nameUse member name = .declaredMethod := by
    simp [nameUse, isMethod, named]
  have listed : ((members body).map Node.id).contains member.id = true :=
    List.contains_iff_mem.mpr (List.mem_map_of_mem inside)
  rw [Subject.newName?, use]
  exact if_pos listed

theorem newName?_of_constructor {subject : Subject}
    (isConstructor : member.kind = .constructorDeclaration) :
    subject.newName? member name = none := by
  have use : nameUse member name = .fixed := by simp [nameUse, isConstructor]
  rw [Subject.newName?, use]

end Member

/-! ### Protected names -/

/-- In the class that is renamed, a method keeps its name exactly if it has the name of a lifecycle
method, or if all methods of its name are marked as overriding. A constructor always keeps its
name. -/
theorem renameClass_of_member (parser : Parser) (taken : List Text) (className source : Text)
    {root type body : Node} (parsed : parser.parse source = .ok root)
    (filled : HasFilledIdentifiers root)
    (selected : selectBody? source className root = some (type, body)) :
    ∃ renamed patches rest, (renameClass parser taken className source).1 = .ok renamed ∧
      IsCutAt root (newNameIn? taken className source root) source renamed.source patches rest ∧
      (∀ member ∈ members body, ∀ name, member.kind = .methodDeclaration →
        member.childAs? .name = some name → name.kind = .identifier →
        ∃ patch ∈ patches, patch.item = (member, name) ∧ patch.old = name.text source ∧
          (patch.new = patch.old ↔ name.text source ∈ lifecycleMethods ∨
            ∀ other ∈ members body,
              isNamed source .methodDeclaration other (name.text source) = true →
                isOverriding source other = true)) ∧
      ∀ member ∈ members body, ∀ name, member.kind = .constructorDeclaration →
        member.childAs? .name = some name → name.kind = .identifier →
        ∃ patch ∈ patches, patch.item = (member, name) ∧ patch.old = name.text source ∧
          patch.new = patch.old := by
  have isTree := parser.isTreeOf parsed
  obtain ⟨patches, rest, isCut⟩ := exists_cut_renameTree isTree filled taken className
  have child := (selectBody?_eq_some selected).1
  have atName (member : Node) (inside : member ∈ members body) (name : Node)
      (named : member.childAs? .name = some name) (isIdentifier : name.kind = .identifier) :
      ∃ patch ∈ patches, patch.item = (member, name) ∧ patch.old = name.text source ∧
        patch.new? = (Subject.ofBody taken className source body).newName? member name := by
    have inType := mem_links_of_name selected inside named
    have listed : (member, name) ∈ root.identifierLinks :=
      List.mem_filter.mpr
        ⟨Node.links_subset_of_mem_children child inType, by simp [isIdentifier]⟩
    obtain ⟨patch, inPatches, here, new⟩ := isCut.exists_patch listed
    have old := isCut.old_eq inPatches
    rw [here] at old
    rw [newNameIn?, selected] at new
    exact ⟨patch, inPatches, here, old, new.trans (replaced?_of_mem inType)⟩
  refine ⟨_, patches, rest, by rw [renameClass, parsed], isCut, ?_, ?_⟩
  · intro member inside name isMethod named isIdentifier
    obtain ⟨patch, inPatches, here, old, new⟩ := atName member inside name named isIdentifier
    refine ⟨patch, inPatches, here, old, ?_⟩
    rw [newName?_of_method isMethod inside named] at new
    rw [← not_renamesMethod_iff, ← isSome_lookup_declare taken, ← new, Patch.new]
    cases found : patch.new? with
    | none => simp
    | some text =>
        have isNew : IsNewName (name.text source) text :=
          isNewName_of_mem_pairs (List.mem_append_left _ (List.mem_append_right _
            (mem_of_lookup (new.symm.trans found))))
        simpa [old] using isNew.ne
  · intro member inside name isConstructor named isIdentifier
    obtain ⟨patch, inPatches, here, old, new⟩ := atName member inside name named isIdentifier
    rw [newName?_of_constructor isConstructor] at new
    exact ⟨patch, inPatches, here, old, by rw [Patch.new, new, Option.getD_none]⟩

/-- A class with a constructor and a method that overrides another one. -/
def overridingSource : Text :=
  "class A \x7b A() \x7b \x7d @Override public void f() \x7b \x7d void g() \x7b \x7d \x7d"

/-- A member of some kind and of some name whose name is an identifier. -/
def hasMember (source : Text) (kind : NodeKind) (text : Text) (body : Node) : Bool :=
  (members body).any fun member => member.kind == kind &&
    (member.childAs? .name).any fun name => name.kind == .identifier && name.text source == text

theorem exists_member_of_hasMember {source text : Text} {kind : NodeKind} {body : Node}
    (has : hasMember source kind text body = true) :
    ∃ member ∈ members body, ∃ name, member.kind = kind ∧ member.childAs? .name = some name ∧
      name.kind = .identifier ∧ name.text source = text := by
  obtain ⟨member, inside, both⟩ := List.any_eq_true.mp has
  obtain ⟨isKind, hasName⟩ := (Bool.and_eq_true _ _).mp both
  obtain ⟨name, named, found⟩ := (Option.any_eq_true _ _).mp hasName
  obtain ⟨isIdentifier, same⟩ := (Bool.and_eq_true _ _).mp found
  exact ⟨member, inside, name, by simpa using isKind, named, by simpa using isIdentifier,
    by simpa using same⟩

/-- The constructor and the overriding method keep their names, and the other method does not. -/
theorem renameClass_of_member_overriding :
    ∃ (renamed : RenamedClass) (patches : List (Patch (Node × Node))) (rest : Text),
      (renameClass parser [] "A" overridingSource).1 = .ok renamed ∧
      overridingSource = Patch.before patches rest ∧
      renamed.source = Patch.after patches rest ∧
      (∃ patch ∈ patches, patch.item.1.kind = .constructorDeclaration ∧ patch.new = "A") ∧
      (∃ patch ∈ patches, patch.item.1.kind = .methodDeclaration ∧ patch.new = "f") ∧
      ∃ patch ∈ patches, patch.item.1.kind = .methodDeclaration ∧ patch.old = "g" ∧
        patch.new ≠ "g" := by
  have filled : HasFilledIdentifiers (tree overridingSource) := by
    unfold HasFilledIdentifiers
    decide +kernel
  have seen : (selectBody? overridingSource "A" (tree overridingSource)).any (fun both =>
      hasMember overridingSource .constructorDeclaration "A" both.2 &&
        hasMember overridingSource .methodDeclaration "f" both.2 &&
        hasMember overridingSource .methodDeclaration "g" both.2 &&
        (members both.2).all fun other =>
          if isNamed overridingSource .methodDeclaration other "f" then
            isOverriding overridingSource other
          else if isNamed overridingSource .methodDeclaration other "g" then
            !isOverriding overridingSource other
          else true) = true := by decide +kernel
  obtain ⟨⟨type, body⟩, selected, facts⟩ := (Option.any_eq_true _ _).mp seen
  simp only [Bool.and_eq_true, List.all_eq_true] at facts
  obtain ⟨⟨⟨hasA, hasF⟩, hasG⟩, overrides⟩ := facts
  obtain ⟨renamed, patches, rest, ran, isCut, methods, constructors⟩ :=
    renameClass_of_member parser [] "A" overridingSource rfl filled selected
  refine ⟨renamed, patches, rest, ran, isCut.before, isCut.after, ?_, ?_, ?_⟩
  · obtain ⟨member, inside, name, isKind, named, isIdentifier, text⟩ :=
      exists_member_of_hasMember hasA
    obtain ⟨patch, inPatches, here, old, kept⟩ :=
      constructors member inside name isKind named isIdentifier
    exact ⟨patch, inPatches, by rw [here, isKind], by rw [kept, old, text]⟩
  · obtain ⟨member, inside, name, isKind, named, isIdentifier, text⟩ :=
      exists_member_of_hasMember hasF
    obtain ⟨patch, inPatches, here, old, kept⟩ :=
      methods member inside name isKind named isIdentifier
    have same : patch.new = patch.old := by
      apply kept.mpr (.inr _)
      rw [text]
      intro other isMember isF
      have found := overrides other isMember
      rwa [if_pos isF] at found
    exact ⟨patch, inPatches, by rw [here, isKind], by rw [same, old, text]⟩
  · obtain ⟨member, inside, name, isKind, named, isIdentifier, text⟩ :=
      exists_member_of_hasMember hasG
    obtain ⟨patch, inPatches, here, old, kept⟩ :=
      methods member inside name isKind named isIdentifier
    refine ⟨patch, inPatches, by rw [here, isKind], by rw [old, text], ?_⟩
    intro same
    rcases kept.mp (by rw [same, old, text]) with lifecycle | all
    · rw [text] at lifecycle
      exact absurd lifecycle (by decide +kernel)
    · have isG : isNamed overridingSource .methodDeclaration member "g" = true := by
        simp [isNamed, isKind, named, text]
      have noF : isNamed overridingSource .methodDeclaration member "f" = false := by
        simp only [isNamed, isKind, named, text, Option.any_some]
        decide
      have found := overrides member inside
      rw [if_neg (Bool.eq_false_iff.mp noF), if_pos isG] at found
      rw [text] at all
      simp [all member inside isG] at found

/-- A method that overrides another one, with an overload that does not. -/
def overloadSource : Text :=
  "class A \x7b @Override public void f() \x7b \x7d void f(int x) \x7b \x7d \x7d"

/-- The overload takes the overriding method along. -/
theorem renameClass_overload :
    (renameClass parser [] "A" overloadSource).1.toOption.map RenamedClass.source =
      some ("class A \x7b @Override public void method_f() \x7b \x7d " ++
        "void method_f(int arg_x) \x7b \x7d \x7d").toList := by
  decide +kernel

end Unpacking.Renaming
