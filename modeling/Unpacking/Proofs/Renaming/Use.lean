import Unpacking.Proofs.Renaming.Edit
import Unpacking.Proofs.Renaming.Rule

/-!
A use of a member behind the name of its class, in the source of another class. That class has no
new name for what belongs to the other one, so renaming it leaves the use as it is. Main statement:
`renameTree_use`.
-/

namespace Unpacking.Renaming

open Java Text

/-! ### The names that get new names -/

/-- The names of a scope have something in common, and each of them is there once. -/
structure HasKeys (good : Text → Prop) (names : NewNames) : Prop where
  all : ∀ entry ∈ names, good entry.1
  distinct : (names.map Prod.fst).Nodup

theorem hasKeys_nil (good : Text → Prop) : HasKeys good [] :=
  ⟨by simp, List.nodup_nil⟩

theorem HasKeys.declare {good : Text → Prop} {naming : Naming} (keys : HasKeys good naming.names)
    (role : Role) {name : Text} (isGood : good name) :
    HasKeys good (naming.declare role name).names := by
  rw [Naming.declare]
  split
  · exact keys
  · rename_i unknown
    refine ⟨?_, ?_⟩
    · intro entry inside
      rcases List.mem_append.mp inside with early | late
      · exact keys.all entry early
      · rw [List.mem_singleton.mp late]
        exact isGood
    · have absent : name ∉ naming.names.map Prod.fst := by
        intro known
        obtain ⟨entry, inside, rfl⟩ := List.mem_map.mp known
        simpa using List.lookup_eq_none_iff.mp unknown entry inside
      rw [List.map_append]
      have longer := keys.distinct.concat absent
      rwa [List.concat_eq_append] at longer

theorem HasKeys.foldl {α : Type} {good : Text → Prop} (role : α → Role) {name : α → Text}
    {items : List α} (areGood : ∀ item ∈ items, good (name item)) {naming : Naming}
    (keys : HasKeys good naming.names) :
    HasKeys good (items.foldl (fun (naming : Naming) item =>
      naming.declare (role item) (name item)) naming).names := by
  induction items generalizing naming with
  | nil => exact keys
  | cons item items inductionHypothesis =>
      exact inductionHypothesis (fun other inside => areGood other (by simp [inside]))
        (keys.declare (role item) (areGood item (by simp)))

/-- The names of the fields that a member declares. -/
def fieldNames (source : Text) (member : Node) : List Text :=
  ((member.childrenAs .declarator).filterMap (Node.childAs? .name)).map (Node.text source)

/-- The names of the variables that are declared inside a member. -/
def boundNames (source : Text) (member : Node) : List Text :=
  (member.nodes.flatMap bindings).map fun binding => binding.2.text source

/-- A name is that of a field among some members. -/
def IsFieldOf (source : Text) (members : List Node) (name : Text) : Prop :=
  ∃ member ∈ members, member.kind = .fieldDeclaration ∧ name ∈ fieldNames source member

/-- A name is that of a method among some members. -/
def IsMethodOf (source : Text) (members : List Node) (name : Text) : Prop :=
  ∃ member ∈ members, member.kind = .methodDeclaration ∧
    ∃ node, member.childAs? .name = some node ∧ node.text source = name

theorem hasKeys_variablesOf (taken : List Text) (source : Text) (member : Node) :
    HasKeys (· ∈ boundNames source member) (variablesOf taken source member).names :=
  HasKeys.foldl Prod.fst (fun _ inside => List.mem_map_of_mem inside) (hasKeys_nil _)

/-- What a member does to the names of the fields and methods. -/
theorem hasKeys_add {source : Text} {members : List Node} {declared : Declared} {member : Node}
    (inside : member ∈ members) (fields : HasKeys (IsFieldOf source members) declared.fields)
    (methods : HasKeys (IsMethodOf source members) declared.methods) :
    HasKeys (IsFieldOf source members) (declared.add source member).fields ∧
      HasKeys (IsMethodOf source members) (declared.add source member).methods := by
  rw [Declared.add]
  split
  · rename_i isField
    refine ⟨?_, methods⟩
    apply HasKeys.foldl (fun _ => .field) _ fields
    intro name inNames
    exact ⟨member, inside, isField, List.mem_map_of_mem inNames⟩
  · rename_i isMethod
    simp only [Declared.addScope, Declared.addMethod]
    split
    · exact ⟨fields, methods⟩
    · rename_i name named
      split
      · exact ⟨fields, methods⟩
      · exact ⟨fields, methods.declare .method ⟨member, inside, isMethod, name, named, rfl⟩⟩
  · exact ⟨fields, methods⟩
  · exact ⟨fields, methods⟩

theorem hasKeys_declare (taken : List Text) (source : Text) (members : List Node) :
    HasKeys (IsFieldOf source members) (declare taken source members).fields ∧
      HasKeys (IsMethodOf source members) (declare taken source members).methods := by
  apply declare_induction (motive := fun declared =>
    HasKeys (IsFieldOf source members) declared.fields ∧
      HasKeys (IsMethodOf source members) declared.methods)
  · exact ⟨hasKeys_nil _, hasKeys_nil _⟩
  · intro declared member inside both
    exact hasKeys_add inside both.1 both.2

/-! ### Names that mean something else -/

/-- The names of the fields, parameters and local variables in the body of a class. -/
def variableNames (source : Text) (body : Node) : List Text :=
  (members body).flatMap fun member =>
    match member.kind with
    | .fieldDeclaration => fieldNames source member
    | .methodDeclaration | .constructorDeclaration => boundNames source member
    | _ => []

section Hidden

variable {source name : Text} {body : Node} (absent : name ∉ variableNames source body)

include absent

theorem lookup_fields_eq_none (taken : List Text) :
    (declare taken source (members body)).fields.lookup name = none := by
  rw [List.lookup_eq_none_iff]
  intro entry inside
  obtain ⟨member, inMembers, isField, named⟩ :=
    (hasKeys_declare taken source (members body)).1.all entry inside
  rw [bne_iff_ne]
  rintro rfl
  exact absent (List.mem_flatMap.mpr ⟨member, inMembers, by simpa [isField] using named⟩)

theorem variableAt?_eq_none (taken : List Text) (offset : Nat) :
    (declare taken source (members body)).variableAt? offset name = none := by
  cases found : (declare taken source (members body)).variableAt? offset name with
  | none => rfl
  | some new =>
      obtain ⟨scope, inScopes, -, -, looked⟩ := Declared.exists_scope_of_variableAt? found
      obtain ⟨member, inMembers, isScope, earlier, rfl⟩ := exists_member_of_mem_scopes inScopes
      have bound := (hasKeys_variablesOf earlier source member).all _ (mem_of_lookup looked)
      refine absurd (List.mem_flatMap.mpr ⟨member, inMembers, ?_⟩) absent
      rcases isScope with isMethod | isConstructor
      · simpa [isMethod] using bound
      · simpa [isConstructor] using bound

end Hidden

/-! ### Words in a tree -/

/-- The identifiers of a tree are words, and so are the names of its fields and methods. -/
structure HasWords (source : Text) (root : Node) : Prop where
  identifiers : ∀ node ∈ root.identifiers, IsSourceWord (node.text source)
  names : ∀ node ∈ root.nodes, node.field = some .declarator ∨ node.kind = .methodDeclaration →
    ∀ name ∈ node.childAs? .name, IsSourceWord (name.text source)

theorem hasWords_iff {source : Text} {root : Node} : HasWords source root ↔
    (∀ node ∈ root.identifiers, IsSourceWord (node.text source)) ∧
      ∀ node ∈ root.nodes, node.field = some .declarator ∨ node.kind = .methodDeclaration →
        ∀ name ∈ node.childAs? .name, IsSourceWord (name.text source) :=
  ⟨fun words => ⟨words.identifiers, words.names⟩, fun both => ⟨both.1, both.2⟩⟩

theorem HasWords.filled {source : Text} {root : Node} (words : HasWords source root) :
    HasFilledIdentifiers root := by
  intro node inside
  by_contra empty
  have size : node.stop - node.start = 0 := by omega
  apply (words.identifiers node inside).ne_nil
  rw [Node.text, slice, size, takeBytes_zero]

/-- The members of the class that is renamed are nodes of the tree, and so are their children. -/
theorem mem_nodes_of_mem_members {source className : Text} {root type body member : Node}
    (selected : selectBody? source className root = some (type, body))
    (inside : member ∈ members body) :
    member ∈ root.nodes ∧ ∀ child ∈ member.children, child ∈ root.nodes := by
  obtain ⟨child, isBody⟩ := selectBody?_eq_some selected
  have inRoot : body.links ⊆ root.links := fun link inBody =>
    Node.links_subset_of_mem_children child
      (Node.links_subset_of_mem_children (Node.mem_of_childAs? isBody) inBody)
  obtain ⟨parent, inBody⟩ := exists_link_of_mem_members inside
  refine ⟨Node.mem_nodes_of_mem_links (inRoot inBody), ?_⟩
  intro other inChildren
  exact Node.mem_nodes_of_mem_links (inRoot (links_subset_of_mem_members inside
    (Node.mem_links_of_mem_children inChildren)))

/-- The names of the fields and methods of a class are words. -/
theorem isSourceWord_of_mem_renameTree {source : Text} {root : Node} (words : HasWords source root)
    (taken : List Text) (className : Text) {entry : Text × Text}
    (inside : entry ∈ (renameTree taken className source root).1.fields ++
      (renameTree taken className source root).1.methods) : IsSourceWord entry.1 := by
  obtain ⟨fields, methods, -⟩ := renameTree_eq_declaredBy taken className source root
  rw [fields, methods, declaredBy] at inside
  split at inside
  · simp at inside
  · rename_i type body selected
    have keys := hasKeys_declare taken source (members body)
    rcases List.mem_append.mp inside with isField | isMethod
    · obtain ⟨member, inMembers, -, named⟩ := keys.1.all entry isField
      obtain ⟨name, inNames, same⟩ := List.mem_map.mp named
      obtain ⟨declarator, isDeclarator, found⟩ := List.mem_filterMap.mp inNames
      obtain ⟨inChildren, plays⟩ := List.mem_filter.mp isDeclarator
      rw [← same]
      exact words.names declarator ((mem_nodes_of_mem_members selected inMembers).2 _ inChildren)
        (.inl (by simpa using plays)) name found
    · obtain ⟨member, inMembers, isKind, name, named, same⟩ := keys.2.all entry isMethod
      rw [← same]
      exact words.names member (mem_nodes_of_mem_members selected inMembers).1 (.inr isKind) name
        named

/-! ### A use in a tree -/

/-- An identifier is the name of the class in a use that begins at an offset. It does not stand for
a method there. -/
def IsOwnerAt (offset : Nat) (owner : Text) (link : Node × Node) : Prop :=
  link.2.start = offset ∧ link.2.stop = offset + byteLength owner ∧
    nameUse link.1 link.2 ≠ .declaredMethod ∧ nameUse link.1 link.2 ≠ .calledMethod

/-- An identifier is called or accessed as a member of an object that ends with the name of the
class. -/
def IsHeldAt (offset : Nat) (owner : Text) (link : Node × Node) : Prop :=
  (nameUse link.1 link.2 = .calledMethod ∨ nameUse link.1 link.2 = .accessedField) ∧
    ∃ object ∈ link.1.childAs? .object, object.kind ≠ .this ∧ object.start ≤ offset ∧
      object.stop = offset + byteLength owner

/-- A use of a member behind the name of its class begins at an offset. Of the identifiers of the
tree, only the name of the class and the member behind it reach into the use, unless they are names
that are never changed. -/
def IsUseAt (root : Node) (offset : Nat) (owner member : Text) : Prop :=
  ∀ link ∈ root.identifierLinks, link.2.start < offset + byteLength (path owner member) →
    offset < link.2.stop →
      IsOwnerAt offset owner link ∨ IsHeldAt offset owner link ∨ nameUse link.1 link.2 = .fixed

namespace Subject

variable {subject : Subject} {parent node : Node}

/-- A name that is not that of a field or a variable has a new name only as a method. -/
theorem newName?_of_unknown
    (field : subject.declared.fields.lookup (node.text subject.source) = none)
    (bound : subject.declared.variableAt? node.start (node.text subject.source) = none)
    (noMethod : nameUse parent node ≠ .declaredMethod)
    (noCall : nameUse parent node ≠ .calledMethod) : subject.newName? parent node = none := by
  rw [newName?]
  cases named : nameUse parent node with
  | declaredMethod => exact absurd named noMethod
  | calledMethod => exact absurd named noCall
  | accessedField => simp [field]
  | fixed => rfl
  | plain => simp [field, bound]

/-- What belongs to another object has no new name. -/
theorem newName?_of_foreign
    (foreign : isOwn subject.source subject.className (parent.childAs? .object) = false)
    (named : nameUse parent node = .calledMethod ∨ nameUse parent node = .accessedField) :
    subject.newName? parent node = none := by
  rw [newName?]
  rcases named with call | access
  · simp [call, foreign]
  · simp [access, foreign]

theorem newName?_of_fixed (fixed : nameUse parent node = .fixed) :
    subject.newName? parent node = none := by
  rw [newName?, fixed]

end Subject

section Use

variable {source className owner member before after : Text} {root : Node}
  (whole : source = before ++ (path owner member ++ after))

include whole in
/-- An object that ends with a name is this name, if the object is a word. -/
theorem eq_of_text_eq (isTree : root.IsTreeOf source) (left : EndsApart before) {object : Node}
    (inside : object ∈ root.nodes) (starts : object.start ≤ byteLength before)
    (stops : object.stop = byteLength before + byteLength owner) {word : Text}
    (parts : ∀ c ∈ word, isWordPart c = true) (same : object.text source = word) :
    owner = word := by
  obtain ⟨front, text, behind, cut, atStart, atStop⟩ := isTree.within object inside
  have isText : object.text source = text := by
    rw [Node.text, atStart, atStop, cut, slice_append]
  rw [whole, List.append_assoc, path_append] at cut
  obtain ⟨between, rfl, rest⟩ := exists_between cut.symm (atStart ▸ starts)
  rw [← List.append_assoc] at rest
  obtain ⟨rfl, -⟩ := append_inj_of_byteLength rest (by
    rw [byteLength_append] at stops ⊢
    omega)
  rw [isText] at same
  by_cases empty : between = []
  · rw [← same, empty, List.nil_append]
  · -- The word would begin with a character that belongs to no word.
    refine absurd left (not_endsApart_append empty fun c inBetween => parts c ?_)
    rw [← same]
    exact List.mem_append_left _ inBetween

include whole in
/-- No identifier that reaches into a use gets a new name. -/
theorem newNameIn?_of_use (isTree : root.IsTreeOf source) (left : EndsApart before)
    (isClass : IsSourceWord className) (other : owner ≠ className) (notThis : owner ≠ "this".toList)
    (unhidden : ∀ selected ∈ selectBody? source className root,
      owner ∉ variableNames source selected.2)
    (use : IsUseAt root (byteLength before) owner member) (taken : List Text)
    {link : Node × Node} (inside : link ∈ root.identifierLinks)
    (starts : link.2.start < byteLength before + byteLength (path owner member))
    (stops : byteLength before < link.2.stop) :
    newNameIn? taken className source root link = none := by
  rw [newNameIn?]
  cases selected : selectBody? source className root with
  | none => rfl
  | some both =>
      obtain ⟨type, body⟩ := both
      have absent := unhidden (type, body) selected
      dsimp only
      rw [Subject.replaced?]
      split
      · rcases use link inside starts stops with isOwner | held | fixed
        · obtain ⟨atStart, atStop, noMethod, noCall⟩ := isOwner
          have text : link.2.text source = owner := by
            rw [Node.text, atStart, atStop, whole, path_append, ← List.append_assoc, slice_append]
          rw [← text] at absent
          exact Subject.newName?_of_unknown (lookup_fields_eq_none absent taken)
            (variableAt?_eq_none absent taken _) noMethod noCall
        · obtain ⟨named, object, isObject, noThis, atStart, atStop⟩ := held
          have inNodes := Node.mem_nodes_of_parent (List.mem_of_mem_filter inside) object
            (Node.mem_of_childAs? isObject)
          have isOwner {word : Text} (parts : ∀ c ∈ word, isWordPart c = true)
              (same : object.text source = word) : owner = word :=
            eq_of_text_eq whole isTree left inNodes atStart atStop parts same
          have foreign : isOwn source className (link.1.childAs? .object) = false := by
            rw [isObject, isOwn, Bool.or_eq_false_iff, Bool.or_eq_false_iff, beq_eq_false_iff_ne,
              beq_eq_false_iff_ne, beq_eq_false_iff_ne]
            exact ⟨⟨noThis, fun same => notThis (isOwner (List.all_eq_true.mp (by decide)) same)⟩,
              fun same => other (isOwner isClass.parts same)⟩
          exact Subject.newName?_of_foreign foreign named
        · exact Subject.newName?_of_fixed fixed
      · rfl

/-- The new names of a class are handed out for the words that they replace. -/
theorem isHanded_of_newNameIn? {names : NewNames} {taken : List Text}
    (isTree : root.IsTreeOf source) (words : HasWords source root)
    (handed : (declaredBy taken className source root).pairs ⊆ names) {link : Node × Node}
    {new : Text} (inside : link ∈ root.identifierLinks)
    (named : newNameIn? taken className source root link = some new) :
    IsHanded names (link.2.text source) new := by
  have pair := mem_pairs_of_newNameIn? isTree (List.mem_of_mem_filter inside) named
  exact ⟨words.identifiers _ (Node.mem_identifiers_of_mem_identifierLinks inside),
    isNewName_of_mem_declaredBy pair, handed pair⟩

/-- Patches with names that were handed out. -/
theorem relabels_patches {α : Type} {names : NewNames} {patches : List (Patch α)}
    (handed : ∀ patch ∈ patches, ∀ new, patch.new? = some new → IsHanded names patch.old new)
    (rest : Text) : Relabels names (Patch.before patches rest) (Patch.after patches rest) := by
  induction patches with
  | nil => exact .refl rest
  | cons patch patches inductionHypothesis =>
      have others := inductionHypothesis fun other inside => handed other (by simp [inside])
      have here : Relabels names patch.old patch.new := by
        rw [Patch.new]
        cases named : patch.new? with
        | none => exact .refl patch.old
        | some new => exact .of_isHanded (handed patch (by simp) new named)
      exact (here.append others).append_left patch.kept

include whole in
/-- Renaming a class leaves the uses of members of other classes as they are. -/
theorem renameTree_use {names : NewNames} {taken : List Text} (isTree : root.IsTreeOf source)
    (words : HasWords source root) (left : EndsApart before) (isClass : IsSourceWord className)
    (other : owner ≠ className) (notThis : owner ≠ "this".toList)
    (unhidden : ∀ selected ∈ selectBody? source className root,
      owner ∉ variableNames source selected.2)
    (use : IsUseAt root (byteLength before) owner member)
    (handed : (declaredBy taken className source root).pairs ⊆ names) :
    ∃ changed changedToo, Relabels names before changed ∧ Relabels names after changedToo ∧
      (renameTree taken className source root).1.source =
        changed ++ (path owner member ++ changedToo) := by
  have filled := words.filled
  have outside : ∀ link ∈ root.identifierLinks,
      (newNameIn? taken className source root link).isSome = true →
        link.2.stop ≤ byteLength before ∨
          byteLength before + byteLength (path owner member) ≤ link.2.start := by
    intro link inside named
    by_contra reaches
    rw [newNameIn?_of_use whole isTree left isClass other notThis unhidden use taken inside
      (by omega) (by omega)] at named
    exact absurd named (by decide)
  obtain ⟨front, back, kept, rest, isBefore, isAfter, spliced, patched⟩ :=
    Patch.exists_splice_around whole (by simp [path])
      (newNameIn? taken className source root) (standsIn_of_mem_identifierLinks isTree)
      (pairwise_identifierLinks isTree)
      (fun link inside => filled link.2 (Node.mem_identifiers_of_mem_identifierLinks inside))
      outside
  have areHanded : ∀ patch ∈ front ++ back, ∀ new, patch.new? = some new →
      IsHanded names patch.old new := by
    intro patch inside new replaced
    obtain ⟨link, inLinks, old, named⟩ := patched patch inside
    rw [old]
    exact isHanded_of_newNameIn? isTree words handed inLinks (named ▸ replaced)
  refine ⟨_, _, isBefore ▸ relabels_patches (fun patch inside => areHanded patch
    (List.mem_append_left _ inside)) kept, isAfter ▸ relabels_patches (fun patch inside =>
    areHanded patch (List.mem_append_right _ inside)) rest, ?_⟩
  rw [source_renameTree isTree, ← spliced]
  rfl

end Use

end Unpacking.Renaming
