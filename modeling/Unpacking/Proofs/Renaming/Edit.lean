import Unpacking.Java.Nesting
import Unpacking.Proofs.Renaming.Distinct
import Unpacking.Proofs.Renaming.Patch

/-!
The identifiers of a tree that get new names. The source is cut at all its identifiers, and those
that get a new name are replaced, each by the new name of its own text. Main statement: `exists_cut`.
-/

namespace Unpacking.Java.Node

/-- The identifiers below a node, each with its parent. -/
def identifierLinks (node : Node) : List (Node × Node) :=
  node.links.filter fun link => link.2.kind == .identifier

theorem links_subset_of_mem_children {root node : Node} (child : node ∈ root.children) :
    node.links ⊆ root.links := by
  intro link member
  cases root with
  | mk label children =>
      rw [links_mk]
      exact List.mem_flatMap.mpr ⟨node, child, by simp [member]⟩

theorem mem_nodes_of_mem_links {root : Node} {link : Node × Node} (member : link ∈ root.links) :
    link.2 ∈ root.nodes :=
  List.mem_cons_of_mem _ (List.mem_map_of_mem member)

theorem mem_links_of_mem_children {node child : Node} (member : child ∈ node.children) :
    (node, child) ∈ node.links := by
  cases node with
  | mk label children =>
      rw [links_mk]
      exact List.mem_flatMap.mpr ⟨child, member, by simp⟩

/-- The children of a node that has a child are nodes of the tree. -/
theorem mem_nodes_of_parent {root : Node} {link : Node × Node} (member : link ∈ root.links) :
    ∀ child ∈ link.1.children, child ∈ root.nodes := by
  induction root with
  | mk label children inductionHypothesis =>
      rw [links_mk] at member
      obtain ⟨node, inChildren, atNode⟩ := List.mem_flatMap.mp member
      intro child inside
      rcases List.mem_cons.mp atNode with rfl | below
      · exact mem_nodes_of_mem_links (mem_links_of_mem_children inside)
      · have found := inductionHypothesis node inChildren below child inside
        rw [nodes_mk]
        exact List.mem_cons_of_mem _ (List.mem_flatMap.mpr ⟨node, inChildren, found⟩)

theorem mem_identifiers_of_mem_identifierLinks {root : Node} {link : Node × Node}
    (member : link ∈ root.identifierLinks) : link.2 ∈ root.identifiers := by
  obtain ⟨inside, isIdentifier⟩ := List.mem_filter.mp member
  exact List.mem_filter.mpr ⟨mem_nodes_of_mem_links inside, isIdentifier⟩

theorem map_identifierLinks_sublist (root : Node) :
    (root.identifierLinks.map Prod.snd).Sublist root.identifiers := by
  rw [identifiers, nodes, identifierLinks,
    show (fun link : Node × Node => link.2.kind == NodeKind.identifier) =
      (fun node : Node => node.kind == NodeKind.identifier) ∘ Prod.snd from rfl,
    ← List.filter_map]
  exact (List.sublist_cons_self _ _).filter _

theorem mem_of_childAs? {node child : Node} {part : FieldName}
    (found : node.childAs? part = some child) : child ∈ node.children :=
  List.mem_of_find?_eq_some found

/-- The links below a child make up one stretch of the links below its parent. -/
theorem links_eq_append {root node : Node} (child : node ∈ root.children) :
    ∃ early late, root.links = early ++ (root, node) :: (node.links ++ late) := by
  cases root with
  | mk label children =>
      obtain ⟨left, right, rfl⟩ := List.append_of_mem child
      rw [links_mk, List.flatMap_append, List.flatMap_cons]
      exact ⟨_, _, rfl⟩

end Unpacking.Java.Node

namespace Unpacking.Renaming

open Text Java

/-! ### The names of a class -/

theorem mem_of_lookup {α β : Type} [BEq α] [LawfulBEq α] {key : α} {value : β}
    {entries : List (α × β)} (found : entries.lookup key = some value) :
    (key, value) ∈ entries := by
  obtain ⟨early, late, rfl, -⟩ := List.lookup_eq_some_iff.mp found
  simp

namespace Declared

/-- A name has a new one at an offset: as a field, as a method, or as a variable that is known
there. -/
def Renames (declared : Declared) (offset : Nat) (old new : Text) : Prop :=
  declared.fields.lookup old = some new ∨ declared.methods.lookup old = some new ∨
    declared.variableAt? offset old = some new

theorem exists_scope_of_variableAt? {declared : Declared} {offset : Nat} {old new : Text}
    (found : declared.variableAt? offset old = some new) :
    ∃ scope ∈ declared.scopes, scope.start ≤ offset ∧ offset < scope.stop ∧
      scope.names.lookup old = some new := by
  obtain ⟨scope, isFirst, looked⟩ := Option.bind_eq_some_iff.mp found
  have holds := List.find?_some isFirst
  simp only [Bool.and_eq_true, decide_eq_true_eq] at holds
  exact ⟨scope, List.mem_of_find?_eq_some isFirst, holds.1, holds.2, looked⟩

theorem Renames.mem_pairs {declared : Declared} {offset : Nat} {old new : Text}
    (renames : declared.Renames offset old new) : (old, new) ∈ declared.pairs := by
  rw [pairs, List.mem_append, List.mem_append]
  rcases renames with isField | isMethod | isVariable
  · exact .inl (.inl (mem_of_lookup isField))
  · exact .inl (.inr (mem_of_lookup isMethod))
  · obtain ⟨scope, inside, -, -, looked⟩ := exists_scope_of_variableAt? isVariable
    exact .inr (List.mem_flatMap.mpr ⟨scope, inside, mem_of_lookup looked⟩)

theorem isNewName_of_mem_pairs_add {source : Text} {declared : Declared} {member : Node}
    (labelled : ∀ entry ∈ declared.pairs, IsNewName entry.1 entry.2) :
    ∀ entry ∈ (declared.add source member).pairs, IsNewName entry.1 entry.2 := by
  obtain ⟨newFields, newMethods, newScopes, adds, -⟩ := declared.exists_adds source member
  intro entry inside
  have added := adds.labelled entry
  have before := labelled entry
  simp only [pairs, adds.fields, adds.methods, adds.scopes, List.flatMap_append,
    List.mem_append] at inside added before
  tauto

end Declared

/-- All names of a class are new names. -/
theorem isNewName_of_mem_pairs {taken : List Text} {source : Text} {members : List Node}
    {entry : Text × Text} (inside : entry ∈ (declare taken source members).pairs) :
    IsNewName entry.1 entry.2 := by
  revert entry
  apply declare_induction (motive := fun declared =>
    ∀ {entry}, entry ∈ declared.pairs → IsNewName entry.1 entry.2)
  · simp [Declared.pairs]
  · intro declared member _ labelled
    exact Declared.isNewName_of_mem_pairs_add (fun _ => labelled) _

theorem isNewName_of_mem_declaredBy {taken : List Text} {className source : Text} {root : Node}
    {entry : Text × Text} (inside : entry ∈ (declaredBy taken className source root).pairs) :
    IsNewName entry.1 entry.2 := by
  rw [declaredBy] at inside
  split at inside
  · simp [Declared.pairs] at inside
  · exact isNewName_of_mem_pairs inside

/-- Every scope belongs to a member. -/
theorem exists_member_of_mem_scopes {taken : List Text} {source : Text} {members : List Node}
    {scope : Scope} (inside : scope ∈ (declare taken source members).scopes) :
    ∃ member ∈ members, IsScopeMember member ∧
      ∃ earlier, scope = scopeOf earlier source member := by
  revert scope
  apply declare_induction (motive := fun declared => ∀ {scope}, scope ∈ declared.scopes →
    ∃ member ∈ members, IsScopeMember member ∧ ∃ earlier, scope = scopeOf earlier source member)
  · simp
  · intro declared member inMembers known scope inside
    obtain ⟨newFields, newMethods, newScopes, adds, opened⟩ := declared.exists_adds source member
    rw [adds.scopes] at inside
    rcases List.mem_append.mp inside with early | late
    · exact known early
    · rcases opened with none | ⟨isScope, earlier, one⟩
      · simp [none] at late
      · rw [one, List.mem_singleton] at late
        exact ⟨member, inMembers, isScope, earlier, late⟩

/-! ### The identifiers of the selected type -/

theorem selectBody?_eq_some {source className : Text} {root type body : Node}
    (selected : selectBody? source className root = some (type, body)) :
    type ∈ root.children ∧ type.childAs? .body = some body := by
  simp only [selectBody?, Option.bind_eq_bind, Option.bind_eq_some_iff, Option.pure_def,
    Option.some.injEq, Prod.mk.injEq] at selected
  obtain ⟨found, isType, inner, isBody, rfl, rfl⟩ := selected
  refine ⟨?_, isBody⟩
  rcases Option.or_eq_some_iff.mp isType with named | ⟨-, first⟩
  · exact (List.mem_filter.mp (List.mem_of_find?_eq_some named)).1
  · exact (List.mem_filter.mp (List.mem_of_head? first)).1

theorem links_subset_of_mem_members {body member : Node} (inside : member ∈ members body) :
    member.links ⊆ body.links := by
  obtain ⟨child, named, inChild⟩ := List.mem_flatMap.mp inside
  have inBody := Node.links_subset_of_mem_children (List.mem_of_mem_filter named)
  split at inChild
  · have inner := Node.links_subset_of_mem_children (List.mem_of_mem_filter inChild)
    exact fun link inLinks => inBody (inner inLinks)
  · rwa [List.mem_singleton.mp inChild]

theorem exists_link_of_mem_members {body member : Node} (inside : member ∈ members body) :
    ∃ parent, (parent, member) ∈ body.links := by
  obtain ⟨child, named, inChild⟩ := List.mem_flatMap.mp inside
  have isChild := List.mem_of_mem_filter named
  split at inChild
  · exact ⟨child, Node.links_subset_of_mem_children isChild
      (Node.mem_links_of_mem_children (List.mem_of_mem_filter inChild))⟩
  · rw [List.mem_singleton.mp inChild]
    exact ⟨body, Node.mem_links_of_mem_children isChild⟩

namespace Subject

variable {subject : Subject} {parent node : Node} {new : Text}

/-- A new name is the new name of the old text as a field, as a method or as a variable. -/
theorem renames_of_newName? (named : subject.newName? parent node = some new) :
    subject.declared.Renames node.start (node.text subject.source) new := by
  rw [newName?] at named
  cases use : nameUse parent node with
  | declaredMethod =>
      rw [use] at named
      exact .inr (.inl (Option.ite_none_right_eq_some.mp named).2)
  | calledMethod =>
      rw [use] at named
      exact .inr (.inl (Option.ite_none_right_eq_some.mp named).2)
  | accessedField =>
      rw [use] at named
      exact .inl (Option.ite_none_right_eq_some.mp named).2
  | fixed => simp [use] at named
  | plain =>
      rw [use] at named
      rcases Option.or_eq_some_iff.mp named with isVariable | ⟨-, isField⟩
      · exact .inr (.inr isVariable)
      · exact .inl isField

theorem isNewName_of_newName? {taken : List Text} {className source : Text} {body : Node}
    (named : (ofBody taken className source body).newName? parent node = some new) :
    IsNewName (node.text source) new := by
  have inside : (node.text source, new) ∈
      (declare taken source (Renaming.members body)).pairs :=
    (renames_of_newName? named).mem_pairs
  exact isNewName_of_mem_pairs inside

/-- The new name of an identifier anywhere in a tree. Only those in the selected type get one. -/
def replaced? (subject : Subject) (type : Node) (link : Node × Node) : Option Text :=
  if (type.links.map (Node.id ∘ Prod.snd)).contains link.2.id then
    subject.newName? link.1 link.2
  else none

/-- The edit that an identifier gets. -/
def editOf (new? : Node × Node → Option Text) (link : Node × Node) : Option Edit :=
  (new? link).map fun new => { start := link.2.start, stop := link.2.stop, new }

/-- Looking at all identifiers of a tree finds the edits of the selected type. -/
theorem filterMap_replaced? {root type : Node} (subject : Subject)
    (child : type ∈ root.children) (distinct : (root.nodes.map Node.id).Nodup) :
    root.identifierLinks.filterMap (editOf (subject.replaced? type)) =
      type.links.filterMap subject.edit? := by
  obtain ⟨early, late, whole⟩ := Node.links_eq_append child
  rw [Node.nodes, List.map_cons, List.map_map, whole, List.map_append, List.map_cons,
    List.map_append] at distinct
  obtain ⟨-, inner, disjoint⟩ := List.nodup_append.mp (List.nodup_cons.mp distinct).2
  obtain ⟨notInside, inner⟩ := List.nodup_cons.mp inner
  obtain ⟨-, -, beyond⟩ := List.nodup_append.mp inner
  have outside {links : List (Node × Node)}
      (free : ∀ link ∈ links, link.2.id ∉ type.links.map (Node.id ∘ Prod.snd)) :
      links.filterMap (fun link => if link.2.kind == .identifier then
        editOf (subject.replaced? type) link else none) = [] := by
    rw [List.filterMap_eq_nil_iff]
    intro link member
    simp only [editOf, replaced?, List.contains_iff_mem]
    rw [if_neg (free link member), Option.map_none, ite_self]
  have inEarly : ∀ link ∈ early, link.2.id ∉ type.links.map (Node.id ∘ Prod.snd) := by
    intro link member inside
    exact disjoint _ (List.mem_map_of_mem member) _ (by simp [inside]) rfl
  have inLate : ∀ link ∈ late, link.2.id ∉ type.links.map (Node.id ∘ Prod.snd) := by
    intro link member inside
    exact beyond _ inside _ (List.mem_map_of_mem member) rfl
  have here : ∀ link ∈ [(root, type)], link.2.id ∉ type.links.map (Node.id ∘ Prod.snd) := by
    intro link member inside
    rw [List.mem_singleton.mp member] at inside
    exact notInside (List.mem_append_left _ inside)
  rw [Node.identifierLinks, List.filterMap_filter, whole, ← List.singleton_append,
    List.filterMap_append, List.filterMap_append, List.filterMap_append, outside inEarly,
    outside here, outside inLate, List.nil_append, List.nil_append, List.append_nil]
  apply List.filterMap_congr
  intro link member
  have inside : link.2.id ∈ type.links.map (Node.id ∘ Prod.snd) := List.mem_map_of_mem member
  simp only [editOf, replaced?, edit?, List.contains_iff_mem]
  rw [if_pos inside]

end Subject

/-! ### Cutting a source at its identifiers -/

/-- A source and its new text, cut at all identifiers of a tree. -/
structure IsCutAt (root : Node) (new? : Node × Node → Option Text) (source output : Text)
    (patches : List (Patch (Node × Node))) (rest : Text) : Prop where
  /-- Every identifier has its patch. -/
  complete : (patches.map Patch.item).Perm root.identifierLinks
  /-- The patches lie where the tree says. -/
  fit : Patch.Fit (fun link => link.2.start) (fun link => link.2.stop) 0 patches
  news : ∀ patch ∈ patches, patch.new? = new? patch.item
  before : source = Patch.before patches rest
  after : output = Patch.after patches rest

/-- The identifiers of a tree are not empty. -/
def HasFilledIdentifiers (root : Node) : Prop :=
  ∀ node ∈ root.identifiers, node.start < node.stop

section Tree

variable {root : Node} {source : Text} (isTree : root.IsTreeOf source)

include isTree

theorem standsIn_of_mem_identifierLinks :
    ∀ link ∈ root.identifierLinks, Patch.StandsIn (fun link : Node × Node => link.2.start)
      (fun link => link.2.stop) source link := by
  intro link inside
  exact isTree.within link.2
    (List.mem_of_mem_filter (Node.mem_identifiers_of_mem_identifierLinks inside))

theorem pairwise_identifierLinks :
    root.identifierLinks.Pairwise fun one other =>
      one.2.stop ≤ other.2.start ∨ other.2.stop ≤ one.2.start := by
  have nodes := isTree.apart.sublist (Node.map_identifierLinks_sublist root)
  rw [List.pairwise_map] at nodes
  exact nodes

theorem exists_cut (filled : HasFilledIdentifiers root) (new? : Node × Node → Option Text) :
    ∃ patches rest, IsCutAt root new? source
      (splice (finalEdits (root.identifierLinks.filterMap (Subject.editOf new?))) source)
      patches rest := by
  obtain ⟨patches, rest, complete, news, fit, before, after⟩ := Patch.exists_splice new?
    (standsIn_of_mem_identifierLinks isTree) (pairwise_identifierLinks isTree)
    (fun link member => filled link.2 (Node.mem_identifiers_of_mem_identifierLinks member))
  exact ⟨patches, rest, complete, fit, news, before, after⟩

end Tree

/-- The new name of an identifier of a source, if it gets one. -/
def newNameIn? (taken : List Text) (className source : Text) (root : Node)
    (link : Node × Node) : Option Text :=
  match selectBody? source className root with
  | none => none
  | some (type, body) => (Subject.ofBody taken className source body).replaced? type link

section Class

variable {taken : List Text} {className source : Text} {root : Node} {link : Node × Node}
  {new : Text}

/-- A node of a tree that has the number of a node below a child is that node. -/
theorem mem_links_of_id {type : Node} (isTree : root.IsTreeOf source)
    (child : type ∈ root.children) (inside : link ∈ root.links)
    (listed : link.2.id ∈ type.links.map (Node.id ∘ Prod.snd)) : link ∈ type.links := by
  obtain ⟨other, inType, same⟩ := List.mem_map.mp listed
  have distinct : (root.links.map (Node.id ∘ Prod.snd)).Nodup := by
    have ids := (List.nodup_cons.mp isTree.distinct).2
    rwa [List.map_map] at ids
  have inRoot := Node.links_subset_of_mem_children child inType
  rw [List.inj_on_of_nodup_map distinct inside inRoot same.symm]
  exact inType

/-- An identifier with a new name lies in the declaration that is renamed. -/
theorem exists_of_newNameIn? (isTree : root.IsTreeOf source) (inside : link ∈ root.links)
    (named : newNameIn? taken className source root link = some new) :
    ∃ type body, selectBody? source className root = some (type, body) ∧ link ∈ type.links ∧
      (declare taken source (members body)).Renames link.2.start (link.2.text source) new := by
  rw [newNameIn?] at named
  split at named
  · exact absurd named (by simp)
  · rename_i type body selected
    obtain ⟨listed, named⟩ := Option.ite_none_right_eq_some.mp named
    rw [List.contains_iff_mem] at listed
    exact ⟨type, body, selected,
      mem_links_of_id isTree (selectBody?_eq_some selected).1 inside listed,
      Subject.renames_of_newName? named⟩

theorem mem_pairs_of_newNameIn? (isTree : root.IsTreeOf source) (inside : link ∈ root.links)
    (named : newNameIn? taken className source root link = some new) :
    (link.2.text source, new) ∈ (declaredBy taken className source root).pairs := by
  obtain ⟨type, body, selected, -, renames⟩ := exists_of_newNameIn? isTree inside named
  rw [declaredBy, selected]
  exact renames.mem_pairs

end Class

/-- The new text of a class comes from the identifiers of its tree that get new names. -/
theorem source_renameTree {root : Node} {source : Text} (isTree : root.IsTreeOf source)
    (taken : List Text) (className : Text) :
    (renameTree taken className source root).1.source =
      splice (finalEdits (root.identifierLinks.filterMap
        (Subject.editOf (newNameIn? taken className source root)))) source := by
  rw [renameTree]
  unfold newNameIn?
  cases selected : selectBody? source className root with
  | none =>
      have noEdits : root.identifierLinks.filterMap (Subject.editOf fun _ => none) = [] :=
        List.filterMap_eq_nil_iff.mpr fun _ _ => rfl
      dsimp only
      rw [noEdits]
      rfl
  | some both =>
      dsimp only
      rw [Subject.filterMap_replaced? _ (selectBody?_eq_some selected).1 isTree.distinct]

/-- The new text of a class, cut at all identifiers of its tree. -/
theorem exists_cut_renameTree {root : Node} {source : Text} (isTree : root.IsTreeOf source)
    (filled : HasFilledIdentifiers root) (taken : List Text) (className : Text) :
    ∃ patches rest, IsCutAt root (newNameIn? taken className source root) source
      (renameTree taken className source root).1.source patches rest := by
  rw [source_renameTree isTree]
  exact exists_cut isTree filled _

/-- What a patch replaces is the text of its identifier. -/
theorem IsCutAt.old_eq {root : Node} {new? : Node × Node → Option Text} {source output : Text}
    {patches : List (Patch (Node × Node))} {rest : Text}
    (isCut : IsCutAt root new? source output patches rest) {patch : Patch (Node × Node)}
    (member : patch ∈ patches) : patch.old = patch.item.2.text source := by
  have found := Patch.old_eq_slice [] isCut.fit rest member
  rwa [List.nil_append, ← isCut.before] at found

theorem IsCutAt.exists_patch {root : Node} {new? : Node × Node → Option Text}
    {source output : Text} {patches : List (Patch (Node × Node))} {rest : Text}
    (isCut : IsCutAt root new? source output patches rest) {link : Node × Node}
    (member : link ∈ root.identifierLinks) :
    ∃ patch ∈ patches, patch.item = link ∧ patch.new? = new? link := by
  obtain ⟨patch, inside, rfl⟩ := List.mem_map.mp (isCut.complete.mem_iff.mpr member)
  exact ⟨patch, inside, rfl, isCut.news patch inside⟩

end Unpacking.Renaming
