import Unpacking.Proofs.Renaming.Edit

/-!
Renaming a class is a substitution that can be undone. It replaces identifiers inside the
declaration of the class, all at once, and nothing else. The new name of an identifier is the one
that was handed out for its old name, and no two old names share a new one, so the old source can be
read off the new one. Main statement: `renameClass_reversible`.
-/

namespace Unpacking.Renaming

open Text Java

/-! ### Putting old names back -/

/-- The old name for which a new name was handed out. -/
def oldName? (names : NewNames) (new : Text) : Option Text :=
  (names.find? fun entry => entry.2 == new).map Prod.fst

/-- A source with the old name in the place of every identifier of its tree that is a new name. -/
def restoreNames (names : NewNames) (source : Text) (root : Node) : Text :=
  splice (finalEdits (root.identifierLinks.filterMap
    (Subject.editOf fun link => oldName? names (link.2.text source)))) source

theorem oldName?_of_mem {names : NewNames} (distinct : (names.map Prod.snd).Nodup) {old new : Text}
    (inside : (old, new) ∈ names) : oldName? names new = some old := by
  rw [oldName?]
  cases found : names.find? fun entry => entry.2 == new with
  | none => simpa using List.find?_eq_none.mp found _ inside
  | some entry =>
      have same : entry.2 = new := by simpa using List.find?_some found
      have isEntry := List.mem_of_find?_eq_some found
      rw [List.inj_on_of_nodup_map distinct isEntry inside same, Option.map_some]

theorem oldName?_of_not_mem {names : NewNames} {word : Text}
    (absent : word ∉ names.map Prod.snd) : oldName? names word = none := by
  rw [oldName?, Option.map_eq_none_iff, List.find?_eq_none]
  intro entry inside same
  rw [beq_iff_eq] at same
  exact absent (same ▸ List.mem_map_of_mem inside)

namespace Patch

variable {α β : Type}

/-- The patches of the new text that put the old names back, each with its place from an offset
on. -/
def undone (names : NewNames) (offset : Nat) : List (Patch α) → List (Patch (Nat × Nat))
  | [] => []
  | patch :: rest =>
    let start := offset + byteLength patch.kept
    let stop := start + byteLength patch.new
    { kept := patch.kept
      item := (start, stop)
      old := patch.new
      new? := oldName? names patch.new } :: undone names stop rest

theorem fit_undone (names : NewNames) (offset : Nat) (patches : List (Patch α)) :
    Fit Prod.fst Prod.snd offset (undone names offset patches) := by
  induction patches generalizing offset with
  | nil => trivial
  | cons patch patches inductionHypothesis => exact ⟨rfl, rfl, inductionHypothesis _⟩

theorem before_undone (names : NewNames) (offset : Nat) (patches : List (Patch α)) (rest : Text) :
    before (undone names offset patches) rest = after patches rest := by
  induction patches generalizing offset with
  | nil => rfl
  | cons patch patches inductionHypothesis =>
      rw [undone, before_cons, after_cons, inductionHypothesis]

theorem new?_of_mem_undone {names : NewNames} {offset : Nat} {patches : List (Patch α)}
    {patch : Patch (Nat × Nat)} (inside : patch ∈ undone names offset patches) :
    patch.new? = oldName? names patch.old := by
  induction patches generalizing offset with
  | nil => exact absurd inside List.not_mem_nil
  | cons first patches inductionHypothesis =>
      rcases List.mem_cons.mp inside with rfl | inRest
      · rfl
      · exact inductionHypothesis inRest

/-- The old names come back if each new text is the name for the text that it replaced, and no other
part is a new name. -/
theorem after_undone {names : NewNames} (distinct : (names.map Prod.snd).Nodup)
    {patches : List (Patch α)}
    (handed : ∀ patch ∈ patches, ∀ new, patch.new? = some new → (patch.old, new) ∈ names)
    (apart : ∀ patch ∈ patches, patch.old ∉ names.map Prod.snd) (offset : Nat) (rest : Text) :
    after (undone names offset patches) rest = before patches rest := by
  induction patches generalizing offset with
  | nil => rfl
  | cons patch patches inductionHypothesis =>
      have others := inductionHypothesis (fun other inside => handed other (by simp [inside]))
        (fun other inside => apart other (by simp [inside]))
      have here : (oldName? names patch.new).getD patch.new = patch.old := by
        rw [Patch.new]
        cases replaced : patch.new? with
        | none =>
            rw [Option.getD_none, oldName?_of_not_mem (apart patch (by simp)), Option.getD_none]
        | some new =>
            rw [Option.getD_some, oldName?_of_mem distinct (handed patch (by simp) new replaced),
              Option.getD_some]
      rw [undone, after_cons, before_cons, others]
      change patch.kept ++ ((oldName? names patch.new).getD patch.new ++ before patches rest) = _
      rw [here]

/-! ### Two cuts of one text -/

section Places

variable {start stop : α → Nat} {begin last : β → Nat}

theorem le_start_of_fit {offset : Nat} {patches : List (Patch α)}
    (fit : Fit start stop offset patches) {patch : Patch α} (inside : patch ∈ patches) :
    offset ≤ start patch.item := by
  induction patches generalizing offset with
  | nil => exact absurd inside List.not_mem_nil
  | cons first patches inductionHypothesis =>
      obtain ⟨starts, stops, later⟩ := fit
      rcases List.mem_cons.mp inside with rfl | inRest
      · omega
      · have bound := inductionHypothesis later inRest
        omega

/-- The parts of a source lie one behind the other. -/
theorem pairwise_of_fit {offset : Nat} {patches : List (Patch α)}
    (fit : Fit start stop offset patches) :
    (patches.map item).Pairwise fun one other => stop one ≤ start other := by
  induction patches generalizing offset with
  | nil => exact .nil
  | cons first patches inductionHypothesis =>
      obtain ⟨-, -, later⟩ := fit
      refine List.pairwise_cons.mpr ⟨?_, inductionHypothesis later⟩
      intro other inside
      obtain ⟨patch, inRest, rfl⟩ := List.mem_map.mp inside
      exact le_start_of_fit later inRest

/-- Two cuts of one text at the same places give the same new text if the new texts of the parts
depend on the old ones only. -/
theorem after_eq_after {new? : Text → Option Text} {patches : List (Patch α)}
    {others : List (Patch β)} (offset : Nat) {rest more : Text}
    (fit : Fit start stop offset patches) (alsoFit : Fit begin last offset others)
    (places : (patches.map item).map (fun item => (start item, stop item)) =
      (others.map item).map fun item => (begin item, last item))
    (news : ∀ patch ∈ patches, patch.new? = new? patch.old)
    (alsoNews : ∀ patch ∈ others, patch.new? = new? patch.old)
    (same : before patches rest = before others more) :
    after patches rest = after others more := by
  induction patches generalizing offset others with
  | nil =>
      cases others with
      | nil => exact same
      | cons other others => simp at places
  | cons patch patches inductionHypothesis =>
      cases others with
      | nil => simp at places
      | cons other others =>
          simp only [List.map_cons, List.cons.injEq, Prod.mk.injEq] at places
          obtain ⟨⟨begins, ends⟩, places⟩ := places
          obtain ⟨starts, stops, later⟩ := fit
          obtain ⟨alsoStarts, alsoStops, alsoLater⟩ := alsoFit
          rw [before_cons, before_cons] at same
          obtain ⟨sameKept, same⟩ := append_inj_of_byteLength same (by omega)
          obtain ⟨sameOld, same⟩ := append_inj_of_byteLength same (by omega)
          have sameNew : patch.new = other.new := by
            rw [Patch.new, Patch.new, news patch (by simp), alsoNews other (by simp), sameOld]
          rw [← ends] at alsoLater
          have others := inductionHypothesis (stop patch.item) later alsoLater places
            (fun patch inside => news patch (by simp [inside]))
            (fun patch inside => alsoNews patch (by simp [inside])) same
          rw [after_cons, after_cons, sameKept, sameNew, others]

end Places

end Patch

/-- The places of the identifiers of a tree. -/
def identifierPlaces (root : Node) : List (Nat × Nat) :=
  root.identifierLinks.map fun link => (link.2.start, link.2.stop)

/-- Parts that lie one behind the other stand in this order only. -/
theorem eq_of_perm_ordered {α : Type} {start stop : α → Nat} {items others : List α}
    (same : items.Perm others) (filled : ∀ item ∈ items, start item < stop item)
    (ordered : items.Pairwise fun one other => stop one ≤ start other)
    (alsoOrdered : others.Pairwise fun one other => stop one ≤ start other) : items = others := by
  apply List.Perm.eq_of_pairwise _ ordered alsoOrdered same
  intro one other inOne inOther before behind
  have size := filled one inOne
  have alsoSize := filled other (same.mem_iff.mpr inOther)
  omega

/-- The old names come back through any tree of the new text that has its identifiers where those of
the source have gone. -/
theorem restoreNames_eq_after {names : NewNames} {output : Text} {outcome : Node}
    {patches : List (Patch (Node × Node))} {rest : Text} (isTree : outcome.IsTreeOf output)
    (filled : HasFilledIdentifiers outcome) (after : output = Patch.after patches rest)
    (moved : (identifierPlaces outcome).Perm ((Patch.undone names 0 patches).map Patch.item)) :
    restoreNames names output outcome = Patch.after (Patch.undone names 0 patches) rest := by
  obtain ⟨back, more, isCut⟩ := exists_cut isTree filled
    (fun link => oldName? names (link.2.text output))
  have ordered := Patch.pairwise_of_fit isCut.fit
  have alsoOrdered := Patch.pairwise_of_fit (Patch.fit_undone names 0 patches)
  have samePlaces : (back.map Patch.item).map (fun link => (link.2.start, link.2.stop)) =
      (Patch.undone names 0 patches).map Patch.item := by
    apply eq_of_perm_ordered ((isCut.complete.map _).trans moved) _
      (List.pairwise_map.mpr ordered) alsoOrdered
    intro place inside
    obtain ⟨link, inLinks, rfl⟩ := List.mem_map.mp inside
    exact filled link.2 (Node.mem_identifiers_of_mem_identifierLinks
      (isCut.complete.mem_iff.mp inLinks))
  rw [restoreNames, isCut.after]
  apply Patch.after_eq_after 0 isCut.fit (Patch.fit_undone names 0 patches)
  · exact samePlaces.trans (List.map_id _).symm
  · intro patch inside
    rw [isCut.news patch inside, isCut.old_eq inside]
  · exact fun patch inside => Patch.new?_of_mem_undone inside
  · rw [← isCut.before, after, Patch.before_undone]

/-! ### The replaced identifiers -/

/-- A new name that a class has for an old name at an offset: as the name of a field, as the name of
a method, or as the name of a variable that is declared in the method or constructor around the
offset. -/
inductive IsImage (renamed : RenamedClass) (source : Text) (members : List Node) (offset : Nat)
    (old new : Text) : Prop where
  | field (found : renamed.fields.lookup old = some new)
  | method (found : renamed.methods.lookup old = some new)
  | bound {member : Node} {taken : List Text} (inside : member ∈ members)
      (isScope : IsScopeMember member) (around : member.start ≤ offset ∧ offset < member.stop)
      (found : (variablesOf taken source member).names.lookup old = some new)

/-- What renaming does to a source. Some identifiers of the declaration that is renamed get new
texts at once, each of them the new name for its old text, and no two old texts share a new one.
Everything else stays as it is. -/
structure IsSubstitution (taken : List Text) (className source : Text) (root : Node)
    (renamed : RenamedClass) (patches : List (Patch (Node × Node))) (rest : Text) : Prop where
  isCut : IsCutAt root (newNameIn? taken className source root) source renamed.source patches rest
  named : ∀ patch ∈ patches, ∀ new, patch.new? = some new →
    ∃ type body, selectBody? source className root = some (type, body) ∧
      patch.item ∈ type.links ∧
      IsImage renamed source (members body) patch.item.2.start patch.old new
  injective : ∀ patch ∈ patches, ∀ other ∈ patches, ∀ new, patch.new? = some new →
    other.new? = some new → patch.old = other.old

section Class

variable {taken : List Text} {className source : Text} {new : Text}

theorem isImage_of_renames {renamed : RenamedClass} {members : List Node} {offset : Nat}
    {old : Text} (fields : renamed.fields = (declare taken source members).fields)
    (methods : renamed.methods = (declare taken source members).methods)
    (renames : (declare taken source members).Renames offset old new) :
    IsImage renamed source members offset old new := by
  rcases renames with isField | isMethod | isVariable
  · exact .field (fields ▸ isField)
  · exact .method (methods ▸ isMethod)
  · obtain ⟨scope, inScopes, starts, stops, found⟩ :=
      Declared.exists_scope_of_variableAt? isVariable
    obtain ⟨member, inside, isScope, earlier, rfl⟩ := exists_member_of_mem_scopes inScopes
    exact .bound inside isScope ⟨starts, stops⟩ found

/-- No two names of a class share a new name. -/
theorem nodup_newNames_declaredBy (distinct : taken.Nodup) (className source : Text)
    (root : Node) : (declaredBy taken className source root).newNames.Nodup := by
  have accounts := accounts_declaredBy distinct className source root
  exact (List.nodup_append.mp (accounts.complete.nodup_iff.mp accounts.distinct)).2.1

end Class

theorem IsCutAt.mem_links {root : Node} {new? : Node × Node → Option Text}
    {source output : Text} {patches : List (Patch (Node × Node))} {rest : Text}
    (isCut : IsCutAt root new? source output patches rest) {patch : Patch (Node × Node)}
    (inside : patch ∈ patches) : patch.item ∈ root.identifierLinks :=
  isCut.complete.mem_iff.mp (List.mem_map_of_mem inside)

theorem isSubstitution_of_isCut {taken : List Text} (distinct : taken.Nodup)
    {className source : Text} {root : Node} (isTree : root.IsTreeOf source)
    {patches : List (Patch (Node × Node))} {rest : Text}
    (isCut : IsCutAt root (newNameIn? taken className source root) source
      (renameTree taken className source root).1.source patches rest) :
    IsSubstitution taken className source root (renameTree taken className source root).1
      patches rest where
  isCut := isCut
  named := by
    intro patch inside new replaced
    rw [isCut.news patch inside] at replaced
    obtain ⟨type, body, selected, inType, renames⟩ :=
      exists_of_newNameIn? isTree (List.mem_of_mem_filter (isCut.mem_links inside)) replaced
    obtain ⟨fields, methods, -⟩ := renameTree_eq_declaredBy taken className source root
    rw [declaredBy, selected] at fields methods
    rw [isCut.old_eq inside]
    exact ⟨type, body, selected, inType, isImage_of_renames fields methods renames⟩
  injective := by
    intro patch inside other alsoInside new replaced alsoReplaced
    rw [isCut.news patch inside] at replaced
    rw [isCut.news other alsoInside] at alsoReplaced
    have pair := mem_pairs_of_newNameIn? isTree
      (List.mem_of_mem_filter (isCut.mem_links inside)) replaced
    have alsoPair := mem_pairs_of_newNameIn? isTree
      (List.mem_of_mem_filter (isCut.mem_links alsoInside)) alsoReplaced
    have same := List.inj_on_of_nodup_map
      (nodup_newNames_declaredBy distinct className source root) pair alsoPair rfl
    rw [isCut.old_eq inside, isCut.old_eq alsoInside, (Prod.mk.inj same).1]

/-- Renaming a class replaces identifiers inside its declaration, all at once and nothing else, by
the new names that are handed out for them. If no identifier of the source is one of these new
names, the source comes back when every identifier that is a new name gets its old name again: at
the places where the identifiers have gone, and so in any tree of the new text that has its
identifiers there. -/
theorem renameClass_reversible (parser : Parser) {taken : List Text} (distinct : taken.Nodup)
    (className source : Text) {root : Node} (parsed : parser.parse source = .ok root)
    (filled : HasFilledIdentifiers root) :
    ∃ renamed patches rest,
      (renameClass parser taken className source).1 = .ok renamed ∧
      IsSubstitution taken className source root renamed patches rest ∧
      (renameClass parser taken className source).2.Perm
        (taken ++ (declaredBy taken className source root).newNames) ∧
      ((∀ link ∈ root.identifierLinks,
          link.2.text source ∉ (declaredBy taken className source root).newNames) →
        Patch.after (Patch.undone (declaredBy taken className source root).pairs 0 patches) rest =
            source ∧
          ∀ outcome : Node, outcome.IsTreeOf renamed.source → HasFilledIdentifiers outcome →
            (identifierPlaces outcome).Perm
              ((Patch.undone (declaredBy taken className source root).pairs 0 patches).map
                Patch.item) →
            restoreNames (declaredBy taken className source root).pairs renamed.source outcome =
              source) := by
  have isTree := parser.isTreeOf parsed
  obtain ⟨patches, rest, isCut⟩ := exists_cut_renameTree isTree filled taken className
  refine ⟨(renameTree taken className source root).1, patches, rest, by rw [renameClass, parsed],
    isSubstitution_of_isCut distinct isTree isCut, ?_, ?_⟩
  · rw [renameClass, parsed]
    dsimp only
    rw [(renameTree_eq_declaredBy taken className source root).2.2]
    exact (accounts_declaredBy distinct className source root).complete
  · intro apart
    have restored : Patch.after
        (Patch.undone (declaredBy taken className source root).pairs 0 patches) rest = source := by
      rw [Patch.after_undone (nodup_newNames_declaredBy distinct className source root),
        ← isCut.before]
      · intro patch inside new replaced
        rw [isCut.news patch inside] at replaced
        rw [isCut.old_eq inside]
        exact mem_pairs_of_newNameIn? isTree
          (List.mem_of_mem_filter (isCut.mem_links inside)) replaced
      · intro patch inside
        rw [isCut.old_eq inside]
        exact apart patch.item (isCut.mem_links inside)
    refine ⟨restored, ?_⟩
    intro outcome alsoTree alsoFilled moved
    rw [restoreNames_eq_after alsoTree alsoFilled isCut.after moved]
    exact restored

/-! ### A plain class -/

/-- The patches of a source at some parts that lie one behind the other. -/
def Patch.cutAt {α : Type} (start stop : α → Nat) (new? : α → Option Text) (source : Text)
    (offset : Nat) : List α → List (Patch α)
  | [] => []
  | item :: rest =>
    { kept := slice offset (start item) source
      item
      old := slice (start item) (stop item) source
      new? := new? item } :: cutAt start stop new? source (stop item) rest

/-- There is one way to cut a source at some places. -/
theorem Patch.eq_cutAt {α : Type} {start stop : α → Nat} {new? : α → Option Text}
    {patches : List (Patch α)} (lead : Text) (fit : Fit start stop (byteLength lead) patches)
    (news : ∀ patch ∈ patches, patch.new? = new? patch.item) (rest : Text) :
    patches = cutAt start stop new? (lead ++ before patches rest) (byteLength lead)
      (patches.map item) := by
  induction patches generalizing lead with
  | nil => rfl
  | cons patch patches inductionHypothesis =>
      have old := old_eq_slice lead fit rest (List.mem_cons_self (a := patch))
      obtain ⟨starts, stops, later⟩ := fit
      have whole : lead ++ before (patch :: patches) rest =
          lead ++ patch.kept ++ patch.old ++ before patches rest := by
        rw [before_cons]
        simp only [List.append_assoc]
      have ends : stop patch.item = byteLength (lead ++ patch.kept ++ patch.old) := by
        rw [stops, starts, byteLength_append, byteLength_append]
      rw [ends] at later
      have others := inductionHypothesis _ later (fun other inside => news other (by simp [inside]))
      have kept : slice (byteLength lead) (start patch.item)
          (lead ++ before (patch :: patches) rest) = patch.kept := by
        rw [starts, whole, List.append_assoc (lead ++ patch.kept), slice_append]
      rw [List.map_cons, cutAt, kept, ← old, ← news patch (by simp), whole, ends, ← others]

/-- A class with a field, a method and a parameter. -/
def plainClass : Text :=
  "class A \x7b int x; void f(int y) \x7b x = y; \x7d \x7d"

/-- The class after renaming. -/
def renamedPlainClass : Text :=
  "class A \x7b int field_x_1; void method_f(int arg_y) \x7b field_x_1 = arg_y; \x7d \x7d"

/-- The new name of a field of the same name in another class. -/
def earlierNames : List Text :=
  ["field_x"]

/-- The class after renaming, and the names that come back. -/
theorem renameClass_reversible_plainClass :
    (renameClass parser earlierNames "A" plainClass).1.toOption.map RenamedClass.source =
        some renamedPlainClass ∧
      restoreNames (declaredBy earlierNames "A" plainClass (tree plainClass)).pairs
        renamedPlainClass (tree renamedPlainClass) = plainClass := by
  have distinct : earlierNames.Nodup := by decide
  have filled : HasFilledIdentifiers (tree plainClass) := by
    unfold HasFilledIdentifiers
    decide +kernel
  have alsoFilled : HasFilledIdentifiers (tree renamedPlainClass) := by
    unfold HasFilledIdentifiers
    decide +kernel
  have ran : (renameClass parser earlierNames "A" plainClass).1.toOption.map RenamedClass.source =
      some renamedPlainClass := by decide +kernel
  have ordered : (tree plainClass).identifierLinks.Pairwise
      fun one other => one.2.stop ≤ other.2.start := by decide +kernel
  obtain ⟨renamed, patches, rest, isRenamed, substitution, -, restored⟩ :=
    renameClass_reversible parser distinct "A" plainClass rfl filled
  have output : renamed.source = renamedPlainClass := by
    rw [isRenamed] at ran
    exact Option.some.inj ran
  have items : patches.map Patch.item = (tree plainClass).identifierLinks := by
    apply eq_of_perm_ordered substitution.isCut.complete _
      (Patch.pairwise_of_fit substitution.isCut.fit) ordered
    intro link inside
    exact filled link.2 (Node.mem_identifiers_of_mem_identifierLinks
      (substitution.isCut.complete.mem_iff.mp inside))
  have places : (Patch.undone (declaredBy earlierNames "A" plainClass (tree plainClass)).pairs 0
      patches).map Patch.item = identifierPlaces (tree renamedPlainClass) := by
    rw [Patch.eq_cutAt [] substitution.isCut.fit substitution.isCut.news rest, items,
      List.nil_append, ← substitution.isCut.before]
    decide +kernel
  rw [output] at restored
  exact ⟨ran, (restored (by decide +kernel)).2 _ (parser.isTreeOf rfl) alsoFilled
    (.of_eq places.symm)⟩

end Unpacking.Renaming
