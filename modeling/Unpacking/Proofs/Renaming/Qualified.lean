import Unpacking.Proofs.Renaming.Use

/-!
Uses of a member behind the name of its class, in the other classes. Renaming a class by itself
leaves such a use as it is, and then the use follows the member that it names. Main statement:
`renameAll_use`.
-/

namespace Unpacking.Renaming

open Java Text

/-! ### The rules of several classes -/

theorem mem_rules {order : MapOrder} {renamed : List RenamedClass}
    {rule : (Text × Text) × Text} :
    rule ∈ rules order renamed ↔ ∃ one ∈ renamed, ∃ entry ∈ one.fields ++ one.methods,
      ((one.className, entry.1), entry.2) = rule := by
  simp only [rules, List.mem_flatMap, List.mem_map, mem_membersIn]

theorem lookup_map_pair (className name : Text) (entries : NewNames) :
    (entries.map fun entry => ((className, entry.1), entry.2)).lookup (className, name) =
      entries.lookup name := by
  induction entries with
  | nil => rfl
  | cons entry entries inductionHypothesis =>
      obtain ⟨old, new⟩ := entry
      have same : ((className, name) == (className, old)) = (name == old) := by
        rw [Bool.eq_iff_iff]
        simp
      rw [List.map_cons, List.lookup_cons, List.lookup_cons, same, inductionHypothesis]

theorem lookup_eq_some_iff_mem {names : NewNames} (distinct : (names.map Prod.fst).Nodup)
    {old new : Text} : names.lookup old = some new ↔ (old, new) ∈ names := by
  constructor
  · exact mem_of_lookup
  · intro inside
    cases found : names.lookup old with
    | none => simpa using List.lookup_eq_none_iff.mp found _ inside
    | some other =>
        have same := List.inj_on_of_nodup_map distinct (mem_of_lookup found) inside rfl
        rw [(Prod.mk.inj same).2]

/-- The order in which a map is visited does not matter for what is found in it. -/
theorem lookup_visit (order : MapOrder) {names : NewNames}
    (distinct : (names.map Prod.fst).Nodup) (old : Text) :
    (order.visit names).lookup old = names.lookup old := by
  have same := order.perm names
  have alsoDistinct := (same.map Prod.fst).nodup_iff.mpr distinct
  apply Option.ext
  intro new
  rw [lookup_eq_some_iff_mem distinct, lookup_eq_some_iff_mem alsoDistinct, same.mem_iff]

/-- The fields and the methods of a class have a new name each. -/
def RenamedClass.HasDistinctMembers (renamed : RenamedClass) : Prop :=
  (renamed.fields.map Prod.fst).Nodup ∧ (renamed.methods.map Prod.fst).Nodup

theorem lookup_membersIn (order : MapOrder) {renamed : RenamedClass}
    (distinct : renamed.HasDistinctMembers) (name : Text) :
    (renamed.membersIn order).lookup name =
      (renamed.fields.lookup name).or (renamed.methods.lookup name) := by
  rw [RenamedClass.membersIn, List.lookup_append, lookup_visit order distinct.1,
    lookup_visit order distinct.2]

/-- The rule of a member, where no two classes share a name. -/
theorem lookup_rules {order : MapOrder} {renamed : List RenamedClass} {owner : RenamedClass}
    {member new : Text} (distinct : (renamed.map RenamedClass.className).Nodup)
    (isOwner : owner ∈ renamed) (found : (owner.membersIn order).lookup member = some new) :
    (rules order renamed).lookup (owner.className, member) = some new := by
  induction renamed with
  | nil => simp at isOwner
  | cons first rest inductionHypothesis =>
      rw [List.map_cons, List.nodup_cons] at distinct
      rw [rules, List.flatMap_cons, List.lookup_append]
      rcases List.mem_cons.mp isOwner with rfl | later
      · rw [lookup_map_pair, found, Option.some_or]
      · have absent : ((first.membersIn order).map fun entry =>
            ((first.className, entry.1), entry.2)).lookup (owner.className, member) = none := by
          refine List.lookup_eq_none_iff.mpr fun rule inside => ?_
          obtain ⟨entry, -, rfl⟩ := List.mem_map.mp inside
          have different : owner.className ≠ first.className := fun same =>
            distinct.1 (same ▸ List.mem_map_of_mem later)
          simp [different]
        rw [absent, Option.none_or]
        exact inductionHypothesis distinct.2 later

/-! ### Several classes -/

/-- All new names that are handed out for some classes. -/
def handedOut (parser : Parser) (taken : List Text) (classes : List (Text × Text)) : NewNames :=
  (declaredAlong parser taken classes).flatMap Declared.pairs

/-- A name behind a text is no member of a class that the text ends with, whatever new names the
text gets. -/
def IsFree (names : NewNames) (renamed : List RenamedClass) (before name : Text) : Prop :=
  ∀ other ∈ renamed, name ∈ (other.fields ++ other.methods).map Prod.fst →
    ∀ changed, Relabels names before changed → ¬EndsWith other.className changed

/-- Renaming the uses changes no names of members. -/
theorem IsFree.of_renameUses {names : NewNames} {order : MapOrder} {renamed : List RenamedClass}
    {before name : Text} (free : IsFree names (renameUses order renamed) before name) :
    IsFree names renamed before name := by
  rw [IsFree, renameUses] at free
  exact List.forall_mem_map.mp free

/-- The trees of some classes have words for their names. -/
def AllHaveWords (parser : Parser) (classes : List (Text × Text)) : Prop :=
  ∀ entry ∈ classes, ∀ root, parser.parse entry.2 = .ok root → HasWords entry.2 root

section Along

variable {parser : Parser} {taken : List Text} {classes : List (Text × Text)}
  {entry : Text × Text} {one : RenamedClass}
  (along : IsRenamedAlong parser taken classes entry one)

include along

theorem className_of_isRenamedAlong : one.className = entry.1 := by
  obtain ⟨before, root, -, rfl, -⟩ := along
  rw [renameTree]
  split
  · rfl
  · rfl

theorem hasDistinctMembers_of_isRenamedAlong : one.HasDistinctMembers := by
  obtain ⟨before, root, -, rfl, -⟩ := along
  obtain ⟨fields, methods, -⟩ := renameTree_eq_declaredBy before entry.1 entry.2 root
  rw [RenamedClass.HasDistinctMembers, fields, methods, declaredBy]
  split
  · exact ⟨List.nodup_nil, List.nodup_nil⟩
  · rename_i type body _
    have keys := hasKeys_declare before entry.2 (members body)
    exact ⟨keys.1.distinct, keys.2.distinct⟩

theorem mem_pairs_of_isRenamedAlong {pair : Text × Text}
    (inside : pair ∈ one.fields ++ one.methods) :
    IsNewName pair.1 pair.2 ∧ pair ∈ handedOut parser taken classes := by
  obtain ⟨before, root, -, rfl, declared⟩ := along
  obtain ⟨fields, methods, -⟩ := renameTree_eq_declaredBy before entry.1 entry.2 root
  rw [fields, methods] at inside
  have inPairs : pair ∈ (declaredBy before entry.1 entry.2 root).pairs :=
    List.mem_append_left _ inside
  exact ⟨isNewName_of_mem_declaredBy inPairs, List.mem_flatMap.mpr ⟨_, declared, inPairs⟩⟩

/-- The members of a class are words, and their new names are handed out. -/
theorem isHanded_of_isRenamedAlong (isEntry : entry ∈ classes)
    (words : AllHaveWords parser classes) {pair : Text × Text}
    (inside : pair ∈ one.fields ++ one.methods) :
    IsHanded (handedOut parser taken classes) pair.1 pair.2 := by
  obtain ⟨isNew, handed⟩ := mem_pairs_of_isRenamedAlong along inside
  obtain ⟨before, root, parsed, rfl, -⟩ := along
  exact ⟨isSourceWord_of_mem_renameTree (words entry isEntry root parsed) before entry.1 inside,
    isNew, handed⟩

end Along

section Classes

variable {renamer : Renamer} {taken : List Text} {classes : List (Text × Text)}
  {separate : List RenamedClass}
  (ran : (renameSeparately renamer.parser taken classes).1 = .ok separate)

include ran

theorem map_className_renameSeparately :
    separate.map RenamedClass.className = classes.map Prod.fst := by
  have along := forall₂_renameSeparately ran
  rw [← List.forall₂_eq_eq_eq, List.forall₂_map_left_iff, List.forall₂_map_right_iff]
  exact (along.imp fun _ _ one => className_of_isRenamedAlong one).flip

theorem isRule_of_mem_rules (named : ∀ entry ∈ classes, IsSourceWord entry.1)
    (words : AllHaveWords renamer.parser classes) {owner before : Text}
    (free : IsFree (handedOut renamer.parser taken classes) separate before owner) :
    ∀ rule ∈ rules renamer.order separate,
      IsRule (handedOut renamer.parser taken classes) owner before rule := by
  intro rule inside
  obtain ⟨one, isOne, pair, isPair, rfl⟩ := mem_rules.mp inside
  obtain ⟨entry, isEntry, along⟩ := exists_isRenamedAlong_of_mem ran isOne
  refine ⟨?_, isHanded_of_isRenamedAlong along isEntry words isPair, ?_⟩
  · dsimp only
    rw [className_of_isRenamedAlong along]
    exact named entry isEntry
  · intro same
    exact free one isOne (same ▸ List.mem_map_of_mem isPair)

theorem rule_ne_of_mem_rules (distinct : (classes.map Prod.fst).Nodup) {owner : RenamedClass}
    {new : Text} (isOwner : owner ∈ separate)
    (settled : ∀ entry ∈ owner.fields ++ owner.methods, entry.1 ≠ new) :
    ∀ rule ∈ rules renamer.order separate, rule.1 ≠ (owner.className, new) := by
  intro rule inside same
  obtain ⟨one, isOne, entry, isEntry, rfl⟩ := mem_rules.mp inside
  obtain ⟨sameClass, sameName⟩ := Prod.mk.inj same
  rw [← map_className_renameSeparately ran] at distinct
  obtain rfl := List.inj_on_of_nodup_map distinct isOne isOwner sameClass
  exact settled entry isEntry sameName

end Classes

/-- A use of a member behind the name of its class follows the member: it gets the new name of the
field of its name, or of the method if there is no such field. -/
theorem renameAll_use (renamer : Renamer) (taken : List Text) {classes : List (Text × Text)}
    (distinct : (classes.map Prod.fst).Nodup) (named : ∀ entry ∈ classes, IsSourceWord entry.1)
    (words : AllHaveWords renamer.parser classes) {renamed : List RenamedClass}
    (ran : (renameAll renamer taken classes).1 = .ok renamed)
    {index : Nat} {className source : Text} (present : classes[index]? = some (className, source))
    {root : Node} (parsed : renamer.parser.parse source = .ok root)
    {owner : RenamedClass} (isOwner : owner ∈ renamed) (other : owner.className ≠ className)
    (notThis : owner.className ≠ "this".toList)
    (unhidden : ∀ selected ∈ selectBody? source className root,
      owner.className ∉ variableNames source selected.2)
    {member new : Text}
    (found : (owner.fields.lookup member).or (owner.methods.lookup member) = some new)
    (settled : ∀ entry ∈ owner.fields ++ owner.methods, entry.1 ≠ new)
    (plainOwner : IsPlain owner.className) (plainMember : IsPlain member)
    {before after : Text} (whole : source = before ++ (path owner.className member ++ after))
    (left : EndsApart before) (right : BeginsApart after)
    (use : IsUseAt root (byteLength before) owner.className member)
    (free : IsFree (handedOut renamer.parser taken classes) renamed before owner.className) :
    ∃ one changed changedToo, renamed[index]? = some one ∧
      one.source = changed ++ (path owner.className new ++ changedToo) ∧
      Relabels (handedOut renamer.parser taken classes) before changed ∧
      changed.getLast? = before.getLast? ∧
      Relabels (handedOut renamer.parser taken classes) after changedToo ∧
      changedToo.head? = after.head? := by
  obtain ⟨separate, first, rfl⟩ := renameAll_eq_ok ran
  replace free := free.of_renameUses
  rw [renameUses] at isOwner ⊢
  obtain ⟨own, isOwn, rfl⟩ := List.mem_map.mp isOwner
  dsimp only at other notThis unhidden found settled plainOwner whole use ⊢
  obtain ⟨ownEntry, -, ownAlong⟩ := exists_isRenamedAlong_of_mem first isOwn
  rw [← lookup_membersIn renamer.order (hasDistinctMembers_of_isRenamedAlong ownAlong)] at found
  -- The class by itself keeps the use, and then the rule of the member applies.
  obtain ⟨one, atIndex, earlier, tree, alsoParsed, rfl, declared⟩ :=
    exists_isRenamedAlong_of_getElem? first present
  obtain rfl := Except.ok.inj (parsed.symm.trans alsoParsed)
  have isEntry := List.mem_of_getElem? present
  have handed : (declaredBy earlier className source root).pairs ⊆
      handedOut renamer.parser taken classes := fun pair inside =>
    List.mem_flatMap.mpr ⟨_, declared, inside⟩
  obtain ⟨once, onceToo, relabels, also, kept⟩ := renameTree_use whole
    (renamer.parser.isTreeOf parsed) (words _ isEntry root parsed) left (named _ isEntry) other
    notThis unhidden use handed
  obtain ⟨final, finalToo, further, alsoFurther, followed⟩ := followAll_use plainOwner plainMember
    (relabels.endsApart left) (also.beginsApart right)
    (fun rule inside => (isRule_of_mem_rules first named words free rule inside).relabels relabels)
    (lookup_rules (map_className_renameSeparately first ▸ distinct) isOwn found)
    (rule_ne_of_mem_rules first distinct isOwn settled)
  have changes := relabels.trans further
  have alsoChanges := also.trans alsoFurther
  rw [List.getElem?_map, atIndex, Option.map_some]
  refine ⟨_, final, finalToo, rfl, ?_, changes, changes.getLast?_eq left, alsoChanges,
    alsoChanges.head?_eq right⟩
  dsimp only
  rw [foldl_renameMembersOf, kept, followed]

/-- A class that uses a member of another one, whose name is also the name of a field. -/
def usingClasses : List (Text × Text) := [
  ("App", "class App \x7b int x = p.K.a(); \x7d"),
  ("J", "class J \x7b int K; \x7d"),
  ("K", "class K \x7b static int a() \x7b \x7d \x7d")]

/-- The class that is used, after renaming. -/
def usedClass : RenamedClass where
  className := "K"
  source := "class K \x7b static int method_a() \x7b \x7d \x7d"
  fields := []
  methods := [("a", "method_a")]

/-- The classes after renaming. -/
def usingClassesRenamed : List RenamedClass := [
  { className := "App"
    source := "class App \x7b int field_x = p.K.method_a(); \x7d"
    fields := [("x", "field_x")]
    methods := [] },
  { className := "J"
    source := "class J \x7b int field_K; \x7d"
    fields := [("K", "field_K")]
    methods := [] },
  usedClass]

/-- The call behind the name of a package gets the new name of the method. -/
theorem renameAll_use_package :
    ∃ one changed changedToo, usingClassesRenamed[0]? = some one ∧
      one.source = changed ++ (path usedClass.className "method_a" ++ changedToo) ∧
      Relabels (handedOut parser [] usingClasses) "class App \x7b int x = p." changed ∧
      changed.getLast? = some '.' ∧
      Relabels (handedOut parser [] usingClasses) "(); \x7d" changedToo ∧
      changedToo.head? = some '(' := by
  have ran : (renameAll {} [] usingClasses).1 = .ok usingClassesRenamed := by
    decide +kernel
  have words : AllHaveWords parser usingClasses := by
    intro entry isEntry root parsed
    obtain rfl := Except.ok.inj parsed
    have all : ∀ entry ∈ usingClasses, HasWords entry.2 (tree entry.2) := by
      simp only [hasWords_iff]
      decide +kernel
    exact all entry isEntry
  have use : IsUseAt (tree "class App \x7b int x = p.K.a(); \x7d")
      (byteLength "class App \x7b int x = p.") usedClass.className "a" := by
    unfold IsUseAt IsOwnerAt IsHeldAt
    decide +kernel
  have free : IsFree (handedOut parser [] usingClasses) usingClassesRenamed
      "class App \x7b int x = p." usedClass.className := by
    have candidates : ∀ other ∈ usingClassesRenamed,
        usedClass.className ∈ (other.fields ++ other.methods).map Prod.fst →
          IsSourceWord other.className ∧ '_' ∉ other.className ∧
            ¬other.className ++ ['.'] <:+ "class App \x7b int x = p.".toList := by
      decide +kernel
    intro other inside owned changed relabels
    obtain ⟨isClass, unmarked, absent⟩ := candidates other inside owned
    exact not_endsWith_of_not_suffix (relabels.not_suffix isClass unmarked absent)
  have unhidden : ∀ selected ∈ selectBody? "class App \x7b int x = p.K.a(); \x7d" "App"
      (tree "class App \x7b int x = p.K.a(); \x7d"),
      usedClass.className ∉ variableNames "class App \x7b int x = p.K.a(); \x7d" selected.2 := by
    decide +kernel
  have renames : (usedClass.fields.lookup "a".toList).or (usedClass.methods.lookup "a".toList) =
      some "method_a".toList := by decide
  exact renameAll_use {} [] (by decide) (by decide +kernel) words ran
    (List.getElem?_cons_zero ..) rfl (by simp [usingClassesRenamed]) (by decide) (by decide)
    unhidden renames (by decide) (by decide) (by decide) (by decide) (by decide) (by decide) use
    free

/-- A class that uses a field and a method of one name. -/
def sharingClasses : List (Text × Text) := [
  ("App", "class App \x7b void start() \x7b K.a(K.a); \x7d \x7d"),
  ("K", "class K \x7b static int a; static void a(int s) \x7b \x7d \x7d")]

/-- A call of a method gets the new name of the field that shares its name. -/
theorem renameAll_field_before_method :
    (renameAll {} [] sharingClasses).1.toOption.map (fun renamed =>
      renamed.map RenamedClass.source) = some [
        "class App \x7b void method_start() \x7b K.field_a(K.field_a); \x7d \x7d".toList,
        "class K \x7b static int field_a; static void method_a(int arg_s) \x7b \x7d \x7d".toList] := by
  decide +kernel

end Unpacking.Renaming
