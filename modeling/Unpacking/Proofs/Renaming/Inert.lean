import Mathlib.Data.List.Forall2
import Mathlib.Data.List.Pairwise
import Unpacking.Proofs.Reflection.Revision
import Unpacking.Proofs.Renaming.Edit

/-!
Renaming brings no term of reflection into a source. A new name is the old one between a label and a
number, and neither of them is a part of a term.
-/

namespace Unpacking.Renaming

open Java Text Reflection

/-! ### New names -/

theorem underscore_not_mem_term : ∀ term ∈ vocabulary, '_' ∉ term := by decide

theorem isStrange_label (role : Role) : IsStrange role.label := by
  cases role <;> decide +kernel

theorem isStrange_number (number : Nat) : IsStrange ("_" ++ Nat.toDigits 10 number) := by
  refine .of_mem (fun c member => ?_) (by simp) underscore_not_mem_term
  rcases List.mem_append.mp member with mark | digit
  · rw [List.mem_singleton.mp mark]
    decide
  · have isDigit := Nat.isDigit_of_mem_toDigits (by decide) (by decide) digit
    exact isWord_of_isAlphanum (by simp [Char.isAlphanum, isDigit])

/-- A new name may take the place of its old name. -/
theorem IsNewName.revises {old new : Text} (isNew : IsNewName old new) {rest changed : Text}
    (revises : Revises rest changed) : Revises (old ++ rest) (new ++ changed) := by
  obtain ⟨role, number, rfl⟩ := isNew
  cases number with
  | zero =>
      have labelled := (isStrange_label role).revises (revises.append old) []
      simpa [candidate] using labelled
  | succ number =>
      have numbered := (isStrange_number (number + 1)).revises revises []
      have labelled := (isStrange_label role).revises (numbered.append old) []
      simpa [candidate] using labelled

/-! ### The source of a class -/

section Class

variable {root type body : Node} {source className : Text} {taken : List Text}

/-- An edit comes from an identifier of the tree. -/
theorem exists_identifier_of_edit? {subject : Subject} {link : Node × Node} {edit : Edit}
    (child : type ∈ root.children) (member : link ∈ type.links)
    (found : subject.edit? link = some edit) :
    link.2 ∈ root.identifiers ∧ subject.newName? link.1 link.2 = some edit.new ∧
      edit.start = link.2.start ∧ edit.stop = link.2.stop := by
  obtain ⟨isIdentifier, mapped⟩ := Option.ite_none_right_eq_some.mp found
  obtain ⟨new, named, rfl⟩ := Option.map_eq_some_iff.mp mapped
  have inside := Node.mem_nodes_of_mem_links (Node.links_subset_of_mem_children child member)
  exact ⟨List.mem_filter.mpr ⟨inside, isIdentifier⟩, named, rfl, rfl⟩

/-- Two identifiers with different starts do not overlap. -/
theorem isApart_of_ne (isTree : root.IsTreeOf source) {node other : Node}
    (inside : node ∈ root.identifiers) (otherInside : other ∈ root.identifiers)
    (different : node.start ≠ other.start) : node.IsApart other := by
  have symmetric : Std.Symm Node.IsApart := ⟨fun _ _ => Or.symm⟩
  exact isTree.apart.forall inside otherInside fun same => different (by rw [same])

/-- Patches that give new names to what they replace bring no term of reflection. -/
theorem revises_patches {α : Type} {patches : List (Patch α)}
    (areNew : ∀ patch ∈ patches, IsNewName patch.old patch.new) (rest : Text) :
    Revises (Patch.before patches rest) (Patch.after patches rest) := by
  induction patches with
  | nil => exact .refl rest
  | cons patch patches inductionHypothesis =>
      have others := inductionHypothesis fun other member => areNew other (by simp [member])
      exact ((areNew patch (by simp)).revises others).append patch.kept

theorem standsIn_of_mem_edits (isTree : root.IsTreeOf source) (child : type ∈ root.children)
    (subject : Subject) :
    ∀ edit ∈ type.links.filterMap subject.edit?,
      Patch.StandsIn Edit.start Edit.stop source edit := by
  intro edit member
  obtain ⟨link, inLinks, found⟩ := List.mem_filterMap.mp member
  obtain ⟨inside, -, starts, stops⟩ := exists_identifier_of_edit? child inLinks found
  obtain ⟨before, part, behind, whole, atStart, atStop⟩ :=
    isTree.within link.2 (List.mem_of_mem_filter inside)
  exact ⟨before, part, behind, whole, starts.trans atStart, stops.trans atStop⟩

theorem apart_of_mem_edits (isTree : root.IsTreeOf source) (child : type ∈ root.children)
    (subject : Subject) :
    ∀ edit ∈ type.links.filterMap subject.edit?, ∀ other ∈ type.links.filterMap subject.edit?,
      edit.start ≠ other.start → edit.stop ≤ other.start ∨ other.stop ≤ edit.start := by
  intro edit member other otherMember different
  obtain ⟨link, inLinks, found⟩ := List.mem_filterMap.mp member
  obtain ⟨inside, -, starts, stops⟩ := exists_identifier_of_edit? child inLinks found
  obtain ⟨otherLink, otherLinks, otherFound⟩ := List.mem_filterMap.mp otherMember
  obtain ⟨otherInside, -, otherStarts, otherStops⟩ :=
    exists_identifier_of_edit? child otherLinks otherFound
  rw [starts, otherStarts] at different
  rw [starts, stops, otherStarts, otherStops]
  exact isApart_of_ne isTree inside otherInside different

theorem revises_splice (isTree : root.IsTreeOf source)
    (selected : selectBody? source className root = some (type, body)) :
    Revises source (splice (finalEdits
      (type.links.filterMap (Subject.ofBody taken className source body).edit?)) source) := by
  have child := (selectBody?_eq_some selected).1
  obtain ⟨patches, rest, areEdits, fit, cut, spliced⟩ := Patch.exists_splice_edits
    (standsIn_of_mem_edits isTree child (Subject.ofBody taken className source body))
    (apart_of_mem_edits isTree child _)
  have areNew : ∀ patch ∈ patches, IsNewName patch.old patch.new := by
    intro patch member
    obtain ⟨isEdit, new⟩ := areEdits patch member
    obtain ⟨link, inLinks, found⟩ := List.mem_filterMap.mp isEdit
    obtain ⟨-, named, starts, stops⟩ := exists_identifier_of_edit? child inLinks found
    have old := Patch.old_eq_slice [] fit rest member
    rw [List.nil_append, ← cut, starts, stops] at old
    rw [Patch.new, new, Option.getD_some, old]
    exact Subject.isNewName_of_newName? named
  have revised := revises_patches areNew rest
  rw [spliced]
  rwa [← cut] at revised

/-- The members of a renamed class have new names. -/
def RenamedClass.HasNewNames (renamed : RenamedClass) : Prop :=
  ∀ entry ∈ renamed.fields ++ renamed.methods, IsNewName entry.1 entry.2

theorem revises_renameTree (isTree : root.IsTreeOf source) (taken : List Text)
    (className : Text) :
    Revises source (renameTree taken className source root).1.source ∧
      (renameTree taken className source root).1.HasNewNames := by
  rw [renameTree]
  cases selected : selectBody? source className root with
  | none => exact ⟨.refl source, by simp [RenamedClass.HasNewNames]⟩
  | some both =>
      refine ⟨revises_splice isTree selected, ?_⟩
      intro entry member
      have inside : entry ∈ (declare taken source (members both.2)).pairs :=
        List.mem_append_left _ member
      exact isNewName_of_mem_pairs inside

end Class

/-! ### Several classes -/

theorem revises_renameQualified {old new : Text} (isNew : IsNewName old new)
    (className source : Text) : Revises source (renameQualified className old new source) := by
  apply Revises.replaceAll
  intro before text size changed found revises
  have whole := List.take_append_drop size text
  rw [Pattern.take_of_wholeWord found] at whole
  have renamed := (isNew.revises revises).append (className ++ ".")
  rw [← List.append_assoc, whole] at renamed
  simpa only [List.append_assoc] using renamed

theorem revises_renameMembersOf {renamed : RenamedClass} (named : renamed.HasNewNames)
    (order : MapOrder) (source : Text) : Revises source (renameMembersOf order renamed source) := by
  apply List.foldlRecOn _ _ (.refl source)
  intro text revises entry member
  exact revises.trans (revises_renameQualified (named entry (mem_membersIn.mp member)) _ text)

theorem revises_renameSeparately {parser : Parser} {taken : List Text}
    {classes : List (Text × Text)} {renamed : List RenamedClass}
    (ran : (renameSeparately parser taken classes).1 = .ok renamed) :
    List.Forall₂ (fun entry renamed => Revises entry.2 renamed.source) classes renamed ∧
      ∀ one ∈ renamed, one.HasNewNames := by
  have revised {entry : Text × Text} {one : RenamedClass}
      (along : IsRenamedAlong parser taken classes entry one) :
      Revises entry.2 one.source ∧ one.HasNewNames := by
    obtain ⟨before, root, parsed, rfl, -⟩ := along
    exact revises_renameTree (parser.isTreeOf parsed) before entry.1
  refine ⟨(forall₂_renameSeparately ran).imp fun _ _ along => (revised along).1, ?_⟩
  intro one inside
  obtain ⟨entry, -, along⟩ := exists_isRenamedAlong_of_mem ran inside
  exact (revised along).2

/-- Renaming brings no term of reflection into any of the classes. -/
theorem revises_renameAll {renamer : Renamer} {taken : List Text} {classes : List (Text × Text)}
    {renamed : List RenamedClass} (ran : (renameAll renamer taken classes).1 = .ok renamed) :
    List.Forall₂ (fun entry renamed => Revises entry.2 renamed.source) classes renamed := by
  obtain ⟨separate, first, rfl⟩ := renameAll_eq_ok ran
  obtain ⟨revises, named⟩ := revises_renameSeparately first
  have uses (source : Text) : Revises source (separate.foldl
      (fun text other => renameMembersOf renamer.order other text) source) := by
    apply List.foldlRecOn _ _ (.refl source)
    intro text revises one member
    exact revises.trans (revises_renameMembersOf (named one member) renamer.order text)
  rw [renameUses, List.forall₂_map_right_iff]
  exact revises.imp fun entry one first => first.trans (uses one.source)

end Unpacking.Renaming
