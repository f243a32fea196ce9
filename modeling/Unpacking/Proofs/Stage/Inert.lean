import Unpacking.Proofs.Line.Signature
import Unpacking.Proofs.Reflection.Revision
import Unpacking.Stage.BaseClass
import Unpacking.Stage.Declaration
import Unpacking.Stage.EntryPoint
import Unpacking.Stage.StaticMember

/-!
The stages of a synthesis bring no term of reflection into a text. Most of them change a line at
places where a word ends anyway, or put a word there that belongs to no term. Dropping the
references of an object to itself can join two words, but not where the first one is the beginning
of a term.
-/

namespace Unpacking.Stage

open Text Line Reflection

variable {text : Text} {line : Line}

/-! ### Comments -/

theorem isInert_commentOut (inert : IsInert none line) : IsInert none (commentOut line) := by
  have slash : isWord '/' = false := by decide
  have blank : isWord ' ' = false := by decide
  exact isInert_cons_of_neg slash (isInert_cons_of_neg slash (isInert_cons_of_neg blank inert))

theorem isInert_commentPackageLines (inert : IsInert none text) :
    IsInert none (commentPackageLines text) := by
  apply inert.mapLines
  intro line inLine
  rw [withoutPackage]
  split
  · exact isInert_commentOut inLine
  · exact inLine

theorem isInert_commentPlatformImports (namespaces : List Text) (inert : IsInert none text) :
    IsInert none (commentPlatformImports namespaces text) := by
  apply inert.mapLines
  intro line inLine
  rw [withoutPlatformImport]
  split
  · split
    · exact isInert_commentOut inLine
    · exact inLine
  · exact inLine

theorem isInert_commentSuperclassCalls (inert : IsInert none text) :
    IsInert none (commentSuperclassCalls text) := by
  apply inert.mapLines
  intro line inLine
  rw [withoutSuperclassCall]
  split
  · have marked : IsInert none (trimStart line ++ ' ' :: superclassMarker) :=
      (isInert_append_cons (by decide)).mpr ⟨inLine.trimStart, by decide +kernel⟩
    have commented := isInert_indentation_append line (isInert_commentOut marked)
    simpa [commentOut] using commented
  · exact inLine

/-! ### The class and its base class -/

theorem isInert_renameClass {new : Text} (strange : IsStrange new) (old : Text)
    (inert : IsInert none text) : IsInert none (renameClass old new text) :=
  (strange.replaceAll (Pattern.wholeWord old) text).inert none inert

/-- An `extends` clause begins with a blank and ends inside of a word. -/
theorem extendsApplication?_eq_some {rest : Text} (found : extendsApplication? text = some rest) :
    ∃ c middle, isBlank c = true ∧ text = (c :: middle ++ ['n']) ++ rest := by
  simp only [extendsApplication?, Option.bind_eq_bind, Option.bind_eq_some_iff] at found
  obtain ⟨first, blanks, second, clause, third, moreBlanks, last⟩ := found
  obtain ⟨blank, rfl, filled, isBlank⟩ := blanks_of_afterBlanks? blanks
  obtain ⟨c, blank, rfl⟩ := List.exists_cons_of_ne_nil filled
  have named : ("Application" : Text) ++ rest <:+ third := by
    rw [← after?_eq_some last]
    exact getD_after?_suffix "android.app." third
  have inside : 'n' :: rest <:+ first := by
    rw [after?_eq_some clause]
    exact (List.suffix_append "Applicatio".toList ('n' :: rest)).trans
      (named.trans ((suffix_of_afterBlanks? moreBlanks).trans (List.suffix_append _ second)))
  obtain ⟨middle, rfl⟩ := inside
  exact ⟨c, blank ++ middle, isBlank c (by simp), by simp⟩

theorem revises_dropExtends (line : Line) :
    Revises line (extendsClause.replaceFirst [] line) := by
  apply Pattern.replaceFirst_induction (.refl []) fun c _ _ revises => revises.cons c
  intro before text size found
  obtain ⟨read, boundary⟩ := Pattern.of_toBoundary found
  have shrinks {text rest : Text} (read : extendsApplication? text = some rest) :
      rest <:+ text := by
    obtain ⟨c, middle, -, rfl⟩ := extendsApplication?_eq_some read
    exact List.suffix_append _ rest
  obtain ⟨c, middle, blank, whole⟩ :=
    extendsApplication?_eq_some (Pattern.ofReader_eq_some shrinks read)
  rw [take_eq_of_append_drop whole, lastOr_append_singleton] at boundary
  have deleted := Revises.delete
    (show isWordAt ((c :: middle ++ ['n']) ++ text.drop size).head? = false from
      isWord_of_isBlank blank)
    (isWordAt_of_isBoundary (show isWordAt (some 'n') = true by decide) boundary)
  rwa [← whole] at deleted

/-- An override note begins with an at sign and takes the word along that it ends with. -/
theorem overrideNote?_eq_some {rest : Text} (found : overrideNote? text = some rest) :
    isWordAt rest.head? = false ∧ ∃ middle, text = '@' :: middle ++ rest := by
  simp only [overrideNote?, Option.bind_eq_bind, Option.bind_eq_some_iff, Option.pure_def,
    Option.some.injEq] at found
  obtain ⟨first, sign, second, slashes, third, package, rfl⟩ := found
  constructor
  · cases behind : third.dropWhile fun c => isWord c || c == '.' with
    | nil => rfl
    | cons c rest =>
        have stops := List.head?_dropWhile_not (fun c => isWord c || c == '.') third
        rw [behind] at stops
        exact (Bool.or_eq_false_iff.mp stops).1
  · have inFirst : third.dropWhile (fun c => isWord c || c == '.') <:+ first := by
      have inSecond : third <:+ second := by
        obtain ⟨blanks, same⟩ := trimStart_suffix second
        rw [← same, after?_eq_some package]
        exact (List.suffix_append _ third).trans (List.suffix_append _ _)
      have slashed : second <:+ first := by
        obtain ⟨blanks, same⟩ := trimStart_suffix first
        rw [← same, after?_eq_some slashes]
        exact (List.suffix_append _ second).trans (List.suffix_append _ _)
      exact (List.dropWhile_suffix _).trans (inSecond.trans slashed)
    obtain ⟨middle, same⟩ := inFirst
    refine ⟨"Override" ++ middle, ?_⟩
    rw [after?_eq_some sign, ← same]
    simp

theorem revises_dropOverrideNote (line : Line) :
    Revises line ((Pattern.ofReader overrideNote?).replaceFirst [] line) := by
  apply Pattern.replaceFirst_induction (.refl []) fun c _ _ revises => revises.cons c
  intro before text size found
  have shrinks {text rest : Text} (read : overrideNote? text = some rest) : rest <:+ text := by
    obtain ⟨-, middle, rfl⟩ := overrideNote?_eq_some read
    exact List.suffix_append _ rest
  obtain ⟨behind, middle, whole⟩ :=
    overrideNote?_eq_some (Pattern.ofReader_eq_some shrinks found)
  have deleted := Revises.delete
    (show isWordAt ('@' :: middle ++ text.drop size).head? = false from
      (by decide : isWord '@' = false)) behind
  rwa [← whole] at deleted

theorem isInert_stripBaseClass (inert : IsInert none text) :
    IsInert none (stripBaseClass text) := by
  refine inert.overLines fun inLines line member => ?_
  obtain ⟨old, kept, rfl⟩ := List.mem_map.mp member
  have first := revises_dropExtends old
  have second := revises_dropOverrideNote (extendsClause.replaceFirst [] old)
  exact (first.trans second).inert none (inLines old (List.mem_filter.mp kept).1)

/-! ### The entry point -/

theorem contextHeader?_eq_some {header : ContextHeader}
    (found : contextHeader? line = some header) :
    header.parameter ≠ [] ∧ header.indentation = indentation line ∧
      ∃ front, line = front ++ ')' :: header.rest := by
  simp only [contextHeader?, Option.bind_eq_bind, Option.bind_eq_some_iff, Option.pure_def,
    Option.some.injEq, Prod.exists] at found
  obtain ⟨first, void, second, blanks, third, name, fourth, opened, fifth, type, sixth, moreBlanks,
    parameter, last, taken, rest, closed, rfl⟩ := found
  obtain ⟨whole, filled, -⟩ := run?_eq_some taken
  have inType : sixth <:+ trimStart fourth := by
    have isFinal : ((oneOf? ["final"] (trimStart fourth)).map Prod.snd).getD (trimStart fourth) <:+
        trimStart fourth := by
      cases found : oneOf? ["final"] (trimStart fourth) with
      | none => exact List.suffix_rfl
      | some read => exact (isBehindBlank_oneOf? found).suffix
    exact (suffix_of_afterBlanks? moreBlanks).trans
      ((suffix_of_after? type).trans ((getD_after?_suffix _ _).trans isFinal))
  have inName : fourth <:+ first :=
    (suffix_of_after? opened).trans ((trimStart_suffix third).trans
      ((suffix_of_after? name).trans (suffix_of_afterBlanks? blanks)))
  have inLine : first <:+ line :=
    (suffix_of_after? void).trans ((afterItems_suffix (shrinks_oneOf? _) _).trans
      (trimStart_suffix line))
  have inside : ')' :: rest <:+ sixth := by
    have close : trimStart last = ')' :: rest := after?_eq_some closed
    rw [← close, whole]
    exact (trimStart_suffix last).trans (List.suffix_append parameter last)
  obtain ⟨front, same⟩ := inside.trans
    (inType.trans ((trimStart_suffix fourth).trans (inName.trans inLine)))
  exact ⟨filled, rfl, front, same.symm⟩

theorem isInert_replaceInBody {parameter standIn : Text} (filled : parameter ≠ [])
    (isStandIn : IsStandIn standIn) {lines : List Line}
    (inert : ∀ line ∈ lines, IsInert none line) (depth : Int) :
    ∀ line ∈ (replaceInBody parameter standIn depth lines).1, IsInert none line := by
  induction lines generalizing depth with
  | nil => simp [replaceInBody]
  | cons line rest inductionHypothesis =>
      have others (other : Line) (member : other ∈ rest) : IsInert none other :=
        inert other (by simp [member])
      have changed : IsInert none (if isLineComment line then (line, 0)
          else replaceParameter parameter standIn line).1 := by
        split
        · exact inert line (by simp)
        · exact (isStandIn.replaceAll filled line).inert none (inert line (by simp))
      simp only [replaceInBody]
      split
      · exact List.forall_mem_cons.mpr ⟨changed, others⟩
      · exact List.forall_mem_cons.mpr ⟨changed, inductionHypothesis others _⟩

theorem isInert_mainHeader (line : Line) {tail : Text} (inert : IsInert none tail) :
    IsInert none (indentation line ++ "public static void main(String[] args)" ++ tail) := by
  have main : IsInert none ("public static void main(String[] args)" ++ tail) :=
    (isInert_append (.inl (by decide +kernel))).mpr ⟨by decide +kernel, inert⟩
  rw [List.append_assoc]
  exact isInert_indentation_append line main

theorem isInert_replaceEntryPoint {standIn : Text} (isStandIn : IsStandIn standIn)
    {lines : List Line} (inert : ∀ line ∈ lines, IsInert none line) :
    ∀ line ∈ (replaceEntryPoint standIn lines).1, IsInert none line := by
  induction lines with
  | nil => simp [replaceEntryPoint]
  | cons line rest inductionHypothesis =>
      have here := inert line (by simp)
      have others (other : Line) (member : other ∈ rest) : IsInert none other :=
        inert other (by simp [member])
      rw [replaceEntryPoint]
      split
      · exact List.forall_mem_cons.mpr ⟨here, inductionHypothesis others⟩
      · rename_i header found
        have isHeader : contextHeader? line = some header := by
          rw [codeHeader?] at found
          split at found
          · simp at found
          · exact found
        obtain ⟨filled, indented, front, whole⟩ := contextHeader?_eq_some isHeader
        have tail : IsInert none header.rest := by
          rw [whole] at here
          exact ((isInert_append_cons (by decide)).mp here).2
        have changed := isInert_mainHeader line
          ((isStandIn.replaceAll filled header.rest).inert none tail)
        rw [← indented] at changed
        dsimp only
        split
        · exact List.forall_mem_cons.mpr ⟨changed, isInert_replaceInBody filled isStandIn others _⟩
        · exact List.forall_mem_cons.mpr ⟨changed, others⟩

theorem isInert_entryPoint {standIn : Text} (isStandIn : IsStandIn standIn)
    (inert : IsInert none text) : IsInert none (entryPoint standIn text).text :=
  isInert_unlines (isInert_replaceEntryPoint isStandIn fun _ member => inert.of_mem_lines member) _

/-! ### Static members -/

theorem isStandIn_static : IsStandIn "static " := by decide +kernel

theorem isInert_insertStatic {size : Nat} (inert : IsInert none line)
    (behind : IsBehindBlank line (line.drop size)) : IsInert none (insertStatic line size) := by
  have rest := inert.of_isBehindBlank behind
  have inserted : Revises (line.drop size) ("static " ++ line.drop size) :=
    isStandIn_static.revises fun _ _ => rest
  have revised := inserted.append (line.take size)
  rw [List.take_append_drop, ← List.append_assoc] at revised
  exact revised.inert none inert

theorem isInert_makeMethodsStatic (inert : IsInert none text) :
    IsInert none (makeMethodsStatic text) := by
  refine inert.mapLines fun line inLine => ?_
  unfold makeMethodStatic
  split
  · exact inLine
  · split
    · rename_i signature declared
      split
      · exact isInert_insertStatic inLine (Signature.isBehindBlank_of_parse? declared)
      · exact inLine
    · exact inLine

theorem isBehindBlank_of_fieldDeclaration? {field : FieldDeclaration}
    (found : fieldDeclaration? line = some field) : IsBehindBlank line field.fromType := by
  obtain ⟨⟨modifiers, rest⟩, member, named⟩ := List.exists_of_findSome?_eq_some found
  obtain ⟨-, -, rfl⟩ := Option.map_eq_some_iff.mp named
  exact (IsBehindBlank.trimStart line).trans
    (.of_mem_repeats (shrinks_oneOf? _) isBehindBlank_oneOf? member)

theorem isInert_makeFieldsStatic (inert : IsInert none text) :
    IsInert none (makeFieldsStatic text) := by
  refine inert.mapLines fun line inLine => ?_
  unfold makeFieldStatic
  split
  · exact inLine
  · split
    · rename_i field declared
      split
      · exact inLine
      · have behind := isBehindBlank_of_fieldDeclaration? declared
        have place := List.suffix_iff_eq_drop.mp behind.suffix
        rw [place] at behind
        exact isInert_insertStatic inLine behind
    · exact inLine

/-! ### Self references -/

/-- The text behind the qualified self reference whose qualifier goes on with the text. -/
def selfBehind? (text : Text) : Option Text :=
  after? ".this." (text.dropWhile isNameCharacter)

theorem selfBehind?_cons {c : Char} (inName : isNameCharacter c = true) (rest : Text) :
    selfBehind? (c :: rest) = selfBehind? rest := by
  rw [selfBehind?, List.dropWhile_cons_of_pos inName, selfBehind?]

theorem isNameCharacter_of_isNameStart {c : Char} (start : isNameStart c = true) :
    isNameCharacter c = true := by
  apply isNameCharacter_of_isVariableCharacter
  simp only [isNameStart, Bool.or_eq_true] at start
  rcases start with (letter | underscore) | dollar
  · simp [isVariableCharacter, Char.isAlphanum, letter]
  · simp [isVariableCharacter, underscore]
  · simp [isVariableCharacter, dollar]

/-- A self reference ends with a dot. -/
theorem append_of_qualifiedSelf? {rest : Text} (found : qualifiedSelf? text = some rest) :
    ∃ front, text = front ++ '.' :: rest := by
  cases text with
  | nil => simp [qualifiedSelf?] at found
  | cons c text =>
      rw [qualifiedSelf?] at found
      split at found
      · have read := after?_eq_some found
        refine ⟨c :: text.takeWhile isNameCharacter ++ ".this", ?_⟩
        have whole := List.takeWhile_append_dropWhile (p := isNameCharacter) (l := text)
        rw [read] at whole
        conv_lhs => rw [← whole]
        simp
      · simp at found

theorem selfReference_eq_some {before : Option Char} {size : Nat}
    (found : selfReference before text = some size) :
    isBoundary before text.head? = true ∧
      (qualifiedSelf? text = some (text.drop size) ∨
        after? "this." text = some (text.drop size)) := by
  obtain ⟨boundary, either⟩ := Pattern.of_atBoundary found
  refine ⟨boundary, ?_⟩
  rw [Pattern.orElse] at either
  split at either
  · rename_i size' matched
    rw [Option.some.injEq] at either
    subst either
    refine .inl (Pattern.ofReader_eq_some (fun read => ?_) matched)
    obtain ⟨front, rfl⟩ := append_of_qualifiedSelf? read
    exact (List.suffix_cons '.' _).trans (List.suffix_append front _)
  · exact .inr (Pattern.ofReader_eq_some suffix_of_after? either)

theorem lastOr_of_selfReference {before : Option Char} {size : Nat}
    (found : selfReference before text = some size) :
    lastOr before (text.take size) = some '.' := by
  have dotted : ∃ front, text = (front ++ ['.']) ++ text.drop size := by
    rcases (selfReference_eq_some found).2 with qualified | plain
    · obtain ⟨front, whole⟩ := append_of_qualifiedSelf? qualified
      exact ⟨front, by rwa [List.append_assoc]⟩
    · exact ⟨"this", after?_eq_some plain⟩
  obtain ⟨front, whole⟩ := dotted
  rw [take_eq_of_append_drop whole, lastOr_append_singleton]

/-- Inside of a word only the rest of a qualifier is dropped. -/
theorem selfBehind?_of_selfReference {before : Option Char} {size : Nat}
    (inWord : isWordAt before = true) (found : selfReference before text = some size) :
    selfBehind? text ≠ none := by
  obtain ⟨boundary, either⟩ := selfReference_eq_some found
  have outside := isWordAt_of_isBoundary inWord boundary
  rcases either with qualified | plain
  · cases text with
    | nil => simp [qualifiedSelf?] at qualified
    | cons c rest =>
        rw [qualifiedSelf?] at qualified
        split at qualified
        · rename_i start
          rw [selfBehind?_cons (isNameCharacter_of_isNameStart start), selfBehind?, qualified]
          simp
        · simp at qualified
  · rw [after?_eq_some plain] at outside
    change isWord 't' = false at outside
    exact absurd outside (by decide)

/-- Where a word begins, the whole qualifier of a self reference is dropped. -/
theorem selfBehind?_of_kept {before : Option Char} {c : Char} {rest : Text}
    (outside : isWordAt before = false) (inWord : isWord c = true) (start : isNameStart c = true)
    (kept : ∀ size, selfReference before (c :: rest) ≠ some (size + 1)) :
    selfBehind? rest = none := by
  cases behind : selfBehind? rest with
  | none => rfl
  | some last =>
      have qualified : qualifiedSelf? (c :: rest) = some last := by
        rw [qualifiedSelf?, if_pos start]
        exact behind
      have boundary : isBoundary before (c :: rest).head? = true := by
        rw [isBoundary, outside, List.head?_cons, show isWordAt (some c) = true from inWord]
        rfl
      have shorter : last.length ≤ rest.length := by
        have inside := (suffix_of_after? behind).trans (List.dropWhile_suffix isNameCharacter)
        exact inside.length_le
      refine absurd ?_ (kept (rest.length - last.length))
      simp only [selfReference, Pattern.atBoundary, boundary, Pattern.orElse, Pattern.ofReader,
        qualified, if_true, Option.map_some, List.length_cons, Option.some.injEq]
      omega

/-- What a text becomes without its self references. Inside of a word nothing is joined to the word
unless the word is the qualifier of a self reference itself. -/
structure Unqualifies (before : Option Char) (old new : Text) : Prop where
  inert : IsInert before old → IsInert before new
  word : isWordAt before = true → selfBehind? old = none → leadingWord new = leadingWord old

theorem isNameStart_of_mem_vocabulary {c : Char} {rest : Text} (listed : c :: rest ∈ vocabulary) :
    isNameStart c = true := by
  have all : ∀ term ∈ vocabulary, term.head?.all isNameStart = true := by decide
  simpa using all _ listed

theorem Unqualifies.cons {before : Option Char} {c : Char} {rest new : Text}
    (unqualifies : Unqualifies (some c) rest new)
    (kept : ∀ size, selfReference before (c :: rest) ≠ some (size + 1)) :
    Unqualifies before (c :: rest) (c :: new) := by
  by_cases inWord : isWord c = true
  · have inName : isNameCharacter c = true := by simp [isNameCharacter, inWord]
    constructor
    · intro inert
      obtain ⟨here, later⟩ := isInert_cons.mp inert
      refine isInert_cons.mpr ⟨fun outside listed => ?_, unqualifies.inert later⟩
      rw [leadingWord_of_pos inWord] at listed
      have stays := selfBehind?_of_kept outside inWord (isNameStart_of_mem_vocabulary listed) kept
      rw [unqualifies.word inWord stays, ← leadingWord_of_pos inWord] at listed
      exact here outside listed
    · intro _ stays
      rw [selfBehind?_cons inName] at stays
      rw [leadingWord_of_pos inWord, leadingWord_of_pos inWord, unqualifies.word inWord stays]
  · rw [Bool.not_eq_true] at inWord
    constructor
    · intro inert
      refine isInert_cons.mpr ⟨fun _ => ?_, unqualifies.inert (isInert_cons.mp inert).2⟩
      rw [leadingWord_of_neg inWord]
      exact nil_not_mem_vocabulary
    · intro _ _
      rw [leadingWord_of_neg inWord, leadingWord_of_neg inWord]

theorem unqualifies_replaceAll (line : Line) :
    Unqualifies none line (selfReference.replaceAll (fun _ => []) line) := by
  apply Pattern.replaceFrom_induction (fun _ => ⟨id, fun _ _ => rfl⟩)
    fun _ _ _ _ kept unqualifies => unqualifies.cons kept
  intro before text size new found unqualifies
  constructor
  · intro inert
    rw [← List.take_append_drop size text] at inert
    have behind := unqualifies.inert inert.drop
    rw [lastOr_of_selfReference found] at behind
    exact (behind.congr (by decide)).behind before
  · intro inWord stays
    exact absurd stays (selfBehind?_of_selfReference inWord found)

theorem isInert_removeSelfReferences (inert : IsInert none text) :
    IsInert none (removeSelfReferences text) := by
  apply inert.mapLines
  intro line inLine
  rw [withoutSelfReferences]
  split
  · exact inLine
  · exact (unqualifies_replaceAll line).inert inLine

end Unpacking.Stage
