import Unpacking.Proofs.Line.Layout
import Unpacking.Proofs.Reflection.Pass
import Unpacking.Stage.StaticMember

/-!
Methods that become static. The modifier is put right before the return type, behind the modifiers
that the method has, and the line declares the same method again. Behind a list of type parameters
the modifier hides the declaration. Main statement: `parse?_makeMethodsStatic`.
-/

namespace Unpacking.Signature

open Text Line

/-! ### From the beginning of a line to its declaration -/

/-- Whether a line that begins like a declaration is one. -/
def Beginning.isAccepted (found : Beginning) (line : Line) : Bool :=
  found.modifiers.all modifierWords.contains &&
    !modifierWords.contains found.type && !nonTypeWords.contains found.type &&
    !controlWords.contains found.name &&
    (ends ['{'] (trimEnd line) ||
      (found.modifiers.any (fun word => word == "abstract" || word == "native") &&
        ends [';'] (trimEnd line))) &&
    (trimEnd line).contains ')'

/-- The declaration on a line with a given beginning. -/
def Beginning.signature (found : Beginning) (line : Line) : Signature where
  name := found.name
  head := line.take (line.length - found.fromType.length)
  isStatic := found.modifiers.contains "static"
  isAbstract := found.modifiers.any fun word => word == "abstract" || word == "native"
  opensBlock := ends ['{'] (trimEnd line)

theorem parse?_eq_some_iff {line : Line} {signature : Signature} :
    parse? line = some signature ↔
      ∃ found, beginning? line = some found ∧ found.isAccepted line = true ∧
        found.signature line = signature := by
  have same : parse? line = (beginning? line).bind fun found =>
      if found.isAccepted line then some (found.signature line) else none := rfl
  rw [same, Option.bind_eq_some_iff]
  simp [Option.ite_none_right_eq_some]

theorem beginning?_of_head {line rest : Line} {c : Char} (start : trimStart line = c :: rest)
    (other : c.isLower = false ∧ c ≠ '@' ∧ c ≠ '<' ∧ (isNameCharacter c || c == '.') = false) :
    beginning? line = none := by
  have word : lowerWord? (c :: rest) = none := by
    simp [lowerWord?, run?, other.1]
  have unchanged : afterTypeParameters (c :: rest) = c :: rest := by
    simp [afterTypeParameters, other.2.2.1]
  have noAnnotation : annotation? (c :: rest) = none :=
    annotation?_of_head (by simpa using other.2.1)
  rw [beginning?_eq, start, afterItems_of_none noAnnotation, behindAnnotations?,
    repeats_of_none word]
  simp [declared?, unchanged, typed?_of_head other.2.2.2]

/-- An import is no declaration: its first word is neither a modifier nor a type. -/
theorem isAccepted_of_import {line : Line} {found : Beginning}
    (start : begins "import " (trimStart line) = true) (begun : beginning? line = some found) :
    found.isAccepted line = false := by
  obtain ⟨rest, whole⟩ := List.isPrefixOf_iff_prefix.mp start
  replace whole : trimStart line = ("import" : Text) ++ ([' '] ++ rest) := whole.symm
  have filled : ("import" : Text) ≠ [] := by decide
  have lower : ∀ c ∈ ("import" : Text), c.isLower = true := List.all_eq_true.mp (by decide)
  rw [beginning?_eq, whole, afterItems_of_none (annotation?_of_head (by simp)),
    behindAnnotations?, findSome?_repeats_eq_some_iff shrinks_lowerWord?] at begun
  obtain ⟨modifiers, last, reads, here, -⟩ := begun
  obtain ⟨⟨fromType, type, name⟩, declared, rfl⟩ := Option.map_eq_some_iff.mp here
  cases reads with
  | done =>
      rw [declared?, afterTypeParameters_word filled lower,
        typed?_word filled lower (by decide) (List.all_eq_true.mp (by decide))] at declared
      simp only [Option.map_map, Option.map_eq_some_iff, Function.comp_apply, Prod.mk.injEq] at declared
      obtain ⟨-, -, -, rfl, -⟩ := declared
      have noType : nonTypeWords.contains ("import" : Text) = true := by decide
      simp only [Beginning.isAccepted, noType, Bool.not_true, Bool.and_false, Bool.false_and]
  | @more _ next _ word words read _ =>
      have taken : run? Char.isLower (("import" : Text) ++ ([' '] ++ rest)) =
          some ("import".toList, [' '] ++ rest) :=
        run?_append filled lower (fun c first => by rw [← Option.some.inj first]; decide)
      simp only [lowerWord?, taken, Option.bind_eq_bind, Option.bind_some, Option.bind_eq_some_iff,
        Option.pure_def, Option.some.injEq, Prod.mk.injEq] at read
      obtain ⟨-, -, rfl, -⟩ := read
      have noModifier : modifierWords.contains ("import" : Text) = false := by decide
      simp only [Beginning.isAccepted, List.all_cons, noModifier, Bool.false_and]

/-- A comment or an import declares no method. -/
theorem isCommentOrImport_of_parse? {line : Line} {signature : Signature}
    (declared : parse? line = some signature) : isCommentOrImport line = false := by
  obtain ⟨found, begun, accepted, -⟩ := parse?_eq_some_iff.mp declared
  have front {word : Text} {c : Char} (first : word.head? = some c)
      (other : c.isLower = false ∧ c ≠ '@' ∧ c ≠ '<' ∧ (isNameCharacter c || c == '.') = false) :
      begins word (trimStart line) = false := by
    rw [Bool.eq_false_iff]
    intro start
    obtain ⟨rest, whole⟩ := List.isPrefixOf_iff_prefix.mp start
    obtain ⟨word, rfl⟩ := List.head?_eq_some_iff.mp first
    rw [beginning?_of_head whole.symm other] at begun
    simp at begun
  have noImport : begins "import " (trimStart line) = false := by
    rw [Bool.eq_false_iff]
    intro start
    rw [isAccepted_of_import start begun] at accepted
    simp at accepted
  have slashes : begins "//" (trimStart line) = false := front rfl (by decide)
  have opening : begins "/*" (trimStart line) = false := front rfl (by decide)
  have star : begins "*" (trimStart line) = false := front rfl (by decide)
  simp only [isCommentOrImport, slashes, opening, star, noImport, Bool.or_self]

/-- A method that is not static and whose return type stands behind type parameters. -/
def hidesStatic (signature : Signature) : Bool :=
  !signature.isStatic && ends ['>'] (trimEnd signature.head)

variable {line : Line} {found : Beginning} {front lead generic : Text}

theorem IsLayout.split (layout : IsLayout line found front lead generic) :
    line = (front ++ (lead ++ generic)) ++ found.fromType := by
  rw [layout.whole]
  simp only [List.append_assoc]

theorem IsLayout.head_signature (layout : IsLayout line found front lead generic) :
    (found.signature line).head = front ++ (lead ++ generic) := by
  change line.take (line.length - found.fromType.length) = _
  rw [layout.split, List.length_append, Nat.add_sub_cancel, List.take_left]

/-- A return type has a character that is no blank. -/
theorem IsLayout.trimEnd_fromType (layout : IsLayout line found front lead generic) :
    trimEnd found.fromType ≠ [] := by
  have flush := layout.flush_fromType
  have typed := layout.typed
  cases same : found.fromType with
  | nil =>
      rw [same, typed?_nil] at typed
      simp at typed
  | cons c rest =>
      have solid := flush c (by rw [same]; rfl)
      intro nothing
      rw [trimEnd, List.reverse_eq_nil_iff, List.dropWhile_eq_nil_iff] at nothing
      rw [nothing c (by simp)] at solid
      exact absurd solid (by decide)

/-- What stands before the return type does not change the end of a line. -/
theorem IsLayout.ends_append (layout : IsLayout line found front lead generic) (text : Text)
    (mark : Char) :
    ends [mark] (trimEnd (text ++ found.fromType)) = ends [mark] (trimEnd found.fromType) := by
  rw [trimEnd_append_of_ne_nil layout.trimEnd_fromType, ends_singleton, ends_singleton,
    List.getLast?_append_of_ne_nil _ layout.trimEnd_fromType]

theorem Beginning.any_withStatic (found : Beginning) :
    (found.withStatic.modifiers.any fun word => word == "abstract" || word == "native") =
      found.modifiers.any fun word => word == "abstract" || word == "native" := by
  have concrete : (("static" : Text) == ("abstract" : Text) || ("static" : Text) == ("native" : Text)) =
      false := by decide
  simp only [withStatic, List.any_append, List.any_cons, List.any_nil, concrete, Bool.or_false]

theorem IsLayout.isAccepted_withStatic (layout : IsLayout line found front lead generic)
    (accepted : found.isAccepted line = true) (added : Text) :
    found.withStatic.isAccepted (front ++ (lead ++ generic) ++ added ++ found.fromType) = true := by
  have word : modifierWords.contains ("static" : Text) = true := by decide
  have all : found.withStatic.modifiers.all modifierWords.contains =
      found.modifiers.all modifierWords.contains := by
    simp only [Beginning.withStatic, List.all_append, List.all_cons, List.all_nil, word,
      Bool.and_true]
  rw [layout.split] at accepted
  simp only [Beginning.isAccepted, layout.ends_append, Bool.and_eq_true] at accepted
  simp only [Beginning.isAccepted, layout.ends_append, found.any_withStatic, all, Bool.and_eq_true]
  refine ⟨accepted.1, ?_⟩
  have closed := accepted.2
  rw [trimEnd_append_of_ne_nil layout.trimEnd_fromType] at closed ⊢
  simp only [List.contains_eq_mem, decide_eq_true_eq, List.mem_append] at closed ⊢
  tauto

theorem IsLayout.signature_withStatic (layout : IsLayout line found front lead generic)
    (added : Text) :
    found.withStatic.signature (front ++ (lead ++ generic) ++ added ++ found.fromType) =
      { found.signature line with
        head := (found.signature line).head ++ added
        isStatic := true } := by
  have static : found.withStatic.modifiers.contains ("static" : Text) = true := by
    simp [Beginning.withStatic]
  have head : (front ++ (lead ++ generic) ++ added ++ found.fromType).take
      ((front ++ (lead ++ generic) ++ added ++ found.fromType).length - found.fromType.length) =
        (found.signature line).head ++ added := by
    rw [layout.head_signature, List.length_append, Nat.add_sub_cancel, List.take_left]
  have opens : ends ['{'] (trimEnd (front ++ (lead ++ generic) ++ added ++ found.fromType)) =
      ends ['{'] (trimEnd line) := by
    rw [layout.ends_append, layout.split, layout.ends_append]
  simp only [Beginning.signature, static, found.any_withStatic, opens] at head ⊢
  rw [← head]
  rfl

/-- A line with the modifier `static` before its return type declares the same method, which is
now static, unless type parameters stand before the modifier. -/
theorem parse?_insertStatic {signature : Signature} (declared : parse? line = some signature) :
    parse? (Stage.insertStatic line signature.head.length) =
      if ends ['>'] (trimEnd signature.head) then none
      else some { signature with head := signature.head ++ ("static " : Text), isStatic := true } := by
  obtain ⟨found, begun, accepted, rfl⟩ := parse?_eq_some_iff.mp declared
  obtain ⟨front, lead, generic, layout⟩ := exists_isLayout begun
  have inserted : Stage.insertStatic line (found.signature line).head.length =
      front ++ (lead ++ generic) ++ ("static " : Text) ++ found.fromType := by
    rw [Stage.insertStatic, layout.head_signature, layout.split, List.take_left, List.drop_left]
  rw [inserted, layout.head_signature, layout.ends_head]
  rcases layout.shape with rfl | list
  · rw [List.isEmpty_nil, Bool.not_true, if_neg (by decide), parse?_eq_some_iff]
    refine ⟨found.withStatic, ?_, layout.isAccepted_withStatic accepted ("static " : Text), ?_⟩
    · rw [← layout.beginning?_static]
      simp only [List.append_nil, List.append_assoc]
    · rw [layout.signature_withStatic, layout.head_signature]
  · have filled : generic.isEmpty = false := by
      obtain ⟨inner, blanks, rfl, -⟩ := list
      rfl
    have hidden := layout.beginning?_static_generic list
    simp only [List.append_assoc]
    rw [filled, Bool.not_false, if_pos rfl, parse?, hidden]
    rfl

end Unpacking.Signature

namespace Unpacking.Reflection

open Text Line

/-! ### The methods that a sweep sees -/

/-- The method that the first pass has behind each line, if there is one. -/
def methodsBehind (term : Text) : Option OpenMethod → List Line → List (Option OpenMethod)
  | _, [] => []
  | current, line :: rest =>
    let method := advance term current line
    method :: methodsBehind term (method.filter fun method => 0 < method.depth) rest

/-- The name and the depth of a method. -/
def OpenMethod.place (method : OpenMethod) : Text × Int :=
  (method.name, method.depth)

/-- How the first pass cuts a text into methods: for each line the method that it belongs to, and
the depth of the method behind the line. -/
def segmentation (term text : Text) : List (Option (Text × Int)) :=
  (methodsBehind term none (lines text)).map (Option.map OpenMethod.place)

/-- A line at which a method of the first pass begins. -/
def BeginsMethod (term text : Text) (line : Line) : Prop :=
  ∃ method, some method ∈ methodsBehind term none (lines text) ∧ method.lines = [line]

theorem map_place_filter (method : Option OpenMethod) :
    (method.filter fun method => 0 < method.depth).map OpenMethod.place =
      (method.map OpenMethod.place).filter fun place => 0 < place.2 := by
  cases method with
  | none => rfl
  | some method =>
      rw [Option.map_some, Option.filter_some, Option.filter_some]
      change Option.map _ (if decide (0 < method.depth) = true then _ else _) =
        if decide (0 < method.depth) = true then _ else _
      split <;> rfl

/-- The lines of an open method end with the line that it has just taken. -/
theorem lines_of_advance {term : Text} {current : Option OpenMethod} {line : Line}
    {method : OpenMethod} (next : advance term current line = some method) :
    method.lines = takenLines current ++ [line] := by
  have taken := (takenLines_advance term current line).resolve_left (by simp [next])
  rwa [next] at taken

/-- A method that stays open has taken a line. -/
theorem takenLines_filter_advance_ne_nil {term : Text} {current : Option OpenMethod} {line : Line}
    (isOpen : ((advance term current line).filter fun method => 0 < method.depth) ≠ none) :
    takenLines ((advance term current line).filter fun method => 0 < method.depth) ≠ [] := by
  obtain ⟨method, remains⟩ := Option.ne_none_iff_exists'.mp isOpen
  have next := (Option.filter_eq_some_iff.mp remains).1
  rw [remains]
  change method.lines ≠ []
  rw [lines_of_advance next]
  simp

/-- A method of one line begins at the line that it has just taken. -/
theorem eq_none_of_lines_advance {term : Text} {current : Option OpenMethod} {line other : Line}
    {method : OpenMethod} (taken : current ≠ none → takenLines current ≠ [])
    (next : advance term current line = some method) (alone : method.lines = [other]) :
    current = none ∧ line = other := by
  rw [lines_of_advance next] at alone
  cases current with
  | none => exact ⟨rfl, by simpa [takenLines] using alone⟩
  | some before =>
      have filled := List.length_pos_iff.mpr (taken (by simp))
      have short := congrArg List.length alone
      simp only [List.length_append, List.length_singleton] at short
      omega

section Replaced

variable {term : Text} {change : Line → Line} {hidden : Line → Prop}

/-- A line that is replaced moves a method to the same place, and it begins the same method unless
its declaration is lost. -/
theorem map_place_advance
    (balance : ∀ line, braceBalance (change line) = braceBalance line)
    (keeps : ∀ line, ¬hidden line → (openMethod? term (change line)).map OpenMethod.place =
      (openMethod? term line).map OpenMethod.place)
    {current renewed : Option OpenMethod}
    (same : renewed.map OpenMethod.place = current.map OpenMethod.place) {line : Line}
    (kept : ¬(current = none ∧ hidden line)) :
    (advance term renewed (change line)).map OpenMethod.place =
      (advance term current line).map OpenMethod.place := by
  cases current with
  | none =>
      obtain rfl : renewed = none := Option.map_eq_none_iff.mp same
      exact keeps line fun isHidden => kept ⟨rfl, isHidden⟩
  | some method =>
      obtain ⟨other, rfl, agrees⟩ := Option.map_eq_some_iff.mp same
      obtain ⟨name, depth⟩ := Prod.mk.inj agrees
      simp [advance, OpenMethod.extend, OpenMethod.place, name, depth, balance]

/-- Lines that are replaced one by one are cut in the same way unless a line that begins a method
loses its declaration. -/
theorem map_methodsBehind_iff
    (balance : ∀ line, braceBalance (change line) = braceBalance line)
    (loses : ∀ line, hidden line →
      openMethod? term line ≠ none ∧ openMethod? term (change line) = none)
    (keeps : ∀ line, ¬hidden line → (openMethod? term (change line)).map OpenMethod.place =
      (openMethod? term line).map OpenMethod.place)
    {current renewed : Option OpenMethod} (taken : current ≠ none → takenLines current ≠ [])
    (same : renewed.map OpenMethod.place = current.map OpenMethod.place) (lines : List Line) :
    (methodsBehind term renewed (lines.map change)).map (Option.map OpenMethod.place) =
        (methodsBehind term current lines).map (Option.map OpenMethod.place) ↔
      ∀ line method, some method ∈ methodsBehind term current lines → method.lines = [line] →
        ¬hidden line := by
  induction lines generalizing current renewed with
  | nil => simp [methodsBehind]
  | cons line rest inductionHypothesis =>
      simp only [List.map_cons, methodsBehind, List.cons.injEq]
      by_cases lost : current = none ∧ hidden line
      · -- The line begins a method, and the line in its place does not.
        obtain ⟨rfl, isHidden⟩ := lost
        obtain rfl : renewed = none := Option.map_eq_none_iff.mp same
        obtain ⟨opened, closed⟩ := loses line isHidden
        obtain ⟨method, opened⟩ := Option.ne_none_iff_exists'.mp opened
        have starts : advance term none line = some method := opened
        have differs : advance term none (change line) = none := closed
        rw [differs, starts]
        constructor
        · rintro ⟨head, -⟩
          simp at head
        · intro all
          exact absurd isHidden (all line method (by simp) (lines_of_advance starts))
      · have head := map_place_advance balance keeps same lost
        rw [and_iff_right head, inductionHypothesis takenLines_filter_advance_ne_nil
          (by rw [map_place_filter, map_place_filter, head])]
        constructor
        · intro all other method member alone
          rcases List.mem_cons.mp member with next | member
          · obtain ⟨begins, rfl⟩ := eq_none_of_lines_advance taken next.symm alone
            exact fun isHidden => lost ⟨begins, isHidden⟩
          · exact all other method member alone
        · intro all other method member alone
          exact all other method (List.mem_cons_of_mem _ member) alone

end Replaced

end Unpacking.Reflection

namespace Unpacking.Stage

open Text Line Signature Reflection

/-! ### Lines that become static -/

/-- A line of code that declares a method with a body and opens its block. -/
structure OpensMethod (line : Line) (signature : Signature) : Prop where
  isCode : isCommentOrImport line = false
  declared : parse? line = some signature
  opens : signature.opensBlock = true
  concrete : signature.isAbstract = false

theorem makeMethodStatic_of_opensMethod {line : Line} {signature : Signature}
    (opening : OpensMethod line signature) :
    makeMethodStatic line =
      if signature.isStatic then line else insertStatic line signature.head.length := by
  simp only [makeMethodStatic, opening.isCode, opening.declared, opening.opens, opening.concrete]
  cases signature.isStatic <;> rfl

theorem makeMethodStatic_of_not {line : Line} (other : ∀ signature, ¬OpensMethod line signature) :
    makeMethodStatic line = line := by
  unfold makeMethodStatic
  split
  · rfl
  · rename_i isCode
    split
    · rename_i signature declared
      split
      · rename_i accepted
        simp only [Bool.and_eq_true, Bool.not_eq_true'] at accepted
        exact absurd ⟨by simpa using isCode, declared, accepted.1.1, accepted.2⟩ (other signature)
      · rfl
    · rfl

/-- A line stays as it is, or it is code and gets the modifier behind some of its characters. -/
theorem makeMethodStatic_cases (line : Line) :
    makeMethodStatic line = line ∨
      isLineComment line = false ∧ ∃ size, makeMethodStatic line = insertStatic line size := by
  by_cases opening : ∃ signature, OpensMethod line signature
  · obtain ⟨signature, opening⟩ := opening
    have isCode := isLineComment_of_isCommentOrImport opening.isCode
    rw [makeMethodStatic_of_opensMethod opening]
    cases signature.isStatic with
    | true => exact .inl rfl
    | false => exact .inr ⟨isCode, _, rfl⟩
  · exact .inl (makeMethodStatic_of_not (not_exists.mp opening))

theorem mem_insertStatic {line : Line} {size : Nat} {c : Char} :
    c ∈ insertStatic line size ↔ c ∈ line ∨ c ∈ ("static " : Text) := by
  nth_rewrite 2 [← List.take_append_drop size line]
  simp only [insertStatic, List.mem_append]
  tauto

theorem braceBalance_insertStatic (line : Line) (size : Nat) :
    braceBalance (insertStatic line size) = braceBalance line := by
  have bare : braceBalance ("static " : Text) = 0 := by decide
  nth_rewrite 2 [← List.take_append_drop size line]
  rw [insertStatic, braceBalance_append, braceBalance_append, braceBalance_append, bare, Int.add_zero]

theorem braceBalance_makeMethodStatic (line : Line) :
    braceBalance (makeMethodStatic line) = braceBalance line := by
  rcases makeMethodStatic_cases line with same | ⟨-, size, same⟩
  · rw [same]
  · rw [same, braceBalance_insertStatic]

theorem lines_makeMethodsStatic {text : Text} (plain : '\r' ∉ text) :
    lines (makeMethodsStatic text) = (lines text).map makeMethodStatic := by
  apply lines_mapLines plain
  · intro line c ending free
    rcases makeMethodStatic_cases line with same | ⟨-, size, same⟩
    · rwa [same]
    · rw [same, mem_insertStatic, not_or]
      refine ⟨free, ?_⟩
      rcases ending with rfl | rfl <;> decide
  · intro line empty
    rcases makeMethodStatic_cases line with same | ⟨-, size, same⟩
    · rwa [same] at empty
    · simp [same, insertStatic] at empty

theorem parse?_of_opensMethod {line : Line} {signature : Signature}
    (opening : OpensMethod line signature) :
    (signature.hidesStatic = false →
      ∃ head, parse? (makeMethodStatic line) = some { signature with head, isStatic := true }) ∧
    (signature.hidesStatic = true → parse? (makeMethodStatic line) = none) := by
  rw [makeMethodStatic_of_opensMethod opening, hidesStatic]
  cases static : signature.isStatic with
  | true =>
      refine ⟨fun _ => ⟨signature.head, ?_⟩, by simp⟩
      rw [if_pos rfl, opening.declared, ← static]
  | false =>
      rw [if_neg (by decide), parse?_insertStatic opening.declared, Bool.not_false, Bool.true_and]
      constructor
      · intro plain
        rw [if_neg (by simp [plain])]
        exact ⟨_, rfl⟩
      · intro generic
        rw [if_pos generic]

/-- A line of code that declares a method opens it. -/
theorem openMethod?_of_opens (term : Text) {line : Line} {signature : Signature}
    (declared : parse? line = some signature) (opens : signature.opensBlock = true) :
    openMethod? term line =
      some ⟨signature.name, [line], braceBalance line, returnsInline term line⟩ := by
  simp [openMethod?, isCommentOrImport_of_parse? declared, declared, opens]

theorem map_place_openMethod? (term : Text) (line : Line)
    (shown : ¬∃ signature, OpensMethod line signature ∧ signature.hidesStatic = true) :
    (openMethod? term (makeMethodStatic line)).map OpenMethod.place =
      (openMethod? term line).map OpenMethod.place := by
  by_cases opening : ∃ signature, OpensMethod line signature
  · obtain ⟨signature, opening⟩ := opening
    have visible : signature.hidesStatic = false := by
      rw [Bool.eq_false_iff]
      exact fun hides => shown ⟨signature, opening, hides⟩
    obtain ⟨head, declared⟩ := (parse?_of_opensMethod opening).1 visible
    rw [openMethod?_of_opens term declared opening.opens,
      openMethod?_of_opens term opening.declared opening.opens]
    simp [OpenMethod.place, braceBalance_makeMethodStatic]
  · rw [makeMethodStatic_of_not (not_exists.mp opening)]

/-- The lines of a text without carriage returns are replaced one by one. A line that opens a block
declares the same method again, now static, or no method if it was not static and its return type
stands behind type parameters. Every other line stays. The methods that a sweep for any term sees
are the same if no such line begins one of them, and only then. -/
theorem parse?_makeMethodsStatic {text : Text} (plain : '\r' ∉ text) :
    lines (makeMethodsStatic text) = (lines text).map makeMethodStatic ∧
    (∀ line ∈ lines text, ∀ signature, OpensMethod line signature →
      (signature.hidesStatic = false →
        ∃ head, parse? (makeMethodStatic line) = some { signature with head, isStatic := true }) ∧
      (signature.hidesStatic = true → parse? (makeMethodStatic line) = none)) ∧
    (∀ line ∈ lines text, (∀ signature, ¬OpensMethod line signature) →
      makeMethodStatic line = line) ∧
    ∀ term, segmentation term (makeMethodsStatic text) = segmentation term text ↔
      ∀ line signature, BeginsMethod term text line → OpensMethod line signature →
        signature.hidesStatic = false := by
  refine ⟨lines_makeMethodsStatic plain, fun line _ signature opening => parse?_of_opensMethod opening,
    fun line _ other => makeMethodStatic_of_not other, fun term => ?_⟩
  have loses (line : Line)
      (hides : ∃ signature, OpensMethod line signature ∧ signature.hidesStatic = true) :
      openMethod? term line ≠ none ∧ openMethod? term (makeMethodStatic line) = none := by
    obtain ⟨signature, opening, hides⟩ := hides
    rw [openMethod?_of_opens term opening.declared opening.opens]
    refine ⟨by simp, ?_⟩
    simp [openMethod?, (parse?_of_opensMethod opening).2 hides]
  rw [segmentation, segmentation, lines_makeMethodsStatic plain,
    map_methodsBehind_iff braceBalance_makeMethodStatic loses (map_place_openMethod? term)
      (by simp) rfl]
  constructor
  · intro all line signature begins opening
    obtain ⟨method, member, alone⟩ := begins
    rw [Bool.eq_false_iff]
    exact fun hides => all line method member alone ⟨signature, opening, hides⟩
  · rintro all line method member alone ⟨signature, opening, hides⟩
    rw [all line signature ⟨method, member, alone⟩ opening] at hides
    simp at hides

theorem parse?_makeMethodsStatic_annotated :
    '\r' ∉ ("class A \x7b\n  @A(b) final Map<K, int[]> first(int x) \x7b\n  \x7d\n\x7d" : Text) ∧
      ∃ head, parse? (makeMethodStatic "  @A(b) final Map<K, int[]> first(int x) \x7b") =
        some ⟨"first", head, true, false, true⟩ := by
  have plain : '\r' ∉
      ("class A \x7b\n  @A(b) final Map<K, int[]> first(int x) \x7b\n  \x7d\n\x7d" : Text) := by
    decide +kernel
  refine ⟨plain, ?_⟩
  exact ((parse?_makeMethodsStatic plain).2.1 _ (by decide +kernel)
    ⟨"first", "  @A(b) final ", false, false, true⟩
    ⟨by decide +kernel, by decide +kernel, rfl, rfl⟩).1 (by decide +kernel)

/-- A method with type parameters is lost. -/
theorem parse?_makeMethodStatic_generic :
    OpensMethod "public <T> T first(T x) \x7b" ⟨"first", "public <T> ", false, false, true⟩ ∧
      makeMethodStatic "public <T> T first(T x) \x7b" = "public <T> static T first(T x) \x7b" ∧
      parse? (makeMethodStatic "public <T> T first(T x) \x7b") = none ∧
      segmentation "term" (makeMethodsStatic "public <T> T first(T x) \x7b\n\x7d") ≠
        segmentation "term" "public <T> T first(T x) \x7b\n\x7d" :=
  ⟨⟨by decide +kernel, by decide +kernel, rfl, rfl⟩, by decide +kernel, by decide +kernel,
    by decide +kernel⟩

end Unpacking.Stage
