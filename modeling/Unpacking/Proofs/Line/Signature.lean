import Unpacking.Line.Signature
import Unpacking.Proofs.Text.Reading

/-!
Method declarations. A carriage return at the end of a line hides no declaration, and the name of a
declared method is a part of its line.
-/

namespace Unpacking.Signature

open Text

/-! ### The items before a type -/

theorem afterArguments_suffix (text : Text) : afterArguments text <:+ text := by
  unfold afterArguments
  split
  · rename_i inner
    split
    · rename_i left rest found
      exact (suffix_of_cut? found).trans (List.suffix_cons '(' inner)
    · exact List.suffix_rfl
  · exact List.suffix_rfl

theorem shrinks_annotation? : Shrinks annotation? := by
  intro text first rest read
  simp only [annotation?, Option.bind_eq_bind, Option.bind_eq_some_iff, Option.pure_def,
    Option.some.injEq, Prod.mk.injEq, Prod.exists] at read
  obtain ⟨behind, sign, name, more, taken, rest, blanks, -, rfl⟩ := read
  have whole := after?_eq_some sign
  have inName := (run?_eq_some taken).1
  have inside : rest <:+ behind := by
    rw [inName]
    exact (suffix_of_afterBlanks? blanks).trans
      ((afterArguments_suffix more).trans (List.suffix_append name more))
  rw [whole]
  refine ⟨inside.trans (List.suffix_cons '@' behind), ?_⟩
  have short := inside.length_le
  simp only [List.singleton_append, List.length_cons]
  omega

theorem shrinks_lowerWord? : Shrinks lowerWord? := by
  intro text word rest read
  simp only [lowerWord?, Option.bind_eq_bind, Option.bind_eq_some_iff, Option.pure_def,
    Option.some.injEq, Prod.mk.injEq, Prod.exists] at read
  obtain ⟨word, behind, taken, rest, blanks, -, rfl⟩ := read
  obtain ⟨whole, filled, -⟩ := run?_eq_some taken
  have inside := suffix_of_afterBlanks? blanks
  rw [whole]
  refine ⟨inside.trans (List.suffix_append word behind), ?_⟩
  have short := inside.length_le
  have positive := List.length_pos_iff.mpr filled
  rw [List.length_append]
  omega

theorem afterArguments_append_return (text : Text) :
    afterArguments (text ++ ['\r']) = afterArguments text ++ ['\r'] := by
  match text with
  | [] => rfl
  | c :: inner =>
      by_cases opens : c = '('
      · subst c
        simp only [afterArguments, List.cons_append, cut?_append_return (by decide : ')' ≠ '\r')]
        cases cut? ')' inner <;> rfl
      · simp [afterArguments, opens]

theorem passesReturn_annotation? : PassesReturn annotation? := by
  intro text
  simp only [annotation?, Option.bind_eq_bind, Option.pure_def]
  rw [after?_append_return (by decide)]
  cases after? ['@'] text with
  | none => exact .inl rfl
  | some behind =>
      simp only [Option.map_some, Option.bind_some]
      rw [run?_append_return (by decide)]
      cases run? (fun c => isWord c || c == '.') behind with
      | none => exact .inl rfl
      | some taken =>
          simp only [Option.map_some, Option.bind_some, afterArguments_append_return]
          rcases afterBlanks?_append_return (afterArguments taken.2) with passed | ⟨passed, ended⟩
          · left
            rw [passed]
            cases afterBlanks? (afterArguments taken.2) <;> rfl
          · right
            refine ⟨(), by rw [passed]; rfl, ?_⟩
            rcases ended with ended | ended
            · exact .inl (by rw [ended]; rfl)
            · exact .inr (by rw [ended]; rfl)

theorem passesReturn_lowerWord? : PassesReturn lowerWord? := by
  intro text
  simp only [lowerWord?, Option.bind_eq_bind, Option.pure_def]
  rw [run?_append_return (by decide)]
  cases run? Char.isLower text with
  | none => exact .inl rfl
  | some taken =>
      simp only [Option.map_some, Option.bind_some]
      rcases afterBlanks?_append_return taken.2 with passed | ⟨passed, ended⟩
      · left
        rw [passed]
        cases afterBlanks? taken.2 <;> rfl
      · right
        refine ⟨taken.1, by rw [passed]; rfl, ?_⟩
        rcases ended with ended | ended
        · exact .inl (by rw [ended]; rfl)
        · exact .inr (by rw [ended]; rfl)

/-! ### The type and the name -/

theorem methodName?_append_return (text : Text) :
    methodName? (text ++ ['\r']) = methodName? text := by
  simp only [methodName?, Option.bind_eq_bind, Option.pure_def]
  rw [bind_afterBlanks?_append_return (by rfl) (by decide)]
  congr 1
  funext rest
  rw [run?_append_return (by decide)]
  cases run? isNameCharacter rest with
  | none => rfl
  | some taken =>
      simp only [Option.map_some, Option.bind_some, trimStart_append_return]
      split
      · rename_i nothing
        rw [nothing]
      · rw [after?_append_return (by decide)]
        cases after? ['('] (trimStart taken.2) <;> rfl

/-- The part of a text before a tail of it does not change with what is added to both. -/
theorem take_append_return (text : Text) (left : Nat) :
    (text ++ ['\r']).take ((text ++ ['\r']).length - (left + 1)) =
      text.take (text.length - left) := by
  have short : (text ++ ['\r']).length - (left + 1) = text.length - left := by simp
  rw [short, List.take_append_of_le_length (Nat.sub_le _ _)]

/-- The type arguments that may stand before a rest, and that rest. -/
def argumentWays (allowed : Char → Bool) (text : Text) : List (Text × Text) :=
  match text with
  | '<' :: inner => (closings allowed inner).map fun way => ('<' :: way.1, way.2)
  | _ => [([], text)]

theorem typed?_eq {α : Type} (allowed : Char → Bool) (reader : Text → Option α) (text : Text) :
    typed? allowed reader text =
      (run? (fun c => isNameCharacter c || c == '.') text).bind fun taken =>
        (argumentWays allowed taken.2).findSome? fun way =>
          (reader (afterBrackets way.2)).map fun found =>
            (taken.1 ++ way.1 ++ way.2.take (way.2.length - (afterBrackets way.2).length),
              found) := by
  simp only [typed?, Option.bind_eq_bind, Option.pure_def, Option.map_eq_bind]
  rfl

theorem argumentWays_append_return (allowed : Char → Bool) (text : Text) :
    argumentWays allowed (text ++ ['\r']) =
      (argumentWays allowed text).map fun way => (way.1, way.2 ++ ['\r']) := by
  cases text with
  | nil => rfl
  | cons c inner =>
      by_cases opens : c = '<'
      · subst c
        simp [argumentWays, closings_append_return, Function.comp_def]
      · simp [argumentWays, opens]

theorem typed?_append_return {α : Type} {reader : Text → Option α}
    (ignores : ∀ text, reader (text ++ ['\r']) = reader text) (allowed : Char → Bool)
    (text : Text) : typed? allowed reader (text ++ ['\r']) = typed? allowed reader text := by
  rw [typed?_eq, typed?_eq, run?_append_return (by decide), Option.bind_map]
  congr 1
  funext taken
  rw [Function.comp_apply, argumentWays_append_return, List.findSome?_map]
  congr 1
  funext way
  have kept := take_append_return way.2 (afterBrackets way.2).length
  simp only [Function.comp_apply, afterBrackets_append_return, ignores, List.length_append,
    List.length_singleton] at kept ⊢
  rw [kept]

theorem typed?_of_head {α : Type} {reader : Text → Option α} {allowed : Char → Bool} {c : Char}
    (other : (isNameCharacter c || c == '.') = false) (text : Text) :
    typed? allowed reader (c :: text) = none := by
  simp [typed?, run?, other]

theorem typed?_nil {α : Type} {reader : Text → Option α} {allowed : Char → Bool} :
    typed? allowed reader [] = none := rfl

/-- The type and the name of a method behind its modifiers, with the text from the type on. -/
def declared? (text : Text) : Option (Text × Text × Text) :=
  (typed? (fun c => c != '\n') methodName? (afterTypeParameters text)).map fun (type, name) =>
    (afterTypeParameters text, type, name)

/-- A carriage return passes through the type parameters, unless nothing stands behind them. -/
theorem afterTypeParameters_append_return (text : Text) :
    afterTypeParameters (text ++ ['\r']) = afterTypeParameters text ++ ['\r'] ∨
      afterTypeParameters (text ++ ['\r']) = [] ∧
        (afterTypeParameters text = [] ∨ ∃ inner, afterTypeParameters text = '<' :: inner) := by
  cases text with
  | nil => exact .inl rfl
  | cons c inner =>
      by_cases opens : c = '<'
      · subst c
        simp only [afterTypeParameters, List.cons_append,
          cut?_append_return (by decide : '>' ≠ '\r')]
        cases cut? '>' inner with
        | none => exact .inl rfl
        | some parts =>
            simp only [Option.map_some]
            rcases afterBlanks?_append_return parts.2 with passed | ⟨passed, ended | ended⟩
            · left
              rw [passed]
              cases afterBlanks? parts.2 <;> rfl
            · exact .inr (by simp [passed, ended])
            · exact .inr (by simp [passed, ended])
      · exact .inl (by simp [afterTypeParameters, opens])

theorem declared?_append_return (text : Text) :
    declared? (text ++ ['\r']) =
      (declared? text).map fun found => (found.1 ++ ['\r'], found.2) := by
  rcases afterTypeParameters_append_return text with passed | ⟨passed, ended | ⟨inner, ended⟩⟩
  · rw [declared?, declared?, passed, typed?_append_return methodName?_append_return,
      Option.map_map]
    rfl
  · rw [declared?, declared?, passed, ended, typed?_nil]
    rfl
  · rw [declared?, declared?, passed, ended, typed?_nil, typed?_of_head (by decide)]
    rfl

theorem declared?_of_annotation {text : Text} (read : annotation? text ≠ none) :
    lowerWord? text = none ∧ declared? text = none := by
  cases sign : after? ['@'] text with
  | none => simp [annotation?, sign] at read
  | some behind =>
      rw [after?_eq_some sign]
      refine ⟨rfl, ?_⟩
      have unchanged : afterTypeParameters (['@'] ++ behind) = '@' :: behind := rfl
      rw [declared?, unchanged, typed?_of_head (by decide)]
      rfl

/-! ### The beginning of a line -/

/-- What is read behind the annotations of a line. -/
def behindAnnotations? (text : Text) : Option Beginning :=
  (repeats lowerWord? text).findSome? fun way =>
    (declared? way.2).map fun (fromType, type, name) =>
      { modifiers := way.1, fromType, type, name }

theorem beginning?_eq (line : Line) :
    beginning? line = behindAnnotations? (afterItems annotation? (trimStart line)) := by
  simp only [beginning?, behindAnnotations?, declared?, Option.map_map]
  rfl

theorem behindAnnotations?_append_return (text : Text) :
    behindAnnotations? (text ++ ['\r']) =
      (behindAnnotations? text).map fun found =>
        { found with fromType := found.fromType ++ ['\r'] } := by
  rw [behindAnnotations?, findSome?_repeats_append_return shrinks_lowerWord?
    passesReturn_lowerWord? (fun _ => rfl) (fun _ => rfl), behindAnnotations?, List.map_findSome?]
  congr 1
  funext way
  simp only [declared?_append_return, Option.map_map, Function.comp_def]

theorem beginning?_append_return (line : Line) :
    beginning? (line ++ ['\r']) =
      (beginning? line).map fun found =>
        { found with fromType := found.fromType ++ ['\r'] } := by
  have nowhere (text : Text) (read : annotation? text ≠ none) :
      behindAnnotations? text = none := by
    obtain ⟨noWord, noType⟩ := declared?_of_annotation read
    simp [behindAnnotations?, repeats_of_none noWord, noType]
  rw [beginning?_eq, beginning?_eq, trimStart_append_return]
  split
  · rename_i nothing
    rw [nothing]
    rfl
  · rw [← findSome?_repeats shrinks_annotation? nowhere,
      ← findSome?_repeats shrinks_annotation? nowhere,
      findSome?_repeats_append_return shrinks_annotation? passesReturn_annotation?
        (fun _ => rfl) (fun _ => rfl), List.map_findSome?]
    congr 1
    funext way
    exact behindAnnotations?_append_return way.2

/-- A carriage return at the end of a line changes nothing in the method that it declares. -/
theorem parse?_append_return (line : Line) : parse? (line ++ ['\r']) = parse? line := by
  simp only [parse?, Option.bind_eq_bind]
  rw [beginning?_append_return, Option.bind_map, trimEnd_append_return]
  congr 1
  funext found
  have kept := take_append_return line found.fromType.length
  simp only [Function.comp_apply, List.length_append, List.length_singleton] at kept ⊢
  rw [kept]

/-! ### The name of a method -/

theorem methodName?_eq_some {text name : Text} (found : methodName? text = some name) :
    IsName name ∧ name <:+: text := by
  simp only [methodName?, Option.bind_eq_bind, Option.bind_eq_some_iff, Option.pure_def,
    Option.some.injEq, Prod.exists] at found
  obtain ⟨behind, blanks, name, rest, taken, -, -, rfl⟩ := found
  obtain ⟨whole, filled, members⟩ := run?_eq_some taken
  refine ⟨⟨filled, members⟩, ?_⟩
  have first : name <:+: behind := whole ▸ (List.prefix_append name rest).isInfix
  exact first.trans (suffix_of_afterBlanks? blanks).isInfix

theorem suffix_of_mem_argumentWays {allowed : Char → Bool} {text : Text} {way : Text × Text}
    (member : way ∈ argumentWays allowed text) : way.2 <:+ text := by
  unfold argumentWays at member
  split at member
  · rename_i inner
    obtain ⟨other, inside, rfl⟩ := List.mem_map.mp member
    exact (suffix_of_mem_closings inside).trans (List.suffix_cons '<' inner)
  · rw [List.mem_singleton] at member
    subst member
    exact List.suffix_rfl

theorem typed?_eq_some {allowed : Char → Bool} {text type name : Text}
    (found : typed? allowed methodName? text = some (type, name)) :
    IsName name ∧ name <:+: text := by
  rw [typed?_eq, Option.bind_eq_some_iff] at found
  obtain ⟨⟨base, rest⟩, taken, found⟩ := found
  obtain ⟨way, member, named⟩ := List.exists_of_findSome?_eq_some found
  simp only [Option.map_eq_some_iff, Prod.mk.injEq] at named
  obtain ⟨name, named, -, rfl⟩ := named
  obtain ⟨isName, inside⟩ := methodName?_eq_some named
  have tail : afterBrackets way.2 <:+ text := by
    rw [(run?_eq_some taken).1]
    exact (afterBrackets_suffix way.2).trans
      ((suffix_of_mem_argumentWays member).trans (List.suffix_append base rest))
  exact ⟨isName, inside.trans tail.isInfix⟩

theorem isBehindBlank_afterTypeParameters (text : Text) :
    IsBehindBlank text (afterTypeParameters text) := by
  unfold afterTypeParameters
  split
  · rename_i inner
    split
    · rename_i left rest found
      cases blanks : afterBlanks? rest with
      | none => exact .refl _
      | some behind =>
          exact .of_afterBlanks? ((suffix_of_cut? found).trans (List.suffix_cons '<' inner)) blanks
    · exact .refl _
  · exact .refl _

/-- The name of a declared method is a part of its line. -/
theorem name_of_parse? {line : Line} {signature : Signature}
    (declared : parse? line = some signature) :
    IsName signature.name ∧ signature.name <:+: line := by
  simp only [parse?, Option.bind_eq_bind, Option.bind_eq_some_iff] at declared
  obtain ⟨found, begun, accepted⟩ := declared
  rw [beginning?_eq, behindAnnotations?] at begun
  obtain ⟨⟨modifiers, rest⟩, member, named⟩ := List.exists_of_findSome?_eq_some begun
  simp only [declared?, Option.map_map, Option.map_eq_some_iff, Function.comp_apply,
    Prod.exists] at named
  obtain ⟨type, name, typed, rfl⟩ := named
  obtain ⟨isName, inside⟩ := typed?_eq_some typed
  have tail : afterTypeParameters rest <:+ line :=
    (isBehindBlank_afterTypeParameters rest).suffix.trans
      ((suffix_of_mem_repeats shrinks_lowerWord? member).trans
        ((afterItems_suffix shrinks_annotation? _).trans (trimStart_suffix line)))
  split at accepted
  · rw [Option.some.injEq] at accepted
    subst signature
    exact ⟨isName, inside.trans tail.isInfix⟩
  · simp at accepted

theorem isBehindBlank_annotation? {text rest : Text} {first : Unit}
    (read : annotation? text = some (first, rest)) : IsBehindBlank text rest := by
  simp only [annotation?, Option.bind_eq_bind, Option.bind_eq_some_iff, Option.pure_def,
    Option.some.injEq, Prod.mk.injEq, Prod.exists] at read
  obtain ⟨behind, sign, name, more, taken, rest, blanks, -, rfl⟩ := read
  have inside : afterArguments more <:+ text := by
    rw [after?_eq_some sign, (run?_eq_some taken).1]
    exact (afterArguments_suffix more).trans
      ((List.suffix_append name more).trans (List.suffix_append ['@'] _))
  exact .of_afterBlanks? inside blanks

theorem isBehindBlank_lowerWord? {text word rest : Text}
    (read : lowerWord? text = some (word, rest)) : IsBehindBlank text rest := by
  simp only [lowerWord?, Option.bind_eq_bind, Option.bind_eq_some_iff, Option.pure_def,
    Option.some.injEq, Prod.mk.injEq, Prod.exists] at read
  obtain ⟨word, behind, taken, rest, blanks, -, rfl⟩ := read
  have inside : behind <:+ text := by
    rw [(run?_eq_some taken).1]
    exact List.suffix_append word behind
  exact .of_afterBlanks? inside blanks

/-- A return type begins its line or stands behind a blank. -/
theorem isBehindBlank_of_parse? {line : Line} {signature : Signature}
    (declared : parse? line = some signature) :
    IsBehindBlank line (line.drop signature.head.length) := by
  simp only [parse?, Option.bind_eq_bind, Option.bind_eq_some_iff] at declared
  obtain ⟨found, begun, accepted⟩ := declared
  have behind : IsBehindBlank line found.fromType := by
    simp only [beginning?] at begun
    obtain ⟨⟨modifiers, rest⟩, member, named⟩ := List.exists_of_findSome?_eq_some begun
    obtain ⟨-, -, rfl⟩ := Option.map_eq_some_iff.mp named
    have annotations := IsBehindBlank.afterItems shrinks_annotation? isBehindBlank_annotation?
      (trimStart line)
    have words := IsBehindBlank.of_mem_repeats shrinks_lowerWord? isBehindBlank_lowerWord? member
    exact (IsBehindBlank.trimStart line).trans
      (annotations.trans (words.trans (isBehindBlank_afterTypeParameters rest)))
  split at accepted
  · rw [Option.some.injEq] at accepted
    obtain ⟨head, whole, blank⟩ := behind
    have size : signature.head.length = head.length := by
      rw [← accepted, whole]
      simp
    refine ⟨head, ?_, blank⟩
    rw [size, whole, List.drop_left]
  · simp at accepted

/-- A declaration that opens a block holds an opening brace. -/
theorem mem_of_opensBlock {line : Line} {signature : Signature}
    (declared : parse? line = some signature) (opens : signature.opensBlock = true) :
    '{' ∈ line := by
  simp only [parse?, Option.bind_eq_bind, Option.bind_eq_some_iff] at declared
  obtain ⟨found, -, accepted⟩ := declared
  split at accepted
  · rw [Option.some.injEq] at accepted
    subst signature
    have last : ['{'] <:+ trimEnd line := List.isSuffixOf_iff_suffix.mp opens
    exact mem_of_mem_trimEnd (last.mem (by simp))
  · simp at accepted

end Unpacking.Signature
