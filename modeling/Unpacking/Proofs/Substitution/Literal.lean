import Unpacking.Java.Lexeme
import Unpacking.Proofs.Text.Reading
import Unpacking.Substitution.DeviceInfo

/-!
Texts as string literals of the source. The two replacements that escape a text act like one that
escapes each character by itself. So a literal ends at its last quote and nowhere before, and
reading it gives the text back. Main statement: `isLiteralOf_iff`.
-/

namespace Unpacking.Substitution

open Text Java

/-- A character as it is written between the quotes of a literal. -/
def escape (c : Char) : Text :=
  if c = '\\' ∨ c = '"' then ['\\', c] else [c]

/-- A text as it is written between the quotes of a literal. -/
def escaped (text : Text) : Text :=
  text.flatMap escape

/-- Read a literal from behind its opening quote: the text it stands for, and what is behind its
closing quote. A backslash may only escape a backslash or a quote. -/
def unescape? : Text → Option (Text × Text)
  | [] => none
  | '"' :: rest => some ([], rest)
  | '\\' :: c :: rest =>
    if c = '\\' ∨ c = '"' then (unescape? rest).map fun read => (c :: read.1, read.2) else none
  | c :: rest => if c = '\\' then none else (unescape? rest).map fun read => (c :: read.1, read.2)

/-- Whether the character behind a text is escaped: it is if a backslash stands before it that is
not escaped itself. -/
def isEscaping (text : Text) : Bool :=
  text.foldl (fun escaping c => !escaping && c == '\\') false

/-- A text is one string literal and stands for a value. -/
structure IsLiteralOf (value text : Text) : Prop where
  /-- The quotes at both ends are the only ones that are not escaped, and without the escapes the
  text between them is the value. -/
  quotes : ∃ body, text = '"' :: (body ++ ['"']) ∧ isEscaping body = false ∧
    (∀ left right, body = left ++ '"' :: right → isEscaping left = true) ∧
    unescape? (body ++ ['"']) = some (value, [])
  /-- The lexer of the source reads it as one literal. -/
  lexed : lexemes text = [{ kind := .literal, text }]

/-! ### Escapes -/

theorem escape_of_mark {c : Char} (mark : c = '\\' ∨ c = '"') : escape c = ['\\', c] :=
  if_pos mark

theorem escape_of_plain {c : Char} (plain : ¬(c = '\\' ∨ c = '"')) : escape c = [c] :=
  if_neg plain

theorem escaped_cons (c : Char) (text : Text) : escaped (c :: text) = escape c ++ escaped text :=
  List.flatMap_cons

/-- The backslashes that the second replacement brings in are not escaped by the first one. -/
theorem quoted_eq (text : Text) : quoted text = '"' :: (escaped text ++ ['"']) := by
  have both : substitute '"' "\\\"" (substitute '\\' "\\\\" text) = escaped text := by
    rw [substitute, substitute, escaped, List.flatMap_assoc]
    congr 1
    funext c
    by_cases mark : c = '\\' ∨ c = '"'
    · rw [escape_of_mark mark]
      rcases mark with rfl | rfl <;> rfl
    · rw [escape_of_plain mark]
      rw [not_or] at mark
      simp [mark]
  rw [quoted, both]
  rfl

theorem unescape?_escape_append (c : Char) (rest : Text) :
    unescape? (escape c ++ rest) = (unescape? rest).map fun read => (c :: read.1, read.2) := by
  by_cases mark : c = '\\' ∨ c = '"'
  · rw [escape_of_mark mark]
    exact if_pos mark
  · rw [escape_of_plain mark]
    rw [not_or] at mark
    rw [List.singleton_append, unescape?.eq_4 _ _ mark.2 fun _ _ isMark _ => mark.1 isMark,
      if_neg mark.1]

/-- A literal is read up to its closing quote, whatever is behind it. -/
theorem unescape?_escaped_append (value rest : Text) :
    unescape? (escaped value ++ '"' :: rest) = some (value, rest) := by
  induction value with
  | nil => rfl
  | cons c value inductionHypothesis =>
      rw [escaped_cons, List.append_assoc, unescape?_escape_append, inductionHypothesis]
      rfl

/-- A literal is written in one way only. -/
theorem eq_escaped_of_unescape? {text value rest : Text}
    (read : unescape? text = some (value, rest)) : text = escaped value ++ '"' :: rest := by
  fun_induction unescape? text generalizing value with
  | case1 => simp at read
  | case2 tail =>
      obtain ⟨rfl, rfl⟩ := Prod.mk.inj (Option.some.inj read)
      rfl
  | case3 c tail mark inductionHypothesis =>
      obtain ⟨⟨inner, last⟩, later, same⟩ := Option.map_eq_some_iff.mp read
      obtain ⟨rfl, rfl⟩ := Prod.mk.inj same
      rw [escaped_cons, escape_of_mark mark, inductionHypothesis later]
      rfl
  | case4 => simp at read
  | case5 => simp at read
  | case6 c tail notQuote _ notEscape inductionHypothesis =>
      obtain ⟨⟨inner, last⟩, later, same⟩ := Option.map_eq_some_iff.mp read
      obtain ⟨rfl, rfl⟩ := Prod.mk.inj same
      have plain : ¬(c = '\\' ∨ c = '"') := not_or.mpr ⟨notEscape, notQuote⟩
      rw [escaped_cons, escape_of_plain plain, inductionHypothesis later]
      rfl

/-- Two literals at the front of one text are the same. -/
theorem quoted_append_inj {value other rest tail : Text}
    (same : quoted value ++ rest = quoted other ++ tail) : value = other ∧ rest = tail := by
  have behind : escaped value ++ '"' :: rest = escaped other ++ '"' :: tail := by
    simpa [quoted_eq] using same
  have read := unescape?_escaped_append value rest
  rw [behind, unescape?_escaped_append, Option.some.injEq, Prod.mk.injEq] at read
  exact ⟨read.1.symm, read.2.symm⟩

theorem quoted_inj {value other : Text} (same : quoted value = quoted other) : value = other :=
  (@quoted_append_inj value other [] [] (by rw [same])).1

/-! ### Quotes -/

theorem isEscaping_append_singleton (text : Text) (c : Char) :
    isEscaping (text ++ [c]) = (!isEscaping text && c == '\\') := by
  simp [isEscaping]

/-- Behind an escape the count of the backslashes starts anew. -/
theorem isEscaping_escape_append (c : Char) (text : Text) :
    isEscaping (escape c ++ text) = isEscaping text := by
  have closed : isEscaping (escape c) = false := by
    by_cases mark : c = '\\' ∨ c = '"'
    · rw [escape_of_mark mark]
      rcases mark with rfl | rfl <;> rfl
    · rw [escape_of_plain mark]
      rw [not_or] at mark
      simp [isEscaping, mark.1]
  rw [isEscaping] at closed
  rw [isEscaping, List.foldl_append, closed, isEscaping]

theorem isEscaping_escaped (text : Text) : isEscaping (escaped text) = false := by
  induction text with
  | nil => rfl
  | cons c text inductionHypothesis =>
      rw [escaped_cons, isEscaping_escape_append, inductionHypothesis]

/-- Every quote between the quotes of a literal is escaped. -/
theorem isEscaping_of_escaped {text left right : Text}
    (whole : escaped text = left ++ '"' :: right) : isEscaping left = true := by
  induction text generalizing left with
  | nil => simp [escaped] at whole
  | cons c text inductionHypothesis =>
      rw [escaped_cons] at whole
      by_cases mark : c = '\\' ∨ c = '"'
      · rw [escape_of_mark mark] at whole
        match left, whole with
        | [], whole => exact absurd (List.cons.inj whole).1 (by decide)
        | [d], whole =>
            obtain ⟨rfl, -⟩ := List.cons.inj whole
            rfl
        | d :: e :: left, whole =>
            obtain ⟨rfl, behind⟩ := List.cons.inj whole
            obtain ⟨rfl, later⟩ := List.cons.inj behind
            have escapes := isEscaping_escape_append c left
            rw [escape_of_mark mark] at escapes
            exact escapes.trans (inductionHypothesis later)
      · rw [escape_of_plain mark] at whole
        match left, whole with
        | [], whole => exact absurd (.inr (List.cons.inj whole).1) mark
        | d :: left, whole =>
            obtain ⟨rfl, later⟩ := List.cons.inj whole
            have escapes := isEscaping_escape_append c left
            rw [escape_of_plain mark] at escapes
            exact escapes.trans (inductionHypothesis later)

/-! ### Literals of the source -/

theorem quotedLength_escape_append {c : Char} (unbroken : c ≠ '\n') (rest : Text) :
    quotedLength '"' (escape c ++ rest) = (escape c).length + quotedLength '"' rest := by
  by_cases mark : c = '\\' ∨ c = '"'
  · rw [escape_of_mark mark]
    exact Nat.add_comm _ 2
  · rw [escape_of_plain mark]
    rw [not_or] at mark
    rw [List.singleton_append, quotedLength.eq_2 _ _ _ fun _ _ isMark => absurd isMark mark.1,
      if_neg mark.2, if_neg unbroken]
    exact Nat.add_comm _ 1

/-- The lexer finds the closing quote of a literal. -/
theorem quotedLength_escaped {text : Text} (unbroken : '\n' ∉ text) :
    quotedLength '"' (escaped text ++ ['"']) = (escaped text ++ ['"']).length := by
  induction text with
  | nil => rfl
  | cons c text inductionHypothesis =>
      rw [List.mem_cons, not_or] at unbroken
      rw [escaped_cons, List.append_assoc, quotedLength_escape_append (Ne.symm unbroken.1),
        inductionHypothesis unbroken.2, ← List.length_append]

theorem front_quoted {text : Text} (unbroken : '\n' ∉ text) :
    front (quoted text) = (.literal, (quoted text).length) := by
  -- A second quote directly behind the first one would not be escaped.
  have noBlock : ∀ rest, escaped text ++ ['"'] = '"' :: '"' :: rest → False := by
    intro rest whole
    cases body : escaped text with
    | nil => simp [body] at whole
    | cons c tail =>
        rw [body] at whole
        obtain ⟨rfl, -⟩ := List.cons.inj whole
        exact Bool.false_ne_true (@isEscaping_of_escaped text [] tail body)
  rw [quoted_eq, front.eq_4 _ noBlock, quotedLength_escaped unbroken, List.length_cons]

theorem lexemes_quoted {text : Text} (unbroken : '\n' ∉ text) :
    lexemes (quoted text) = [{ kind := .literal, text := quoted text }] := by
  have filled : quoted text ≠ [] := by simp [quoted_eq]
  obtain ⟨limit, size⟩ := Nat.exists_eq_succ_of_ne_zero
    (Nat.ne_of_gt (List.length_pos_iff.mpr filled))
  have first := @lexemesUpTo_of_front limit .literal (quoted text) [] filled
  rw [List.append_nil] at first
  rw [lexemes, size, first (front_quoted unbroken)]
  cases limit <;> rfl

/-- The literal of a value is the one that is written for it. -/
theorem isLiteralOf_iff {value text : Text} (unbroken : '\n' ∉ value) :
    IsLiteralOf value text ↔ text = quoted value := by
  constructor
  · rintro ⟨⟨body, rfl, -, -, read⟩, -⟩
    rw [quoted_eq, eq_escaped_of_unescape? read]
  · rintro rfl
    refine ⟨⟨escaped value, quoted_eq value, isEscaping_escaped value, ?_, ?_⟩,
      lexemes_quoted unbroken⟩
    · exact fun left right whole => isEscaping_of_escaped whole
    · exact unescape?_escaped_append value []

end Unpacking.Substitution
