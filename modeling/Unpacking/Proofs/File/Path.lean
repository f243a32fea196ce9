import Mathlib.Data.List.Basic
import Unpacking.Path
import Unpacking.Proofs.Text.Items
import Unpacking.Proofs.Text.Reading

/-!
Paths that go on with a plain name. Main statements: the name can be read back from the path
(`fileName?_join`), different names give different paths (`join_injective`), and a stem is what
stands before the extension (`cutName?_eq_some_iff`).
-/

namespace Unpacking

open Text

namespace Text

variable {separator : Char → Bool}

theorem fields_ne_nil (text : Text) : fields separator text ≠ [] := by
  cases text with
  | nil => simp [fields]
  | cons c rest =>
    rw [fields]
    split
    · simp
    · split <;> simp

/-- A text without separators is one piece. -/
theorem fields_of_free {text : Text} (free : ∀ c ∈ text, separator c = false) :
    fields separator text = [text] := by
  induction text with
  | nil => rfl
  | cons c rest inductionHypothesis =>
    rw [fields, inductionHypothesis fun other member => free other (List.mem_cons_of_mem c member)]
    simp [free c]

/-- A separator divides the pieces before it from those behind it. -/
theorem fields_append_separator {mark : Char} (isMark : separator mark = true) (left right : Text) :
    fields separator (left ++ mark :: right) = fields separator left ++ fields separator right := by
  induction left with
  | nil =>
    rw [List.nil_append, fields]
    cases pieces : fields separator right with
    | nil => exact absurd pieces (fields_ne_nil right)
    | cons piece more => simp [fields, isMark, pieces]
  | cons c left inductionHypothesis =>
    rw [List.cons_append, fields, inductionHypothesis, fields]
    cases pieces : fields separator left with
    | nil => exact absurd pieces (fields_ne_nil left)
    | cons piece more => by_cases isSeparator : separator c <;> simp [isSeparator]

theorem fields_of_not_mem {mark : Char} {text : Text} (free : mark ∉ text) :
    fields (· == mark) text = [text] := by
  apply fields_of_free
  intro c member
  exact beq_false_of_ne fun same => free (same ▸ member)

/-- Texts that are joined by a separator are its pieces. -/
theorem fields_join {mark : Char} {first : Text} {rest : List Text}
    (free : ∀ text ∈ first :: rest, mark ∉ text) :
    fields (· == mark) (join [mark] (first :: rest)) = first :: rest := by
  induction rest generalizing first with
  | nil => exact fields_of_not_mem (free first List.mem_cons_self)
  | cons second rest inductionHypothesis =>
    have split : join [mark] (first :: second :: rest) =
        first ++ mark :: join [mark] (second :: rest) := by
      simp [join]
    rw [split, fields_append_separator (by simp),
      fields_of_not_mem (free first List.mem_cons_self),
      inductionHypothesis fun text member => free text (List.mem_cons_of_mem first member)]
    rfl

theorem not_mem_join {mark : Char} {separator : Text} {texts : List Text}
    (free : ∀ text ∈ texts, mark ∉ text) (other : mark ∉ separator) :
    mark ∉ join separator texts := by
  induction texts with
  | nil => exact List.not_mem_nil
  | cons first rest inductionHypothesis =>
    have here := free first List.mem_cons_self
    have there := inductionHypothesis
      fun text member => free text (List.mem_cons_of_mem first member)
    cases rest with
    | nil => exact here
    | cons second rest => simp_all [join]

/-- Texts that are closed by a separator each are its pieces, and nothing is behind the last. -/
theorem fields_closed {mark : Char} {texts : List Text} (free : ∀ text ∈ texts, mark ∉ text) :
    fields (· == mark) (texts.flatMap (· ++ [mark])) = texts ++ [[]] := by
  induction texts with
  | nil => rfl
  | cons first rest inductionHypothesis =>
    rw [List.flatMap_cons, List.append_assoc, List.singleton_append,
      fields_append_separator (by simp), fields_of_not_mem (free first List.mem_cons_self),
      inductionHypothesis fun text member => free text (List.mem_cons_of_mem first member)]
    rfl

theorem cutLast?_eq_some_iff {mark : Char} {text left right : Text} :
    cutLast? mark text = some (left, right) ↔ text = left ++ mark :: right ∧ mark ∉ right := by
  rw [cutLast?, Option.map_eq_some_iff]
  constructor
  · rintro ⟨⟨back, front⟩, found, same⟩
    obtain ⟨rfl, rfl⟩ := Prod.mk.inj same
    have whole := congrArg List.reverse (cut?_eq_some found)
    rw [List.reverse_reverse] at whole
    exact ⟨by simpa using whole, by simpa using not_mem_of_cut? found⟩
  · rintro ⟨rfl, free⟩
    refine ⟨(right.reverse, left.reverse), ?_, by simp⟩
    rw [List.reverse_append, List.reverse_cons, List.append_assoc, List.singleton_append]
    exact cut?_append (by simpa using free) left.reverse

theorem cutLast?_eq_none_iff {mark : Char} {text : Text} :
    cutLast? mark text = none ↔ mark ∉ text := by
  constructor
  · intro uncut member
    obtain ⟨back, front, whole, free⟩ :=
      List.eq_append_cons_of_mem (List.mem_reverse.mpr member)
    rw [cutLast?, whole, cut?_append free] at uncut
    simp at uncut
  · intro free
    rw [Option.eq_none_iff_forall_ne_some]
    rintro ⟨left, right⟩ found
    exact free ((cutLast?_eq_some_iff.mp found).1 ▸ by simp)

end Text

namespace Path

variable {base name relative : Text}

/-! ### Joined paths -/

theorem isPlain_iff : isPlain name = true ↔
    name ≠ [] ∧ name ≠ ("." : Text) ∧ name ≠ (".." : Text) ∧ '/' ∉ name := by
  simp [isPlain, and_assoc]

/-- The part of a joined path that stands before the relative path. -/
def lead (base : Text) : Text :=
  if base.isEmpty || ends "/" base then base else base ++ "/"

theorem join_of_relative (isRelative : begins "/" relative = false) :
    join base relative = lead base ++ relative := by
  rw [join, if_neg (by rw [isRelative]; decide), lead]
  split <;> rfl

theorem begins_slash_of_free (free : '/' ∉ name) : begins "/" name = false := by
  cases name with
  | nil => rfl
  | cons c rest =>
    have different : '/' ≠ c := fun same => free (same ▸ List.mem_cons_self)
    simp [begins, List.isPrefixOf, different]

theorem join_of_free (free : '/' ∉ name) : join base name = lead base ++ name :=
  join_of_relative (begins_slash_of_free free)

/-- Different names in a directory have different paths. -/
theorem join_injective {other : Text} (free : '/' ∉ name) (otherFree : '/' ∉ other)
    (same : join base name = join base other) : name = other := by
  rw [join_of_free free, join_of_free otherFree] at same
  exact List.append_cancel_left same

/-- The lead of a path is empty, or its last character is a slash. -/
theorem lead_cases (base : Text) :
    lead base = [] ∧ base = [] ∨ ∃ front, lead base = front ++ ['/'] ∧
      (base = front ++ ['/'] ∨ base = front ∧ base ≠ []) := by
  rw [lead]
  split
  · rename_i short
    rcases Bool.or_eq_true _ _ ▸ short with empty | closed
    · exact .inl ⟨List.isEmpty_iff.mp empty, List.isEmpty_iff.mp empty⟩
    · obtain ⟨front, whole⟩ := List.isSuffixOf_iff_suffix.mp closed
      exact .inr ⟨front, whole.symm, .inl whole.symm⟩
  · rename_i long
    simp only [Bool.or_eq_true, not_or] at long
    exact .inr ⟨base, rfl, .inr ⟨rfl, fun empty => long.1 (by simp [empty])⟩⟩

/-- The pieces of a joined path end in those of the relative path. -/
theorem exists_fields_join (base : Text) (isRelative : begins "/" relative = false) :
    ∃ pieces, fields (· == '/') (join base relative) = pieces ++ fields (· == '/') relative := by
  rw [join_of_relative isRelative]
  rcases lead_cases base with ⟨empty, -⟩ | ⟨front, closed, -⟩
  · exact ⟨[], by rw [empty]; rfl⟩
  · refine ⟨fields (· == '/') front, ?_⟩
    rw [closed, List.append_assoc, List.singleton_append]
    exact fields_append_separator (by rfl) front relative

theorem fields_of_isPlain (plain : isPlain name = true) : fields (· == '/') name = [name] :=
  fields_of_not_mem (isPlain_iff.mp plain).2.2.2

theorem component?_of_isPlain (plain : isPlain name = true) (first : Bool) :
    component? first name = some (.name name) := by
  obtain ⟨filled, notCurrent, notParent, -⟩ := isPlain_iff.mp plain
  rw [component?, if_neg (by simpa using filled), if_neg (by simpa using notCurrent),
    if_neg (by simpa using notParent)]

/-- A plain name at the end of a path is its file name. -/
theorem fileName?_join (plain : isPlain name = true) (base : Text) :
    fileName? (join base name) = some name := by
  have isRelative := begins_slash_of_free (isPlain_iff.mp plain).2.2.2
  obtain ⟨pieces, cut⟩ := exists_fields_join base isRelative
  rw [fields_of_isPlain plain] at cut
  have last : (components (join base name)).getLast? = some (.name name) := by
    rw [components, cut]
    cases pieces with
    | nil => simp [component?_of_isPlain plain]
    | cons first more => simp [component?_of_isPlain plain, List.filterMap_append]
  rw [fileName?, last]

/-! ### Stems -/

/-- A file name is cut at its last dot, which must not come first. -/
theorem cutName?_eq_some_iff {stem extension : Text} :
    cutName? name = some (stem, extension) ↔
      name = stem ++ '.' :: extension ∧ stem ≠ [] ∧ '.' ∉ extension := by
  rw [cutName?]
  split
  · rename_i right found
    simp only [reduceCtorEq, false_iff]
    rintro ⟨whole, filled, free⟩
    rw [cutLast?_eq_some_iff.mpr ⟨whole, free⟩] at found
    exact filled (Prod.mk.inj (Option.some.inj found)).1
  · rename_i notFirst
    rw [cutLast?_eq_some_iff]
    constructor
    · rintro ⟨whole, free⟩
      refine ⟨whole, ?_, free⟩
      rintro rfl
      exact notFirst extension (cutLast?_eq_some_iff.mpr ⟨whole, free⟩)
    · rintro ⟨whole, -, free⟩
      exact ⟨whole, free⟩

/-- A file name stays whole when it has no dot behind its first character. -/
theorem cutName?_eq_none_iff : cutName? name = none ↔ '.' ∉ name.tail := by
  constructor
  · intro uncut dotted
    cases found : cutLast? '.' name with
    | none => exact cutLast?_eq_none_iff.mp found (List.mem_of_mem_tail dotted)
    | some parts =>
      obtain ⟨whole, free⟩ := cutLast?_eq_some_iff.mp found
      cases front : parts.1 with
      | nil =>
        rw [whole, front] at dotted
        exact free (by simpa using dotted)
      | cons c rest =>
        have cut := cutName?_eq_some_iff.mpr ⟨whole, by simp [front], free⟩
        simp [uncut] at cut
  · intro free
    rw [Option.eq_none_iff_forall_ne_some]
    rintro ⟨stem, extension⟩ cut
    obtain ⟨rfl, filled, -⟩ := cutName?_eq_some_iff.mp cut
    cases stem with
    | nil => exact filled rfl
    | cons c rest => exact free (by simp)

end Path

end Unpacking
