import Mathlib.Data.List.Basic
import Mathlib.Data.List.TakeWhile
import Unpacking.Text.Reading

/-!
What readers take off a text, and what a carriage return at its end changes: a reader that needs
something behind the blanks gives the same answer with and without it.
-/

namespace Unpacking.Text

/-! ### What is taken and what is left -/

/-- A run and the rest make up the text, and the run has characters of its class only. -/
theorem run?_eq_some {inClass : Char → Bool} {text word rest : Text}
    (found : run? inClass text = some (word, rest)) :
    text = word ++ rest ∧ word ≠ [] ∧ ∀ c ∈ word, inClass c = true := by
  have whole := List.takeWhile_append_dropWhile (p := inClass) (l := text)
  have members : ∀ c ∈ text.takeWhile inClass, inClass c = true :=
    fun c member => List.mem_takeWhile_imp member
  simp only [run?] at found
  split at found
  · simp at found
  · rename_i c more taken
    simp only [Option.some.injEq, Prod.mk.injEq] at found
    obtain ⟨rfl, rfl⟩ := found
    rw [taken] at whole members
    exact ⟨whole.symm, by simp, members⟩

theorem dropWhile_of_run? {inClass : Char → Bool} {text word rest : Text}
    (found : run? inClass text = some (word, rest)) : text.dropWhile inClass = rest := by
  simp only [run?] at found
  split at found
  · simp at found
  · simp only [Option.some.injEq, Prod.mk.injEq] at found
    exact found.2

theorem after?_eq_some {word text rest : Text} (found : after? word text = some rest) :
    text = word ++ rest := by
  fun_induction after? word text with
  | case1 text => simpa using found
  | case2 w word tail inductionHypothesis => rw [inductionHypothesis found, List.cons_append]
  | case3 => simp at found
  | case4 => simp at found

theorem after?_append (word rest : Text) : after? word (word ++ rest) = some rest := by
  induction word with
  | nil => rfl
  | cons w word inductionHypothesis =>
      rw [List.cons_append, after?, if_pos rfl, inductionHypothesis]

theorem suffix_of_after? {word text rest : Text} (found : after? word text = some rest) :
    rest <:+ text := by
  rw [after?_eq_some found]
  exact List.suffix_append word rest

theorem getD_after?_suffix (word text : Text) : (after? word text).getD text <:+ text := by
  cases found : after? word text with
  | none => exact List.suffix_rfl
  | some rest => exact suffix_of_after? found

theorem trimStart_suffix (text : Text) : trimStart text <:+ text :=
  List.dropWhile_suffix _

theorem blanks_of_afterBlanks? {text rest : Text} (found : afterBlanks? text = some rest) :
    ∃ blanks, text = blanks ++ rest ∧ blanks ≠ [] ∧ ∀ c ∈ blanks, isBlank c = true := by
  cases text with
  | nil => simp [afterBlanks?] at found
  | cons c text =>
      simp only [afterBlanks?] at found
      split at found
      · rename_i blank
        rw [Option.some.injEq] at found
        refine ⟨c :: text.takeWhile isBlank, ?_, List.cons_ne_nil _ _, ?_⟩
        · rw [← found, trimStart, List.cons_append, List.takeWhile_append_dropWhile]
        · exact List.forall_mem_cons.mpr ⟨blank, fun d member => List.mem_takeWhile_imp member⟩
      · simp at found

theorem suffix_of_afterBlanks? {text rest : Text} (found : afterBlanks? text = some rest) :
    rest <:+ text := by
  obtain ⟨blanks, rfl, -, -⟩ := blanks_of_afterBlanks? found
  exact List.suffix_append blanks rest

theorem cut?_eq_some {mark : Char} {text left right : Text}
    (found : cut? mark text = some (left, right)) : text = left ++ mark :: right := by
  induction text generalizing left with
  | nil => simp [cut?] at found
  | cons c text inductionHypothesis =>
      simp only [cut?] at found
      split at found
      · rename_i isMark
        simp only [Option.some.injEq, Prod.mk.injEq] at found
        rw [← found.1, ← found.2, isMark, List.nil_append]
      · simp only [Option.map_eq_some_iff, Prod.mk.injEq, Prod.exists] at found
        obtain ⟨inner, _, split, rfl, rfl⟩ := found
        rw [List.cons_append, ← inductionHypothesis split]

theorem suffix_of_cut? {mark : Char} {text left right : Text}
    (found : cut? mark text = some (left, right)) : right <:+ text := by
  rw [cut?_eq_some found]
  exact (List.suffix_cons mark right).trans (List.suffix_append left _)

theorem suffix_of_mem_closings {allowed : Char → Bool} {text left right : Text}
    (member : (left, right) ∈ closings allowed text) : right <:+ text := by
  induction text generalizing left with
  | nil => simp [closings] at member
  | cons c text inductionHypothesis =>
      have deeper (inside : (left, right) ∈ if allowed c then
          (closings allowed text).map fun way => (c :: way.1, way.2) else []) :
          right <:+ c :: text := by
        split at inside
        · simp only [List.mem_map, Prod.mk.injEq, Prod.exists] at inside
          obtain ⟨inner, _, split, rfl, rfl⟩ := inside
          exact (inductionHypothesis split).trans (List.suffix_cons c text)
        · simp at inside
      simp only [closings] at member
      split at member
      · rcases List.mem_append.mp member with inside | here
        · exact deeper inside
        · simp only [List.mem_singleton, Prod.mk.injEq] at here
          rw [here.2]
          exact List.suffix_cons c text
      · exact deeper member

theorem afterBrackets_suffix (text : Text) : afterBrackets text <:+ text := by
  fun_induction afterBrackets text with
  | case1 rest inductionHypothesis =>
      exact inductionHypothesis.trans ((List.suffix_cons ']' rest).trans (List.suffix_cons '[' _))
  | case2 text => exact List.suffix_rfl

/-- A name is a run of name characters. -/
def IsName (name : Text) : Prop :=
  name ≠ [] ∧ ∀ c ∈ name, isNameCharacter c = true

/-! ### Repeated items -/

/-- An item takes a character at least. -/
def Shrinks {α : Type} (item : Text → Option (α × Text)) : Prop :=
  ∀ {text first rest}, item text = some (first, rest) → rest <:+ text ∧ rest.length < text.length

theorem Shrinks.nil {α : Type} {item : Text → Option (α × Text)} (shrinks : Shrinks item) :
    item [] = none := by
  cases read : item [] with
  | none => rfl
  | some found => exact absurd (shrinks read).2 (Nat.not_lt_zero _)

theorem repeatsUpTo_of_none {α : Type} {item : Text → Option (α × Text)} {text : Text}
    (stop : item text = none) (limit : Nat) : repeatsUpTo item limit text = [([], text)] := by
  cases limit <;> simp [repeatsUpTo, stop]

/-- A limit beyond the length of the text changes nothing. -/
theorem repeatsUpTo_of_length_le {α : Type} {item : Text → Option (α × Text)}
    (shrinks : Shrinks item) (text : Text) {limit : Nat} (enough : text.length ≤ limit) :
    repeatsUpTo item limit text = repeats item text := by
  rw [repeats]
  induction limit using Nat.strongRecOn generalizing text with
  | ind limit inductionHypothesis =>
      cases read : item text with
      | none => rw [repeatsUpTo_of_none read, repeatsUpTo_of_none read]
      | some found =>
          obtain ⟨first, rest⟩ := found
          have shorter := (shrinks read).2
          obtain ⟨size, sized⟩ := Nat.exists_eq_succ_of_ne_zero (n := text.length) (by omega)
          obtain ⟨fuel, rfl⟩ := Nat.exists_eq_succ_of_ne_zero (n := limit) (by omega)
          have here := inductionHypothesis fuel (Nat.lt_succ_self fuel) rest (by omega)
          have there := inductionHypothesis size (by omega) rest (by omega)
          rw [sized]
          simp only [repeatsUpTo, read, here, there]

/-- The ways to read items are those behind the first item, and not to read any. -/
theorem repeats_of_some {α : Type} {item : Text → Option (α × Text)} (shrinks : Shrinks item)
    {text rest : Text} {first : α} (read : item text = some (first, rest)) :
    repeats item text =
      ((repeats item rest).map fun (items, left) => (first :: items, left)) ++ [([], text)] := by
  have shorter := (shrinks read).2
  obtain ⟨size, sized⟩ := Nat.exists_eq_succ_of_ne_zero (n := text.length) (by omega)
  rw [repeats, sized]
  simp only [repeatsUpTo, read]
  rw [repeatsUpTo_of_length_le shrinks rest (by omega)]

theorem repeats_of_none {α : Type} {item : Text → Option (α × Text)} {text : Text}
    (stop : item text = none) : repeats item text = [([], text)] :=
  repeatsUpTo_of_none stop text.length

/-- Induction over the items at the front of a text. -/
theorem itemwise {α : Type} {item : Text → Option (α × Text)} (shrinks : Shrinks item)
    {motive : Text → Prop} (stop : ∀ text, item text = none → motive text)
    (more : ∀ text first rest, item text = some (first, rest) → motive rest → motive text)
    (text : Text) : motive text := by
  induction equal : text.length using Nat.strongRecOn generalizing text with
  | ind size inductionHypothesis =>
      cases read : item text with
      | none => exact stop text read
      | some found =>
          have shorter := (shrinks read).2
          exact more text found.1 found.2 read
            (inductionHypothesis found.2.length (equal ▸ shorter) found.2 rfl)

theorem suffix_of_mem_repeats {α : Type} {item : Text → Option (α × Text)}
    (shrinks : Shrinks item) {text rest : Text} {items : List α}
    (member : (items, rest) ∈ repeats item text) : rest <:+ text := by
  induction text using itemwise shrinks generalizing items with
  | stop text read =>
      rw [repeats_of_none read, List.mem_singleton, Prod.mk.injEq] at member
      obtain ⟨-, rfl⟩ := member
      exact List.suffix_rfl
  | more text first next read inductionHypothesis =>
      rw [repeats_of_some shrinks read, List.mem_append] at member
      rcases member with inside | here
      · simp only [List.mem_map, Prod.mk.injEq, Prod.exists] at inside
        obtain ⟨inner, _, split, rfl, rfl⟩ := inside
        exact (inductionHypothesis split).trans (shrinks read).1
      · rw [List.mem_singleton, Prod.mk.injEq] at here
        obtain ⟨-, rfl⟩ := here
        exact List.suffix_rfl

/-- Every item takes a character at least. -/
theorem length_of_mem_repeats {α : Type} {item : Text → Option (α × Text)}
    (shrinks : Shrinks item) {text rest : Text} {items : List α}
    (member : (items, rest) ∈ repeats item text) : items.length + rest.length ≤ text.length := by
  induction text using itemwise shrinks generalizing items with
  | stop text read =>
      rw [repeats_of_none read, List.mem_singleton, Prod.mk.injEq] at member
      simp [member.1, member.2]
  | more text first left read inductionHypothesis =>
      rw [repeats_of_some shrinks read, List.mem_append, List.mem_map, List.mem_singleton,
        Prod.mk.injEq] at member
      rcases member with ⟨⟨inner, tail⟩, inside, same⟩ | ⟨rfl, rfl⟩
      · obtain ⟨rfl, rfl⟩ := Prod.mk.inj same
        have shorter := (shrinks read).2
        have later := inductionHypothesis inside
        simp only [List.length_cons]
        omega
      · simp

theorem afterItems_of_none {α : Type} {item : Text → Option (α × Text)} {text : Text}
    (stop : item text = none) : afterItems item text = text := by
  simp [afterItems, repeats_of_none stop]

theorem afterItems_of_some {α : Type} {item : Text → Option (α × Text)} (shrinks : Shrinks item)
    {text rest : Text} {first : α} (read : item text = some (first, rest)) :
    afterItems item text = afterItems item rest := by
  have nonempty : repeats item rest ≠ [] := by
    cases next : item rest with
    | none => simp [repeats_of_none next]
    | some found => simp [repeats_of_some shrinks next]
  obtain ⟨way, ways, found⟩ := List.exists_cons_of_ne_nil nonempty
  simp [afterItems, repeats_of_some shrinks read, found]

theorem afterItems_suffix {α : Type} {item : Text → Option (α × Text)} (shrinks : Shrinks item)
    (text : Text) : afterItems item text <:+ text := by
  induction text using itemwise shrinks with
  | stop text read =>
      exact ⟨[], by rw [afterItems_of_none read, List.nil_append]⟩
  | more text first rest read inductionHypothesis =>
      rw [afterItems_of_some shrinks read]
      exact inductionHypothesis.trans (shrinks read).1

/-- If nothing is found where an item could still be read, the search may stop behind the items. -/
theorem findSome?_repeats {α β : Type} {item : Text → Option (α × Text)} (shrinks : Shrinks item)
    {found : Text → Option β} (fails : ∀ text, item text ≠ none → found text = none)
    (text : Text) :
    (repeats item text).findSome? (fun way => found way.2) = found (afterItems item text) := by
  induction text using itemwise shrinks with
  | stop text read => simp [repeats_of_none read, afterItems_of_none read]
  | more text first rest read inductionHypothesis =>
      have here : found text = none := fails text (by simp [read])
      rw [repeats_of_some shrinks read, afterItems_of_some shrinks read, ← inductionHypothesis,
        List.findSome?_append, List.findSome?_map]
      simp [here, Function.comp_def]

/-! ### Places behind blanks -/

/-- A rest that begins where its text begins, or right behind a blank of it. -/
def IsBehindBlank (text rest : Text) : Prop :=
  ∃ head, text = head ++ rest ∧ ∀ c, head.getLast? = some c → isBlank c = true

namespace IsBehindBlank

theorem refl (text : Text) : IsBehindBlank text text :=
  ⟨[], rfl, by simp⟩

theorem trans {text mid rest : Text} (first : IsBehindBlank text mid)
    (second : IsBehindBlank mid rest) : IsBehindBlank text rest := by
  obtain ⟨head, rfl, blank⟩ := first
  obtain ⟨more, rfl, alsoBlank⟩ := second
  refine ⟨head ++ more, (List.append_assoc _ _ _).symm, fun c last => ?_⟩
  cases more with
  | nil => exact blank c (by simpa using last)
  | cons d more =>
      rw [List.getLast?_append_of_ne_nil _ (List.cons_ne_nil d more)] at last
      exact alsoBlank c last

theorem suffix {text rest : Text} (behind : IsBehindBlank text rest) : rest <:+ text := by
  obtain ⟨head, rfl, -⟩ := behind
  exact List.suffix_append head rest

theorem of_afterBlanks? {text mid rest : Text} (inside : mid <:+ text)
    (found : afterBlanks? mid = some rest) : IsBehindBlank text rest := by
  obtain ⟨head, rfl⟩ := inside
  obtain ⟨blanks, rfl, filled, blank⟩ := blanks_of_afterBlanks? found
  refine ⟨head ++ blanks, (List.append_assoc _ _ _).symm, fun c last => ?_⟩
  rw [List.getLast?_append_of_ne_nil _ filled] at last
  exact blank c (List.mem_of_getLast? last)

theorem trimStart (text : Text) : IsBehindBlank text (trimStart text) :=
  ⟨text.takeWhile isBlank, List.takeWhile_append_dropWhile.symm,
    fun _ last => List.mem_takeWhile_imp (List.mem_of_getLast? last)⟩

/-- Items that end with a blank leave a rest behind a blank. -/
theorem of_mem_repeats {α : Type} {item : Text → Option (α × Text)} (shrinks : Shrinks item)
    (behind : ∀ {text first rest}, item text = some (first, rest) → IsBehindBlank text rest)
    {text rest : Text} {items : List α} (member : (items, rest) ∈ repeats item text) :
    IsBehindBlank text rest := by
  induction text using itemwise shrinks generalizing items with
  | stop text read =>
      rw [repeats_of_none read, List.mem_singleton, Prod.mk.injEq] at member
      rw [member.2]
      exact refl text
  | more text first left read inductionHypothesis =>
      rw [repeats_of_some shrinks read, List.mem_append, List.mem_map, List.mem_singleton,
        Prod.mk.injEq] at member
      rcases member with ⟨⟨inner, tail⟩, inside, same⟩ | ⟨-, rfl⟩
      · obtain ⟨-, rfl⟩ := Prod.mk.inj same
        exact (behind read).trans (inductionHypothesis inside)
      · exact refl rest

theorem afterItems {α : Type} {item : Text → Option (α × Text)} (shrinks : Shrinks item)
    (behind : ∀ {text first rest}, item text = some (first, rest) → IsBehindBlank text rest)
    (text : Text) : IsBehindBlank text (afterItems item text) := by
  rw [Text.afterItems]
  split
  · rename_i items rest more found
    exact of_mem_repeats shrinks behind (found ▸ List.mem_cons_self)
  · exact refl text

end IsBehindBlank

theorem oneOf?_eq_some {words : List Text} {text word rest : Text}
    (found : oneOf? words text = some (word, rest)) :
    ∃ behind, text = word ++ behind ∧ afterBlanks? behind = some rest := by
  obtain ⟨listed, -, read⟩ := List.exists_of_findSome?_eq_some found
  simp only [Option.bind_eq_bind, Option.bind_eq_some_iff, Option.pure_def, Option.some.injEq,
    Prod.mk.injEq] at read
  obtain ⟨behind, taken, rest, blanks, rfl, rfl⟩ := read
  exact ⟨behind, after?_eq_some taken, blanks⟩

theorem isBehindBlank_oneOf? {words : List Text} {text word rest : Text}
    (found : oneOf? words text = some (word, rest)) : IsBehindBlank text rest := by
  obtain ⟨behind, rfl, blanks⟩ := oneOf?_eq_some found
  exact .of_afterBlanks? (List.suffix_append word behind) blanks

theorem shrinks_oneOf? (words : List Text) : Shrinks (oneOf? words) := by
  intro text word rest found
  obtain ⟨behind, rfl, blanks⟩ := oneOf?_eq_some found
  obtain ⟨between, rfl, filled, -⟩ := blanks_of_afterBlanks? blanks
  have positive := List.length_pos_iff.mpr filled
  refine ⟨(List.suffix_append between rest).trans (List.suffix_append word _), ?_⟩
  simp only [List.length_append]
  omega

/-! ### A mark behind the text that no reader passes -/

section Marks

variable {mark : Char}

theorem takeWhile_append_mark {inClass : Char → Bool} (stops : inClass mark = false)
    (text rest : Text) : (text ++ mark :: rest).takeWhile inClass = text.takeWhile inClass := by
  induction text with
  | nil => simp [stops]
  | cons c text inductionHypothesis =>
      rw [List.cons_append, List.takeWhile_cons, List.takeWhile_cons, inductionHypothesis]

theorem dropWhile_append_mark {inClass : Char → Bool} (stops : inClass mark = false)
    (text rest : Text) :
    (text ++ mark :: rest).dropWhile inClass = text.dropWhile inClass ++ mark :: rest := by
  induction text with
  | nil => simp [stops]
  | cons c text inductionHypothesis =>
      rw [List.cons_append, List.dropWhile_cons, List.dropWhile_cons, inductionHypothesis]
      split <;> rfl

theorem run?_append_mark {inClass : Char → Bool} (stops : inClass mark = false)
    (text rest : Text) :
    run? inClass (text ++ mark :: rest) =
      (run? inClass text).map fun read => (read.1, read.2 ++ mark :: rest) := by
  rw [run?, run?, takeWhile_append_mark stops, dropWhile_append_mark stops]
  cases text.takeWhile inClass <;> rfl

theorem after?_append_mark {word : Text} (free : mark ∉ word) (text rest : Text) :
    after? word (text ++ mark :: rest) = (after? word text).map (· ++ mark :: rest) := by
  induction word generalizing text with
  | nil => simp [after?]
  | cons w word inductionHypothesis =>
      simp only [List.mem_cons, not_or] at free
      cases text with
      | nil => simp [after?, Ne.symm free.1]
      | cons c text =>
          simp only [List.cons_append, after?, inductionHypothesis free.2]
          split <;> rfl

end Marks

/-! ### A carriage return behind the text -/

theorem run?_append_return {inClass : Char → Bool} (stops : inClass '\r' = false) (text : Text) :
    run? inClass (text ++ ['\r']) =
      (run? inClass text).map fun (word, rest) => (word, rest ++ ['\r']) :=
  run?_append_mark stops text []

theorem after?_append_return {word : Text} (free : '\r' ∉ word) (text : Text) :
    after? word (text ++ ['\r']) = (after? word text).map (· ++ ['\r']) :=
  after?_append_mark free text []

theorem cut?_append_return {mark : Char} (other : mark ≠ '\r') (text : Text) :
    cut? mark (text ++ ['\r']) =
      (cut? mark text).map fun (left, right) => (left, right ++ ['\r']) := by
  induction text with
  | nil => simp [cut?, Ne.symm other]
  | cons c text inductionHypothesis =>
      simp only [List.cons_append, cut?, inductionHypothesis]
      split
      · rfl
      · simp [Function.comp_def]

theorem closings_append_return (allowed : Char → Bool) (text : Text) :
    closings allowed (text ++ ['\r']) =
      (closings allowed text).map fun (left, right) => (left, right ++ ['\r']) := by
  induction text with
  | nil => simp [closings]
  | cons c text inductionHypothesis =>
      simp only [List.cons_append, closings, inductionHypothesis]
      cases allowed c <;> by_cases closes : c = '>' <;> simp [closes, Function.comp_def]

theorem afterBrackets_append_return (text : Text) :
    afterBrackets (text ++ ['\r']) = afterBrackets text ++ ['\r'] := by
  fun_induction afterBrackets text with
  | case1 rest inductionHypothesis => simpa [afterBrackets] using inductionHypothesis
  | case2 text other =>
      rw [afterBrackets.eq_2]
      intro rest whole
      match text, whole with
      | [], whole => simp at whole
      | [c], whole => simp at whole
      | c :: d :: text, whole =>
          simp only [List.cons_append, List.cons.injEq] at whole
          exact other text (by rw [whole.1, whole.2.1])

theorem trimStart_append_return (text : Text) :
    trimStart (text ++ ['\r']) =
      if trimStart text = [] then [] else trimStart text ++ ['\r'] := by
  have blank : isBlank '\r' = true := by decide
  simp [trimStart, List.dropWhile_append, blank]

theorem mem_of_mem_trimEnd {text : Text} {c : Char} (member : c ∈ trimEnd text) : c ∈ text := by
  rw [trimEnd, List.mem_reverse] at member
  exact List.mem_reverse.mp ((List.dropWhile_suffix isBlank).mem member)

theorem trimEnd_append_return (text : Text) : trimEnd (text ++ ['\r']) = trimEnd text := by
  have blank : isBlank '\r' = true := by decide
  simp [trimEnd, blank]

/-- A carriage return stays behind the blanks, unless nothing else does. -/
theorem afterBlanks?_append_return (text : Text) :
    afterBlanks? (text ++ ['\r']) = (afterBlanks? text).map (· ++ ['\r']) ∨
      afterBlanks? (text ++ ['\r']) = some [] ∧
        (afterBlanks? text = none ∨ afterBlanks? text = some []) := by
  cases text with
  | nil =>
      have blank : isBlank '\r' = true := by decide
      simp [afterBlanks?, blank, trimStart]
  | cons c text =>
      simp only [List.cons_append, afterBlanks?, trimStart_append_return]
      by_cases blank : isBlank c
      · by_cases nothing : trimStart text = [] <;> simp [blank, nothing]
      · simp [blank]

/-- What needs more than a carriage return behind the blanks does not see one at the end. -/
theorem bind_afterBlanks?_append_return {β : Type} {next : Text → Option β}
    (empty : next [] = none) (lone : next ['\r'] = none) (text : Text) :
    (afterBlanks? (text ++ ['\r'])).bind next =
      (afterBlanks? text).bind fun rest => next (rest ++ ['\r']) := by
  rcases afterBlanks?_append_return text with passed | ⟨passed, ended | ended⟩
  · rw [passed, Option.bind_map]
    rfl
  · simp [passed, ended, empty]
  · simp [passed, ended, empty, lone]

/-- A carriage return behind the text passes through an item, or it lets a last item be read that
leaves nothing. -/
def PassesReturn {α : Type} (item : Text → Option (α × Text)) : Prop :=
  ∀ text, item (text ++ ['\r']) =
      (item text).map (fun (first, rest) => (first, rest ++ ['\r'])) ∨
    ∃ first, item (text ++ ['\r']) = some (first, []) ∧
      (item text = none ∨ item text = some (first, []))

/-- A search that finds nothing in an empty rest does not see a carriage return at the end. -/
theorem findSome?_repeats_append_return {α β : Type} {item : Text → Option (α × Text)}
    (shrinks : Shrinks item) (passes : PassesReturn item) {found : List α × Text → Option β}
    (empty : ∀ items, found (items, []) = none) (lone : ∀ items, found (items, ['\r']) = none)
    (text : Text) :
    (repeats item (text ++ ['\r'])).findSome? found =
      (repeats item text).findSome? fun way => found (way.1, way.2 ++ ['\r']) := by
  have nothing : repeats item [] = [([], [])] := repeats_of_none shrinks.nil
  induction text using itemwise shrinks generalizing found with
  | stop text read =>
      rcases passes text with passed | ⟨last, passed, -⟩
      · rw [read, Option.map_none] at passed
        simp [repeats_of_none read, repeats_of_none passed]
      · simp [repeats_of_none read, repeats_of_some shrinks passed, nothing, empty]
  | more text first rest read inductionHypothesis =>
      rcases passes text with passed | ⟨last, passed, ended | ended⟩
      · rw [read, Option.map_some] at passed
        have behind := @inductionHypothesis (fun way => found (first :: way.1, way.2))
          (fun items => empty (first :: items)) (fun items => lone (first :: items))
        rw [repeats_of_some shrinks read, repeats_of_some shrinks passed, List.findSome?_append,
          List.findSome?_append, List.findSome?_map, List.findSome?_map]
        simp only [Function.comp_def]
        rw [behind]
        rfl
      · rw [read] at ended
        simp at ended
      · rw [read, Option.some.injEq, Prod.mk.injEq] at ended
        obtain ⟨rfl, rfl⟩ := ended
        simp [repeats_of_some shrinks read, repeats_of_some shrinks passed, nothing, empty, lone]

end Unpacking.Text
