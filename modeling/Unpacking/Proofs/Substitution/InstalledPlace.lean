import Unpacking.Proofs.Substitution.Inert
import Unpacking.Proofs.Substitution.Literal
import Unpacking.Proofs.Text.Cuts
import Unpacking.Proofs.Text.Items

/-!
The places where an app is installed. Every access to the place of the package becomes the literal
of its path. The places of the data are replaced afterwards, in the literal as well, so it stays a
literal exactly if the path holds no access to such a place. Main statement:
`applicationInfo_literal`.
-/

namespace Unpacking.Substitution

open Text

/-! ### Accesses -/

/-- A link of a chain of accesses as it is written. -/
def IsLink (text : Text) : Prop :=
  ∃ name, IsName name ∧ (text = name ++ "." ∨ text = name ++ "().")

/-- An access to one of some names over at least one link. -/
def IsAccess (finals : List Text) (text : Text) : Prop :=
  ∃ links name, links ≠ [] ∧ (∀ link ∈ links, IsLink link) ∧ name ∈ finals ∧
    text = links.flatten ++ name

/-- A text with an access in it, behind which no word goes on. -/
def HoldsAccess (finals : List Text) (text : Text) : Prop :=
  ∃ left access right, text = left ++ (access ++ right) ∧ IsAccess finals access ∧
    isWordAt right.head? = false

variable {finals : List Text} {text rest : Text}

theorem link?_append {link : Text} (isLink : IsLink link) (rest : Text) :
    link? (link ++ rest) = some ((), rest) := by
  obtain ⟨name, ⟨filled, members⟩, rfl | rfl⟩ := isLink
  · have stops : ∀ c, (("." : Text) ++ rest).head? = some c → isNameCharacter c = false := by
      intro c first
      obtain rfl : '.' = c := Option.some.inj first
      decide
    rw [List.append_assoc, link?, run?_append filled members stops]
    rfl
  · have stops : ∀ c, (("()." : Text) ++ rest).head? = some c → isNameCharacter c = false := by
      intro c first
      obtain rfl : '(' = c := Option.some.inj first
      decide
    rw [List.append_assoc, link?, run?_append filled members stops]
    rfl

theorem exists_link_of_link? {read : Unit × Text} (found : link? text = some read) :
    ∃ link, IsLink link ∧ text = link ++ read.2 := by
  simp only [link?, Option.bind_eq_bind, Option.bind_eq_some_iff, Option.pure_def,
    Option.some.injEq, Prod.exists] at found
  obtain ⟨name, behind, taken, rest, dot, rfl⟩ := found
  obtain ⟨rfl, filled, members⟩ := run?_eq_some taken
  have dotted := after?_eq_some dot
  cases call : after? "()" behind with
  | none =>
      rw [call, Option.getD_none] at dotted
      exact ⟨name ++ ".", ⟨name, ⟨filled, members⟩, .inl rfl⟩, by
        rw [dotted, List.append_assoc]⟩
  | some inner =>
      rw [call, Option.getD_some] at dotted
      exact ⟨name ++ "().", ⟨name, ⟨filled, members⟩, .inr rfl⟩, by
        rw [after?_eq_some call, dotted, List.append_assoc]
        rfl⟩

theorem reads_links {links : List Text} (areLinks : ∀ link ∈ links, IsLink link) (rest : Text) :
    Reads link? (links.flatten ++ rest) (links.map fun _ => ()) rest := by
  induction links with
  | nil => exact .done rest
  | cons link links inductionHypothesis =>
      rw [List.forall_mem_cons] at areLinks
      rw [List.flatten_cons, List.append_assoc]
      exact .more (link?_append areLinks.1 _) (inductionHypothesis areLinks.2)

theorem exists_links_of_reads {items : List Unit} (reads : Reads link? text items rest) :
    ∃ links : List Text, links.length = items.length ∧ (∀ link ∈ links, IsLink link) ∧
      text = links.flatten ++ rest := by
  induction reads with
  | done text => exact ⟨[], rfl, by simp, rfl⟩
  | more read _ inductionHypothesis =>
      obtain ⟨link, isLink, whole⟩ := exists_link_of_link? read
      obtain ⟨links, length, areLinks, rfl⟩ := inductionHypothesis
      refine ⟨link :: links, by simp [length], List.forall_mem_cons.mpr ⟨isLink, areLinks⟩, ?_⟩
      rw [whole, List.flatten_cons, List.append_assoc]

/-- What a chain takes is an access. -/
theorem exists_access_of_chain? (found : chain? finals text = some rest) :
    ∃ access, IsAccess finals access ∧ text = access ++ rest ∧ isWordAt rest.head? = false := by
  obtain ⟨⟨items, behind⟩, member, read⟩ := List.exists_of_findSome?_eq_some found
  simp only at read
  split at read
  · simp at read
  · rename_i linked
    obtain ⟨name, listed, rfl, outside⟩ := final?_eq_some read
    obtain ⟨links, length, areLinks, rfl⟩ :=
      exists_links_of_reads ((mem_repeats_iff shrinks_link?).mp member)
    have filled : links ≠ [] := by
      rintro rfl
      simp [List.eq_nil_of_length_eq_zero length.symm] at linked
    exact ⟨links.flatten ++ name, ⟨links, name, filled, areLinks, listed, rfl⟩,
      (List.append_assoc _ _ _).symm, outside⟩

/-- Where an access begins, a chain is found. -/
theorem chain?_of_access {access : Text} (isAccess : IsAccess finals access)
    (outside : isWordAt rest.head? = false) : chain? finals (access ++ rest) ≠ none := by
  obtain ⟨links, name, filled, areLinks, listed, rfl⟩ := isAccess
  intro unchained
  have member := (mem_repeats_iff shrinks_link?).mpr (reads_links areLinks (name ++ rest))
  rw [← List.append_assoc] at member
  rw [chain?, List.findSome?_eq_none_iff] at unchained
  have unread := unchained _ member
  simp only [List.isEmpty_map, List.isEmpty_iff, if_neg filled, List.findSome?_eq_none_iff]
    at unread
  have here := unread name listed
  rw [after?_append] at here
  simp [outside] at here

/-- An access directly behind another one goes on with its chain. -/
theorem IsAccess.append {first second : Text} (named : ∀ name ∈ finals, IsName name)
    (isAccess : IsAccess finals first) (also : IsAccess finals second) :
    IsAccess finals (first ++ second) := by
  obtain ⟨links, name, filled, areLinks, listed, rfl⟩ := isAccess
  obtain ⟨_ | ⟨link, others⟩, last, some, areOthers, alsoListed, rfl⟩ := also
  · exact absurd rfl some
  · rw [List.forall_mem_cons] at areOthers
    have longer : IsLink (name ++ link) := by
      obtain ⟨inner, ⟨-, members⟩, isLink⟩ := areOthers.1
      have isName := named name listed
      refine ⟨name ++ inner, ⟨by simp [isName.1], ?_⟩, ?_⟩
      · exact fun c member => (List.mem_append.mp member).elim (isName.2 c) (members c)
      · rw [List.append_assoc, List.append_assoc]
        exact isLink.imp (congrArg (name ++ ·)) (congrArg (name ++ ·))
    refine ⟨links ++ (name ++ link) :: others, last, by simp, ?_, alsoListed, by simp⟩
    intro part member
    rcases List.mem_append.mp member with inFirst | inSecond
    · exact areLinks part inFirst
    · rcases List.mem_cons.mp inSecond with rfl | later
      · exact longer
      · exact areOthers.2 part later

theorem holdsAccess_iff :
    HoldsAccess finals text ↔ ∃ left right, text = left ++ right ∧ chain? finals right ≠ none := by
  constructor
  · rintro ⟨left, access, right, whole, isAccess, outside⟩
    exact ⟨left, access ++ right, whole, chain?_of_access isAccess outside⟩
  · rintro ⟨left, right, rfl, found⟩
    obtain ⟨rest, read⟩ := Option.ne_none_iff_exists'.mp found
    obtain ⟨access, isAccess, rfl, outside⟩ := exists_access_of_chain? read
    exact ⟨left, access, rest, rfl, isAccess, outside⟩

instance : Decidable (HoldsAccess finals text) :=
  decidable_of_iff ((Pattern.ofReader (chain? finals)).occurs none text = true)
    (Pattern.occurs_ofReader_iff.trans holdsAccess_iff.symm)

theorem consumes_chain? : Consumes (chain? finals) :=
  fun found => ⟨(chain?_eq_some found).1, (chain?_eq_some found).2.1⟩

theorem not_holdsAccess_nil : ¬HoldsAccess finals [] := by
  rw [holdsAccess_iff]
  rintro ⟨left, right, whole, found⟩
  rw [(List.append_eq_nil_iff.mp whole.symm).2] at found
  exact found consumes_chain?.nil

/-- A text without an access stays as it is. -/
theorem replaceAll_of_not_holdsAccess (absent : ¬HoldsAccess finals text)
    (replacement : Text → Text) :
    (Pattern.ofReader (chain? finals)).replaceAll replacement text = text := by
  apply Pattern.replaceFrom_of_none
  intro left right whole
  rw [holdsAccess_iff] at absent
  cases found : chain? finals right with
  | none => rw [Pattern.ofReader, found, Option.map_none]
  | some rest => exact absurd ⟨left, right, whole, by simp [found]⟩ absent

/-! ### The accesses of a line -/

/-- A line cut into its accesses to some names and the parts between them. No access is left in a
part. -/
structure Split (finals : List Text) (line : Text) where
  front : Text
  /-- The accesses, each with the part behind it. -/
  accesses : List (Text × Text)
  whole : line = front ++ accesses.flatMap fun access => access.1 ++ access.2
  isAccess : ∀ access ∈ accesses, IsAccess finals access.1
  free : ∀ part ∈ front :: accesses.map Prod.snd, ¬HoldsAccess finals part

theorem isAccess_of_cuts {front : Text} {pieces : List (Text × Text)}
    (cuts : Cuts (chain? finals) text front pieces) :
    ∀ piece ∈ pieces, IsAccess finals piece.1 := by
  induction cuts with
  | done => simp
  | kept _ _ inductionHypothesis => exact inductionHypothesis
  | found _ read _ inductionHypothesis =>
      obtain ⟨access, isAccess, whole, -⟩ := exists_access_of_chain? read
      rw [← List.append_cancel_right whole] at isAccess
      exact List.forall_mem_cons.mpr ⟨isAccess, inductionHypothesis⟩

theorem not_holdsAccess_of_cuts (named : ∀ name ∈ finals, IsName name) {front : Text}
    {pieces : List (Text × Text)} (cuts : Cuts (chain? finals) text front pieces) :
    ¬HoldsAccess finals front ∧ ∀ piece ∈ pieces, ¬HoldsAccess finals piece.2 := by
  induction cuts with
  | done => exact ⟨not_holdsAccess_nil, by simp⟩
  | found _ _ _ inductionHypothesis =>
      exact ⟨not_holdsAccess_nil, List.forall_mem_cons.mpr inductionHypothesis⟩
  | @kept c rest front pieces unread behind inductionHypothesis =>
      refine ⟨?_, inductionHypothesis.2⟩
      rintro ⟨_ | ⟨d, left⟩, access, right, whole, isAccess, outside⟩
      · rw [List.nil_append] at whole
        rcases behind.behind_front with ⟨rfl, -⟩ | ⟨piece, tail, rfl, read⟩
        · rw [whole] at unread
          exact chain?_of_access isAccess outside unread
        · rw [← List.cons_append, whole, List.append_assoc] at unread
          cases right with
          | cons e right =>
              have ends : isWordAt (e :: right ++ (piece ++ tail)).head? = false := outside
              exact chain?_of_access isAccess ends unread
          | nil =>
              -- The access goes up to the next one, which would have begun with it.
              obtain ⟨next, alsoAccess, same, ends⟩ := exists_access_of_chain? read
              rw [List.nil_append, same, ← List.append_assoc] at unread
              exact chain?_of_access (isAccess.append named alsoAccess) ends unread
      · exact inductionHypothesis.1
          ⟨left, access, right, (List.cons.inj whole).2, isAccess, outside⟩

/-- Every line is split into its accesses, and just these are replaced. -/
theorem exists_split (named : ∀ name ∈ finals, IsName name) (line : Text) :
    ∃ split : Split finals line, ∀ replacement : Text → Text,
      (Pattern.ofReader (chain? finals)).replaceAll replacement line =
        split.front ++ split.accesses.flatMap fun access => replacement access.1 ++ access.2 := by
  obtain ⟨front, pieces, cuts⟩ := exists_cuts (@consumes_chain? finals) line
  obtain ⟨inFront, inPieces⟩ := not_holdsAccess_of_cuts named cuts
  refine ⟨⟨front, pieces, cuts.eq_append, isAccess_of_cuts cuts, ?_⟩,
    Pattern.replaceAll_of_cuts cuts⟩
  rw [List.forall_mem_cons, List.forall_mem_map]
  exact ⟨inFront, inPieces⟩

theorem Split.accesses_ne_nil {line : Text} (split : Split finals line)
    (holds : HoldsAccess finals line) : split.accesses ≠ [] := by
  intro none
  have whole := split.whole
  rw [none, List.flatMap_nil, List.append_nil] at whole
  exact split.free split.front List.mem_cons_self (whole ▸ holds)

/-! ### Marks beside an access -/

/-- A character that no access has. -/
def IsApart (mark : Char) : Prop :=
  isNameCharacter mark = false ∧ mark ∉ ("()." : Text)

theorem isApart_quote : IsApart '"' := by
  constructor <;> decide

theorem isApart_backslash : IsApart '\\' := by
  constructor <;> decide

section Marks

variable {mark : Char} (apart : IsApart mark)

include apart in
theorem link?_append_mark (text rest : Text) :
    link? (text ++ mark :: rest) =
      (link? text).map fun read => (read.1, read.2 ++ mark :: rest) := by
  have noCall : mark ∉ ("()" : Text) := fun member => apart.2 (List.mem_append_left ['.'] member)
  have noDot : mark ∉ ("." : Text) := fun member =>
    apart.2 (List.mem_append_right ['(', ')'] member)
  rw [link?, link?, run?_append_mark apart.1]
  cases run? isNameCharacter text with
  | none => rfl
  | some read =>
      simp only [Option.map_some, Option.bind_eq_bind, Option.bind_some]
      rw [after?_append_mark noCall, Option.getD_map, after?_append_mark noDot]
      cases after? "." ((after? "()" read.2).getD read.2) <;> rfl

include apart in
theorem isWordAt_head?_append_mark (text rest : Text) :
    isWordAt (text ++ mark :: rest).head? = isWordAt text.head? := by
  cases text with
  | nil => exact (Bool.or_eq_false_iff.mp apart.1).1
  | cons c text => rfl

include apart in
theorem final?_append_mark (named : ∀ name ∈ finals, IsName name) (text rest : Text) :
    final? finals (text ++ mark :: rest) = (final? finals text).map (· ++ mark :: rest) := by
  induction finals with
  | nil => rfl
  | cons name finals inductionHypothesis =>
      rw [List.forall_mem_cons] at named
      have absent : mark ∉ name := fun member =>
        Bool.false_ne_true (apart.1.symm.trans (named.1.2 mark member))
      have others := inductionHypothesis named.2
      rw [final?, final?] at others
      rw [final?, final?, List.findSome?_cons, List.findSome?_cons, after?_append_mark absent,
        others]
      cases after? name text with
      | none => rfl
      | some behind =>
          simp only [Option.map_some, Option.bind_eq_bind, Option.bind_some,
            isWordAt_head?_append_mark apart]
          cases isWordAt behind.head? <;> rfl

theorem chain?_eq (finals : List Text) (text : Text) :
    chain? finals text = (repeats link? text).findSome? fun way =>
      if way.1.isEmpty then none else final? finals way.2 := rfl

include apart in
theorem chain?_append_mark (named : ∀ name ∈ finals, IsName name) (text rest : Text) :
    chain? finals (text ++ mark :: rest) = (chain? finals text).map (· ++ mark :: rest) := by
  have stops := fun text => link?_append_mark apart text rest
  rw [chain?_eq, chain?_eq, repeats_append shrinks_link? stops, List.findSome?_map,
    List.map_findSome?]
  congr 1
  funext way
  simp only [Function.comp_apply, final?_append_mark apart named]
  split <;> rfl

include apart in
theorem holdsAccess_append_mark (named : ∀ name ∈ finals, IsName name) :
    HoldsAccess finals (text ++ mark :: rest) ↔
      HoldsAccess finals text ∨ HoldsAccess finals rest := by
  have apartAt := chain?_append_mark apart named
  simp only [holdsAccess_iff]
  constructor
  · rintro ⟨left, right, whole, found⟩
    rcases List.append_eq_append_iff.mp whole with ⟨inner, rfl, behind⟩ | ⟨inner, rfl, rfl⟩
    · cases inner with
      | nil =>
          rw [List.nil_append] at behind
          rw [← behind, ← List.nil_append (mark :: rest), apartAt, consumes_chain?.nil] at found
          exact absurd rfl found
      | cons d inner => exact .inr ⟨inner, right, (List.cons.inj behind).2, found⟩
    · refine .inl ⟨left, inner, rfl, fun unread => ?_⟩
      rw [apartAt, unread] at found
      exact absurd rfl found
  · rintro (⟨left, right, rfl, found⟩ | ⟨left, right, rfl, found⟩)
    · refine ⟨left, right ++ mark :: rest, List.append_assoc left right _, ?_⟩
      rw [apartAt]
      simpa using found
    · exact ⟨text ++ mark :: left, right, by simp, found⟩

end Marks

/-! ### The literal of the package -/

/-- The working directory as the source asks for it. -/
def workingDirectory : Text :=
  "System.getProperty(\"user.dir\")"

/-- The places where the data of an app is kept become the working directory. -/
def replaceDataPlaces (line : Text) : Text :=
  (Pattern.ofReader (chain? ["dataDir"])).replaceAll (fun _ => workingDirectory) line

/-- What stands for the place of the package in the end. -/
def packagePlace (path : Text) : Text :=
  replaceDataPlaces (quoted path)

theorem isName_dataDir : ∀ name ∈ ([("dataDir" : Text)] : List Text), IsName name := by
  rw [List.forall_mem_singleton]
  exact ⟨by decide, List.all_eq_true.mp (by decide)⟩

theorem isName_sourceDir :
    ∀ name ∈ ([("publicSourceDir" : Text), ("sourceDir" : Text)] : List Text), IsName name := by
  rw [List.forall_mem_cons, List.forall_mem_singleton]
  exact ⟨⟨by decide, List.all_eq_true.mp (by decide)⟩, ⟨by decide, List.all_eq_true.mp (by decide)⟩⟩

theorem replaceDataPlaces_append_quote (text rest : Text) :
    replaceDataPlaces (text ++ '"' :: rest) =
      replaceDataPlaces text ++ '"' :: replaceDataPlaces rest := by
  have stops := fun text => chain?_append_mark isApart_quote isName_dataDir text rest
  have unread : chain? ["dataDir"] ('"' :: rest) = none := by
    have beginning := stops []
    rwa [consumes_chain?.nil] at beginning
  rw [replaceDataPlaces, Pattern.replaceAll_append consumes_chain? stops,
    Pattern.replaceAll_unread unread]
  rfl

theorem replaceDataPlaces_of_not_holdsAccess (absent : ¬HoldsAccess ["dataDir"] text) :
    replaceDataPlaces text = text :=
  replaceAll_of_not_holdsAccess absent _

theorem packagePlace_eq (path : Text) :
    packagePlace path = '"' :: (replaceDataPlaces (escaped path) ++ ['"']) := by
  have empty : replaceDataPlaces [] = [] := replaceDataPlaces_of_not_holdsAccess not_holdsAccess_nil
  have ends := replaceDataPlaces_append_quote (escaped path) []
  have begins := replaceDataPlaces_append_quote [] (escaped path ++ ['"'])
  rw [empty] at ends begins
  rw [packagePlace, quoted_eq, ← ends]
  exact begins

/-- Escapes neither make an access nor break one. -/
theorem holdsAccess_append_escaped (named : ∀ name ∈ finals, IsName name) (front text : Text) :
    HoldsAccess finals (front ++ escaped text) ↔ HoldsAccess finals (front ++ text) := by
  induction text generalizing front with
  | nil => rfl
  | cons c text inductionHypothesis =>
      have later := inductionHypothesis []
      rw [List.nil_append, List.nil_append] at later
      rw [escaped_cons]
      by_cases mark : c = '\\' ∨ c = '"'
      · have apart : IsApart c := by
          rcases mark with rfl | rfl
          · exact isApart_backslash
          · exact isApart_quote
        have inner := @holdsAccess_append_mark finals [] (escaped text) c apart named
        rw [escape_of_mark mark, List.cons_append,
          holdsAccess_append_mark isApart_backslash named, holdsAccess_append_mark apart named,
          ← later]
        rw [List.nil_append] at inner
        rw [List.singleton_append, inner, or_iff_right not_holdsAccess_nil]
      · have next := inductionHypothesis (front ++ [c])
        rw [escape_of_plain mark, ← List.append_assoc, next, List.append_assoc]
        rfl

theorem holdsAccess_escaped (path : Text) :
    HoldsAccess ["dataDir"] (escaped path) ↔ HoldsAccess ["dataDir"] path :=
  holdsAccess_append_escaped isName_dataDir [] path

/-- A path without an access to a place of data stays a literal. -/
theorem packagePlace_of_not_holdsAccess {path : Text} (absent : ¬HoldsAccess ["dataDir"] path) :
    packagePlace path = quoted path := by
  rw [← holdsAccess_escaped] at absent
  rw [packagePlace_eq, replaceDataPlaces_of_not_holdsAccess absent, quoted_eq]

/-- A working directory in a text brings in a quote that is not escaped. -/
theorem exists_quote_of_holdsAccess (holds : HoldsAccess ["dataDir"] text) :
    ∃ left right, replaceDataPlaces text = left ++ '"' :: right ∧ isEscaping left = false := by
  have asked : workingDirectory = ("System.getProperty" : Text) ++ '(' :: '"' :: "user.dir\")" := by
    decide
  obtain ⟨split, replaced⟩ := exists_split isName_dataDir text
  obtain ⟨access, others, some⟩ := List.exists_cons_of_ne_nil (split.accesses_ne_nil holds)
  refine ⟨split.front ++ "System.getProperty" ++ ['('], ("user.dir\")" : Text) ++ access.2 ++
    others.flatMap fun access => workingDirectory ++ access.2, ?_, ?_⟩
  · rw [replaceDataPlaces, replaced, some, List.flatMap_cons, asked]
    simp only [List.append_assoc, List.cons_append, List.nil_append]
  · rw [isEscaping_append_singleton]
    simp

theorem not_isLiteralOf_of_holdsAccess {path : Text} (holds : HoldsAccess ["dataDir"] path)
    (value : Text) : ¬IsLiteralOf value (packagePlace path) := by
  rintro ⟨⟨body, whole, -, escapes, -⟩, -⟩
  obtain ⟨left, right, inside, unescaped⟩ :=
    exists_quote_of_holdsAccess ((holdsAccess_escaped path).mpr holds)
  rw [packagePlace_eq] at whole
  have same := List.append_cancel_right (List.cons.inj whole).2
  have escaping := escapes left right (same ▸ inside)
  exact Bool.false_ne_true (unescaped.symm.trans escaping)

/-! ### Lines -/

/-- A line with a text in the place of each access, and without the places of the data. -/
def Split.fill {line : Text} (split : Split finals line) (place : Text) : Text :=
  replaceDataPlaces split.front ++
    split.accesses.flatMap fun access => place ++ replaceDataPlaces access.2

theorem replaceDataPlaces_parts (path front : Text) (accesses : List (Text × Text)) :
    replaceDataPlaces (front ++ accesses.flatMap fun access => quoted path ++ access.2) =
      replaceDataPlaces front ++
        accesses.flatMap fun access => packagePlace path ++ replaceDataPlaces access.2 := by
  induction accesses generalizing front with
  | nil => simp
  | cons access accesses inductionHypothesis =>
      have split : front ++ ((access :: accesses).flatMap fun access => quoted path ++ access.2) =
          front ++ '"' :: (escaped path ++ '"' ::
            (access.2 ++ accesses.flatMap fun access => quoted path ++ access.2)) := by
        simp [quoted_eq]
      rw [split, replaceDataPlaces_append_quote, replaceDataPlaces_append_quote,
        inductionHypothesis, List.flatMap_cons, packagePlace_eq]
      simp

/-- One split of a line serves for every path. -/
theorem exists_split_applicationInfo (line : Text) :
    ∃ split : Split ["publicSourceDir", "sourceDir"] line, ∀ path,
      applicationInfo path line = split.fill (packagePlace path) := by
  obtain ⟨split, replaced⟩ := exists_split isName_sourceDir line
  refine ⟨split, fun path => ?_⟩
  have first := congrArg replaceDataPlaces (replaced fun _ => quoted path)
  rw [replaceDataPlaces_parts] at first
  exact first

/-- The literals of different paths make different lines. -/
theorem Split.eq_of_fill_eq {line : Text} (split : Split finals line)
    (holds : HoldsAccess finals line) {path other : Text}
    (same : split.fill (quoted path) = split.fill (quoted other)) : path = other := by
  obtain ⟨access, others, some⟩ := List.exists_cons_of_ne_nil (split.accesses_ne_nil holds)
  rw [Split.fill, Split.fill, some, List.flatMap_cons, List.flatMap_cons, List.append_assoc,
    List.append_assoc] at same
  exact (quoted_append_inj (List.append_cancel_left same)).1

/-- Every access to the place of the package becomes the same text, which depends on the path only.
The literal of the path is written there at first. It stays if the path holds no access to a place
of data, and then different paths have different literals and different lines. If the path holds
such an access, what stands there in the end is no literal of any value. -/
theorem applicationInfo_literal (line : Text) :
    ∃ split : Split ["publicSourceDir", "sourceDir"] line, ∀ path, '\n' ∉ path →
      IsLiteralOf path (quoted path) ∧
      applicationInfo path line = split.fill (packagePlace path) ∧
      (¬HoldsAccess ["dataDir"] path → IsLiteralOf path (packagePlace path)) ∧
      (HoldsAccess ["dataDir"] path → ∀ value, ¬IsLiteralOf value (packagePlace path)) ∧
      ∀ other, path ≠ other → quoted path ≠ quoted other ∧
        (¬HoldsAccess ["dataDir"] path → ¬HoldsAccess ["dataDir"] other →
          packagePlace path ≠ packagePlace other ∧
          (HoldsAccess ["publicSourceDir", "sourceDir"] line →
            applicationInfo path line ≠ applicationInfo other line)) := by
  obtain ⟨split, filled⟩ := exists_split_applicationInfo line
  refine ⟨split, fun path unbroken => ?_⟩
  have literal := (isLiteralOf_iff unbroken).mpr rfl
  refine ⟨literal, filled path, ?_, not_isLiteralOf_of_holdsAccess, ?_⟩
  · intro absent
    rw [packagePlace_of_not_holdsAccess absent]
    exact literal
  · intro other differ
    refine ⟨fun same => differ (quoted_inj same), fun absent alsoAbsent => ?_⟩
    rw [filled path, filled other, packagePlace_of_not_holdsAccess absent,
      packagePlace_of_not_holdsAccess alsoAbsent]
    exact ⟨fun same => differ (quoted_inj same),
      fun holds same => differ (split.eq_of_fill_eq holds same)⟩

/-- A path with a quote in it, and with backslashes before the quote and at its end. -/
def drivePath : Text := "C:\\a\\\"b\\"

theorem applicationInfo_literal_drivePath :
    '\n' ∉ drivePath ∧ ¬HoldsAccess ["dataDir"] drivePath ∧
      IsLiteralOf drivePath (packagePlace drivePath) ∧
      applicationInfo drivePath "p = info.sourceDir;" =
        "p = \"C:\\\\a\\\\\\\"b\\\\\";" ∧
      applicationInfo drivePath "p = info.sourceDir;" ≠
        applicationInfo "C:\\a" "p = info.sourceDir;" := by
  have unbroken : '\n' ∉ drivePath := by decide
  have absent : ¬HoldsAccess ["dataDir"] drivePath := by decide
  obtain ⟨split, about⟩ := applicationInfo_literal "p = info.sourceDir;"
  obtain ⟨-, -, literal, -, differ⟩ := about drivePath unbroken
  have lines := (differ "C:\\a" (by decide)).2 absent (by decide)
  exact ⟨unbroken, absent, literal absent, by decide +kernel, lines.2 (by decide)⟩

/-- The places of the data are replaced in a literal as well. -/
theorem applicationInfo_of_dataDir_path :
    '\n' ∉ ("/apks/a.dataDir.apk" : Text) ∧
      applicationInfo "/apks/a.dataDir.apk" "p = info.sourceDir;" =
        "p = \"/apks/System.getProperty(\"user.dir\").apk\";" ∧
      (∀ value, ¬IsLiteralOf value "\"/apks/System.getProperty(\"user.dir\").apk\"") ∧
      applicationInfo "/apks/a.dataDir.apk" "p = info.sourceDir;" ≠
        "p = \"/apks/a.dataDir.apk\";" ∧
      applicationInfo "/apks/b.dataDir.apk" "p = info.sourceDir;" =
        applicationInfo "/apks/a.dataDir.apk" "p = info.sourceDir;" := by
  have place : packagePlace "/apks/a.dataDir.apk" =
      "\"/apks/System.getProperty(\"user.dir\").apk\"" := by
    decide +kernel
  refine ⟨by decide, by decide +kernel, ?_, by decide +kernel, by decide +kernel⟩
  rw [← place]
  exact not_isLiteralOf_of_holdsAccess (by decide)

end Unpacking.Substitution
