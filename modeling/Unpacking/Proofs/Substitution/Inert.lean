import Unpacking.Proofs.Reflection.Revision
import Unpacking.Substitution.Table

/-!
The substitutions for platform imports bring no term of reflection into a text, as long as the path
of the package holds none.
-/

namespace Unpacking.Substitution

open Text Line Reflection

variable {text : Text} {line : Line}

/-! ### Class loaders -/

theorem callArguments?_eq_some {nested : Bool} {arguments rest : Text}
    (found : callArguments? nested text = some (arguments, rest)) :
    text = arguments ++ ')' :: rest := by
  induction text generalizing nested arguments with
  | nil => simp [callArguments?] at found
  | cons c text inductionHypothesis =>
      have continued {nested : Bool} (found : ((callArguments? nested text).map
          fun read => (c :: read.1, read.2)) = some (arguments, rest)) :
          c :: text = arguments ++ ')' :: rest := by
        obtain ⟨⟨inner, tail⟩, read, same⟩ := Option.map_eq_some_iff.mp found
        obtain ⟨rfl, rfl⟩ := Prod.mk.inj same
        rw [inductionHypothesis read, List.cons_append]
      simp only [callArguments?] at found
      split at found
      · rename_i closing
        split at found
        · exact continued found
        · simp only [Option.some.injEq, Prod.mk.injEq] at found
          rw [← found.1, ← found.2, closing, List.nil_append]
      · split at found
        · split at found
          · simp at found
          · exact continued found
        · exact continued found

/-- A construction is a call behind the word `new`. -/
theorem construction?_eq_some {arguments rest : Text}
    (found : construction? text = some (arguments, rest)) :
    ∃ front, text = (front ++ '(' :: arguments ++ [')']) ++ rest := by
  simp only [construction?, Option.bind_eq_bind, Option.bind_eq_some_iff] at found
  obtain ⟨first, isNew, second, blanks, third, loader, fourth, opened, call⟩ := found
  have inFirst : '(' :: fourth <:+ text := by
    have opening : trimStart third = '(' :: fourth := after?_eq_some opened
    have named : third <:+ second := by
      rcases Option.or_eq_some_iff.mp loader with dex | ⟨-, path⟩
      · exact suffix_of_after? dex
      · exact suffix_of_after? path
    rw [← opening]
    exact (trimStart_suffix third).trans (named.trans
      ((suffix_of_afterBlanks? blanks).trans (suffix_of_after? isNew)))
  obtain ⟨front, rfl⟩ := inFirst
  refine ⟨front, ?_⟩
  rw [callArguments?_eq_some call]
  simp

theorem pieces_ne_nil (depth : Int) (text : Text) : pieces depth text ≠ [] := by
  cases text with
  | nil => simp [pieces]
  | cons c rest =>
      rw [pieces]
      split
      · simp
      · split <;> simp

/-- The pieces of an argument list, with commas between them, make up the list. -/
theorem join_pieces (depth : Int) (text : Text) : join [','] (pieces depth text) = text := by
  induction text generalizing depth with
  | nil => rfl
  | cons c rest inductionHypothesis =>
      have others (depth : Int) : ∃ piece more, pieces depth rest = piece :: more ∧
          join [','] (piece :: more) = rest := by
        obtain ⟨piece, more, split⟩ := List.exists_cons_of_ne_nil (pieces_ne_nil depth rest)
        exact ⟨piece, more, split, split ▸ inductionHypothesis depth⟩
      rw [pieces]
      split
      · rename_i separates
        obtain ⟨piece, more, split, joined⟩ := others depth
        simp only [Bool.and_eq_true, decide_eq_true_eq] at separates
        rw [split, join, joined, separates.1]
        · rfl
        · simp
      · obtain ⟨piece, more, split, joined⟩ := others (depth + bracketStep c)
        rw [split]
        cases more with
        | nil => simpa [join] using joined
        | cons next more => simpa [join] using joined

theorem isInert_of_mem_join {parts : List Text} (inert : IsInert none (join [','] parts)) :
    ∀ part ∈ parts, IsInert none part := by
  induction parts with
  | nil => simp
  | cons part rest inductionHypothesis =>
      cases rest with
      | nil => simpa [join] using inert
      | cons next rest =>
          rw [join, List.append_assoc] at inert
          · obtain ⟨here, there⟩ := (isInert_append_cons (by decide)).mp inert
            exact List.forall_mem_cons.mpr ⟨here, inductionHypothesis there⟩
          · simp

theorem isInert_of_mem_splitArguments (inert : IsInert none text) :
    ∀ argument ∈ splitArguments text, IsInert none argument := by
  have trimmed : ∀ argument ∈ (pieces 0 text).map trim, IsInert none argument := by
    intro argument member
    obtain ⟨piece, inside, rfl⟩ := List.mem_map.mp member
    rw [← join_pieces 0 text] at inert
    exact (isInert_of_mem_join inert piece inside).trimStart.trimEnd
  intro argument member
  rw [splitArguments] at member
  split at member
  · exact trimmed argument (List.dropLast_subset _ member)
  · exact trimmed argument member

theorem isInert_arguments {before : Option Char} {arguments rest : Text}
    (found : construction? text = some (arguments, rest)) (inert : IsInert before text) :
    IsInert none arguments := by
  obtain ⟨front, rfl⟩ := construction?_eq_some found
  rw [List.append_assoc, List.append_assoc, List.cons_append] at inert
  obtain ⟨-, call⟩ := (isInert_append_cons (by decide)).mp inert
  exact ((isInert_append_cons (by decide)).mp call).1

/-- The construction of a loader up to its path. -/
def loaderFront : Text :=
  "new java.net.URLClassLoader(new java.net.URL[] \x7b new java.io.File("

/-- The construction of a loader between its path and its parent. -/
def loaderMiddle : Text :=
  ").toURI().toURL() \x7d, "

theorem isStandIn_loaderFront : IsStandIn loaderFront := by decide +kernel

theorem urlLoader_append (arguments : List Text) (text : Text) :
    ∃ path parent, (path ∈ arguments ∨ path = ("\"\"" : Text)) ∧
      (parent ∈ arguments ∨ parent = ("null" : Text) ∨
        parent = ("ClassLoader.getSystemClassLoader()" : Text)) ∧
      urlLoader arguments ++ text =
        loaderFront ++ (path ++ (loaderMiddle ++ (parent ++ (")" ++ text)))) := by
  refine ⟨arguments.head?.getD "\"\"", if arguments.length > 1 then arguments.getLast?.getD "null"
    else "ClassLoader.getSystemClassLoader()", ?_, ?_, ?_⟩
  · cases arguments with
    | nil => exact .inr rfl
    | cons first rest => exact .inl (by simp)
  · split
    · cases last : arguments.getLast? with
      | none => exact .inr (.inl rfl)
      | some argument => exact .inl (List.mem_of_getLast? last)
    · exact .inr (.inr rfl)
  · unfold urlLoader loaderFront loaderMiddle
    simp only [List.append_assoc]

theorem isInert_urlLoader_append {arguments : List Text} {text : Text}
    (inert : ∀ argument ∈ arguments, IsInert none argument) (behind : IsInert none text)
    (before : Option Char) : IsInert before (urlLoader arguments ++ text) := by
  obtain ⟨path, parent, isPath, isParent, same⟩ := urlLoader_append arguments text
  have inPath : IsInert none path := by
    rcases isPath with member | rfl
    · exact inert path member
    · decide +kernel
  have inParent : IsInert none parent := by
    rcases isParent with member | rfl | rfl
    · exact inert parent member
    · decide +kernel
    · decide +kernel
  have last : IsInert none (parent ++ (")" ++ text)) :=
    (isInert_append_cons (by decide)).mpr ⟨inParent, behind⟩
  have middle : IsInert none (loaderMiddle ++ (parent ++ (")" ++ text))) :=
    (isInert_append (.inl (by decide))).mpr ⟨by decide +kernel, last⟩
  have apart : isWordAt (loaderMiddle ++ (parent ++ (")" ++ text))).head? = false := by
    change isWord ')' = false
    decide
  rw [same]
  exact isStandIn_loaderFront.isInert_append
    ((isInert_append (.inr apart)).mpr ⟨inPath, middle⟩) before

/-- A construction of a class loader brings no term into its arguments. -/
theorem revises_replaceConstruction (line : Line) :
    Revises line (constructionPattern.replaceAll replaceConstruction line) := by
  apply Revises.replaceAll
  intro before text size new found revises
  have matched : ∃ arguments, construction? text = some (arguments, text.drop size) := by
    have read := Pattern.ofReader_eq_some (fun {text rest} read => by
      obtain ⟨⟨arguments, tail⟩, called, rfl⟩ := Option.map_eq_some_iff.mp read
      obtain ⟨front, whole⟩ := construction?_eq_some called
      exact ⟨_, whole.symm⟩) found
    obtain ⟨⟨arguments, tail⟩, called, same⟩ := Option.map_eq_some_iff.mp read
    exact ⟨arguments, same ▸ called⟩
  obtain ⟨arguments, called⟩ := matched
  obtain ⟨front, whole⟩ := construction?_eq_some called
  rw [replaceConstruction]
  split
  · rename_i given rest again
    constructor
    · right
      obtain ⟨path, parent, -, -, same⟩ := urlLoader_append (splitArguments given) new
      rw [same, isStandIn_loaderFront.leadingWord_append]
      exact isStandIn_loaderFront.front
    · intro other inert
      have closed : isWordAt (lastOr other (text.take size)) = false := by
        rw [take_eq_of_append_drop whole, lastOr_append_singleton]
        decide
      rw [← List.take_append_drop size text] at inert
      obtain ⟨call, behind⟩ := (isInert_append (.inl closed)).mp inert
      exact isInert_urlLoader_append
        (isInert_of_mem_splitArguments (isInert_arguments again call)) (revises.inert none behind)
        other
  · have kept := revises.append (text.take size)
    rwa [List.take_append_drop] at kept

theorem revises_classLoader (line : Line) : Revises line (classLoader line) := by
  have package : IsStandIn "java.net." := by decide +kernel
  have name : IsStrange "URLClassLoader" := by decide +kernel
  exact (revises_replaceConstruction line).trans (package.replaceAll_append name loaderType _)

/-! ### Build constants -/

theorem isStrange_toDigits (number : Nat) : IsStrange (Nat.toDigits 10 number) := by
  have digits {c : Char} (member : c ∈ Nat.toDigits 10 number) : c.isDigit = true :=
    Nat.isDigit_of_mem_toDigits (by decide) (by decide) member
  obtain ⟨c, rest, same⟩ := List.exists_cons_of_ne_nil (Nat.toDigits_ne_nil (n := number) (b := 10))
  refine .of_mem (fun d member => ?_) (same ▸ List.mem_cons_self) fun term listed inside => ?_
  · exact isWord_of_isAlphanum (by simp [Char.isAlphanum, digits member])
  · have letters : ∀ term ∈ vocabulary, term.any Char.isDigit = false := by decide
    have noDigit := List.any_eq_false.mp (letters term listed) c inside
    exact noDigit (digits (same ▸ List.mem_cons_self))

theorem revises_buildConstants (platformLevel : Nat) (line : Line) :
    Revises line (buildConstants platformLevel line) := by
  have standIns : ∀ entry ∈ buildConstantTable, entry.1 ≠ [] ∧ IsStandIn entry.2 := by
    decide +kernel
  have level := (isStrange_toDigits platformLevel).replaceAll
    (Pattern.literal "Build.VERSION.SDK_INT") line
  refine List.foldlRecOn _ _ level fun text revises entry member => ?_
  obtain ⟨filled, standIn⟩ := standIns entry member
  exact revises.trans (standIn.replaceAll filled text)

theorem revises_arrayMap (line : Line) : Revises line (arrayMap line) := by
  have package : IsStandIn "java.util." := by decide +kernel
  have name : IsStrange "LinkedHashMap" := by decide +kernel
  exact package.replaceAll_append name (Pattern.wholeWord "ArrayMap") line

/-! ### Places of the app -/

theorem revises_escape {mark : Char} (other : isWord mark = false) (text : Text) :
    Revises text (substitute mark ['\\', mark] text) := by
  induction text with
  | nil => exact .refl []
  | cons c rest inductionHypothesis =>
      rw [substitute, List.flatMap_cons]
      split
      · rename_i isMark
        subst isMark
        have kept := inductionHypothesis.cons c
        constructor
        · left
          rw [leadingWord_of_neg other]
          exact leadingWord_of_neg (by decide) _
        · intro before inert
          exact isInert_cons_of_neg (by decide) ((kept.inert before inert).of_head other)
      · exact inductionHypothesis.cons c

theorem isInert_quoted {path : Text} (absent : ∀ term ∈ vocabulary, ¬term <:+: path) :
    IsInert none (quoted path) := by
  have escaped := (revises_escape (show isWord '\\' = false by decide) path).trans
    (revises_escape (show isWord '"' = false by decide) _)
  have inert := escaped.inert none (isInert_of_absent absent none)
  exact isInert_cons_of_neg (by decide) ((isInert_append_cons (by decide)).mpr ⟨inert, isInert_nil⟩)

theorem shrinks_link? : Shrinks link? := by
  intro text first rest read
  simp only [link?, Option.bind_eq_bind, Option.bind_eq_some_iff, Option.pure_def,
    Option.some.injEq, Prod.mk.injEq, Prod.exists] at read
  obtain ⟨name, behind, taken, rest, dot, -, rfl⟩ := read
  obtain ⟨rfl, filled, -⟩ := run?_eq_some taken
  have inside : rest <:+ behind := (suffix_of_after? dot).trans (getD_after?_suffix _ _)
  have short := inside.length_le
  have positive := List.length_pos_iff.mpr filled
  refine ⟨inside.trans (List.suffix_append name behind), ?_⟩
  rw [List.length_append]
  omega

/-- A link goes on to the same place from a name character before it. -/
theorem link?_cons {c : Char} {rest : Text} {read : Unit × Text} (inName : isNameCharacter c = true)
    (found : link? rest = some read) : link? (c :: rest) = some read := by
  simp only [link?, Option.bind_eq_bind, Option.bind_eq_some_iff, Prod.exists] at found ⊢
  obtain ⟨name, behind, taken, last⟩ := found
  refine ⟨c :: rest.takeWhile isNameCharacter, behind, ?_, last⟩
  rw [run?, List.takeWhile_cons_of_pos inName, List.dropWhile_cons_of_pos inName,
    dropWhile_of_run? taken]

/-- What a chain looks for behind its links. -/
def final? (finals : List Text) (text : Text) : Option Text :=
  finals.findSome? fun name => do
    let rest ← after? name text
    if isWordAt rest.head? then none else some rest

theorem final?_eq_some {finals : List Text} {rest : Text} (found : final? finals text = some rest) :
    ∃ name ∈ finals, text = name ++ rest ∧ isWordAt rest.head? = false := by
  obtain ⟨name, listed, read⟩ := List.exists_of_findSome?_eq_some found
  simp only [Option.bind_eq_bind, Option.bind_eq_some_iff] at read
  obtain ⟨behind, taken, ended⟩ := read
  split at ended
  · simp at ended
  · rename_i outside
    rw [Option.some.injEq] at ended
    exact ⟨name, listed, ended ▸ after?_eq_some taken, by simpa [ended] using outside⟩

theorem chain?_eq_some {finals : List Text} {rest : Text} (found : chain? finals text = some rest) :
    rest <:+ text ∧ rest.length < text.length ∧ isWordAt rest.head? = false := by
  obtain ⟨⟨links, behind⟩, member, read⟩ := List.exists_of_findSome?_eq_some found
  simp only at read
  split at read
  · simp at read
  · rename_i linked
    obtain ⟨name, -, rfl, outside⟩ := final?_eq_some read
    have shorter := length_of_mem_repeats shrinks_link? member
    have positive : 0 < links.length := List.length_pos_iff.mpr (by simpa using linked)
    have inside := suffix_of_mem_repeats shrinks_link? member
    refine ⟨(List.suffix_append name rest).trans inside, ?_, outside⟩
    rw [List.length_append] at shorter
    omega

/-- A chain that begins at a place also begins at a name character before it. -/
theorem chain?_cons {finals : List Text} {c : Char} {rest : Text}
    (inName : isNameCharacter c = true) (unchained : chain? finals (c :: rest) = none) :
    chain? finals rest = none := by
  cases read : link? rest with
  | none => simp [chain?, repeats_of_none read]
  | some linked =>
      obtain ⟨first, behind⟩ := linked
      have longer := link?_cons inName read
      rw [chain?, repeats_of_some shrinks_link? longer] at unchained
      rw [chain?, repeats_of_some shrinks_link? read]
      simpa using unchained

/-- What a text becomes without its chains. A word that no chain begins with stays as it is. -/
structure Unchains (finals : List Text) (old new : Text) : Prop where
  inert : ∀ before, (isWordAt before = true → chain? finals old = none) → IsInert before old →
    IsInert before new
  word : chain? finals old = none → leadingWord new = leadingWord old

theorem Unchains.cons {finals : List Text} {c : Char} {rest new : Text}
    (unchains : Unchains finals rest new) (kept : chain? finals (c :: rest) = none) :
    Unchains finals (c :: rest) (c :: new) := by
  have stays (inWord : isWord c = true) : chain? finals rest = none :=
    chain?_cons (by simp [isNameCharacter, inWord]) kept
  have word : leadingWord (c :: new) = leadingWord (c :: rest) := by
    by_cases inWord : isWord c = true
    · rw [leadingWord_of_pos inWord, leadingWord_of_pos inWord, unchains.word (stays inWord)]
    · rw [Bool.not_eq_true] at inWord
      rw [leadingWord_of_neg inWord, leadingWord_of_neg inWord]
  refine ⟨fun before _ inert => ?_, fun _ => word⟩
  obtain ⟨here, later⟩ := isInert_cons.mp inert
  refine isInert_cons.mpr ⟨fun outside => ?_, unchains.inert (some c) stays later⟩
  rw [word]
  exact here outside

theorem unchains_replaceAll {piece : Text} (inert : IsInert none piece) (filled : piece ≠ [])
    (closed : isWordAt (lastOr none piece) = false) (finals : List Text) (line : Line) :
    Unchains finals line ((Pattern.ofReader (chain? finals)).replaceAll (fun _ => piece) line) := by
  apply @Pattern.replaceFrom_induction _ _ (fun _ => Unchains finals)
    fun _ => ⟨fun _ _ => id, fun _ => rfl⟩
  · intro before c rest new unmatched unchains
    apply unchains.cons
    cases chained : chain? finals (c :: rest) with
    | none => rfl
    | some behind =>
        have shorter := (chain?_eq_some chained).2.1
        refine absurd ?_ (unmatched (rest.length - behind.length))
        simp only [Pattern.ofReader, chained, Option.map_some, Option.some.injEq, List.length_cons]
          at shorter ⊢
        omega
  · intro before text size new found unchains
    have chained := Pattern.ofReader_eq_some (fun read => (chain?_eq_some read).1) found
    constructor
    · intro other allowed inText
      -- Behind a word character the chain would have begun earlier.
      have outside : isWordAt other = false := by
        rw [Bool.eq_false_iff]
        intro inWord
        simp [allowed inWord] at chained
      rw [← List.take_append_drop size text] at inText
      have behind := inText.drop.of_head (chain?_eq_some chained).2.2
      have apart : isWordAt (lastOr other piece) = false := by
        rw [lastOr_of_ne_nil filled other none, closed]
      exact (isInert_append (.inl apart)).mpr
        ⟨inert.behind other, unchains.inert none (by simp [isWordAt]) behind⟩
    · intro unchained
      simp [unchained] at chained

theorem isInert_applicationInfo {path : Text} (absent : ∀ term ∈ vocabulary, ¬term <:+: path)
    (inert : IsInert none line) : IsInert none (applicationInfo path line) := by
  have closed : isWordAt (lastOr none (quoted path)) = false := by
    rw [quoted, show ("\"" : Text) = ['"'] from rfl, lastOr_append_singleton]
    decide
  have places := (unchains_replaceAll (isInert_quoted absent) (by simp [quoted]) closed
    ["publicSourceDir", "sourceDir"] line).inert none (by simp [isWordAt]) inert
  exact (unchains_replaceAll (by decide +kernel) (by decide) (by decide +kernel)
    ["dataDir"] _).inert none (by simp [isWordAt]) places

/-! ### The table -/

theorem isInert_of_rule? {context : Context} {name : Text} {change : Text → Text}
    (absent : ∀ term ∈ vocabulary, ¬term <:+: context.packagePath)
    (found : rule? context name = some (.replace change)) (inert : IsInert none line) :
    IsInert none (change line) := by
  rw [rule?] at found
  split at found
  · obtain rfl : classLoader = change := by simpa using found
    exact (revises_classLoader line).inert none inert
  · split at found
    · obtain rfl : buildConstants context.platformLevel = change := by simpa using found
      exact (revises_buildConstants context.platformLevel line).inert none inert
    · split at found
      · obtain rfl : applicationInfo context.packagePath = change := by simpa using found
        exact isInert_applicationInfo absent inert
      · split at found
        · obtain rfl : arrayMap = change := by simpa using found
          exact (revises_arrayMap line).inert none inert
        · split at found
          · simp at found
          · simp at found

theorem isInert_step {namespaces : List Text} {context : Context} {progress : Progress}
    (absent : ∀ term ∈ vocabulary, ¬term <:+: context.packagePath)
    (inert : IsInert none progress.text) (name : Text) :
    IsInert none (step namespaces context progress name).text := by
  rw [step]
  split
  · exact inert
  · split
    · rename_i change found
      refine inert.mapLines fun line inLine => ?_
      split
      · exact inLine
      · exact isInert_of_rule? absent found inLine
    · exact inert
    · exact inert

/-- The substitutions bring no term of reflection into a text. -/
theorem isInert_apply (namespaces : List Text) {context : Context}
    (absent : ∀ term ∈ vocabulary, ¬term <:+: context.packagePath) (imports : List Text)
    (inert : IsInert none text) :
    IsInert none (apply namespaces context imports text).text := by
  have start : IsInert none ({ text } : Progress).text := inert
  exact List.foldlRecOn (motive := fun progress => IsInert none progress.text) imports
    (step namespaces context) start fun _ reached name _ => isInert_step absent reached name

end Unpacking.Substitution
