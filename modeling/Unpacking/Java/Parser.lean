import Unpacking.Java.Member
import Unpacking.Java.Nesting

/-!
The parser for sources without syntax errors. It never fails: what no rule can read is passed over
token by token. Main statement: `isNested_unnumberedTree` says that the nodes of its trees lie
inside their parents, one behind the other, because every rule keeps them so.
-/

namespace Unpacking.Java

open Text

/-- The readers of the constructs, nested at most `limit` deep. -/
def readers : Nat → Construct → Reader
  | 0 => fun _ _ _ => none
  | limit + 1 => fun construct => (Rule.of construct).read (readers limit)

/-- The top-level nodes of a source. A construct takes a token at least and passes through a few
others, so a multiple of the number of tokens bounds their depth. -/
def topLevel (source : Text) : List Node :=
  let all := tokens source
  match Rule.sourceFile.read (readers (8 * all.length + 16)) [] all with
  | some (nodes, _) => nodes
  | none => []

/-- The tree of a source before its nodes are numbered. -/
def unnumberedTree (source : Text) : Node :=
  .mk { id := 0, kind := .other "program", isNamed := true, field := none, start := 0,
        stop := byteLength source } (topLevel source)

/-- The tree of a source. -/
def tree (source : Text) : Node :=
  (number 0 (unnumberedTree source)).1

/-! ### Tokens -/

variable {source : Text} {start stop : Nat}

/-- Some tokens stand in a source, one behind the other from an offset on, with their comments
between them. -/
def StandFrom (source : Text) (start : Nat) : List Token → Prop
  | [] => True
  | token :: rest =>
    IsSpread source start token.comments token.start ∧ token.start ≤ token.stop ∧
      IsCut source token.start ∧ IsCut source token.stop ∧ StandFrom source token.stop rest

theorem isNested_leaf {kind : NodeKind} {isNamed : Bool} (ordered : start ≤ stop)
    (first : IsCut source start) (last : IsCut source stop) :
    IsNested source (leaf kind isNamed start stop) :=
  ⟨fun _ => rfl, ordered, first, last, ordered⟩

theorem standFrom_tokensFrom (before : Text) {comments : List Node} {lexemes : List Lexeme}
    (whole : source = before ++ lexemes.flatMap Lexeme.text)
    (spread : IsSpread source start comments (byteLength before)) :
    StandFrom source start (tokensFrom (byteLength before) comments lexemes) := by
  induction lexemes generalizing before comments start with
  | nil => exact trivial
  | cons lexeme rest inductionHypothesis =>
    have whole : source = (before ++ lexeme.text) ++ rest.flatMap Lexeme.text := by
      simpa using whole
    have first : IsCut source (byteLength before) :=
      ⟨before, lexeme.text ++ rest.flatMap Lexeme.text, by simpa using whole, rfl⟩
    have last : IsCut source (byteLength (before ++ lexeme.text)) := ⟨_, _, whole, rfl⟩
    have ordered : byteLength before ≤ byteLength (before ++ lexeme.text) := by simp
    have longer {nodes : List Node} (spread : IsSpread source start nodes (byteLength before)) :
        IsSpread source start nodes (byteLength (before ++ lexeme.text)) := by
      have more := spread.append (show IsSpread source _ [] _ from ordered)
      rwa [List.append_nil] at more
    have behind := inductionHypothesis (before ++ lexeme.text) whole (isSpread_nil _)
    rw [tokensFrom, ← byteLength_append]
    cases lexeme.kind with
    | blank => exact inductionHypothesis _ whole (longer spread)
    | comment =>
      apply inductionHypothesis _ whole
      exact spread.append ⟨Nat.le_refl _, isNested_leaf ordered first last, isSpread_nil _⟩
    | word => exact ⟨spread, ordered, first, last, behind⟩
    | literal => exact ⟨spread, ordered, first, last, behind⟩
    | symbol => exact ⟨spread, ordered, first, last, behind⟩

theorem standFrom_tokens (source : Text) : StandFrom source 0 (tokens source) :=
  standFrom_tokensFrom [] (flatMap_text_lexemes source).symm (isSpread_nil 0)

/-! ### Rules -/

/-- No construct that a rule reads becomes an identifier. -/
def Rule.isProper : Rule → Bool
  | .token _ _ _ => true
  | .nothing => true
  | .sequence first second => first.isProper && second.isProper
  | .choice first second => first.isProper && second.isProper
  | .many rule => rule.isProper
  | .ahead rule => rule.isProper
  | .notAhead rule => rule.isProper
  | .alone rule => rule.isProper
  | .node kind rule => kind != .identifier && rule.isProper
  | .onto kind _ rule => kind != .identifier && rule.isProper
  | .labelled _ rule => rule.isProper
  | .call _ => true

theorem isProper_of (construct : Construct) : (Rule.of construct).isProper = true := by
  cases construct with
  | expression inLabel => cases inLabel <;> rfl
  | operand inLabel => cases inLabel <;> rfl
  | _ => rfl

theorem isProper_sourceFile : Rule.sourceFile.isProper = true :=
  rfl

theorem IsSpread.map_withPart {nodes : List Node} (spread : IsSpread source start nodes stop)
    (part : FieldName) : IsSpread source start (nodes.map (withPart part)) stop := by
  induction nodes generalizing start with
  | nil => exact spread
  | cons node rest inductionHypothesis =>
    obtain ⟨first, nested, others⟩ := spread
    rw [List.map_cons, withPart]
    split
    · exact ⟨first, nested, inductionHypothesis others⟩
    · have labelled : IsNested source
          (.mk { node.label with field := some part } node.children) := by
        rw [IsNested]
        exact isNested_iff.mp nested
      exact ⟨first, labelled, inductionHypothesis others⟩

theorem IsSpread.withPart? {nodes : List Node} (spread : IsSpread source start nodes stop)
    (part? : Option FieldName) : IsSpread source start (withPart? part? nodes) stop := by
  cases part? with
  | none => exact spread
  | some part => exact spread.map_withPart part

theorem IsSpread.wrap {nodes : List Node} {kind : NodeKind}
    (spread : IsSpread source start nodes stop) (proper : kind ≠ .identifier) :
    IsSpread source start (wrap kind nodes) stop := by
  rw [← List.takeWhile_append_dropWhile (p := isComment) (l := nodes)] at spread
  obtain ⟨middle, comments, inner⟩ := spread.split
  rw [Java.wrap]
  cases found : nodes.dropWhile isComment with
  | nil =>
    rw [found] at inner
    have longer := comments.append inner
    rwa [List.append_nil] at longer
  | cons first rest =>
    rw [found] at inner
    have filled : first :: rest ≠ [] := by simp
    have whole := (List.dropLast_concat_getLast filled).symm
    have last := List.getLast_mem filled
    have tight : IsSpread source first.start (first :: rest)
        ((first :: rest).getLast filled).stop := by
      have behind : IsSpread source first.start (first :: rest) stop := ⟨Nat.le_refl _, inner.2⟩
      rw [whole] at behind
      have shorter := behind.concat
      rwa [← whole] at shorter
    apply comments.append
    refine ⟨inner.1, ⟨fun same => absurd same proper, tight.le, ?_, ?_, tight⟩, ?_⟩
    · exact (isNested_iff.mp inner.2.1).2.2.1
    · exact (isNested_iff.mp (inner.isNested_of_mem last).1).2.2.2.1
    · exact (inner.isNested_of_mem last).2.2

/-- A reader keeps the nodes one behind the other, and the tokens behind them. -/
def Keeps (source : Text) (reader : Reader) : Prop :=
  ∀ {start middle before tokens found rest}, IsSpread source start before middle →
    StandFrom source middle tokens → reader before tokens = some (found, rest) →
      ∃ stop, IsSpread source start found stop ∧ StandFrom source stop rest

theorem keeps_readMany {read : Reader} (keeps : Keeps source read) (limit : Nat) {middle : Nat}
    {before : List Node} {tokens : List Token} (spread : IsSpread source start before middle)
    (stand : StandFrom source middle tokens) :
    ∃ stop, IsSpread source start (readMany read limit before tokens).1 stop ∧
      StandFrom source stop (readMany read limit before tokens).2 := by
  induction limit generalizing middle before tokens with
  | zero => exact ⟨middle, spread, stand⟩
  | succ limit inductionHypothesis =>
    rw [readMany]
    cases once : read before tokens with
    | none => exact ⟨middle, spread, stand⟩
    | some result =>
      obtain ⟨found, rest⟩ := result
      obtain ⟨stop, longer, fewer⟩ := keeps spread stand once
      exact inductionHypothesis longer fewer

/-- A rule that reads something new keeps the nodes in order, whatever becomes of the new ones. -/
theorem keeps_apart {reader : Reader} (keeps : Keeps source reader)
    (change : List Node → List Node)
    (changes : ∀ {start stop nodes}, IsSpread source start nodes stop →
      IsSpread source start (change nodes) stop) :
    Keeps source fun before tokens =>
      match reader [] tokens with
      | none => none
      | some (found, rest) => some (before ++ change found, rest) := by
  intro start middle before tokens found rest spread stand read
  cases inner : reader [] tokens with
  | none => simp [inner] at read
  | some result =>
    obtain ⟨new, left⟩ := result
    simp only [inner, Option.some.injEq, Prod.mk.injEq] at read
    obtain ⟨rfl, rfl⟩ := read
    obtain ⟨stop, newSpread, fewer⟩ := keeps (isSpread_nil middle) stand inner
    exact ⟨stop, spread.append (changes newSpread), fewer⟩

/-- A reader that takes nothing and adds nothing keeps the nodes in order. -/
theorem keeps_of_same {reader : Reader}
    (same : ∀ {before tokens found rest}, reader before tokens = some (found, rest) →
      before = found ∧ tokens = rest) : Keeps source reader := by
  intro start middle before tokens found rest spread stand read
  obtain ⟨rfl, rfl⟩ := same read
  exact ⟨middle, spread, stand⟩

theorem keeps_token {calls : Construct → Reader} (test : Token → Bool) (kind : NodeKind)
    (isNamed : Bool) : Keeps source ((Rule.token test kind isNamed).read calls) := by
  intro start middle before tokens found rest spread stand read
  cases tokens with
  | nil => simp [Rule.read] at read
  | cons next others =>
    obtain ⟨comments, ordered, first, last, behind⟩ := stand
    simp only [Rule.read] at read
    split at read
    · simp only [Option.some.injEq, Prod.mk.injEq] at read
      obtain ⟨rfl, rfl⟩ := read
      have new : IsSpread source next.start [leaf kind isNamed next.start next.stop] next.stop :=
        ⟨Nat.le_refl _, isNested_leaf ordered first last, Nat.le_refl _⟩
      exact ⟨next.stop, spread.append (comments.append new), behind⟩
    · simp at read

theorem keeps_onto {calls : Construct → Reader} {kind : NodeKind} {part? : Option FieldName}
    {rule : Rule} (proper : kind ≠ .identifier) (keeps : Keeps source (rule.read calls)) :
    Keeps source ((Rule.onto kind part? rule).read calls) := by
  intro start middle before tokens found rest spread stand read
  simp only [Rule.read] at read
  split at read
  · simp at read
  · rename_i inner left once
    simp only [Option.some.injEq, Prod.mk.injEq] at read
    obtain ⟨rfl, rfl⟩ := read
    obtain ⟨stop, longer, fewer⟩ := keeps (spread.withPart? part?) stand once
    exact ⟨stop, longer.wrap proper, fewer⟩

theorem keeps_read {calls : Construct → Reader}
    (keeps : ∀ construct, Keeps source (calls construct))
    {rule : Rule} (proper : rule.isProper = true) : Keeps source (rule.read calls) := by
  induction rule with
  | token test kind isNamed => exact keeps_token test kind isNamed
  | nothing => exact keeps_of_same fun read => by simpa [Rule.read] using read
  | sequence first second firstHypothesis secondHypothesis =>
    simp only [Rule.isProper, Bool.and_eq_true] at proper
    intro start middle before tokens found rest spread stand read
    simp only [Rule.read] at read
    split at read
    · simp at read
    · rename_i between left once
      obtain ⟨stop, longer, fewer⟩ := firstHypothesis proper.1 spread stand once
      exact secondHypothesis proper.2 longer fewer read
  | choice first second firstHypothesis secondHypothesis =>
    simp only [Rule.isProper, Bool.and_eq_true] at proper
    intro start middle before tokens found rest spread stand read
    simp only [Rule.read] at read
    split at read
    · rename_i result once
      exact firstHypothesis proper.1 spread stand (once.trans read)
    · exact secondHypothesis proper.2 spread stand read
  | many rule inductionHypothesis =>
    intro start middle before tokens found rest spread stand read
    simp only [Rule.read, Option.some.injEq] at read
    have kept := keeps_readMany (inductionHypothesis proper) tokens.length spread stand
    rwa [read] at kept
  | ahead rule =>
    apply keeps_of_same
    intro before tokens found rest read
    simp only [Rule.read] at read
    split at read
    · simpa using read
    · simp at read
  | notAhead rule =>
    apply keeps_of_same
    intro before tokens found rest read
    simp only [Rule.read] at read
    split at read
    · simp at read
    · simpa using read
  | alone rule inductionHypothesis =>
    exact keeps_apart (inductionHypothesis proper) (fun nodes => nodes) id
  | node kind rule inductionHypothesis =>
    simp only [Rule.isProper, Bool.and_eq_true, bne_iff_ne] at proper
    exact keeps_apart (inductionHypothesis proper.2) (wrap kind) fun spread => spread.wrap proper.1
  | onto kind part? rule inductionHypothesis =>
    simp only [Rule.isProper, Bool.and_eq_true, bne_iff_ne] at proper
    exact keeps_onto proper.1 (inductionHypothesis proper.2)
  | labelled part rule inductionHypothesis =>
    exact keeps_apart (inductionHypothesis proper) (List.map (withPart part)) fun spread =>
      spread.map_withPart part
  | call construct => exact keeps construct

theorem keeps_readers (source : Text) (limit : Nat) (construct : Construct) :
    Keeps source (readers limit construct) := by
  induction limit generalizing construct with
  | zero =>
    intro start middle before tokens found rest spread stand read
    simp [readers] at read
  | succ limit inductionHypothesis => exact keeps_read inductionHypothesis (isProper_of construct)

theorem isNested_unnumberedTree (source : Text) : IsNested source (unnumberedTree source) := by
  have spread : IsSpread source 0 (topLevel source) (byteLength source) := by
    rw [topLevel]
    split
    · rename_i nodes rest read
      obtain ⟨stop, spread, -⟩ := keeps_read (keeps_readers source _) isProper_sourceFile
        (isSpread_nil 0) (standFrom_tokens source) read
      exact spread.within (Nat.zero_le _)
    · exact Nat.zero_le _
  refine ⟨by simp, Nat.zero_le _, ⟨[], source, rfl, rfl⟩, ⟨source, [], by simp, rfl⟩, spread⟩

/-- The parser for sources without syntax errors. -/
def parser : Parser where
  parse source := .ok (tree source)
  isTreeOf := by
    intro source root parsed
    obtain rfl := Except.ok.inj parsed
    exact isTreeOf_number (isNested_unnumberedTree source) 0

end Unpacking.Java
