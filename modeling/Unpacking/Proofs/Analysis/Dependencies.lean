import Mathlib.Data.List.Nodup
import Mathlib.Order.Bounds.Defs
import Unpacking.Analysis.Dependencies
import Unpacking.Proofs.Package.Facts

/-!
The classes that an entry class reaches. The collector works with a stack on which a class may stand
several times, and it looks at a class only when it takes it off. It still finds the classes in the
order of the recursive search, and it finds exactly the closure of the entry class.
-/

namespace Unpacking.Dependencies

open Text

/-! ### Classes that are left over -/

theorem isAmong_iff {fact : ClassFact} {classes : List ClassFact} :
    isAmong fact classes = true ↔ fact.name ∈ classes.map ClassFact.name := by
  simp [isAmong]

theorem isAmong_of_mem {fact : ClassFact} {classes : List ClassFact} (member : fact ∈ classes) :
    isAmong fact classes = true :=
  isAmong_iff.mpr (List.mem_map_of_mem member)

theorem mem_without {fact other : ClassFact} {classes : List ClassFact} :
    other ∈ without fact classes ↔ other ∈ classes ∧ other.name ≠ fact.name := by
  simp [without]

theorem isAmong_without {fact other : ClassFact} {classes : List ClassFact} :
    isAmong other (without fact classes) = true ↔
      isAmong other classes = true ∧ other.name ≠ fact.name := by
  simp only [isAmong_iff, List.mem_map, mem_without]
  constructor
  · rintro ⟨same, ⟨member, different⟩, named⟩
    exact ⟨⟨same, member, named⟩, named ▸ different⟩
  · rintro ⟨⟨same, member, named⟩, different⟩
    exact ⟨same, ⟨member, named ▸ different⟩, named⟩

/-- The classes that are left when some were taken. -/
def leftOver (left taken : List ClassFact) : List ClassFact :=
  left.filter fun fact => !isAmong fact taken

theorem leftOver_nil (left : List ClassFact) : leftOver left [] = left := by
  simp [leftOver, isAmong]

theorem leftOver_cons (left : List ClassFact) (next : ClassFact) (taken : List ClassFact) :
    leftOver left (next :: taken) = leftOver (without next left) taken := by
  rw [leftOver, leftOver, without, List.filter_filter]
  refine List.filter_congr fun fact _ => ?_
  simp only [isAmong, List.any_cons, Bool.not_or, bne, Bool.beq_comm (a := next.name),
    Bool.and_comm]

theorem length_leftOver_le (left taken : List ClassFact) :
    (leftOver left taken).length ≤ left.length :=
  List.length_filter_le _ _

/-! ### The recursive search -/

/-- The candidates that a class refers to, in their order. -/
def references (candidates : List ClassFact) (fact : ClassFact) : List ClassFact :=
  candidates.filter fact.refersTo

/-- Visit some classes in turn, as long as they are unvisited. A visited class comes first, and
behind it what the visits to the candidates that it refers to find, in the order of the candidates,
before the search goes on with the next class. -/
def visitAll (candidates unvisited : List ClassFact) (classes : List ClassFact) : List ClassFact :=
  match classes with
  | [] => []
  | next :: rest =>
    if isAmong next unvisited then
      let below := visitAll candidates (without next unvisited) (references candidates next)
      next :: (below ++ visitAll candidates (leftOver (without next unvisited) below) rest)
    else visitAll candidates unvisited rest
termination_by (unvisited.length, classes.length)
decreasing_by
  · rename_i among
    exact Prod.Lex.left _ _ (length_without_lt among)
  · rename_i among
    exact Prod.Lex.left _ _
      (Nat.lt_of_le_of_lt (length_leftOver_le _ _) (length_without_lt among))
  · apply Prod.Lex.right
    simp

theorem visitAll_nil (candidates unvisited : List ClassFact) :
    visitAll candidates unvisited [] = [] := by
  rw [visitAll]

theorem visitAll_cons {unvisited : List ClassFact} {next : ClassFact}
    (among : isAmong next unvisited = true) (candidates rest : List ClassFact) :
    visitAll candidates unvisited (next :: rest) =
      next :: (visitAll candidates (without next unvisited) (references candidates next) ++
        visitAll candidates (leftOver (without next unvisited)
          (visitAll candidates (without next unvisited) (references candidates next))) rest) := by
  rw [visitAll, if_pos among]

/-! ### The stack -/

/-- What lies deeper in a stack is looked at after all that the upper part leads to. -/
theorem collectFrom_append (left stack deeper : List ClassFact) :
    collectFrom left (stack ++ deeper) =
      collectFrom left stack ++ collectFrom (leftOver left (collectFrom left stack)) deeper := by
  fun_induction collectFrom left stack with
  | case1 left => rw [List.nil_append, List.nil_append, leftOver_nil]
  | case2 left next stack among inductionHypothesis =>
      rw [List.cons_append, collectFrom, if_pos among, leftOver_cons, List.cons_append,
        ← inductionHypothesis, List.append_assoc]
  | case3 left next stack absent inductionHypothesis =>
      rw [List.cons_append, collectFrom, if_neg absent, inductionHypothesis]

/-- What a class that is still left over leads to. -/
def leadsTo (left : List ClassFact) (next : ClassFact) : List ClassFact :=
  collectFrom (without next left) (references (without next left) next)

theorem collectFrom_cons {left : List ClassFact} {next : ClassFact}
    (among : isAmong next left = true) (stack : List ClassFact) :
    collectFrom left (next :: stack) =
      next :: (leadsTo left next ++
        collectFrom (leftOver (without next left) (leadsTo left next)) stack) := by
  rw [collectFrom, if_pos among, collectFrom_append]
  rfl

/-- Only classes that are left over matter on a stack. -/
theorem collectFrom_filter {keeps : ClassFact → Bool} {left : List ClassFact}
    (stack : List ClassFact) (kept : ∀ fact, isAmong fact left = true → keeps fact = true) :
    collectFrom left (stack.filter keeps) = collectFrom left stack := by
  induction stack generalizing left with
  | nil => rfl
  | cons next stack inductionHypothesis =>
      by_cases among : isAmong next left = true
      · have fewer (fact : ClassFact)
            (still : isAmong fact (leftOver (without next left) (leadsTo left next)) = true) :
            keeps fact = true := by
          obtain ⟨other, member, named⟩ := List.any_eq_true.mp still
          have inLeft := (mem_without.mp (List.mem_filter.mp member).1).1
          exact kept fact (List.any_eq_true.mpr ⟨other, inLeft, named⟩)
        rw [List.filter_cons_of_pos (kept next among), collectFrom_cons among,
          collectFrom_cons among, inductionHypothesis fewer]
      · have skipped : collectFrom left (next :: stack) = collectFrom left stack := by
          rw [collectFrom, if_neg among]
        rw [skipped, ← inductionHypothesis kept, List.filter_cons]
        split
        · rw [collectFrom, if_neg among]
        · rfl

/-- A part of a list without repeated names is what a search by name finds of it. -/
theorem filter_isAmong_of_sublist {left candidates : List ClassFact}
    (part : left.Sublist candidates) (distinct : (candidates.map ClassFact.name).Nodup) :
    candidates.filter (isAmong · left) = left := by
  induction part with
  | slnil => rfl
  | @cons left candidates fact part inductionHypothesis =>
      rw [List.map_cons, List.nodup_cons] at distinct
      have absent : ¬isAmong fact left = true := fun among =>
        distinct.1 ((part.map ClassFact.name).subset (isAmong_iff.mp among))
      rw [List.filter_cons_of_neg (p := (isAmong · left)) absent, inductionHypothesis distinct.2]
  | @cons_cons left candidates fact part inductionHypothesis =>
      rw [List.map_cons, List.nodup_cons] at distinct
      have others : candidates.filter (isAmong · (fact :: left)) =
          candidates.filter (isAmong · left) := by
        refine List.filter_congr fun other member => ?_
        have different : fact.name ≠ other.name := fun same =>
          distinct.1 (same ▸ List.mem_map_of_mem member)
        simp [isAmong, different]
      rw [List.filter_cons_of_pos (by simp [isAmong]), others, inductionHypothesis distinct.2]

theorem references_of_sublist {left candidates : List ClassFact} {fact : ClassFact}
    (part : left.Sublist candidates) (distinct : (candidates.map ClassFact.name).Nodup) :
    references left fact = (references candidates fact).filter (isAmong · left) := by
  rw [references, references, List.filter_filter]
  conv_lhs => rw [← filter_isAmong_of_sublist part distinct, List.filter_filter]
  exact List.filter_congr fun other _ => Bool.and_comm _ _

theorem without_sublist {left candidates : List ClassFact} (part : left.Sublist candidates)
    (fact : ClassFact) : (without fact left).Sublist candidates :=
  List.filter_sublist.trans part

theorem leftOver_sublist {left candidates : List ClassFact} (part : left.Sublist candidates)
    (taken : List ClassFact) : (leftOver left taken).Sublist candidates :=
  List.filter_sublist.trans part

/-- The stack finds the classes in the order of the recursive search. -/
theorem collectFrom_eq_visitAll {candidates unvisited : List ClassFact}
    (distinct : (candidates.map ClassFact.name).Nodup) (part : unvisited.Sublist candidates)
    (classes : List ClassFact) :
    collectFrom unvisited classes = visitAll candidates unvisited classes := by
  fun_induction visitAll candidates unvisited classes with
  | case1 unvisited => rw [collectFrom]
  | case2 unvisited next rest among below belowHypothesis restHypothesis =>
      have fewer := without_sublist part next
      have same : leadsTo unvisited next = below := by
        rw [leadsTo, references_of_sublist fewer distinct,
          collectFrom_filter _ fun fact still => still, belowHypothesis fewer]
      rw [collectFrom_cons among, same, restHypothesis (leftOver_sublist fewer below)]
  | case3 unvisited next rest absent inductionHypothesis =>
      rw [collectFrom, if_neg absent, inductionHypothesis part]

/-! ### What is collected -/

theorem isAmong_of_mem_collectFrom {left stack : List ClassFact} {fact : ClassFact}
    (member : fact ∈ collectFrom left stack) : isAmong fact left = true := by
  fun_induction collectFrom left stack with
  | case1 left => simp at member
  | case2 left next stack among inductionHypothesis =>
      rcases List.mem_cons.mp member with rfl | later
      · exact among
      · exact (isAmong_without.mp (inductionHypothesis later)).1
  | case3 left next stack absent inductionHypothesis => exact inductionHypothesis member

/-- No name is collected twice. -/
theorem nodup_collectFrom (left stack : List ClassFact) :
    ((collectFrom left stack).map ClassFact.name).Nodup := by
  fun_induction collectFrom left stack with
  | case1 left => exact List.nodup_nil
  | case2 left next stack among inductionHypothesis =>
      rw [List.map_cons, List.nodup_cons]
      refine ⟨fun repeated => ?_, inductionHypothesis⟩
      obtain ⟨other, later, same⟩ := List.mem_map.mp repeated
      exact (isAmong_without.mp (isAmong_of_mem_collectFrom later)).2 same
  | case3 left next stack absent inductionHypothesis => exact inductionHypothesis

/-- What holds on the stack and spreads along references holds of all that is collected. -/
theorem forall_collectFrom {property : ClassFact → Prop} {left stack : List ClassFact}
    (onStack : ∀ fact ∈ stack, property fact)
    (spreads : ∀ fact, property fact → ∀ other ∈ left, fact.refersTo other = true →
      property other) :
    ∀ fact ∈ collectFrom left stack, property fact := by
  fun_induction collectFrom left stack with
  | case1 left => simp
  | case2 left next stack among inductionHypothesis =>
      have here := onStack next (by simp)
      refine List.forall_mem_cons.mpr ⟨here, inductionHypothesis ?_ ?_⟩
      · intro fact member
        rcases List.mem_append.mp member with referred | deeper
        · obtain ⟨inLeft, refers⟩ := List.mem_filter.mp referred
          exact spreads next here fact (mem_without.mp inLeft).1 refers
        · exact onStack fact (by simp [deeper])
      · intro fact holds other inLeft
        exact spreads fact holds other (mem_without.mp inLeft).1
  | case3 left next stack absent inductionHypothesis =>
      exact inductionHypothesis (fun fact member => onStack fact (by simp [member])) spreads

/-- Every class on the stack is collected if it is left over, and so is every leftover class that a
collected one refers to. -/
theorem isAmong_collectFrom (left stack : List ClassFact) :
    (∀ fact ∈ stack, isAmong fact left = true → isAmong fact (collectFrom left stack) = true) ∧
      ∀ fact ∈ collectFrom left stack, ∀ other ∈ left, fact.refersTo other = true →
        isAmong other (collectFrom left stack) = true := by
  fun_induction collectFrom left stack with
  | case1 left => simp
  | case2 left next stack among inductionHypothesis =>
      obtain ⟨fromStack, referred⟩ := inductionHypothesis
      have taken {fact : ClassFact} {later : List ClassFact} (same : fact.name = next.name) :
          isAmong fact (next :: later) = true := isAmong_iff.mpr (by simp [same])
      have behind {fact : ClassFact} {later : List ClassFact} (among : isAmong fact later = true) :
          isAmong fact (next :: later) = true :=
        isAmong_iff.mpr (List.mem_cons_of_mem _ (isAmong_iff.mp among))
      constructor
      · intro fact member inLeft
        by_cases same : fact.name = next.name
        · exact taken same
        · have deeper : fact ∈ stack :=
            (List.mem_cons.mp member).resolve_left fun equal => same (by rw [equal])
          exact behind (fromStack fact (List.mem_append_right _ deeper)
            (isAmong_without.mpr ⟨inLeft, same⟩))
      · intro fact collected other inLeft refers
        by_cases same : other.name = next.name
        · exact taken same
        · have still : other ∈ without next left := mem_without.mpr ⟨inLeft, same⟩
          rcases List.mem_cons.mp collected with rfl | later
          · have pushed := List.mem_filter.mpr ⟨still, refers⟩
            exact behind (fromStack other (List.mem_append_left _ pushed) (isAmong_of_mem still))
          · exact behind (referred fact later other still refers)
  | case3 left next stack absent inductionHypothesis =>
      refine ⟨fun fact member inLeft => ?_, inductionHypothesis.2⟩
      rcases List.mem_cons.mp member with rfl | deeper
      · exact absurd inLeft absent
      · exact inductionHypothesis.1 fact deeper inLeft

/-! ### The closure of an entry class -/

/-- A set of classes that holds an entry class, and with a class every class of the package of the
entry class whose simple name is in its source, other than the entry class and the class of resource
numbers. -/
structure IsClosed (entry : ClassFact) (facts : Facts) (classes : Set ClassFact) : Prop where
  holdsEntry : entry ∈ classes
  referred : ∀ fact ∈ classes, ∀ other ∈ facts.classes, other.package = entry.package →
    other.name ≠ entry.name → other.simpleName ≠ ("R" : Text) →
    other.simpleName <:+: fact.source → other ∈ classes

/-- The recursive search from an entry class. -/
def preorder (entry : ClassFact) (facts : Facts) : List ClassFact :=
  visitAll (candidates entry facts) (entry :: candidates entry facts) [entry]

theorem mem_candidates {entry other : ClassFact} {facts : Facts} :
    other ∈ candidates entry facts ↔ other ∈ facts.classes ∧ other.name ≠ entry.name ∧
      other.package = entry.package ∧ other.simpleName ≠ ("R" : Text) := by
  simp only [candidates, resourceClass, List.mem_filter, Bool.and_eq_true, bne_iff_ne, beq_iff_eq,
    and_assoc]

/-- Only classes of the package of the entry class are collected. -/
theorem mem_of_mem_collect {entry fact : ClassFact} {facts : Facts}
    (listed : entry ∈ facts.classes) (collected : fact ∈ collect entry facts) :
    fact ∈ facts.classes ∧ fact.package = entry.package := by
  have inPackage : ∀ other ∈ entry :: candidates entry facts,
      other ∈ facts.classes ∧ other.package = entry.package := by
    refine List.forall_mem_cons.mpr ⟨⟨listed, rfl⟩, fun other member => ?_⟩
    obtain ⟨inFacts, -, package, -⟩ := mem_candidates.mp member
    exact ⟨inFacts, package⟩
  exact forall_collectFrom (by simpa using listed)
    (fun _ _ other member _ => inPackage other member) fact collected

theorem without_candidates (entry : ClassFact) (facts : Facts) :
    without entry (entry :: candidates entry facts) = candidates entry facts := by
  rw [without, List.filter_cons_of_neg (by simp), List.filter_eq_self]
  intro other member
  simpa using (mem_candidates.mp member).2.1

/-- The entry class comes first, and then all that it leads to. -/
theorem collect_eq_cons (entry : ClassFact) (facts : Facts) :
    collect entry facts =
      entry ::
        collectFrom (candidates entry facts) ((candidates entry facts).filter entry.refersTo) := by
  rw [collect, collectFrom, if_pos (isAmong_of_mem (by simp)), without_candidates, List.append_nil]

theorem collectFrom_singleton (fact : ClassFact) : collectFrom [fact] [fact] = [fact] := by
  have others : without fact [fact] = [] := by simp [without]
  rw [collectFrom, if_pos (isAmong_of_mem (by simp)), others, List.filter_nil, List.append_nil,
    collectFrom]

section Distinct

variable {entry : ClassFact} {facts : Facts} (distinct : (facts.classes.map ClassFact.name).Nodup)
include distinct

theorem nodup_candidates : ((entry :: candidates entry facts).map ClassFact.name).Nodup := by
  rw [List.map_cons, List.nodup_cons]
  refine ⟨fun repeated => ?_, distinct.sublist (List.filter_sublist.map _)⟩
  obtain ⟨other, member, same⟩ := List.mem_map.mp repeated
  exact (mem_candidates.mp member).2.1 same

theorem collect_eq_preorder : collect entry facts = preorder entry facts := by
  have among : isAmong entry (entry :: candidates entry facts) = true := isAmong_of_mem (by simp)
  have below := collectFrom_eq_visitAll (List.nodup_cons.mp (nodup_candidates distinct)).2
    (List.Sublist.refl (candidates entry facts)) (references (candidates entry facts) entry)
  rw [collect, preorder, collectFrom_cons among, visitAll_cons among, visitAll_nil, leadsTo,
    without_candidates, below, collectFrom]

theorem isLeast_collect :
    IsLeast {classes | IsClosed entry facts classes} {fact | fact ∈ collect entry facts} := by
  constructor
  · refine ⟨?_, fun fact collected other inFacts package name simpleName refers => ?_⟩
    · change entry ∈ collect entry facts
      rw [collect, collectFrom_cons (isAmong_of_mem (by simp))]
      exact List.mem_cons_self
    · have candidate : other ∈ entry :: candidates entry facts :=
        List.mem_cons_of_mem _ (mem_candidates.mpr ⟨inFacts, name, package, simpleName⟩)
      have found := (isAmong_collectFrom (entry :: candidates entry facts) [entry]).2 fact collected
        other candidate (ClassFact.refersTo_iff.mpr refers)
      obtain ⟨same, collectedSame, named⟩ := List.mem_map.mp (isAmong_iff.mp found)
      have sameCandidate : same ∈ entry :: candidates entry facts :=
        forall_collectFrom (by simp) (fun _ _ next inLeft _ => inLeft) same collectedSame
      have equal :=
        List.inj_on_of_nodup_map (nodup_candidates distinct) sameCandidate candidate named
      exact equal ▸ collectedSame
  · intro classes closed fact collected
    refine forall_collectFrom (by simpa using closed.holdsEntry) ?_ fact collected
    intro next holds other inLeft refers
    rcases List.mem_cons.mp inLeft with rfl | candidate
    · exact closed.holdsEntry
    · obtain ⟨inFacts, name, package, simpleName⟩ := mem_candidates.mp candidate
      exact closed.referred next holds other inFacts package name simpleName
        (ClassFact.refersTo_iff.mp refers)

end Distinct

/-- The collector finds the closure of an entry class within its package, each class once and the
entry class first, in the order in which the recursive search finds them when it tries the
candidates by rising names. -/
theorem collect_ofClasses (classes : List ClassFact) (resources : List (Text × Text))
    (entry : ClassFact) :
    let facts := Facts.ofClasses classes resources
    ((collect entry facts).map ClassFact.name).Nodup ∧
      (collect entry facts).head? = some entry ∧
      IsLeast {closed | IsClosed entry facts closed} {fact | fact ∈ collect entry facts} ∧
      collect entry facts = preorder entry facts ∧
      ((candidates entry facts).map ClassFact.name).Pairwise fun a b => precedes a b = true := by
  intro facts
  have rising := Facts.rising_ofClasses classes resources
  have distinct := NameSet.nodup_of_rising rising
  refine ⟨nodup_collectFrom _ _, ?_, isLeast_collect distinct, collect_eq_preorder distinct, ?_⟩
  · rw [collect, collectFrom_cons (isAmong_of_mem (by simp))]
    rfl
  · exact rising.sublist (List.filter_sublist.map _)

end Unpacking.Dependencies
