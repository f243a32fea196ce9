import Unpacking.Java.Node

/-!
Trees whose nodes lie inside their parents, one behind the other. Main statement: `isTreeOf_number`
says that such a tree, with its nodes numbered, is a tree of its source.
-/

namespace Unpacking.Java

open Text

namespace Node

/-- What holds of a node when it holds of its children holds of all nodes. -/
@[induction_eliminator]
theorem induction {motive : Node → Prop}
    (mk : ∀ label children, (∀ child ∈ children, motive child) → motive (.mk label children))
    (node : Node) : motive node := by
  refine @Node.rec motive (fun children => ∀ child ∈ children, motive child) mk ?_ ?_ node
  · simp
  · intro child rest first others other member
    rcases List.mem_cons.mp member with rfl | later
    · exact first
    · exact others other later

theorem linksOf_eq (parent : Node) (children : List Node) :
    linksOf parent children = children.flatMap fun child => (parent, child) :: child.links := by
  induction children with
  | nil => simp [linksOf]
  | cons child rest inductionHypothesis => simp [linksOf, inductionHypothesis]

theorem links_mk (label : NodeLabel) (children : List Node) :
    (mk label children).links =
      children.flatMap fun child => (mk label children, child) :: child.links := by
  rw [links, linksOf_eq]

theorem nodes_mk (label : NodeLabel) (children : List Node) :
    (mk label children).nodes = mk label children :: children.flatMap nodes := by
  rw [nodes, links_mk, List.map_flatMap]
  rfl

theorem identifiers_mk (label : NodeLabel) (children : List Node) :
    (mk label children).identifiers =
      (if label.kind = .identifier then [mk label children] else []) ++
        children.flatMap identifiers := by
  rw [identifiers, nodes_mk, List.filter_cons, List.filter_flatMap]
  show (if (label.kind == .identifier) = true then _ else children.flatMap identifiers) = _
  by_cases isIdentifier : label.kind = .identifier
  · rw [if_pos (by simpa using isIdentifier), if_pos isIdentifier]
    rfl
  · rw [if_neg (by simpa using isIdentifier), if_neg isIdentifier, List.nil_append]

end Node

/-! ### Nested trees -/

/-- An offset lies between two characters of a source, or at one of its ends. -/
def IsCut (source : Text) (offset : Nat) : Prop :=
  ∃ before behind, source = before ++ behind ∧ offset = byteLength before

theorem IsCut.le {source : Text} {offset : Nat} (isCut : IsCut source offset) :
    offset ≤ byteLength source := by
  obtain ⟨before, behind, rfl, rfl⟩ := isCut
  simp

mutual

/-- All nodes of a tree lie inside their parents, one behind the other, and identifiers hold no
other nodes. -/
def IsNested (source : Text) : Node → Prop
  | .mk label children =>
    (label.kind = .identifier → children = []) ∧ label.start ≤ label.stop ∧
      IsCut source label.start ∧ IsCut source label.stop ∧
      IsSpread source label.start children label.stop

/-- Some nested trees lie one behind the other between two offsets. -/
def IsSpread (source : Text) (start : Nat) : List Node → Nat → Prop
  | [], stop => start ≤ stop
  | node :: rest, stop =>
    start ≤ node.start ∧ IsNested source node ∧ IsSpread source node.stop rest stop

end

variable {source : Text} {start stop middle : Nat} {left right nodes : List Node} {node : Node}

theorem isNested_iff : IsNested source node ↔
    (node.kind = .identifier → node.children = []) ∧ node.start ≤ node.stop ∧
      IsCut source node.start ∧ IsCut source node.stop ∧
      IsSpread source node.start node.children node.stop := by
  cases node with
  | mk label children =>
    rw [IsNested]
    rfl

theorem isSpread_nil (offset : Nat) : IsSpread source offset [] offset :=
  Nat.le_refl offset

namespace IsSpread

theorem le (spread : IsSpread source start nodes stop) : start ≤ stop := by
  induction nodes generalizing start with
  | nil => exact spread
  | cons node rest inductionHypothesis =>
    obtain ⟨first, nested, others⟩ := spread
    exact Nat.le_trans first
      (Nat.le_trans (isNested_iff.mp nested).2.1 (inductionHypothesis others))

theorem append (before : IsSpread source start left middle)
    (behind : IsSpread source middle right stop) : IsSpread source start (left ++ right) stop := by
  induction left generalizing start with
  | nil =>
    cases right with
    | nil => exact Nat.le_trans before behind
    | cons node rest => exact ⟨Nat.le_trans before behind.1, behind.2⟩
  | cons node rest inductionHypothesis =>
    exact ⟨before.1, before.2.1, inductionHypothesis before.2.2⟩

theorem split (spread : IsSpread source start (left ++ right) stop) :
    ∃ middle, IsSpread source start left middle ∧ IsSpread source middle right stop := by
  induction left generalizing start with
  | nil => exact ⟨start, Nat.le_refl start, spread⟩
  | cons node rest inductionHypothesis =>
    obtain ⟨middle, first, others⟩ := inductionHypothesis spread.2.2
    exact ⟨middle, ⟨spread.1, spread.2.1, first⟩, others⟩

/-- The nodes end with the last one of them. -/
theorem concat (spread : IsSpread source start (left ++ [node]) stop) :
    IsSpread source start (left ++ [node]) node.stop := by
  obtain ⟨middle, before, first, nested, -⟩ := spread.split
  exact before.append ⟨first, nested, Nat.le_refl _⟩

theorem isNested_of_mem (spread : IsSpread source start nodes stop) (member : node ∈ nodes) :
    IsNested source node ∧ start ≤ node.start ∧ node.stop ≤ stop := by
  obtain ⟨before, behind, rfl⟩ := List.append_of_mem member
  obtain ⟨middle, first, second, nested, others⟩ := spread.split
  exact ⟨nested, Nat.le_trans first.le second, others.le⟩

theorem within (spread : IsSpread source start nodes stop) (inside : start ≤ byteLength source) :
    IsSpread source start nodes (byteLength source) := by
  induction nodes generalizing start with
  | nil => exact inside
  | cons node rest inductionHypothesis =>
    obtain ⟨first, nested, others⟩ := spread
    exact ⟨first, nested, inductionHypothesis others (isNested_iff.mp nested).2.2.2.1.le⟩

end IsSpread

/-- Identifiers of a nested tree lie inside it. -/
theorem IsNested.identifier_mem (nested : IsNested source node) {identifier : Node}
    (member : identifier ∈ node.identifiers) :
    node.start ≤ identifier.start ∧ identifier.stop ≤ node.stop := by
  induction node with
  | mk label children inductionHypothesis =>
    obtain ⟨-, ordered, -, -, spread⟩ := nested
    rw [Node.identifiers_mk, List.mem_append] at member
    rcases member with own | inner
    · split at own
      · rw [List.mem_singleton] at own
        subst own
        exact ⟨Nat.le_refl _, Nat.le_refl _⟩
      · simp at own
    · obtain ⟨child, isChild, inside⟩ := List.mem_flatMap.mp inner
      obtain ⟨nested, first, last⟩ := spread.isNested_of_mem isChild
      have bounds := inductionHypothesis child isChild nested inside
      exact ⟨Nat.le_trans first bounds.1, Nat.le_trans bounds.2 last⟩

/-- Each identifier ends before the next one begins. -/
theorem pairwise_identifiers (nested : IsNested source node) :
    node.identifiers.Pairwise fun one other => one.stop ≤ other.start := by
  induction node with
  | mk label children inductionHypothesis =>
    obtain ⟨leaf, -, -, -, spread⟩ := nested
    rw [Node.identifiers_mk]
    by_cases isIdentifier : label.kind = .identifier
    · simp [leaf isIdentifier, isIdentifier]
    · rw [if_neg isIdentifier, List.nil_append]
      clear leaf isIdentifier
      generalize label.start = start at spread
      induction children generalizing start with
      | nil => simp
      | cons child rest restHypothesis =>
        obtain ⟨-, nested, others⟩ := spread
        rw [List.flatMap_cons, List.pairwise_append]
        refine ⟨inductionHypothesis child (by simp) nested, ?_, ?_⟩
        · exact restHypothesis (fun other member => inductionHypothesis other (by simp [member]))
            _ others
        · intro one isOne other isOther
          obtain ⟨sibling, isSibling, inside⟩ := List.mem_flatMap.mp isOther
          obtain ⟨siblingNested, behind, -⟩ := others.isNested_of_mem isSibling
          calc one.stop ≤ child.stop := (nested.identifier_mem isOne).2
            _ ≤ sibling.start := behind
            _ ≤ other.start := (siblingNested.identifier_mem inside).1

theorem IsNested.isNested_of_mem_nodes (nested : IsNested source node) {inner : Node}
    (member : inner ∈ node.nodes) : IsNested source inner := by
  induction node with
  | mk label children inductionHypothesis =>
    rw [Node.nodes_mk, List.mem_cons] at member
    rcases member with rfl | below
    · exact nested
    · obtain ⟨child, isChild, inside⟩ := List.mem_flatMap.mp below
      obtain ⟨-, -, -, -, spread⟩ := nested
      exact inductionHypothesis child isChild (spread.isNested_of_mem isChild).1 inside

theorem IsNested.standsIn (nested : IsNested source node) : node.StandsIn source := by
  obtain ⟨-, ordered, ⟨before, rest, whole, start⟩, ⟨front, behind, cut, stop⟩, -⟩ :=
    isNested_iff.mp nested
  rw [start, stop] at ordered
  obtain ⟨between, rfl, rfl⟩ := exists_between (whole.symm.trans cut) ordered
  exact ⟨before, between, behind, cut, start, by rw [stop, byteLength_append]⟩

/-! ### Numbers -/

mutual

/-- Number the nodes of a tree in the order of a walk, and give the next number. -/
def number (next : Nat) : Node → Node × Nat
  | .mk label children =>
    let (children, after) := numberAll (next + 1) children
    (.mk { label with id := next } children, after)

/-- Number the nodes of some trees. -/
def numberAll (next : Nat) : List Node → List Node × Nat
  | [] => ([], next)
  | node :: rest =>
    let (node, next) := number next node
    let (rest, next) := numberAll next rest
    (node :: rest, next)

end

/-- A numbered tree is as long and as nested as the tree itself. -/
theorem number_keeps (node : Node) (next : Nat) :
    ((number next node).1.start = node.start ∧ (number next node).1.stop = node.stop) ∧
      (IsNested source node → IsNested source (number next node).1) := by
  induction node generalizing next with
  | mk label children inductionHypothesis =>
    have spread (next start stop : Nat) (spread : IsSpread source start children stop) :
        IsSpread source start (numberAll next children).1 stop := by
      induction children generalizing next start with
      | nil => exact spread
      | cons child rest restHypothesis =>
        obtain ⟨⟨sameStart, sameStop⟩, nested⟩ := inductionHypothesis child (by simp) next
        refine ⟨by rw [sameStart]; exact spread.1, nested spread.2.1, ?_⟩
        rw [sameStop]
        exact restHypothesis (fun other member => inductionHypothesis other (by simp [member]))
          _ _ spread.2.2
    refine ⟨⟨rfl, rfl⟩, fun nested => ?_⟩
    obtain ⟨leaf, ordered, first, last, inside⟩ := nested
    refine ⟨fun isIdentifier => ?_, ordered, first, last, spread _ _ _ inside⟩
    rw [leaf isIdentifier]
    rfl

/-- The numbers of a numbered tree follow one another. -/
theorem ids_number (node : Node) (next : Nat) :
    (number next node).1.nodes.map Node.id =
      List.range' next ((number next node).2 - next) ∧ next < (number next node).2 := by
  induction node generalizing next with
  | mk label children inductionHypothesis =>
    have inner (next : Nat) :
        ((numberAll next children).1.flatMap Node.nodes).map Node.id =
            List.range' next ((numberAll next children).2 - next) ∧
          next ≤ (numberAll next children).2 := by
      induction children generalizing next with
      | nil => simp [numberAll]
      | cons child rest restHypothesis =>
        obtain ⟨first, later⟩ := inductionHypothesis child (by simp) next
        obtain ⟨others, last⟩ := restHypothesis
          (fun other member => inductionHypothesis other (by simp [member])) (number next child).2
        have sizes : (numberAll (number next child).2 rest).2 - next =
            ((number next child).2 - next) +
              ((numberAll (number next child).2 rest).2 - (number next child).2) := by omega
        have behind : next + ((number next child).2 - next) = (number next child).2 := by omega
        refine ⟨?_, by simp only [numberAll]; omega⟩
        simp only [numberAll, List.flatMap_cons, List.map_append, first, others]
        rw [sizes, ← List.range'_append_1, behind]
    obtain ⟨same, later⟩ := inner (next + 1)
    simp only [number, Node.nodes_mk, List.map_cons, same]
    refine ⟨?_, later⟩
    have size : (numberAll (next + 1) children).2 - next =
        (numberAll (next + 1) children).2 - (next + 1) + 1 := by omega
    rw [size, List.range'_succ]
    rfl

/-- A nested tree with its nodes numbered is a tree of its source. -/
theorem isTreeOf_number (nested : IsNested source node) (next : Nat) :
    (number next node).1.IsTreeOf source := by
  have nested := (number_keeps node next).2 nested
  refine ⟨fun inner member => (nested.isNested_of_mem_nodes member).standsIn, ?_, ?_⟩
  · exact (pairwise_identifiers nested).imp fun before => .inl before
  · rw [(ids_number node next).1]
    exact List.nodup_range'

end Unpacking.Java
