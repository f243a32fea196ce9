import Mathlib.Data.List.Induction
import Unpacking.Package.Facts
import Unpacking.Proofs.Text.NameSet

/-!
The classes of a package. They are kept in the order of their names, each name once, and one of
them refers to another where its source holds the simple name of the other. Main statements: the
names rise (`rising_ofClasses`), and of the listed classes with one name the first is kept
(`mem_ofClasses`).
-/

namespace Unpacking

open Text

theorem Text.occursIn_iff_infix {word text : Text} :
    occursIn word text = true ↔ word <:+: text := by
  induction text with
  | nil => simp [occursIn]
  | cons c rest inductionHypothesis =>
      rw [occursIn, Bool.or_eq_true, inductionHypothesis, List.infix_cons_iff, begins,
        List.isPrefixOf_iff_prefix]

theorem ClassFact.refersTo_iff {fact other : ClassFact} :
    fact.refersTo other = true ↔ other.simpleName <:+: fact.source :=
  occursIn_iff_infix

/-- Inserting adds a class unless its name is taken. -/
theorem ClassFact.mem_insertInto {fact other : ClassFact} {sorted : List ClassFact}
    (rising : (sorted.map ClassFact.name).Pairwise fun a b => precedes a b = true) :
    other ∈ fact.insertInto sorted ↔
      other ∈ sorted ∨ other = fact ∧ fact.name ∉ sorted.map ClassFact.name := by
  induction sorted with
  | nil => simp [ClassFact.insertInto]
  | cons first rest inductionHypothesis =>
      obtain ⟨smallest, risingRest⟩ := List.pairwise_cons.mp rising
      rw [ClassFact.insertInto]
      split
      next same => simp [same]
      next different =>
        split
        next before =>
          have free : fact.name ∉ rest.map ClassFact.name :=
            fun taken => precedes_asymm before (smallest _ taken)
          simp only [List.map_cons, List.mem_cons]
          tauto
        next =>
          simp only [List.map_cons, List.mem_cons, inductionHypothesis risingRest]
          tauto

namespace Facts

theorem map_name_insertInto (fact : ClassFact) (classes : List ClassFact) :
    (fact.insertInto classes).map ClassFact.name =
      NameSet.insertInto fact.name (classes.map ClassFact.name) := by
  induction classes with
  | nil => rfl
  | cons first rest inductionHypothesis =>
      simp only [ClassFact.insertInto, NameSet.insertInto, List.map_cons]
      split
      · rfl
      · split
        · rfl
        · rw [List.map_cons, inductionHypothesis]

/-- The classes of a package stand in rising order of their names. -/
theorem rising_ofClasses (classes : List ClassFact) (resources : List (Text × Text)) :
    ((ofClasses classes resources).classes.map ClassFact.name).Pairwise
      fun a b => precedes a b = true := by
  have folded : ∀ {sorted : List ClassFact},
      (sorted.map ClassFact.name).Pairwise (fun a b => precedes a b = true) →
      ((classes.foldl (fun sorted fact => fact.insertInto sorted) sorted).map
        ClassFact.name).Pairwise fun a b => precedes a b = true := by
    induction classes with
    | nil => exact id
    | cons fact rest inductionHypothesis =>
        intro sorted rising
        refine inductionHypothesis ?_
        rw [map_name_insertInto]
        exact NameSet.insertInto_rising rising
  exact folded List.Pairwise.nil

/-- A class that counts among the listed ones: no class before it has its name. -/
def IsFirstListed (listed : List ClassFact) (fact : ClassFact) : Prop :=
  ∃ front back, listed = front ++ fact :: back ∧ fact.name ∉ front.map ClassFact.name

theorem IsFirstListed.mem {listed : List ClassFact} {fact : ClassFact}
    (first : IsFirstListed listed fact) : fact ∈ listed := by
  obtain ⟨front, back, rfl, -⟩ := first
  simp

theorem isFirstListed_iff_mem {listed : List ClassFact} {fact : ClassFact}
    (distinct : (listed.map ClassFact.name).Nodup) :
    IsFirstListed listed fact ↔ fact ∈ listed := by
  refine ⟨IsFirstListed.mem, fun member => ?_⟩
  obtain ⟨front, back, rfl⟩ := List.append_of_mem member
  refine ⟨front, back, rfl, fun taken => ?_⟩
  rw [List.map_append, List.map_cons, List.nodup_append] at distinct
  exact distinct.2.2 _ taken _ List.mem_cons_self rfl

theorem isFirstListed_append_singleton {listed : List ClassFact} {last fact : ClassFact} :
    IsFirstListed (listed ++ [last]) fact ↔
      IsFirstListed listed fact ∨ fact = last ∧ last.name ∉ listed.map ClassFact.name := by
  constructor
  · rintro ⟨front, back, whole, free⟩
    rcases List.eq_nil_or_concat back with rfl | ⟨back, final, rfl⟩
    · obtain ⟨rfl, same⟩ := List.append_inj' whole rfl
      obtain rfl := List.singleton_inj.mp same
      exact .inr ⟨rfl, free⟩
    · rw [List.concat_eq_append, ← List.cons_append, ← List.append_assoc] at whole
      exact .inl ⟨front, back, (List.append_inj' whole rfl).1, free⟩
  · rintro (⟨front, back, rfl, free⟩ | ⟨rfl, free⟩)
    · exact ⟨front, back ++ [last], by simp, free⟩
    · exact ⟨listed, [], rfl, free⟩

theorem classes_ofClasses_append_singleton (listed : List ClassFact) (last : ClassFact)
    (resources : List (Text × Text)) :
    (ofClasses (listed ++ [last]) resources).classes =
      last.insertInto (ofClasses listed resources).classes := by
  simp [ofClasses]

theorem mem_map_name_ofClasses {listed : List ClassFact} {resources : List (Text × Text)}
    {name : Text} :
    name ∈ (ofClasses listed resources).classes.map ClassFact.name ↔
      name ∈ listed.map ClassFact.name := by
  induction listed using List.reverseRecOn with
  | nil => rfl
  | append_singleton listed last inductionHypothesis =>
      rw [classes_ofClasses_append_singleton, map_name_insertInto, NameSet.mem_insertInto,
        inductionHypothesis, List.map_append, List.mem_append, List.map_singleton,
        List.mem_singleton, or_comm]

/-- The classes of a package are the listed ones, of those with one name the first. -/
theorem mem_ofClasses {listed : List ClassFact} {resources : List (Text × Text)}
    {fact : ClassFact} :
    fact ∈ (ofClasses listed resources).classes ↔ IsFirstListed listed fact := by
  induction listed using List.reverseRecOn with
  | nil => simp [ofClasses, IsFirstListed]
  | append_singleton listed last inductionHypothesis =>
      rw [classes_ofClasses_append_singleton,
        ClassFact.mem_insertInto (rising_ofClasses listed resources), inductionHypothesis,
        mem_map_name_ofClasses, isFirstListed_append_singleton]

end Facts

end Unpacking
