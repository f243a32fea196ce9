import Mathlib.Data.List.Sort
import Unpacking.Text.NameSet

/-!
Membership in sets of names, which decides their equality.
-/

namespace Unpacking.NameSet

open Text

/-- Names in strictly rising order are different from each other. -/
theorem nodup_of_rising {names : List Text}
    (rising : names.Pairwise fun a b => precedes a b = true) : names.Nodup := by
  refine rising.imp fun {a b} before same => ?_
  rw [same, precedes_irrefl] at before
  exact Bool.noConfusion before

theorem isEmpty_iff {set : NameSet} : set.isEmpty = true ↔ set.toList = [] :=
  List.isEmpty_iff

theorem mem_insert {set : NameSet} {name other : Text} :
    other ∈ (set.insert name).toList ↔ other = name ∨ other ∈ set.toList :=
  mem_insertInto

theorem mem_insertAll {set : NameSet} {names : List Text} {other : Text} :
    other ∈ (set.insertAll names).toList ↔ other ∈ names ∨ other ∈ set.toList := by
  rw [insertAll]
  induction names generalizing set with
  | nil => simp
  | cons name names inductionHypothesis =>
      rw [List.foldl_cons, inductionHypothesis, mem_insert, List.mem_cons]
      tauto

theorem mem_ofList {names : List Text} {other : Text} :
    other ∈ (ofList names).toList ↔ other ∈ names := by
  rw [ofList, mem_insertAll]
  simp [empty]

/-- Two sets with the same members are the same set. -/
theorem eq_of_mem_iff {set other : NameSet}
    (same : ∀ name, name ∈ set.toList ↔ name ∈ other.toList) : set = other := by
  have irreflexive : Std.Irrefl fun a b : Text => precedes a b = true :=
    ⟨fun a => by simp [precedes_irrefl]⟩
  have antisymmetric : Std.Antisymm fun a b : Text => precedes a b = true :=
    ⟨fun a b before after => absurd after (precedes_asymm before)⟩
  have equal : set.toList = other.toList := set.rising.eq_of_mem_iff other.rising same
  cases set
  cases other
  simpa using equal

/-- A set is made up again from its members. -/
theorem ofList_toList (set : NameSet) : ofList set.toList = set := by
  apply eq_of_mem_iff
  intro name
  exact mem_ofList

end Unpacking.NameSet
