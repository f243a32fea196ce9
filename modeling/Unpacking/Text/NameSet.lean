import Unpacking.Text.Order

/-!
Finite sets of names, kept in strictly rising order.
-/

namespace Unpacking

open Text

/-- A finite set of names in strictly rising order. -/
structure NameSet where
  toList : List Text
  rising : toList.Pairwise fun a b => precedes a b = true := by simp

namespace NameSet

/-- Insert a name into a rising list, unless it is there. -/
def insertInto (name : Text) : List Text → List Text
  | [] => [name]
  | first :: rest =>
    if name = first then first :: rest
    else if precedes name first then name :: first :: rest
    else first :: insertInto name rest

theorem mem_insertInto {name other : Text} {names : List Text} :
    other ∈ insertInto name names ↔ other = name ∨ other ∈ names := by
  induction names with
  | nil => simp [insertInto]
  | cons first rest inductionHypothesis =>
    unfold insertInto
    split
    · rename_i same
      simp [same]
    · split
      · simp
      · simp only [List.mem_cons, inductionHypothesis]
        grind

theorem insertInto_rising {name : Text} {names : List Text}
    (rising : names.Pairwise fun a b => precedes a b = true) :
    (insertInto name names).Pairwise fun a b => precedes a b = true := by
  induction names with
  | nil => simp [insertInto]
  | cons first rest inductionHypothesis =>
    have above := (List.pairwise_cons.mp rising).1
    have tail := (List.pairwise_cons.mp rising).2
    unfold insertInto
    split
    · exact rising
    · rename_i different
      split
      · rename_i before
        refine List.pairwise_cons.mpr ⟨?_, rising⟩
        intro other member
        rcases List.mem_cons.mp member with same | later
        · rw [same]
          exact before
        · exact precedes_trans before (above other later)
      · rename_i notBefore
        refine List.pairwise_cons.mpr ⟨?_, inductionHypothesis tail⟩
        intro other member
        rcases mem_insertInto.mp member with same | later
        · rw [same]
          exact precedes_total different (by simpa using notBefore)
        · exact above other later

/-- The set without members. -/
def empty : NameSet :=
  { toList := [] }

instance : Inhabited NameSet := ⟨empty⟩

/-- The set with one member more. -/
def insert (set : NameSet) (name : Text) : NameSet where
  toList := insertInto name set.toList
  rising := insertInto_rising set.rising

/-- The set with the members of a list added. -/
def insertAll (set : NameSet) (names : List Text) : NameSet :=
  names.foldl insert set

/-- The members of a list. -/
def ofList (names : List Text) : NameSet :=
  empty.insertAll names

/-- Whether a name is a member. -/
def contains (set : NameSet) (name : Text) : Bool :=
  set.toList.contains name

/-- The members of a set that are not members of another. -/
def difference (set other : NameSet) : NameSet where
  toList := set.toList.filter fun name => !other.contains name
  rising := set.rising.filter _

/-- Whether a set has no members. -/
def isEmpty (set : NameSet) : Bool :=
  set.toList.isEmpty

end NameSet

end Unpacking
