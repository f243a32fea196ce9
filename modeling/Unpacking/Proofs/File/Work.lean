import Mathlib.Data.List.Basic
import Mathlib.Data.List.Forall2
import Mathlib.Logic.Function.Basic
import Mathlib.Logic.Relation
import Unpacking.File.Work

/-!
Pieces of work that share one tree of files, whose single accesses come in any order. Main
statements: every order comes to an end (`Pool.acc_step`, `Pool.exists_reaches_finished`), one piece
after the other is one of the orders (`Pool.reaches_runAll`), workers that keep to what the others
count on do so in every order (`Pool.upholds_of_reaches`), and workers that keep out of each other's
way give what each would give alone (`Accord.exists_alone_of_finished`).
-/

namespace Unpacking

variable {α β : Type}

namespace Work

/-! ### What a worker gives -/

/-- Whatever a worker sees, the value that it gives has a property. -/
def Ensures (holds : α → Prop) : Work α → Prop
  | .done value => holds value
  | .access operation next => ∀ tree, (next (operation tree).2).Ensures holds

theorem Ensures.bind {holds : β → Prop} {work : Work α} {rest : α → Work β}
    (first : work.Ensures fun value => (rest value).Ensures holds) :
    (work.bind rest).Ensures holds := by
  induction work with
  | done value => exact first
  | access operation next inductionHypothesis =>
    exact fun tree => inductionHypothesis _ (first tree)

theorem Ensures.of_forall {holds : α → Prop} (all : ∀ value, holds value) (work : Work α) :
    work.Ensures holds := by
  induction work with
  | done value => exact all value
  | access operation next inductionHypothesis => exact fun tree => inductionHypothesis _

theorem Ensures.imp {holds weaker : α → Prop} (weaken : ∀ value, holds value → weaker value)
    {work : Work α} (ensures : work.Ensures holds) : work.Ensures weaker := by
  induction work with
  | done value => exact weaken value ensures
  | access operation next inductionHypothesis =>
    exact fun tree => inductionHypothesis _ (ensures tree)

/-! ### A worker in a tree that others change -/

/-- Between two accesses of a worker the others change the tree as `rely` says. Each access changes
it as `guarantee` says, and `after` holds when the worker is done. -/
def Upholds (rely guarantee : Tree → Tree → Prop) (after : α → Tree → Prop) : Work α → Tree → Prop
  | .done value, tree => ∀ changed, rely tree changed → after value changed
  | .access operation next, tree => ∀ changed, rely tree changed →
      guarantee changed (operation changed).1 ∧
      (next (operation changed).2).Upholds rely guarantee after (operation changed).1

section Upholds

variable {rely guarantee : Tree → Tree → Prop} {after : α → Tree → Prop} {tree changed : Tree}
  {work : Work α}

theorem Upholds.of_rely
    (relyTrans : ∀ {first second third}, rely first second → rely second third → rely first third)
    (upholds : work.Upholds rely guarantee after tree) (step : rely tree changed) :
    work.Upholds rely guarantee after changed := by
  cases work with
  | done value => exact fun later onward => upholds later (relyTrans step onward)
  | access operation next => exact fun later onward => upholds later (relyTrans step onward)

theorem Upholds.bind (relyRefl : ∀ tree, rely tree tree) {atEnd : β → Tree → Prop}
    {rest : α → Work β}
    (upholds : work.Upholds rely guarantee
      (fun value => (rest value).Upholds rely guarantee atEnd) tree) :
    (work.bind rest).Upholds rely guarantee atEnd tree := by
  induction work generalizing tree with
  | done value => exact upholds tree (relyRefl tree)
  | access operation next inductionHypothesis =>
    intro changed step
    obtain ⟨keeps, onward⟩ := upholds changed step
    exact ⟨keeps, inductionHypothesis _ onward⟩

theorem Upholds.imp {weaker : α → Tree → Prop}
    (weaken : ∀ value tree, after value tree → weaker value tree)
    (upholds : work.Upholds rely guarantee after tree) :
    work.Upholds rely guarantee weaker tree := by
  induction work generalizing tree with
  | done value => exact fun changed step => weaken value changed (upholds changed step)
  | access operation next inductionHypothesis =>
    intro changed step
    obtain ⟨keeps, onward⟩ := upholds changed step
    exact ⟨keeps, inductionHypothesis _ onward⟩

end Upholds

/-! ### A worker beside one that is alone -/

/-- A worker that shares its tree with others sees in it what it sees in a tree that it has for
itself. Between two accesses the others change the shared tree as `rely` says; each access changes
the two trees as `guarantee` says, and `after` holds of both when the worker is done. -/
def Tracks (rely : Tree → Tree → Prop) (guarantee : Tree × Tree → Tree × Tree → Prop)
    (after : α → Tree → Tree → Prop) : Work α → Tree → Tree → Prop
  | .done value, shared, alone => ∀ changed, rely shared changed → after value changed alone
  | .access operation next, shared, alone => ∀ changed, rely shared changed →
      (operation changed).2 = (operation alone).2 ∧
      guarantee (changed, alone) ((operation changed).1, (operation alone).1) ∧
      (next (operation alone).2).Tracks rely guarantee after (operation changed).1
        (operation alone).1

section Tracks

variable {rely : Tree → Tree → Prop} {guarantee : Tree × Tree → Tree × Tree → Prop}
  {after : α → Tree → Tree → Prop} {shared changed alone : Tree} {work : Work α}

theorem Tracks.of_rely
    (relyTrans : ∀ {first second third}, rely first second → rely second third → rely first third)
    (tracks : work.Tracks rely guarantee after shared alone) (step : rely shared changed) :
    work.Tracks rely guarantee after changed alone := by
  cases work with
  | done value => exact fun later onward => tracks later (relyTrans step onward)
  | access operation next => exact fun later onward => tracks later (relyTrans step onward)

theorem Tracks.bind (relyRefl : ∀ tree, rely tree tree) {atEnd : β → Tree → Tree → Prop}
    {rest : α → Work β}
    (tracks : work.Tracks rely guarantee
      (fun value shared alone => (rest value).Tracks rely guarantee atEnd shared alone)
      shared alone) :
    (work.bind rest).Tracks rely guarantee atEnd shared alone := by
  induction work generalizing shared alone with
  | done value => exact tracks shared (relyRefl shared)
  | access operation next inductionHypothesis =>
    intro changed step
    obtain ⟨sameSeen, keeps, onward⟩ := tracks changed step
    exact ⟨sameSeen, keeps, inductionHypothesis _ onward⟩

theorem Tracks.imp {weaker : α → Tree → Tree → Prop}
    (weaken : ∀ value shared alone, after value shared alone → weaker value shared alone)
    (tracks : work.Tracks rely guarantee after shared alone) :
    work.Tracks rely guarantee weaker shared alone := by
  induction work generalizing shared alone with
  | done value => exact fun changed step => weaken value changed alone (tracks changed step)
  | access operation next inductionHypothesis =>
    intro changed step
    obtain ⟨sameSeen, keeps, onward⟩ := tracks changed step
    exact ⟨sameSeen, keeps, inductionHypothesis _ onward⟩

end Tracks

end Work

/-- Workers that share a tree of files. -/
structure Pool (α : Type) where
  tree : Tree
  works : List (Work α)

namespace Pool

variable {pool : Pool α} {tree : Tree} {works : List (Work α)}

/-- One of the workers makes its next access. -/
inductive Step : Pool α → Pool α → Prop
  | access (tree : Tree) {works : List (Work α)} {Seen : Type} (index : Nat)
      (operation : Tree → Tree × Seen) (next : Seen → Work α)
      (due : works[index]? = some (.access operation next)) :
      Step { tree, works }
        { tree := (operation tree).1, works := works.set index (next (operation tree).2) }

/-- The workers come from one state to another by single accesses in some order. -/
def Reaches : Pool α → Pool α → Prop :=
  Relation.ReflTransGen Step

/-- All workers are done. -/
def finished (tree : Tree) (values : List α) : Pool α :=
  { tree, works := values.map .done }

/-! ### Every order comes to an end -/

/-- One piece of work gets smaller by an access. -/
def Shrinks (after before : List (Work α)) : Prop :=
  ∃ (index : Nat) (Seen : Type) (operation : Tree → Tree × Seen) (next : Seen → Work α)
    (seen : Seen), before[index]? = some (.access operation next) ∧
      after = before.set index (next seen)

theorem acc_shrinks_cons (work : Work α) {works : List (Work α)} (acc : Acc Shrinks works) :
    Acc Shrinks (work :: works) := by
  -- The work in front shrinks, or one of the others does while the one in front stays.
  induction work generalizing works with
  | done value =>
    induction acc with
    | intro works _ inductionHypothesis =>
      apply Acc.intro
      rintro _ ⟨index, Seen, operation, next, seen, due, rfl⟩
      cases index with
      | zero => simp at due
      | succ index => exact inductionHypothesis _ ⟨index, Seen, operation, next, seen, due, rfl⟩
  | access operation next frontHypothesis =>
    induction acc with
    | intro works closed inductionHypothesis =>
      apply Acc.intro
      rintro _ ⟨index, Seen, other, rest, seen, due, rfl⟩
      cases index with
      | zero =>
        obtain ⟨rfl, same, rest⟩ := Work.access.inj (Option.some.inj due)
        obtain rfl := eq_of_heq rest
        exact frontHypothesis seen (Acc.intro works closed)
      | succ index => exact inductionHypothesis _ ⟨index, Seen, other, rest, seen, due, rfl⟩

theorem acc_shrinks (works : List (Work α)) : Acc Shrinks works := by
  induction works with
  | nil =>
    apply Acc.intro
    rintro _ ⟨index, Seen, operation, next, seen, due, -⟩
    simp at due
  | cons work works inductionHypothesis => exact acc_shrinks_cons work inductionHypothesis

theorem Step.shrinks {before after : Pool α} (step : Step before after) :
    Shrinks after.works before.works := by
  cases step with
  | access tree index operation next due => exact ⟨index, _, operation, next, _, due, rfl⟩

/-- No order of the accesses goes on forever. -/
theorem acc_step (pool : Pool α) : Acc (fun after before => Step before after) pool :=
  Subrelation.accessible (fun step => step.shrinks)
    (InvImage.accessible Pool.works (acc_shrinks pool.works))

theorem exists_step_or_finished (tree : Tree) (works : List (Work α)) :
    (∃ values : List α, works = values.map .done) ∨ ∃ after, Step { tree, works } after := by
  induction works with
  | nil => exact .inl ⟨[], rfl⟩
  | cons work works inductionHypothesis =>
    cases work with
    | access operation next => exact .inr ⟨_, .access tree 0 operation next rfl⟩
    | done value =>
      rcases inductionHypothesis with ⟨values, rfl⟩ | ⟨after, step⟩
      · exact .inl ⟨value :: values, rfl⟩
      · cases step with
        | access _ index operation next due =>
          exact .inr ⟨_, .access tree (index + 1) operation next due⟩

/-- The workers never get stuck before all of them are done. -/
theorem exists_reaches_finished (pool : Pool α) :
    ∃ tree values, pool.Reaches (finished tree values) := by
  induction acc_step pool with
  | intro pool _ inductionHypothesis =>
    rcases exists_step_or_finished pool.tree pool.works with ⟨values, same⟩ | ⟨after, step⟩
    · refine ⟨pool.tree, values, ?_⟩
      rw [finished, ← same]
      exact .refl
    · obtain ⟨tree, values, reached⟩ := inductionHypothesis after step
      exact ⟨tree, values, .head step reached⟩

/-! ### One after the other -/

theorem reaches_run (before : List (Work α)) (work : Work α) (after : List (Work α))
    (tree : Tree) :
    Reaches { tree, works := before ++ work :: after }
      { tree := (work.run tree).1, works := before ++ .done (work.run tree).2 :: after } := by
  induction work generalizing tree with
  | done value => exact .refl
  | access operation next inductionHypothesis =>
    have due : (before ++ .access operation next :: after)[before.length]? =
        some (.access operation next) := by simp
    have step := Step.access tree before.length operation next due
    rw [List.set_append_right _ _ (Nat.le_refl _), Nat.sub_self, List.set_cons_zero] at step
    exact .head step (inductionHypothesis _ _)

theorem reaches_runAll_behind (values : List α) (works : List (Work α)) (tree : Tree) :
    Reaches { tree, works := values.map .done ++ works }
      (finished (Work.runAll works tree).1 (values ++ (Work.runAll works tree).2)) := by
  induction works generalizing values tree with
  | nil =>
    rw [List.append_nil, Work.runAll, List.append_nil]
    exact .refl
  | cons work works inductionHypothesis =>
    have first := reaches_run (values.map .done) work works tree
    have others := inductionHypothesis (values ++ [(work.run tree).2]) (work.run tree).1
    rw [List.map_append, List.append_assoc, List.append_assoc] at others
    exact first.trans others

/-- The workers may come one after the other. -/
theorem reaches_runAll (works : List (Work α)) (tree : Tree) :
    Reaches { tree, works }
      (finished (Work.runAll works tree).1 (Work.runAll works tree).2) :=
  reaches_runAll_behind [] works tree

/-! ### What the workers give -/

theorem forall₂_set {ι κ : Type*} {sources : List ι} {values : List κ} {relates : ι → κ → Prop}
    {index : Nat} {value next : κ} (related : List.Forall₂ relates sources values)
    (found : values[index]? = some value)
    (onward : ∀ source, relates source value → relates source next) :
    List.Forall₂ relates sources (values.set index next) := by
  induction related generalizing index with
  | nil => exact .nil
  | cons first others inductionHypothesis =>
    cases index with
    | zero =>
      obtain rfl := Option.some.inj found
      exact .cons (onward _ first) others
    | succ index => exact .cons first (inductionHypothesis found)

/-- There is one worker for each source, in their order, whose value will be related to it. -/
def Ensure (relates : β → α → Prop) (sources : List β) (works : List (Work α)) : Prop :=
  List.Forall₂ (fun source work => work.Ensures (relates source)) sources works

variable {sources : List β} {relates : β → α → Prop}

theorem ensure_of_reaches {before after : Pool α} (reached : Reaches before after)
    (ensured : Ensure relates sources before.works) : Ensure relates sources after.works := by
  induction reached with
  | refl => exact ensured
  | tail _ step inductionHypothesis =>
    cases step with
    | access tree index operation next due =>
      exact forall₂_set inductionHypothesis due fun source ensures => ensures tree

/-- When all workers are done, there is one value for each source, in their order. -/
theorem forall₂_of_finished {workFor : β → Work α} {last : Tree} {values : List α}
    (ensured : ∀ source, (workFor source).Ensures (relates source))
    (reached : Reaches { tree, works := sources.map workFor } (finished last values)) :
    List.Forall₂ relates sources values := by
  have initially : Ensure relates sources (sources.map workFor) := by
    rw [Ensure, List.forall₂_map_right_iff, List.forall₂_same]
    exact fun source _ => ensured source
  have atEnd : Ensure relates sources (values.map .done) := ensure_of_reaches reached initially
  rwa [Ensure, List.forall₂_map_right_iff] at atEnd

/-! ### What the workers keep to -/

section Upholds

variable (rely guarantee : Nat → Tree → Tree → Prop) (after : Nat → α → Tree → Prop)

/-- What each worker keeps to is what the others count on, so each of them upholds its part in every
order of the accesses. -/
theorem upholds_of_reaches (relyRefl : ∀ index tree, rely index tree tree)
    (relyTrans : ∀ {index first second third}, rely index first second →
      rely index second third → rely index first third)
    (apart : ∀ {index other before after}, index < works.length → other < works.length →
      index ≠ other → guarantee index before after → rely other before after)
    (initially : ∀ (index : Nat) (work : Work α), works[index]? = some work →
      work.Upholds (rely index) (guarantee index) (after index) tree)
    (reached : Reaches { tree, works } pool) :
    pool.works.length = works.length ∧
      ∀ (index : Nat) (work : Work α), pool.works[index]? = some work →
        work.Upholds (rely index) (guarantee index) (after index) pool.tree := by
  induction reached with
  | refl => exact ⟨rfl, initially⟩
  | tail _ step inductionHypothesis =>
    obtain ⟨sameLength, upholds⟩ := inductionHypothesis
    cases step with
    | access shared index operation next due =>
      have inRange {other : Nat} {works : List (Work α)} {work : Work α}
          (found : works[other]? = some work) : other < works.length :=
        (List.getElem?_eq_some_iff.mp found).1
      obtain ⟨kept, onward⟩ := upholds index _ due shared (relyRefl index shared)
      refine ⟨by simpa using sameLength, fun other work found => ?_⟩
      rw [List.getElem?_set] at found
      split at found
      · rename_i same
        subst same
        split at found
        · obtain rfl := Option.some.inj found
          exact onward
        · simp at found
      · rename_i different
        have step := apart (sameLength ▸ inRange due) (sameLength ▸ inRange found) different kept
        exact (upholds other work found).of_rely relyTrans step

end Upholds

end Pool

/-- An agreement between workers: what each may count on, and what each keeps to. -/
structure Accord (count : Nat) where
  rely : Nat → Tree → Tree → Prop
  guarantee : Nat → Tree × Tree → Tree × Tree → Prop
  refl : ∀ index tree, rely index tree tree
  trans : ∀ {index first second third}, rely index first second → rely index second third →
    rely index first third
  /-- What one worker keeps to is what the others count on. -/
  apart : ∀ {index other state changed}, index < count → other < count → index ≠ other →
    guarantee index state changed → rely other state.1 changed.1

namespace Accord

variable {tree last : Tree} {works : List (Work α)} {pool : Pool α} {count : Nat}
  (accord : Accord count) (after : Nat → α → Tree → Tree → Prop)
  (holds : Tree → (Nat → Tree) → Prop)

/-- A worker is as far as it would be alone: it tracks the tree that it would have by now, and has
the same work before it. -/
def IsAsAlone (tree : Tree) (works : List (Work α)) (shared : Tree) (index : Nat) (work : Work α)
    (alone : Tree) : Prop :=
  work.Tracks (accord.rely index) (accord.guarantee index) (after index) shared alone ∧
    ∃ start, works[index]? = some start ∧ work.run alone = start.run tree

variable (all : works.length = count)
  (keeps : ∀ {index shared changed alone own}, index < count → holds shared alone →
    accord.guarantee index (shared, alone index) (changed, own) →
      holds changed (Function.update alone index own))
  (initially : holds tree fun _ => tree)
  (tracks : ∀ (index : Nat) (work : Work α), works[index]? = some work →
    work.Tracks (accord.rely index) (accord.guarantee index) (after index) tree tree)

include all keeps initially tracks

/-- Workers that keep to an agreement are always as far as they would be alone, and what all their
accesses keep holds of the shared tree and the trees that they would have. -/
theorem exists_alone (reached : Pool.Reaches { tree, works } pool) :
    ∃ alone : Nat → Tree, holds pool.tree alone ∧ pool.works.length = count ∧
      ∀ (index : Nat) (work : Work α), pool.works[index]? = some work →
        accord.IsAsAlone after tree works pool.tree index work (alone index) := by
  induction reached with
  | refl =>
    exact ⟨_, initially, all, fun index work found => ⟨tracks index work found, work, found, rfl⟩⟩
  | tail _ step inductionHypothesis =>
    obtain ⟨alone, held, sameLength, asAlone⟩ := inductionHypothesis
    cases step with
    | access shared index operation next due =>
      have inRange : index < count := by
        rw [← sameLength]
        exact (List.getElem?_eq_some_iff.mp due).1
      obtain ⟨moved, start, begun, sameRun⟩ := asAlone index _ due
      obtain ⟨sameSeen, kept, onward⟩ := moved shared (accord.refl index shared)
      refine ⟨Function.update alone index (operation (alone index)).1,
        keeps inRange held kept, by simpa using sameLength, fun other work found => ?_⟩
      rw [List.getElem?_set] at found
      split at found
      · -- The worker that has made its access is one access further in its own tree, too.
        rename_i same
        subst same
        split at found
        · obtain rfl := Option.some.inj found
          rw [sameSeen, Function.update_self]
          exact ⟨onward, start, begun, sameRun⟩
        · simp at found
      · -- The others could count on what this access has done.
        rename_i different
        have otherInRange : other < count := by
          rw [← sameLength]
          exact (List.getElem?_eq_some_iff.mp found).1
        obtain ⟨tracks, start, begun, sameRun⟩ := asAlone other work found
        rw [Function.update_of_ne (Ne.symm different)]
        exact ⟨tracks.of_rely accord.trans (accord.apart inRange otherInRange different kept),
          start, begun, sameRun⟩

/-- When all workers are done, each has given what it would have given alone. -/
theorem exists_alone_of_finished {values : List α}
    (reached : Pool.Reaches { tree, works } (.finished last values)) :
    values = works.map (fun work => (work.run tree).2) ∧
      ∃ alone : Nat → Tree, holds last alone ∧
        ∀ (index : Nat) (work : Work α), works[index]? = some work →
          alone index = (work.run tree).1 ∧ after index (work.run tree).2 last (alone index) := by
  obtain ⟨alone, held, sameLength, asAlone⟩ :=
    accord.exists_alone after holds all keeps initially tracks reached
  have given : ∀ (index : Nat) (value : α), values[index]? = some value →
      ∃ work, works[index]? = some work ∧ work.run tree = (alone index, value) ∧
        after index value last (alone index) := by
    intro index value found
    obtain ⟨ended, work, begun, sameRun⟩ := asAlone index (.done value)
      (by simp [Pool.finished, found])
    exact ⟨work, begun, sameRun.symm, ended last (accord.refl index last)⟩
  have sameCount : values.length = works.length := by
    rw [all, ← sameLength]
    simp [Pool.finished]
  refine ⟨List.ext_getElem? fun index => ?_, alone, held, fun index work found => ?_⟩
  · rw [List.getElem?_map]
    cases found : values[index]? with
    | none =>
      rw [List.getElem?_eq_none_iff, sameCount, ← List.getElem?_eq_none_iff] at found
      rw [found]
      rfl
    | some value =>
      obtain ⟨work, begun, sameRun, -⟩ := given index value found
      rw [begun, Option.map_some, sameRun]
  · have inRange : index < values.length := by
      rw [sameCount]
      exact (List.getElem?_eq_some_iff.mp found).1
    obtain ⟨begun, same, sameRun, ended⟩ := given index _ (List.getElem?_eq_getElem inRange)
    obtain rfl : work = begun := Option.some.inj (found.symm.trans same)
    rw [sameRun]
    exact ⟨rfl, ended⟩

end Accord

end Unpacking
