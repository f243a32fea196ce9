import Mathlib.Logic.Relation
import Unpacking.Proofs.Reflection.Run

/-!
The worklist of a removal. A turn of the loop takes the latest pending name, and skips or sweeps
it. A sweep may push any number of names, but each of them takes a line of own code with it. So
the pending names and the lines of own code together become fewer in every turn.
-/

namespace Unpacking.Reflection

open Text
open Relation (ReflTransGen)

namespace Removal

/-- A sweep of a removal for a term, with the names that it finds. -/
structure IsSweep (term : Text) (removal result : Removal) (names : List Text) : Prop where
  swept : ∀ source terms, Swept source terms removal.text removal.findings →
    Swept source (terms ++ [term]) result.text result.findings
  pending : result.pending = names.reverse ++ removal.pending
  processed : result.processed = removal.processed
  tainted : ∀ name, name ∈ result.tainted ↔ name ∈ removal.tainted ∨ name ∈ names
  taken : names.length + ownCode result.text ≤ ownCode removal.text

theorem mem_tainted {removal : Removal} {name : Text} :
    name ∈ removal.tainted ↔ name ∈ removal.findings.filterMap Finding.tainted? :=
  List.mem_eraseDups

theorem isSweep_of_sweep {term : Text} {removal result : Removal}
    (swept : removal.sweep term = .ok result) : ∃ names, IsSweep term removal result names := by
  unfold sweep at swept
  simp only at swept
  split at swept
  · simp at swept
  · rename_i text inLines passed
    rw [Except.ok.injEq] at swept
    subst result
    refine ⟨_, ⟨?_, rfl, rfl, ?_, names_add_ownCode_of_sweep passed⟩⟩
    · intro source terms earlier
      exact earlier.sweep passed
    · intro name
      simp only [mem_tainted, List.filterMap_append, List.mem_append]

/-! ### The invariant of the loop -/

/-- A removal that has swept a source for its terms and for the names it has processed. Every name
that was found waits for its sweep or has had it, and no name has had two. -/
structure Follows (source : Text) (terms : List Text) (removal : Removal) : Prop where
  swept : Swept source (terms ++ removal.processed) removal.text removal.findings
  scheduled : ∀ name, name ∈ removal.tainted ↔ name ∈ removal.pending ∨ name ∈ removal.processed
  once : removal.processed.Nodup

theorem Follows.name_of_mem {source name : Text} {terms : List Text} {removal : Removal}
    (follows : Follows source terms removal) (member : name ∈ removal.tainted) :
    IsName name ∧ name <:+: source :=
  follows.swept.name_of_mem (mem_tainted.mp member)

/-- The terms are swept before any name is processed. -/
theorem follows_of_sweepAll {source : Text} {done terms : List Text} {removal start : Removal}
    (follows : Follows source done removal) (unprocessed : removal.processed = [])
    (swept : removal.sweepAll terms = .ok start) :
    Follows source (done ++ terms) start ∧ start.processed = [] := by
  induction terms generalizing done removal with
  | nil =>
      rw [sweepAll_nil, Except.ok.injEq] at swept
      subst start
      exact ⟨by simpa using follows, unprocessed⟩
  | cons term rest inductionHypothesis =>
      rw [sweepAll_cons] at swept
      split at swept
      · simp at swept
      · rename_i next first
        obtain ⟨names, step⟩ := isSweep_of_sweep first
        have stillNone : next.processed = [] := step.processed.trans unprocessed
        have followsNext : Follows source (done ++ [term]) next := by
          refine ⟨?_, ?_, by simp [stillNone]⟩
          · have later := step.swept source _ follows.swept
            rw [unprocessed, List.append_nil] at later
            rwa [stillNone, List.append_nil]
          · intro name
            rw [step.tainted, follows.scheduled, step.pending, stillNone, unprocessed]
            simp only [List.mem_append, List.mem_reverse, List.not_mem_nil, or_false]
            exact or_comm
        have others := inductionHypothesis followsNext stillNone swept
        rwa [List.append_assoc] at others

theorem follows_start {source : Text} {terms : List Text} {start : Removal}
    (swept : ({ text := source } : Removal).sweepAll terms = .ok start) :
    Follows source terms start := by
  have begun : Follows source [] { text := source } :=
    ⟨.start, by simp [mem_tainted], List.nodup_nil⟩
  exact (follows_of_sweepAll begun rfl swept).1

end Removal

/-- One turn of the worklist loop. -/
inductive Turn : Removal → Removal → Prop
  | skip {removal : Removal} {name : Text} {pending : List Text}
      (next : removal.pending = name :: pending) (known : name ∈ removal.processed) :
      Turn removal { removal with pending }
  | sweep {removal swept : Removal} {name : Text} {pending : List Text}
      (next : removal.pending = name :: pending) (fresh : name ∉ removal.processed)
      (ok : { removal with pending }.sweep name = .ok swept) :
      Turn removal { swept with processed := swept.processed ++ [name] }

theorem Turn.follows {source : Text} {terms : List Text} {earlier later : Removal}
    (turn : Turn earlier later) (follows : earlier.Follows source terms) :
    later.Follows source terms := by
  cases turn with
  | skip next known =>
      refine ⟨follows.swept, ?_, follows.once⟩
      intro name
      change name ∈ earlier.tainted ↔ _
      rw [follows.scheduled, next, List.mem_cons]
      constructor
      · rintro ((rfl | waits) | done)
        · exact .inr known
        · exact .inl waits
        · exact .inr done
      · rintro (waits | done)
        · exact .inl (.inr waits)
        · exact .inr done
  | @sweep swept name pending next fresh ok =>
      obtain ⟨names, step⟩ := Removal.isSweep_of_sweep ok
      have processed : swept.processed = earlier.processed := step.processed
      refine ⟨?_, ?_, ?_⟩
      · have later := step.swept source _ follows.swept
        rw [List.append_assoc] at later
        rwa [processed]
      · intro other
        change other ∈ swept.tainted ↔ other ∈ swept.pending ∨ other ∈ swept.processed ++ [name]
        have before : other ∈ earlier.tainted ↔ _ := follows.scheduled other
        rw [next] at before
        rw [step.tainted]
        change other ∈ earlier.tainted ∨ _ ↔ _
        rw [before, step.pending, processed]
        simp only [List.mem_append, List.mem_cons, List.mem_reverse, List.not_mem_nil, or_false]
        tauto
      · change (swept.processed ++ [name]).Nodup
        rw [processed]
        refine List.nodup_append.mpr ⟨follows.once, by simp, ?_⟩
        intro done inside other here
        rw [List.mem_singleton.mp here]
        rintro rfl
        exact fresh inside

theorem follows_of_turns {source : Text} {terms : List Text} {start removal : Removal}
    (turns : ReflTransGen Turn start removal) (follows : start.Follows source terms) :
    removal.Follows source terms := by
  induction turns with
  | refl => exact follows
  | tail _ turn inductionHypothesis => exact turn.follows inductionHypothesis

/-! ### The end of the loop -/

/-- The names that wait, and the lines on which further names can be found. -/
def Removal.effort (removal : Removal) : Nat :=
  removal.pending.length + ownCode removal.text

/-- Every turn leaves less to do. -/
theorem Turn.effort_lt {earlier later : Removal} (turn : Turn earlier later) :
    later.effort < earlier.effort := by
  cases turn with
  | skip next known =>
      simp only [Removal.effort, next, List.length_cons]
      omega
  | @sweep swept name pending next fresh ok =>
      obtain ⟨names, step⟩ := Removal.isSweep_of_sweep ok
      have taken : names.length + ownCode swept.text ≤ ownCode earlier.text := step.taken
      have waiting : swept.pending = names.reverse ++ pending := step.pending
      simp only [Removal.effort, next, waiting, List.length_append, List.length_reverse,
        List.length_cons]
      omega

/-- There is no endless run of turns. -/
theorem acc_turn (removal : Removal) : Acc (fun later earlier => Turn earlier later) removal :=
  Subrelation.accessible Turn.effort_lt ((measure Removal.effort).wf.apply removal)

theorem effort_le_of_turns {start removal : Removal} (turns : ReflTransGen Turn start removal) :
    removal.effort ≤ start.effort := by
  induction turns with
  | refl => exact Nat.le_refl _
  | tail _ turn inductionHypothesis =>
      have less := turn.effort_lt
      omega

/-- Names that were processed are skipped one by one. -/
theorem turns_dropWhile (removal : Removal) (pending : List Text) :
    ReflTransGen Turn { removal with pending }
      { removal with pending := pending.dropWhile removal.processed.contains } := by
  induction pending with
  | nil => exact .refl
  | cons name rest inductionHypothesis =>
      by_cases known : removal.processed.contains name = true
      · rw [List.dropWhile_cons_of_pos known]
        refine .head (Turn.skip rfl ?_) inductionHypothesis
        simpa using known
      · rw [List.dropWhile_cons_of_neg known]

theorem turns_skip (removal : Removal) : ReflTransGen Turn removal
    { removal with pending := removal.pending.dropWhile removal.processed.contains } :=
  turns_dropWhile removal removal.pending

/-- The sweep of the first pending name that was not processed is a run of turns. -/
theorem turns_of_next {removal swept : Removal} {name : Text} {pending : List Text}
    (next : removal.pending.dropWhile removal.processed.contains = name :: pending)
    (ok : { removal with pending }.sweep name = .ok swept) :
    ReflTransGen Turn removal { swept with processed := swept.processed ++ [name] } ∧
      { swept with processed := swept.processed ++ [name] }.effort < removal.effort := by
  have skipped := turns_skip removal
  rw [next] at skipped
  have fresh : name ∉ removal.processed := by
    have head := List.head?_dropWhile_not removal.processed.contains removal.pending
    rw [next] at head
    simpa using head
  have turn : Turn { removal with pending := name :: pending }
      { swept with processed := swept.processed ++ [name] } := Turn.sweep rfl fresh ok
  refine ⟨skipped.tail turn, ?_⟩
  have less := turn.effort_lt
  have atMost := effort_le_of_turns skipped
  omega

/-- Draining is a run of turns, and with room for every turn it leaves nothing pending. -/
theorem turns_of_drain {limit : Nat} {removal result : Removal}
    (drained : removal.drain limit = .ok result) :
    ReflTransGen Turn removal result ∧ (removal.effort < limit → result.pending = []) := by
  induction limit generalizing removal with
  | zero =>
      rw [Removal.drain_zero, Except.ok.injEq] at drained
      subst result
      exact ⟨.refl, fun below => absurd below (Nat.not_lt_zero _)⟩
  | succ limit inductionHypothesis =>
      rw [Removal.drain_succ] at drained
      split at drained
      · rename_i emptied
        rw [Except.ok.injEq] at drained
        subst result
        have skipped := turns_skip removal
        rw [emptied] at skipped
        exact ⟨skipped, fun _ => rfl⟩
      · rename_i name pending next
        split at drained
        · simp at drained
        · rename_i swept ok
          obtain ⟨first, less⟩ := turns_of_next next ok
          obtain ⟨turns, emptied⟩ := inductionHypothesis drained
          refine ⟨first.trans turns, fun below => emptied ?_⟩
          omega

/-- A limit that has room for every turn decides nothing. -/
theorem drain_add {limit : Nat} {removal : Removal} (room : removal.effort < limit) (extra : Nat) :
    removal.drain (limit + extra) = removal.drain limit := by
  induction limit generalizing removal with
  | zero => exact absurd room (Nat.not_lt_zero _)
  | succ limit inductionHypothesis =>
      rw [Nat.add_right_comm, Removal.drain_succ, Removal.drain_succ]
      split
      · rfl
      · rename_i name pending next
        split
        · rfl
        · rename_i swept ok
          have less := (turns_of_next next ok).2
          exact inductionHypothesis (by omega)

/-- The sweeps for the terms leave no more to do than there was. -/
theorem effort_le_of_sweepAll {terms : List Text} {removal start : Removal}
    (swept : removal.sweepAll terms = .ok start) : start.effort ≤ removal.effort := by
  induction terms generalizing removal with
  | nil =>
      rw [Removal.sweepAll_nil, Except.ok.injEq] at swept
      rw [swept]
  | cons term rest inductionHypothesis =>
      rw [Removal.sweepAll_cons] at swept
      split at swept
      · simp at swept
      · rename_i next first
        obtain ⟨names, step⟩ := Removal.isSweep_of_sweep first
        have others := inductionHypothesis swept
        have taken := step.taken
        simp only [Removal.effort, step.pending, List.length_append, List.length_reverse] at others ⊢
        omega

/-- The lines of a source leave room for every turn. -/
theorem effort_start {source : Text} {terms : List Text} {start : Removal}
    (swept : ({ text := source } : Removal).sweepAll terms = .ok start) :
    start.effort < source.length + 1 := by
  have room := effort_le_of_sweepAll swept
  have code : ownCode source ≤ (lines source).length := List.countP_le_length
  have size := length_lines_le source
  simp only [Removal.effort, List.length_nil] at room ⊢
  omega

theorem remove_eq_drain {source : Text} {terms : List Text} {start : Removal}
    (swept : ({ text := source } : Removal).sweepAll terms = .ok start) :
    remove terms source = start.drain (source.length + 1) := by
  rw [remove_eq, swept]

/-- A removal ends when its worklist is empty. -/
theorem turns_of_remove {terms : List Text} {source : Text} {removal : Removal}
    (removed : remove terms source = .ok removal) :
    ∃ start, ({ text := source } : Removal).sweepAll terms = .ok start ∧
      ReflTransGen Turn start removal ∧ removal.pending = [] := by
  cases swept : ({ text := source } : Removal).sweepAll terms with
  | error error => simp [remove_eq, swept] at removed
  | ok start =>
      rw [remove_eq_drain swept] at removed
      obtain ⟨turns, emptied⟩ := turns_of_drain removed
      exact ⟨start, rfl, turns, emptied (effort_start swept)⟩

/-- A removal that is known to succeed, and what is known of its result. -/
theorem exists_remove_of_map {α : Type} {terms : List Text} {source : Text} {view : Removal → α}
    {seen : α} (run : (remove terms source).map view = .ok seen) :
    ∃ removal, remove terms source = .ok removal ∧ view removal = seen := by
  cases removed : remove terms source with
  | error error =>
      rw [removed] at run
      exact nomatch run
  | ok removal =>
      rw [removed, Except.map, Except.ok.injEq] at run
      exact ⟨removal, rfl, run⟩

theorem follows_of_remove {terms : List Text} {source : Text} {removal : Removal}
    (removed : remove terms source = .ok removal) : removal.Follows source terms := by
  obtain ⟨start, swept, turns, -⟩ := turns_of_remove removed
  exact follows_of_turns turns (Removal.follows_start swept)

/-- A removal has processed the names that it found, and no others. -/
theorem mem_processed_of_remove {terms : List Text} {source : Text} {removal : Removal}
    (removed : remove terms source = .ok removal) (name : Text) :
    name ∈ removal.processed ↔ name ∈ removal.tainted := by
  obtain ⟨start, -, -, emptied⟩ := turns_of_remove removed
  have scheduled := (follows_of_remove removed).scheduled name
  rw [emptied] at scheduled
  simpa using scheduled.symm

theorem nodup_eraseDups (names : List Text) : names.eraseDups.Nodup := by
  induction size : names.length using Nat.strongRecOn generalizing names with
  | ind size inductionHypothesis =>
      cases names with
      | nil => simp
      | cons name rest =>
          rw [List.eraseDups_cons, List.nodup_cons]
          have shorter := List.length_filter_le (fun other => !other == name) rest
          rw [List.length_cons] at size
          refine ⟨?_, inductionHypothesis _ (by omega) _ rfl⟩
          simp

/-- The loop over the worklist ends, whatever the terms and the source are, and its limit is never
what ends it. On the way no name is swept twice, and every name that is scheduled is a part of the
source. A removal that succeeds has emptied the worklist, and has processed the names that it
found, no more and no fewer. -/
theorem worklist_terminates (terms : List Text) (source : Text) :
    (∀ start, ({ text := source } : Removal).sweepAll terms = .ok start →
      Acc (fun later earlier => Turn earlier later) start ∧
      (∀ limit, source.length < limit → start.drain limit = remove terms source) ∧
      ∀ removal, ReflTransGen Turn start removal → removal.processed.Nodup ∧
        ∀ name ∈ removal.pending ++ removal.processed, name <:+: source) ∧
    ∀ removal, remove terms source = .ok removal →
      (∃ start, ({ text := source } : Removal).sweepAll terms = .ok start ∧
        ReflTransGen Turn start removal ∧ removal.pending = []) ∧
      removal.tainted.Nodup ∧ removal.processed.Nodup ∧
      ∀ name, name ∈ removal.processed ↔ name ∈ removal.tainted := by
  refine ⟨fun start swept => ⟨acc_turn start, ?_, ?_⟩, fun removal removed => ?_⟩
  · intro limit above
    obtain ⟨extra, rfl⟩ := Nat.exists_eq_add_of_lt above
    rw [remove_eq_drain swept, Nat.add_right_comm]
    exact drain_add (effort_start swept) extra
  · intro removal turns
    have follows := follows_of_turns turns (Removal.follows_start swept)
    refine ⟨follows.once, fun name member => ?_⟩
    have tainted := (follows.scheduled name).mpr (List.mem_append.mp member)
    exact (follows.name_of_mem tainted).2
  · have follows := follows_of_remove removed
    exact ⟨turns_of_remove removed, nodup_eraseDups _, follows.once,
      mem_processed_of_remove removed⟩

theorem worklist_terminates_chain :
    ∃ start removal, ({ text := "b=a;\nc=b;" } : Removal).sweepAll ["a"] = .ok start ∧
      start.pending = [("b" : Text)] ∧ Acc (fun later earlier => Turn earlier later) start ∧
      remove ["a"] "b=a;\nc=b;" = .ok removal ∧ removal.processed = [("b" : Text), "c"] ∧
      removal.tainted.Nodup ∧ ∀ name, name ∈ removal.processed ↔ name ∈ removal.tainted := by
  have drained := worklist_terminates ["a"] "b=a;\nc=b;"
  refine ⟨_, _, rfl, by decide +kernel, (drained.1 _ rfl).1, rfl, by decide +kernel,
    (drained.2 _ rfl).2.1, (drained.2 _ rfl).2.2.2⟩

end Unpacking.Reflection
