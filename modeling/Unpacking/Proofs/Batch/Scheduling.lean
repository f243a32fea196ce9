import Unpacking.Proofs.Analysis.Dependencies
import Unpacking.Proofs.Batch.Sharing
import Unpacking.Proofs.Renaming.Order
import Unpacking.Proofs.Unpacker.Synthesis

/-!
Runs in which the packages are processed at the same time. Main statement: `run_of_reaches` says
that the order of all single accesses leaves no trace.
-/

namespace Unpacking.Batch

open Text Unpacking.Tree Layout

/-! ### All packages -/

variable {settings : Settings} {layout : Layout} {inputs : List PackageInput}
  {tree shared changed last : Tree} {place : Names}

/-- The stem of the package at an index. -/
def stemAt (inputs : List PackageInput) (index : Nat) : Text :=
  (inputs.map PackageInput.stem).getD index []

theorem stemAt_eq {index : Nat} {input : PackageInput} (found : inputs[index]? = some input) :
    stemAt inputs index = input.stem := by
  simp [stemAt, found]

theorem stemAt_ne {index other : Nat} (distinct : (inputs.map PackageInput.stem).Nodup)
    (inRange : index < inputs.length) (otherInRange : other < inputs.length)
    (different : index ≠ other) : stemAt inputs index ≠ stemAt inputs other := by
  rw [stemAt_eq (List.getElem?_eq_getElem inRange),
    stemAt_eq (List.getElem?_eq_getElem otherInRange)]
  intro same
  apply different
  have inStems : index < (inputs.map PackageInput.stem).length := by simpa using inRange
  have otherInStems : other < (inputs.map PackageInput.stem).length := by simpa using otherInRange
  exact distinct.getElem_inj_iff.mp
    (show (inputs.map PackageInput.stem)[index] = (inputs.map PackageInput.stem)[other] by
      simpa using same)

/-- Packages with different stems get along. -/
def accord (layout : Layout) (inputs : List PackageInput)
    (distinct : (inputs.map PackageInput.stem).Nodup) : Accord inputs.length where
  rely index := Rely layout (stemAt inputs index)
  guarantee index := Guarantee layout (stemAt inputs index)
  refl _ := Rely.refl
  trans := Rely.trans
  apart := by
    intro index other state changed inRange otherInRange different kept
    exact kept.rely (stemAt_ne distinct inRange otherInRange different)

/-- What the packages have done to a tree as far as it is nobody's own: they have kept the
directories, left the other artifacts alone, and made the directory of unpackers only if one of them
would make it alone. -/
structure Accounts (layout : Layout) (inputs : List PackageInput) (tree shared : Tree)
    (alone : Nat → Tree) : Prop where
  keeps : tree.KeepsDirectories shared
  others : ∀ place, IsArtifact place → (∀ input ∈ inputs, ¬ Owns input.stem place) →
    place ≠ ["unpackers".toList] →
      shared.lookup (layout.base ++ place) = tree.lookup (layout.base ++ place)
  common : shared.lookup layout.unpackersPlace = tree.lookup layout.unpackersPlace ∨
    ∃ index < inputs.length, (alone index).lookup layout.unpackersPlace = some .directory

theorem Accounts.step {own : Tree} {trees : Nat → Tree} {index : Nat}
    (accounts : Accounts layout inputs tree shared trees) (inRange : index < inputs.length)
    (kept : Guarantee layout (stemAt inputs index) (shared, trees index) (changed, own)) :
    Accounts layout inputs tree changed (Function.update trees index own) where
  keeps := accounts.keeps.trans kept.keeps
  others place isArtifact nobody notCommon := by
    have notOwns : ¬ Owns (stemAt inputs index) place := by
      rw [stemAt_eq (List.getElem?_eq_getElem inRange)]
      exact nobody _ (List.getElem_mem inRange)
    exact (kept.others place isArtifact notOwns notCommon).trans
      (accounts.others place isArtifact nobody notCommon)
  common := by
    rcases kept.made with same | made
    · rcases accounts.common with before | ⟨other, otherInRange, made⟩
      · exact .inl (same.trans before)
      · refine .inr ⟨other, otherInRange, ?_⟩
        by_cases equal : other = index
        · subst equal
          rw [Function.update_self]
          exact kept.keepsAlone _ made
        · rw [Function.update_of_ne equal, made]
    · exact .inr ⟨index, inRange, by rw [Function.update_self, made]⟩

/-- Two trees of one history show the same artifacts. -/
theorem lookup_eq_of_accounts {left right : Tree} {leftTrees rightTrees : Nat → Tree}
    (leftAccounts : Accounts layout inputs tree left leftTrees)
    (rightAccounts : Accounts layout inputs tree right rightTrees)
    (leftSees : ∀ index < inputs.length, Sees layout (stemAt inputs index) left (leftTrees index))
    (rightSees : ∀ index < inputs.length,
      Sees layout (stemAt inputs index) right (rightTrees index))
    (same : ∀ index < inputs.length, leftTrees index = rightTrees index)
    (isArtifact : IsArtifact place) :
    left.lookup (layout.base ++ place) = right.lookup (layout.base ++ place) := by
  by_cases owned : ∃ input ∈ inputs, Owns input.stem place
  · obtain ⟨input, member, owns⟩ := owned
    obtain ⟨index, inRange, rfl⟩ := List.getElem_of_mem member
    have owns : Owns (stemAt inputs index) place := by
      rw [stemAt_eq (List.getElem?_eq_getElem inRange)]
      exact owns
    rw [(leftSees index inRange).own place owns, (rightSees index inRange).own place owns,
      same index inRange]
  · have nobody : ∀ input ∈ inputs, ¬ Owns input.stem place :=
      fun input member owns => owned ⟨input, member, owns⟩
    by_cases common : place = ["unpackers".toList]
    · subst common
      -- If any package makes the directory of unpackers alone, it is there in both trees.
      by_cases made : ∃ index < inputs.length,
          (leftTrees index).lookup layout.unpackersPlace = some .directory
      · obtain ⟨index, inRange, made⟩ := made
        have leftMade := (leftSees index inRange).lookup_unpackersPlace made
        rw [same index inRange] at made
        exact leftMade.trans ((rightSees index inRange).lookup_unpackersPlace made).symm
      · have leftSame := leftAccounts.common.resolve_right made
        have rightSame := rightAccounts.common.resolve_right fun rightMade => made (by
          obtain ⟨index, inRange, found⟩ := rightMade
          exact ⟨index, inRange, by rw [same index inRange, found]⟩)
        exact leftSame.trans rightSame.symm
    · rw [leftAccounts.others place isArtifact nobody common,
        rightAccounts.others place isArtifact nobody common]

/-- The workers of a run, one for each package. -/
def workers (settings : Settings) (layout : Layout) (tree : Tree) (jobs : List Job) : Pool Record :=
  { tree, works := jobs.map (process settings layout) }

/-- When all packages are done, each has the record that it would have alone, and the tree accounts
for all of them. -/
theorem exists_accounts {jobs : List Job} {records : List Record} (stands : layout.Stands tree)
    (distinct : ((jobs.map Job.input).map PackageInput.stem).Nodup)
    (plain : ∀ job ∈ jobs, Path.isPlain job.input.stem = true)
    (free : '/' ∉ settings.synthesis.classPrefix) (steady : ∀ job ∈ jobs, job.IsSteady layout)
    (reached : (workers settings layout tree jobs).Reaches (.finished last records)) :
    records = jobs.map (fun job => ((process settings layout job).run tree).2) ∧
      ∃ trees : Nat → Tree, Accounts layout (jobs.map Job.input) tree last trees ∧
        ∀ index job, jobs[index]? = some job →
          trees index = ((process settings layout job).run tree).1 ∧
            Sees layout (stemAt (jobs.map Job.input) index) last (trees index) := by
  have initially : Accounts layout (jobs.map Job.input) tree tree fun _ => tree :=
    ⟨.refl tree, fun _ _ _ _ => rfl, .inl rfl⟩
  have tracks (index : Nat) (work : Work Record)
      (isWork : (jobs.map (process settings layout))[index]? = some work) :
      EndsAlike layout (stemAt (jobs.map Job.input) index) work tree tree := by
    obtain ⟨job, isJob, rfl⟩ : ∃ job, jobs[index]? = some job ∧
        process settings layout job = work := by simpa using isWork
    have isInput : (jobs.map Job.input)[index]? = some job.input := by
      rw [List.getElem?_map, isJob, Option.map_some]
    rw [stemAt_eq isInput]
    have inside := List.mem_of_getElem? isJob
    exact endsAlike_process (steady job inside) (plain job inside) free (.refl stands)
  obtain ⟨given, trees, accounts, alone⟩ :=
    (accord layout (jobs.map Job.input) distinct).exists_alone_of_finished
      (fun index _ => Sees layout (stemAt (jobs.map Job.input) index))
      (Accounts layout (jobs.map Job.input) tree) (by simp)
      (fun inRange held kept => held.step inRange kept) initially tracks reached
  refine ⟨by simpa [Function.comp_def] using given, trees, accounts, fun index job isJob => ?_⟩
  exact alone index _ (by simp [isJob])

/-! ### What can be seen of a run -/

/-- Two trees hold the same at the place that a path leads to, and below it. -/
def SameBelow (left right : Tree) (path : Text) : Prop :=
  ∃ place, left.resolve path = .ok place ∧ right.resolve path = .ok place ∧
    ∀ names, place <+: names → left.lookup names = right.lookup names

/-- Two trees hold the same results, logs and unpackers and the same table. -/
def SameArtifacts (layout : Layout) (left right : Tree) : Prop :=
  ∀ path ∈ [layout.resultsDirectory, layout.logsDirectory, layout.unpackersDirectory,
    layout.tablePath], SameBelow left right path

theorem sameArtifacts_of_lookup {left right : Tree} (leftStands : layout.Stands left)
    (rightStands : layout.Stands right)
    (same : ∀ place, IsArtifact place →
      left.lookup (layout.base ++ place) = right.lookup (layout.base ++ place)) :
    SameArtifacts layout left right := by
  have below {first : Text} (plain : Path.isPlain first = true) (isArtifact : IsArtifact [first]) :
      SameBelow left right (Path.join layout.root first) := by
    have resolved {tree : Tree} (stands : layout.Stands tree) :
        tree.resolve (Path.join layout.root first) = .ok (layout.base ++ [first]) :=
      resolve_eq_ok_iff.mpr ⟨join_ne_nil plain _, (isOpen_join_iff plain).mpr
        ⟨stands.isOpen, stands.root⟩, goal_join plain _⟩
    refine ⟨_, resolved leftStands, resolved rightStands, ?_⟩
    rintro _ ⟨rest, rfl⟩
    rw [List.append_assoc]
    exact same _ isArtifact.append
  intro path member
  simp only [List.mem_cons, List.not_mem_nil, or_false] at member
  rcases member with rfl | rfl | rfl | rfl
  · exact below isPlain_results ⟨_, by simp, List.prefix_refl _⟩
  · exact below isPlain_logs ⟨_, by simp, List.prefix_refl _⟩
  · exact below isPlain_unpackers ⟨_, by simp, List.prefix_refl _⟩
  · exact below isPlain_table ⟨_, by simp, List.prefix_refl _⟩

/-- The table is written to trees with the same artifacts in the same way. -/
theorem sameArtifacts_conclude {left right : Tree} (leftStands : layout.Stands left)
    (rightStands : layout.Stands right)
    (same : ∀ place, IsArtifact place →
      left.lookup (layout.base ++ place) = right.lookup (layout.base ++ place))
    (disk : Disk) (elapsed : Duration) (records : List Record) :
    (conclude layout disk elapsed left records).2 =
        (conclude layout disk elapsed right records).2 ∧
      SameArtifacts layout (conclude layout disk elapsed left records).1
        (conclude layout disk elapsed right records).1 := by
  have isTable : IsArtifact ["combined_table.tsv".toList] := ⟨_, by simp, List.prefix_refl _⟩
  have filled : layout.tablePath ≠ [] := join_ne_nil isPlain_table layout.root
  simp only [conclude, writeTable, write_of_isOpen filled leftStands.isOpen_tablePath,
    write_of_isOpen filled rightStands.isOpen_tablePath, goal_tablePath, same _ isTable]
  split_ifs with fails
  · exact ⟨rfl, sameArtifacts_of_lookup leftStands rightStands same⟩
  · have proper : layout.base ++ ["combined_table.tsv".toList] ≠ [] := by simp
    have untaken : right.lookup (layout.base ++ ["combined_table.tsv".toList]) ≠
        some .directory := fun taken => fails (.inr taken)
    have also (file : Entry) : SameArtifacts layout
        (left.put (layout.base ++ ["combined_table.tsv".toList]) file)
        (right.put (layout.base ++ ["combined_table.tsv".toList]) file) := by
      apply sameArtifacts_of_lookup
      · exact leftStands.keep (keepsDirectories_put _ (by rw [same _ isTable]; exact untaken))
      · exact rightStands.keep (keepsDirectories_put _ untaken)
      · intro place isArtifact
        by_cases here : layout.base ++ place = layout.base ++ ["combined_table.tsv".toList]
        · rw [here, lookup_put_same left _ proper, lookup_put_same right _ proper]
        · rw [lookup_put_other left _ here, lookup_put_other right _ here]
          exact same place isArtifact
    cases answer disk layout.tablePath with
    | ok _ => exact ⟨rfl, also _⟩
    | error _ => exact ⟨rfl, also _⟩

/-! ### Other orders of maps -/

/-- The same job, with maps that are visited in another order. -/
def Job.withOrder (order : MapOrder) (job : Job) : Job :=
  { job with toolkit := { job.toolkit with order } }

/-- The classes that go into the unpacker of a package can be renamed whatever the order of maps
is. -/
def Job.IsSettled (job : Job) : Prop :=
  ∀ tree facts, (job.load tree).2 = .loaded (.ok facts) →
    ∀ entry ∈ (Analysis.Subject.of job.input.path facts).entry,
      Unpacker.AreSettled job.toolkit (Dependencies.collect entry facts)

theorem analyse_withOrder {job : Job} {order : MapOrder}
    (settled : order = job.toolkit.order ∨ job.IsSettled) (tree : Tree) :
    analyse job.toolkit settings job.input.path (job.load tree).2 =
      analyse (job.withOrder order).toolkit settings job.input.path (job.load tree).2 := by
  rcases settled with rfl | settled
  · rfl
  · cases arrived : (job.load tree).2 with
    | brokenOff => rfl
    | late => rfl
    | loaded loaded =>
      have same := @Analysis.run_order job.toolkit settings job.input.path loaded
        (fun facts isFacts => settled tree facts (isFacts ▸ arrived)) false order
      simp only [analyse, same, Job.withOrder]

theorem run_process (job : Job) {arrival : Arrival} {outcome : PackageOutcome} {log : Log}
    (loads : job.load tree = (changed, arrival))
    (analysed : analyse job.toolkit settings job.input.path arrival = (outcome, log)) :
    (process settings layout job).run tree =
      (keep settings layout job outcome log).run changed := by
  simp only [process, bind, Work.bind, Work.single, Work.run, loads, analysed]

theorem run_process_withOrder {job : Job} {order : MapOrder}
    (settled : order = job.toolkit.order ∨ job.IsSettled) :
    (process settings layout (job.withOrder order)).run tree =
      (process settings layout job).run tree := by
  rw [run_process job rfl (analyse_withOrder settled tree)]
  exact run_process (job.withOrder order) rfl rfl

section Jobs

variable {jobs : List Job} (distinct : ((jobs.map Job.input).map PackageInput.stem).Nodup)
  (plain : ∀ job ∈ jobs, Path.isPlain job.input.stem = true)
  (free : '/' ∉ settings.synthesis.classPrefix) (steady : ∀ job ∈ jobs, job.IsSteady layout)
  {orders : Job → MapOrder}
  (settled : ∀ job ∈ jobs, orders job = job.toolkit.order ∨ job.IsSettled)

include distinct plain free steady settled

/-- Two finished runs over the same packages show the same records and artifacts. -/
theorem lookup_eq_of_finished {lastToo : Tree} {records recordsToo : List Record}
    (stands : layout.Stands tree)
    (reached : (workers settings layout tree jobs).Reaches (.finished last records))
    (reachedToo : (workers settings layout tree
      (jobs.map fun job => job.withOrder (orders job))).Reaches (.finished lastToo recordsToo)) :
    records = recordsToo ∧ layout.Stands last ∧ layout.Stands lastToo ∧
      ∀ place, IsArtifact place →
        last.lookup (layout.base ++ place) = lastToo.lookup (layout.base ++ place) := by
  have sameInputs : (jobs.map fun job => job.withOrder (orders job)).map Job.input =
      jobs.map Job.input := List.map_map
  have plainToo : ∀ job ∈ jobs.map fun job => job.withOrder (orders job),
      Path.isPlain job.input.stem = true := List.forall_mem_map.mpr plain
  have steadyToo : ∀ job ∈ jobs.map fun job => job.withOrder (orders job), job.IsSteady layout :=
    List.forall_mem_map.mpr fun job member => ⟨(steady job member).answer,
      (steady job member).keeps, (steady job member).artifacts⟩
  obtain ⟨given, trees, accounts, alone⟩ :=
    exists_accounts stands distinct plain free steady reached
  obtain ⟨givenToo, treesToo, accountsToo, aloneToo⟩ := exists_accounts stands
    (sameInputs ▸ distinct) plainToo free steadyToo reachedToo
  rw [sameInputs] at accountsToo aloneToo
  have same {index : Nat} (inRange : index < (jobs.map Job.input).length) :
      Sees layout (stemAt (jobs.map Job.input) index) last (trees index) ∧
        Sees layout (stemAt (jobs.map Job.input) index) lastToo (treesToo index) ∧
        trees index = treesToo index := by
    have inRange : index < jobs.length := by simpa using inRange
    obtain ⟨sameTree, sees⟩ := alone index _ (List.getElem?_eq_getElem inRange)
    obtain ⟨sameTreeToo, seesToo⟩ := aloneToo index _
      (by rw [List.getElem?_map, List.getElem?_eq_getElem inRange, Option.map_some])
    rw [run_process_withOrder (settled _ (List.getElem_mem inRange))] at sameTreeToo
    exact ⟨sees, seesToo, sameTree.trans sameTreeToo.symm⟩
  refine ⟨?_, stands.keep accounts.keeps, stands.keep accountsToo.keeps, fun place isArtifact =>
    lookup_eq_of_accounts accounts accountsToo (fun _ inRange => (same inRange).1)
      (fun _ inRange => (same inRange).2.1) (fun _ inRange => (same inRange).2.2) isArtifact⟩
  rw [given, givenToo, List.map_map]
  exact List.map_congr_left fun job member =>
    congrArg Prod.snd (run_process_withOrder (settled job member)).symm

/-- Packages with different plain stems may be processed in any order, down to single accesses: no
order goes on forever or gets stuck, and every one ends with the records and artifacts of the run
that takes them one after the other. In that run the maps of a package may be visited in another
order, if its classes are settled. -/
theorem run_of_reaches {before : Tree} {output name : Text}
    (created : Layout.create before output name = .ok (tree, layout)) :
    let others := jobs.map fun job => job.withOrder (orders job)
    let oneByOne := Work.runAll (others.map (process settings layout)) tree
    Acc (fun after before => Pool.Step before after) (workers settings layout tree jobs) ∧
      ∀ pool, (workers settings layout tree jobs).Reaches pool →
        (∃ last records, pool.Reaches (.finished last records)) ∧
        ∀ last records, pool = .finished last records →
          records = oneByOne.2 ∧ SameArtifacts layout last oneByOne.1 ∧
          ∀ disk elapsed,
            let ended := conclude layout disk elapsed last records
            let sequential := run settings layout disk elapsed tree others
            ended.2 = sequential.2 ∧ SameArtifacts layout ended.1 sequential.1 := by
  intro others oneByOne
  refine ⟨Pool.acc_step _, fun pool reached => ⟨pool.exists_reaches_finished, ?_⟩⟩
  rintro last records rfl
  obtain ⟨rfl, standsLast, standsOne, same⟩ := lookup_eq_of_finished distinct plain free steady
    settled (stands_of_create created) reached (Pool.reaches_runAll _ tree)
  exact ⟨rfl, sameArtifacts_of_lookup standsLast standsOne same,
    fun disk elapsed => sameArtifacts_conclude standsLast standsOne same disk elapsed _⟩

end Jobs

/-! ### Packages with two classes -/

/-- An analysis that makes an unpacker is completed with it. -/
theorem exists_completed_of_hits? {toolkit : Toolkit} {path : Text} {facts : Facts}
    {entry : ClassFact} {hits : Nat} (isOn : settings.synthesize = true)
    (goesOn : settings.continueUnpacked = true)
    (isEntry : (Analysis.Subject.of path facts).entry = some entry)
    (counted : Unpacker.hits? toolkit settings.synthesis path entry
      (Dependencies.collect entry facts) = some hits) :
    ∃ report unpacker,
      (analyse toolkit settings path (.loaded (.ok facts))).1 = .completed report ∧
        report.unpacker = some unpacker ∧ unpacker.removal.hits = hits ∧
        unpacker.className = Unpacker.classNameFor settings.synthesis path := by
  obtain ⟨unpacker, log, made, isHits⟩ := Unpacker.exists_synthesize_of_hits? counted
  have done : Analysis.synthesis toolkit settings (.of path facts) = .ok {
      unpacker := some unpacker
      removed := (Analysis.Subject.of path facts).removedReflection unpacker
      log } := by
    rw [Analysis.synthesis, isOn, isEntry]
    simp only [Bool.not_true, Bool.false_eq_true, if_false]
    rw [show (Analysis.Subject.of path facts).path = path from rfl,
      show (Analysis.Subject.of path facts).facts = facts from rfl, made]
  simp only [analyse, Analysis.run, Analysis.runOn, goesOn, done, Bool.not_true, Bool.and_false,
    Bool.false_eq_true, if_false]
  exact ⟨_, unpacker, rfl, rfl, isHits, Unpacker.className_of_synthesize made⟩

/-- The order opposite to that in which the names were put into a map. -/
def reversed : MapOrder where
  visit := List.reverse
  perm := List.reverse_perm

/-- An application class that loads another class and keeps it in a field of a third one. -/
def keepingClass : ClassFact :=
  { name := "p.A"
    source := "class A \x7b\nvoid m() \x7b\nK.a = Class.forName(s);\nf(Z.field_a);\n\x7d\n\x7d"
    superclass := some "android.app.Application" }

/-- The class with that field, and maybe others. -/
def keeperClass (fields : Text) : ClassFact :=
  { name := "p.K", source := "class K \x7b\nstatic Class " ++ fields ++ ";\n\x7d" }

/-- A package with both classes. -/
def keepingFacts (fields : Text) : Facts :=
  .ofClasses [keepingClass, keeperClass fields] []

/-- The job for this package. -/
def keepingJob (fields : Text) : Job :=
  { input := { path := "a.apk", kind := .app }
    load := fun tree => (tree, .loaded (.ok (keepingFacts fields))) }

theorem collect_keepingFacts {fields : Text} (isKnown : fields ∈ [['a'], "a, field_a".toList]) :
    Dependencies.collect keepingClass (keepingFacts fields) =
      [keepingClass, keeperClass fields] := by
  have candidates : ∀ fields ∈ [['a'], "a, field_a".toList],
      Dependencies.candidates keepingClass (keepingFacts fields) = [keeperClass fields] ∧
        [keeperClass fields].filter keepingClass.refersTo = [keeperClass fields] := by
    decide +kernel
  obtain ⟨others, referred⟩ := candidates fields isKnown
  rw [Dependencies.collect_eq_cons, others, referred, Dependencies.collectFrom_singleton]

/-- The analysis of the package is completed, with the unpacker named for it. -/
theorem exists_completed_keepingFacts {toolkit : Toolkit} {fields : Text} {hits : Nat}
    (isKnown : fields ∈ [['a'], "a, field_a".toList])
    (counted : Unpacker.hits? toolkit {} "a.apk" keepingClass [keepingClass, keeperClass fields] =
      some hits) :
    ∃ report unpacker,
      (analyse toolkit {} "a.apk" (.loaded (.ok (keepingFacts fields)))).1 = .completed report ∧
        report.unpacker = some unpacker ∧ unpacker.removal.hits = hits ∧
        unpacker.className = "Unpacker_a".toList := by
  have isEntry : ∀ fields ∈ [['a'], "a, field_a".toList],
      (Analysis.Subject.of "a.apk" (keepingFacts fields)).entry = some keepingClass := by
    decide +kernel
  rw [← collect_keepingFacts isKnown] at counted
  obtain ⟨report, unpacker, completed, isMade, isHits, named⟩ :=
    @exists_completed_of_hits? {} toolkit _ _ _ _ rfl rfl (isEntry fields isKnown) counted
  exact ⟨report, unpacker, completed, isMade, isHits, named⟩

/-- The record of the package, when its artifacts can be written. -/
theorem run_process_keepingJob {toolkit : Toolkit} {fields : Text} {hits : Nat} {tree : Tree}
    (created : Layout.create {} "out" "run" = .ok (tree, { root := "out/run" }))
    (isKnown : fields ∈ [['a'], "a, field_a".toList])
    (counted : Unpacker.hits? toolkit {} "a.apk" keepingClass [keepingClass, keeperClass fields] =
      some hits) :
    ∃ last record report unpacker, (process {} { root := "out/run" }
        { keepingJob fields with toolkit }).run tree = (last, record) ∧
      record.outcome = .completed report ∧ report.unpacker = some unpacker ∧
      unpacker.removal.hits = hits := by
  obtain ⟨⟨verdict, missing, made, error⟩, ⟨className, qualifiedName, classes, unhandled, removal⟩,
    completed, isMade, isHits, named⟩ := exists_completed_keepingFacts isKnown counted
  obtain rfl : className = "Unpacker_a".toList := named
  obtain rfl : made = _ := isMade
  obtain rfl := (Prod.mk.inj (Except.ok.inj created)).1
  rw [run_process { keepingJob fields with toolkit } rfl (Prod.ext completed rfl)]
  exact ⟨_, _, _, _, rfl, rfl, rfl, isHits⟩

/-- A package that leaves the tree alone is steady. -/
theorem isSteady_of_answer {job : Job} {arrival : Arrival}
    (answers : job.load = fun tree => (tree, arrival)) : job.IsSteady layout := by
  constructor
  · simp [answers]
  · simp [answers, KeepsDirectories.refl]
  · simp [answers]

/-- With one field the classes are settled. -/
theorem isSettled_keepingJob : (keepingJob "a").IsSettled := by
  intro tree facts arrived entry isEntry renamer isRenamer separate ran
  obtain rfl : keepingFacts ['a'] = facts := Except.ok.inj (Arrival.loaded.inj arrived)
  have first : (Analysis.Subject.of "a.apk" (keepingFacts ['a'])).entry = some keepingClass := by
    decide +kernel
  obtain rfl : keepingClass = entry := Option.some.inj (first.symm.trans isEntry)
  rw [collect_keepingFacts (by decide)] at ran
  obtain rfl : ({} : Renamer) = renamer := Except.ok.inj isRenamer
  have all : ∀ separate ∈ (Renaming.renameSeparately Java.parser []
      ([keepingClass, keeperClass ['a']].map fun fact =>
        (fact.simpleName, fact.source))).1.toOption,
      Renaming.patternError? {} separate = none ∧
        ∀ one ∈ separate, one.IsSettled := by
    decide +kernel
  exact all separate (by rw [ran]; rfl)

/-- An app whose classes are settled, one whose analysis breaks off, and one that is late. They are
processed in any order, and compared with a run that visits maps in the opposite order. -/
theorem run_of_reaches_three :
    let jobs : List Job := [keepingJob "a",
      { input := { path := "b.apk", kind := .app }, load := fun tree => (tree, .brokenOff) },
      { input := { path := "c.apk", kind := .app }, load := fun tree => (tree, .late) }]
    let others := jobs.map (Job.withOrder reversed)
    ∃ tree layout, Layout.create {} "out" "run" = .ok (tree, layout) ∧
      ∀ last records, (workers {} layout tree jobs).Reaches (.finished last records) →
        records.map (fun record => record.outcome.label) =
            ["completed".toList, "failed".toList, "timeout".toList] ∧
          SameArtifacts layout last (Work.runAll (others.map (process {} layout)) tree).1 := by
  intro jobs others
  obtain ⟨tree, created⟩ : ∃ tree, Layout.create {} "out" "run" =
      .ok (tree, { root := "out/run" }) := ⟨_, rfl⟩
  refine ⟨tree, _, created, fun last records reached => ?_⟩
  have steady : ∀ job ∈ jobs, job.IsSteady { root := "out/run" } := by
    simp only [jobs, List.forall_mem_cons]
    exact ⟨isSteady_of_answer rfl, isSteady_of_answer rfl, isSteady_of_answer rfl, by simp⟩
  have settled : ∀ job ∈ jobs, reversed = job.toolkit.order ∨ job.IsSettled := by
    simp only [jobs, List.forall_mem_cons]
    exact ⟨.inr isSettled_keepingJob, .inr nofun, .inr nofun, by simp⟩
  obtain ⟨same, artifacts, -⟩ := ((@run_of_reaches {} _ _ jobs (by decide) (by decide) (by decide)
    steady (fun _ => reversed) settled _ _ _ created).2 _ reached).2 last records rfl
  refine ⟨?_, artifacts⟩
  have counted : Unpacker.hits? { order := reversed } {} "a.apk" keepingClass
      [keepingClass, keeperClass ['a']] = some 3 := by decide +kernel
  obtain ⟨first, record, report, unpacker, ran, completed, -⟩ :=
    run_process_keepingJob created (by decide) counted
  have runs : (process {} { root := "out/run" } ((keepingJob "a").withOrder reversed)).run tree =
      (first, record) := ran
  simp only [same, jobs, List.map_cons, Work.runAll, runs, completed]
  rfl

/-- The use of a field in an unpacker depends on the order of maps, where another field has the new
name of the first. -/
theorem run_of_another_order :
    let job := keepingJob "a, field_a"
    ∃ tree layout, Layout.create {} "out" "run" = .ok (tree, layout) ∧
      Path.isPlain job.input.stem = true ∧ job.IsSteady layout ∧
      ∃ first second,
        (Work.runAll [process {} layout job] tree).2.map Record.outcome = [.completed first] ∧
        (Work.runAll [process {} layout (job.withOrder reversed)] tree).2.map Record.outcome =
          [.completed second] ∧
        first.unpacker.map (fun unpacker => unpacker.removal.hits) = some 2 ∧
        second.unpacker.map (fun unpacker => unpacker.removal.hits) = some 3 := by
  intro job
  obtain ⟨tree, created⟩ : ∃ tree, Layout.create {} "out" "run" =
      .ok (tree, { root := "out/run" }) := ⟨_, rfl⟩
  have counted : Unpacker.hits? {} {} "a.apk" keepingClass
      [keepingClass, keeperClass "a, field_a"] = some 2 := by decide +kernel
  have countedToo : Unpacker.hits? { order := reversed } {} "a.apk" keepingClass
      [keepingClass, keeperClass "a, field_a"] = some 3 := by decide +kernel
  obtain ⟨last, record, first, unpacker, ran, completed, isMade, isHits⟩ :=
    run_process_keepingJob created (by decide) counted
  obtain ⟨lastToo, recordToo, second, unpackerToo, ranToo, completedToo, isMadeToo, isHitsToo⟩ :=
    run_process_keepingJob created (by decide) countedToo
  have runs : (process {} { root := "out/run" } job).run tree = (last, record) := ran
  have runsToo : (process {} { root := "out/run" } (job.withOrder reversed)).run tree =
      (lastToo, recordToo) := ranToo
  refine ⟨tree, _, created, by decide, isSteady_of_answer rfl, first, second, ?_, ?_, ?_, ?_⟩
  · simp only [Work.runAll, runs, List.map_cons, List.map_nil, completed]
  · simp only [Work.runAll, runsToo, List.map_cons, List.map_nil, completedToo]
  · rw [isMade, Option.map_some, isHits]
  · rw [isMadeToo, Option.map_some, isHitsToo]

end Unpacking.Batch
