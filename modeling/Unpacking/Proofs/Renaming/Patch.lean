import Mathlib.Data.List.Sort
import Unpacking.Renaming.ClassSource

/-!
Edits of a source, carried out from its end. A source can be cut into patches, each of them a part
that may get a new text and the text before it. The edits are sorted, later places first, so an edit
moves nothing that is still to be edited, and in the end every part has its new text as if all had
been replaced at once. Main statements: `exists_patches` and `splice_edits`.
-/

namespace Unpacking.Renaming

open Text Java

/-! ### Patches -/

/-- A part of a source that may get a new text, with the text before it. -/
structure Patch (α : Type) where
  /-- The text before the part. -/
  kept : Text
  /-- What stands there. -/
  item : α
  old : Text
  new? : Option Text

namespace Patch

variable {α : Type}

/-- The text of the part afterwards. -/
def new (patch : Patch α) : Text :=
  patch.new?.getD patch.old

/-- The source that is cut into patches and a rest. -/
def before (patches : List (Patch α)) (rest : Text) : Text :=
  patches.foldr (fun patch rest => patch.kept ++ (patch.old ++ rest)) rest

/-- The source when all parts have their new texts. -/
def after (patches : List (Patch α)) (rest : Text) : Text :=
  patches.foldr (fun patch rest => patch.kept ++ (patch.new ++ rest)) rest

theorem before_cons (patch : Patch α) (patches : List (Patch α)) (rest : Text) :
    before (patch :: patches) rest = patch.kept ++ (patch.old ++ before patches rest) := rfl

theorem after_cons (patch : Patch α) (patches : List (Patch α)) (rest : Text) :
    after (patch :: patches) rest = patch.kept ++ (patch.new ++ after patches rest) := rfl

theorem before_append (front back : List (Patch α)) (rest : Text) :
    before (front ++ back) rest = before front (before back rest) :=
  List.foldr_append

theorem after_append (front back : List (Patch α)) (rest : Text) :
    after (front ++ back) rest = after front (after back rest) :=
  List.foldr_append

theorem before_rest (patches : List (Patch α)) (rest more : Text) :
    before patches (rest ++ more) = before patches rest ++ more := by
  induction patches with
  | nil => rfl
  | cons patch patches inductionHypothesis =>
      rw [before_cons, before_cons, inductionHypothesis]
      simp only [List.append_assoc]

theorem after_rest (patches : List (Patch α)) (rest more : Text) :
    after patches (rest ++ more) = after patches rest ++ more := by
  induction patches with
  | nil => rfl
  | cons patch patches inductionHypothesis =>
      rw [after_cons, after_cons, inductionHypothesis]
      simp only [List.append_assoc]

section Places

variable (start stop : α → Nat)

/-- The parts lie where it is said, from an offset on. -/
def Fit (offset : Nat) : List (Patch α) → Prop
  | [] => True
  | patch :: rest =>
    start patch.item = offset + byteLength patch.kept ∧
      stop patch.item = start patch.item + byteLength patch.old ∧ Fit (stop patch.item) rest

/-- The edit of a patch, if it has one. -/
def edit? (patch : Patch α) : Option Edit :=
  patch.new?.map fun new => { start := start patch.item, stop := stop patch.item, new }

variable {start stop}

/-- A part begins behind the patches and the text before it. -/
theorem start_eq_of_fit {offset : Nat} {front back : List (Patch α)} {patch : Patch α}
    (fit : Fit start stop offset (front ++ patch :: back)) :
    start patch.item = offset + byteLength (before front patch.kept) := by
  induction front generalizing offset with
  | nil => exact fit.1
  | cons first front inductionHypothesis =>
      obtain ⟨starts, stops, later⟩ := fit
      rw [inductionHypothesis later, stops, starts, before_cons, byteLength_append,
        byteLength_append]
      omega

theorem splice_append (edits more : List Edit) (text : Text) :
    splice (edits ++ more) text = splice more (splice edits text) :=
  List.foldl_append

/-- Edits from the end put all new texts in their places. What stands before stays. -/
theorem splice_edits {patches : List (Patch α)} (lead : Text)
    (fit : Fit start stop (byteLength lead) patches) (rest : Text) :
    splice (patches.filterMap (edit? start stop)).reverse (lead ++ before patches rest) =
      lead ++ after patches rest := by
  induction patches generalizing lead with
  | nil => rfl
  | cons patch patches inductionHypothesis =>
      obtain ⟨starts, stops, later⟩ := fit
      rw [← byteLength_append] at starts
      rw [starts] at stops
      rw [stops, ← byteLength_append] at later
      have others := inductionHypothesis _ later
      rw [before_cons, after_cons, ← List.append_assoc, ← List.append_assoc, ← List.append_assoc,
        List.filterMap_cons]
      cases new : patch.new? with
      | none =>
          rw [edit?, new, Option.map_none, Patch.new, new, Option.getD_none]
          simpa only [List.append_assoc] using others
      | some text =>
          rw [edit?, new, Option.map_some, Patch.new, new, Option.getD_some]
          dsimp only
          rw [List.reverse_cons, splice_append, others, splice, List.foldl_cons, List.foldl_nil]
          dsimp only
          rw [starts, stops, replaceRange_append]
          simp only [List.append_assoc]

/-- A source can be cut into patches at parts that lie one behind the other. -/
theorem exists_patches (new? : α → Option Text) {items : List α} (lead : Text) {text : Text}
    (ordered : items.Pairwise fun one other => stop one ≤ start other)
    (behind : ∀ item ∈ items, byteLength lead ≤ start item)
    (stands : ∀ item ∈ items, ∃ before part rest, lead ++ text = before ++ part ++ rest ∧
      start item = byteLength before ∧ stop item = byteLength before + byteLength part) :
    ∃ patches rest, patches.map item = items ∧ (∀ patch ∈ patches, patch.new? = new? patch.item) ∧
      Fit start stop (byteLength lead) patches ∧ text = before patches rest := by
  induction items generalizing lead text with
  | nil => exact ⟨[], text, rfl, by simp, trivial, rfl⟩
  | cons item items inductionHypothesis =>
      obtain ⟨first, later⟩ := List.pairwise_cons.mp ordered
      obtain ⟨before, part, rest, whole, starts, stops⟩ := stands item (by simp)
      rw [List.append_assoc before] at whole
      obtain ⟨kept, rfl, rfl⟩ := exists_between whole (starts ▸ behind item (by simp))
      have moved : lead ++ (kept ++ (part ++ rest)) = lead ++ kept ++ part ++ rest := by simp
      rw [← byteLength_append] at stops
      rw [moved] at stands
      obtain ⟨patches, tail, same, news, fit, rfl⟩ := inductionHypothesis _ later
        (fun other member => stops ▸ first other member)
        (fun other member => stands other (by simp [member]))
      refine ⟨{ kept, item, old := part, new? := new? item } :: patches, tail, by simp [same],
        List.forall_mem_cons.mpr ⟨rfl, news⟩, ⟨?_, ?_, ?_⟩, rfl⟩
      · rw [starts, byteLength_append]
      · rw [stops, starts, byteLength_append]
      · rw [stops]
        exact fit

/-- What a patch replaces stands at its place in the source. -/
theorem old_eq_slice {patches : List (Patch α)}
    (lead : Text) (fit : Fit start stop (byteLength lead) patches) (rest : Text) {patch : Patch α}
    (member : patch ∈ patches) :
    patch.old = slice (start patch.item) (stop patch.item) (lead ++ before patches rest) := by
  induction patches generalizing lead with
  | nil => simp at member
  | cons first patches inductionHypothesis =>
      obtain ⟨starts, stops, later⟩ := fit
      rw [← byteLength_append] at starts
      rw [starts] at stops
      rcases List.mem_cons.mp member with rfl | inRest
      · rw [starts, stops, before_cons, ← List.append_assoc, ← List.append_assoc, slice_append]
      · rw [stops, ← byteLength_append] at later
        have found := inductionHypothesis _ later inRest
        rw [before_cons, ← List.append_assoc, ← List.append_assoc]
        exact found

end Places

end Patch

/-! ### The order of edits -/

theorem insertInto_perm (edit : Edit) (edits : List Edit) :
    (edit.insertInto edits).Perm (edit :: edits) := by
  induction edits with
  | nil => exact .refl _
  | cons first rest inductionHypothesis =>
      rw [Edit.insertInto]
      split
      · exact .refl _
      · exact (inductionHypothesis.cons first).trans (.swap edit first rest)

theorem sortEdits_perm (edits : List Edit) : (sortEdits edits).Perm edits := by
  induction edits with
  | nil => exact .refl _
  | cons edit edits inductionHypothesis =>
      exact (insertInto_perm edit _).trans (inductionHypothesis.cons edit)

theorem pairwise_insertInto {edit : Edit} {edits : List Edit}
    (sorted : edits.Pairwise fun one other => other.start ≤ one.start) :
    (edit.insertInto edits).Pairwise fun one other => other.start ≤ one.start := by
  induction edits with
  | nil => exact List.pairwise_singleton _ _
  | cons first rest inductionHypothesis =>
      obtain ⟨below, later⟩ := List.pairwise_cons.mp sorted
      rw [Edit.insertInto]
      split
      · rename_i least
        refine List.pairwise_cons.mpr ⟨?_, sorted⟩
        intro other member
        rcases List.mem_cons.mp member with rfl | inRest
        · exact least
        · exact Nat.le_trans (below other inRest) least
      · rename_i above
        refine List.pairwise_cons.mpr ⟨?_, inductionHypothesis later⟩
        intro other member
        rcases List.mem_cons.mp ((insertInto_perm edit rest).mem_iff.mp member) with rfl | inRest
        · omega
        · exact below other inRest

theorem pairwise_sortEdits (edits : List Edit) :
    (sortEdits edits).Pairwise fun one other => other.start ≤ one.start := by
  induction edits with
  | nil => exact .nil
  | cons edit edits inductionHypothesis => exact pairwise_insertInto inductionHypothesis

theorem distinctEdits_sublist (before? : Option Nat) (edits : List Edit) :
    (distinctEdits before? edits).Sublist edits := by
  induction edits generalizing before? with
  | nil => exact .slnil
  | cons edit edits inductionHypothesis =>
      rw [distinctEdits]
      split
      · exact (inductionHypothesis before?).cons edit
      · exact (inductionHypothesis (some edit.start)).cons_cons edit

/-- Of sorted edits, those that are left have different starts. -/
theorem pairwise_distinctEdits {edits : List Edit} (before? : Option Nat)
    (sorted : edits.Pairwise fun one other => other.start ≤ one.start)
    (bounded : ∀ edit ∈ edits, ∀ limit ∈ before?, edit.start ≤ limit) :
    (distinctEdits before? edits).Pairwise (fun one other => other.start < one.start) ∧
      ∀ edit ∈ distinctEdits before? edits, ∀ limit ∈ before?, edit.start < limit := by
  induction edits generalizing before? with
  | nil => exact ⟨.nil, by simp [distinctEdits]⟩
  | cons edit edits inductionHypothesis =>
      obtain ⟨below, later⟩ := List.pairwise_cons.mp sorted
      rw [distinctEdits]
      split
      · exact inductionHypothesis before? later fun other member =>
          bounded other (by simp [member])
      · rename_i different
        obtain ⟨strict, smaller⟩ := inductionHypothesis (some edit.start) later (by simpa using below)
        have here (limit : Nat) (given : limit ∈ before?) : edit.start < limit := by
          have atMost := bounded edit (by simp) limit given
          have other : edit.start ≠ limit := by
            rintro rfl
            exact different (by simpa using given)
          omega
        refine ⟨List.pairwise_cons.mpr ⟨fun other member => smaller other member _ rfl, strict⟩, ?_⟩
        intro other member limit given
        rcases List.mem_cons.mp member with rfl | inRest
        · exact here limit given
        · exact Nat.lt_trans (smaller other inRest _ rfl) (here limit given)

theorem distinctEdits_eq_self {edits : List Edit} (before? : Option Nat)
    (strict : edits.Pairwise fun one other => other.start < one.start)
    (fresh : ∀ edit ∈ edits, before? ≠ some edit.start) : distinctEdits before? edits = edits := by
  induction edits generalizing before? with
  | nil => rfl
  | cons edit edits inductionHypothesis =>
      obtain ⟨below, later⟩ := List.pairwise_cons.mp strict
      rw [distinctEdits, if_neg (by simpa using fresh edit (by simp))]
      rw [inductionHypothesis (some edit.start) later]
      intro other member same
      have smaller := below other member
      rw [Option.some.injEq] at same
      omega

theorem mem_of_mem_finalEdits {edits : List Edit} {edit : Edit}
    (member : edit ∈ finalEdits edits) : edit ∈ edits :=
  (sortEdits_perm edits).mem_iff.mp ((distinctEdits_sublist none _).mem member)

theorem pairwise_finalEdits (edits : List Edit) :
    (finalEdits edits).Pairwise fun one other => other.start < one.start :=
  (pairwise_distinctEdits none (pairwise_sortEdits edits) (by simp)).1

/-- Edits with different starts are all carried out, and the order in which they were found does not
matter. -/
theorem finalEdits_eq {edits ordered : List Edit} (same : ordered.Perm edits)
    (strict : ordered.Pairwise fun one other => other.start < one.start) :
    finalEdits edits = ordered := by
  have sorted : (sortEdits edits) = ordered := by
    apply List.Perm.eq_of_pairwise _ (pairwise_sortEdits edits)
      (strict.imp fun below => Nat.le_of_lt below) ((sortEdits_perm edits).trans same.symm)
    intro one other inOne inOther atMost atLeast
    have distinct : (ordered.map Edit.start).Nodup :=
      List.pairwise_map.mpr (strict.imp fun below => Nat.ne_of_gt below)
    have inOrdered := same.mem_iff.mpr ((sortEdits_perm edits).mem_iff.mp inOne)
    exact List.inj_on_of_nodup_map distinct inOrdered inOther (Nat.le_antisymm atLeast atMost)
  rw [finalEdits, sorted]
  exact distinctEdits_eq_self none strict (by simp)

/-! ### Cutting a source at its edits -/

namespace Patch

section Cutting

variable {α : Type} {start stop : α → Nat} {source : Text}

/-- An item stands in a source. -/
def StandsIn (start stop : α → Nat) (source : Text) (item : α) : Prop :=
  ∃ before part rest, source = before ++ part ++ rest ∧
    start item = byteLength before ∧ stop item = byteLength before + byteLength part

/-- Items that do not overlap and are not empty can be put one behind the other. -/
theorem exists_ordered {items : List α}
    (apart : items.Pairwise fun one other => stop one ≤ start other ∨ stop other ≤ start one)
    (filled : ∀ item ∈ items, start item < stop item) :
    ∃ ordered : List α, ordered.Perm items ∧
      ordered.Pairwise fun one other => stop one ≤ start other := by
  let ordered := items.insertionSort fun one other => start one ≤ start other
  have same : ordered.Perm items := List.perm_insertionSort _ items
  refine ⟨ordered, same, ?_⟩
  have apartToo := (same.pairwise_iff fun {one other} => Or.symm).mpr apart
  have ascending : ordered.Pairwise fun one other => start one ≤ start other :=
    List.pairwise_insertionSort _ items
  apply (ascending.and apartToo).imp_of_mem
  intro one other _ inOther both
  have size := filled other (same.mem_iff.mp inOther)
  omega

/-- The edits of patches are those of the items that they replace. -/
theorem filterMap_edit? (new? : α → Option Text) {patches : List (Patch α)}
    (news : ∀ patch ∈ patches, patch.new? = new? patch.item) :
    patches.filterMap (edit? start stop) = (patches.map item).filterMap fun item =>
      (new? item).map fun new => { start := start item, stop := stop item, new } := by
  rw [List.filterMap_map]
  apply List.filterMap_congr
  intro patch member
  rw [edit?, news patch member]
  rfl

/-- Edits of items that are not empty and lie one behind the other have different starts. -/
theorem pairwise_filterMap_edit? {patches : List (Patch α)}
    (ordered : (patches.map item).Pairwise fun one other => stop one ≤ start other)
    (filled : ∀ patch ∈ patches, start patch.item < stop patch.item) :
    (patches.filterMap (edit? start stop)).Pairwise fun one other => one.start < other.start := by
  rw [List.pairwise_filterMap]
  rw [List.pairwise_map] at ordered
  apply ordered.imp_of_mem
  intro one other inOne _ before edit isEdit later isLater
  obtain ⟨new, -, rfl⟩ := Option.map_eq_some_iff.mp isEdit
  obtain ⟨more, -, rfl⟩ := Option.map_eq_some_iff.mp isLater
  exact Nat.lt_of_lt_of_le (filled one inOne) before

/-- Items that do not overlap and are not empty are cut out of a source all at once. The edits of
those that get a new text put all the new texts in their places. -/
theorem exists_splice {items : List α} (new? : α → Option Text)
    (stands : ∀ item ∈ items, StandsIn start stop source item)
    (apart : items.Pairwise fun one other => stop one ≤ start other ∨ stop other ≤ start one)
    (filled : ∀ item ∈ items, start item < stop item) :
    ∃ patches rest, (patches.map item).Perm items ∧
      (∀ patch ∈ patches, patch.new? = new? patch.item) ∧ Fit start stop 0 patches ∧
      source = before patches rest ∧
      splice (finalEdits (items.filterMap fun item => (new? item).map fun new =>
        { start := start item, stop := stop item, new })) source = after patches rest := by
  obtain ⟨ordered, same, oneBehindOther⟩ := exists_ordered apart filled
  obtain ⟨patches, rest, rfl, news, fit, rfl⟩ := exists_patches new? [] oneBehindOther (by simp)
    (fun item member => stands item (same.mem_iff.mp member))
  refine ⟨patches, rest, same, news, fit, rfl, ?_⟩
  have filledPatches (patch : Patch α) (member : patch ∈ patches) :
      start patch.item < stop patch.item :=
    filled _ (same.mem_iff.mp (List.mem_map_of_mem member))
  have edits := same.filterMap fun item => (new? item).map fun new =>
    ({ start := start item, stop := stop item, new } : Edit)
  rw [← filterMap_edit? new? news] at edits
  have strict := pairwise_filterMap_edit? oneBehindOther filledPatches
  rw [finalEdits_eq ((List.reverse_perm _).trans edits) (List.pairwise_reverse.mpr strict)]
  exact splice_edits [] fit rest

/-! ### A part that no edit touches -/

/-- Where an item begins, or, for `none`, a part behind some text. -/
def startOr (before : Text) (start : α → Nat) (item : Option α) : Nat :=
  item.elim (byteLength before) start

/-- Where an item ends, or, for `none`, a part behind some text. -/
def stopOr (before part : Text) (stop : α → Nat) (item : Option α) : Nat :=
  item.elim (byteLength before + byteLength part) stop

/-- A part that stays is one more item to cut at, and gets no new text. -/
theorem exists_splice_with {before part behind : Text}
    (whole : source = before ++ (part ++ behind)) (partFilled : part ≠ []) {items : List α}
    (new? : α → Option Text) (stands : ∀ item ∈ items, StandsIn start stop source item)
    (apart : items.Pairwise fun one other => stop one ≤ start other ∨ stop other ≤ start one)
    (filled : ∀ item ∈ items, start item < stop item)
    (outside : ∀ item ∈ items,
      stop item ≤ byteLength before ∨ byteLength before + byteLength part ≤ start item) :
    ∃ patches rest, (patches.map item).Perm (none :: items.map some) ∧
      (∀ patch ∈ patches, patch.new? = patch.item.bind new?) ∧
      Fit (startOr before start) (stopOr before part stop) 0 patches ∧
      source = Patch.before patches rest ∧
      splice (finalEdits (items.filterMap fun item => (new? item).map fun new =>
        { start := start item, stop := stop item, new })) source = after patches rest := by
  have allStand : ∀ item ∈ none :: items.map some,
      StandsIn (startOr before start) (stopOr before part stop) source item := by
    refine List.forall_mem_cons.mpr ⟨?_, List.forall_mem_map.mpr stands⟩
    exact ⟨before, part, behind, by rw [whole, List.append_assoc], rfl, rfl⟩
  have allApart : (none :: items.map some).Pairwise fun one other =>
      stopOr before part stop one ≤ startOr before start other ∨
        stopOr before part stop other ≤ startOr before start one := by
    refine List.pairwise_cons.mpr ⟨?_, List.pairwise_map.mpr apart⟩
    exact List.forall_mem_map.mpr fun item member => (outside item member).symm
  have allFilled : ∀ item ∈ none :: items.map some,
      startOr before start item < stopOr before part stop item :=
    List.forall_mem_cons.mpr
      ⟨Nat.lt_add_of_pos_right (byteLength_pos partFilled), List.forall_mem_map.mpr filled⟩
  obtain ⟨patches, rest, same, news, fit, cut, spliced⟩ :=
    exists_splice (fun item => item.bind new?) allStand allApart allFilled
  rw [List.filterMap_cons_none rfl, List.filterMap_map] at spliced
  exact ⟨patches, rest, same, news, fit, cut, spliced⟩

/-- A source is cut before and behind a part that is one of its patches. -/
theorem before_of_fit {before part behind rest : Text} {front back : List (Patch α)}
    {patch : Patch α} (fit : Fit start stop 0 (front ++ patch :: back)) (isPart : patch.old = part)
    (starts : start patch.item = byteLength before)
    (cut : before ++ (part ++ behind) = Patch.before (front ++ patch :: back) rest) :
    before = Patch.before front patch.kept ∧ behind = Patch.before back rest := by
  have begins := start_eq_of_fit fit
  rw [starts, Nat.zero_add] at begins
  rw [before_append, before_cons, before_rest, isPart] at cut
  obtain ⟨isBefore, cut⟩ := append_inj_of_byteLength cut begins
  exact ⟨isBefore, List.append_cancel_left cut⟩

/-- A part of a source that no edit touches stays, and what stands before and behind it is cut at the
edits. -/
theorem exists_splice_around {before part behind : Text}
    (whole : source = before ++ (part ++ behind)) (partFilled : part ≠ []) {items : List α}
    (new? : α → Option Text) (stands : ∀ item ∈ items, StandsIn start stop source item)
    (apart : items.Pairwise fun one other => stop one ≤ start other ∨ stop other ≤ start one)
    (filled : ∀ item ∈ items, start item < stop item)
    (outside : ∀ item ∈ items, (new? item).isSome = true →
      stop item ≤ byteLength before ∨ byteLength before + byteLength part ≤ start item) :
    ∃ (front back : List (Patch (Option α))) (kept rest : Text),
      before = Patch.before front kept ∧ behind = Patch.before back rest ∧
      splice (finalEdits (items.filterMap fun item => (new? item).map fun new =>
        { start := start item, stop := stop item, new })) source =
          after front kept ++ (part ++ after back rest) ∧
      ∀ patch ∈ front ++ back, ∃ item ∈ items,
        patch.old = slice (start item) (stop item) source ∧ patch.new? = new? item := by
  -- The items without a new text may lie in the part, and nothing is cut there.
  let edited := items.filter fun item => (new? item).isSome
  have inItems {item : α} (inside : item ∈ edited) : item ∈ items := List.mem_of_mem_filter inside
  obtain ⟨patches, rest, same, news, fit, cut, spliced⟩ := exists_splice_with whole partFilled new?
    (fun item inside => stands item (inItems inside)) (apart.filter _)
    (fun item inside => filled item (inItems inside))
    (fun item inside => outside item (inItems inside) (List.mem_filter.mp inside).2)
  rw [List.filterMap_filter] at spliced
  have edits : (items.filterMap fun item => if (new? item).isSome then
      (new? item).map fun new => ({ start := start item, stop := stop item, new } : Edit) else none) =
        items.filterMap fun item => (new? item).map fun new =>
          { start := start item, stop := stop item, new } := by
    apply List.filterMap_congr
    intro item _
    cases new? item <;> rfl
  rw [edits] at spliced
  obtain ⟨patch, inside, isPart⟩ := List.mem_map.mp (same.mem_iff.mpr (List.mem_cons_self ..))
  obtain ⟨front, back, rfl⟩ := List.append_of_mem inside
  have atPlace {one : Patch (Option α)} (inPatches : one ∈ front ++ patch :: back) : one.old =
      slice (startOr before start one.item) (stopOr before part stop one.item) source := by
    rw [old_eq_slice [] fit rest inPatches, List.nil_append, ← cut]
  have old : patch.old = part := by
    rw [atPlace inside, isPart, whole, ← List.append_assoc]
    exact slice_append before part behind
  have new : patch.new = part := by
    rw [Patch.new, news patch inside, isPart, old]
    rfl
  obtain ⟨isBefore, isBehind⟩ :=
    before_of_fit fit old (congrArg (startOr before start) isPart) (whole ▸ cut)
  refine ⟨front, back, patch.kept, rest, isBefore, isBehind, ?_, ?_⟩
  · rw [spliced, after_append, after_cons, after_rest, new]
  · intro one inRest
    have others : ((front ++ back).map item).Perm (edited.map some) := by
      rw [List.map_append, List.map_cons, isPart] at same
      rw [List.map_append]
      exact (List.perm_middle.symm.trans same).cons_inv
    obtain ⟨item, inEdited, isItem⟩ := List.mem_map.mp
      (others.mem_iff.mp (List.mem_map_of_mem inRest))
    have inPatches : one ∈ front ++ patch :: back := by
      rcases List.mem_append.mp inRest with early | late
      · simp [early]
      · simp [late]
    refine ⟨item, inItems inEdited, ?_, ?_⟩
    · rw [atPlace inPatches, ← isItem]
      rfl
    · rw [news one inPatches, ← isItem]
      rfl

end Cutting

/-- Edits that do not overlap, some of which may be empty, cut a source into patches with the new
texts of those that are carried out. -/
theorem exists_splice_edits {edits : List Edit} {source : Text}
    (stands : ∀ edit ∈ edits, StandsIn Edit.start Edit.stop source edit)
    (apart : ∀ edit ∈ edits, ∀ other ∈ edits, edit.start ≠ other.start →
      edit.stop ≤ other.start ∨ other.stop ≤ edit.start) :
    ∃ patches rest, (∀ patch ∈ patches, patch.item ∈ edits ∧ patch.new? = some patch.item.new) ∧
      Fit Edit.start Edit.stop 0 patches ∧ source = before patches rest ∧
      splice (finalEdits edits) source = after patches rest := by
  have ordered : (finalEdits edits).reverse.Pairwise fun one other => one.stop ≤ other.start := by
    rw [List.pairwise_reverse]
    apply (pairwise_finalEdits edits).imp_of_mem
    intro one other inOne inOther later
    obtain ⟨before, part, rest, -, starts, stops⟩ := stands one (mem_of_mem_finalEdits inOne)
    have disjoint := apart one (mem_of_mem_finalEdits inOne) other
      (mem_of_mem_finalEdits inOther) (by omega)
    omega
  have member {edit : Edit} (inside : edit ∈ (finalEdits edits).reverse) : edit ∈ edits :=
    mem_of_mem_finalEdits (List.mem_reverse.mp inside)
  obtain ⟨patches, rest, cut, news, fit, rfl⟩ := exists_patches
    (fun edit => some edit.new) [] ordered (by simp) (fun edit inside => stands edit (member inside))
  refine ⟨patches, rest, ?_, fit, rfl, ?_⟩
  · intro patch inside
    exact ⟨member (cut ▸ List.mem_map_of_mem inside), news patch inside⟩
  · have all : patches.filterMap (edit? Edit.start Edit.stop) = patches.map item := by
      rw [filterMap_edit? (fun edit => some edit.new) news]
      exact List.filterMap_some
    have spliced := splice_edits [] fit rest
    rwa [all, cut, List.reverse_reverse] at spliced

end Patch

end Unpacking.Renaming
