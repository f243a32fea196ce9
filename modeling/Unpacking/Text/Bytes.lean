import Unpacking.Text.Basic

/-!
Places in a text, counted in the bytes of its UTF-8 form. Main statements: `takeBytes_append` and
`dropBytes_append`, which cut a text at the end of one of its parts.
-/

namespace Unpacking.Text

/-- The characters in front of an offset. -/
def takeBytes : Nat → Text → Text
  | _, [] => []
  | offset, c :: rest =>
    if c.utf8Size ≤ offset then c :: takeBytes (offset - c.utf8Size) rest else []

/-- The characters behind an offset. -/
def dropBytes : Nat → Text → Text
  | _, [] => []
  | offset, c :: rest =>
    if c.utf8Size ≤ offset then dropBytes (offset - c.utf8Size) rest else c :: rest

/-- The part of a text between two offsets. -/
def slice (start stop : Nat) (text : Text) : Text :=
  takeBytes (stop - start) (dropBytes start text)

/-- Put a new text in place of the part between two offsets. -/
def replaceRange (start stop : Nat) (new text : Text) : Text :=
  takeBytes start text ++ new ++ dropBytes stop text

@[simp] theorem byteLength_nil : byteLength [] = 0 :=
  rfl

@[simp] theorem byteLength_cons (c : Char) (rest : Text) :
    byteLength (c :: rest) = c.utf8Size + byteLength rest :=
  rfl

@[simp] theorem byteLength_append (left right : Text) :
    byteLength (left ++ right) = byteLength left + byteLength right := by
  induction left with
  | nil => simp
  | cons c rest inductionHypothesis => simp [inductionHypothesis, Nat.add_assoc]

theorem byteLength_pos {text : Text} (filled : text ≠ []) : 0 < byteLength text := by
  cases text with
  | nil => exact absurd rfl filled
  | cons c rest =>
    have size := c.utf8Size_pos
    rw [byteLength_cons]
    omega

theorem takeBytes_zero (text : Text) : takeBytes 0 text = [] := by
  cases text with
  | nil => rfl
  | cons c rest => simp [takeBytes, Nat.not_le.mpr c.utf8Size_pos]

theorem takeBytes_append (left right : Text) :
    takeBytes (byteLength left) (left ++ right) = left := by
  induction left with
  | nil => exact takeBytes_zero right
  | cons c rest inductionHypothesis => simp [takeBytes, inductionHypothesis]

theorem dropBytes_append (left right : Text) :
    dropBytes (byteLength left) (left ++ right) = right := by
  induction left with
  | nil =>
    cases right with
    | nil => rfl
    | cons c rest => simp [dropBytes, Nat.not_le.mpr c.utf8Size_pos]
  | cons c rest inductionHypothesis => simp [dropBytes, inductionHypothesis]

theorem slice_append (before text behind : Text) :
    slice (byteLength before) (byteLength before + byteLength text) (before ++ text ++ behind) =
      text := by
  rw [slice, List.append_assoc, dropBytes_append, Nat.add_sub_cancel_left, takeBytes_append]

theorem replaceRange_append (before text behind new : Text) :
    replaceRange (byteLength before) (byteLength before + byteLength text) new
      (before ++ text ++ behind) = before ++ new ++ behind := by
  rw [replaceRange, ← byteLength_append, dropBytes_append, List.append_assoc before,
    takeBytes_append]

/-- Two cuts of one text, the second one not before the first. -/
theorem exists_between {before behind before' behind' : Text}
    (same : before ++ behind = before' ++ behind')
    (ordered : byteLength before ≤ byteLength before') :
    ∃ between, before' = before ++ between ∧ behind = between ++ behind' := by
  rcases List.append_eq_append_iff.mp same with ⟨between, rfl, rfl⟩ | ⟨between, rfl, rfl⟩
  · exact ⟨between, rfl, rfl⟩
  · have empty : between = [] := by
      by_cases filled : between = []
      · exact filled
      · have size := byteLength_pos filled
        rw [byteLength_append] at ordered
        omega
    exact ⟨[], by simp [empty], by simp [empty]⟩

/-- Two cuts of one text at the same offset. -/
theorem append_inj_of_byteLength {before behind before' behind' : Text}
    (same : before ++ behind = before' ++ behind')
    (offset : byteLength before = byteLength before') : before = before' ∧ behind = behind' := by
  have first := takeBytes_append before behind
  have second := dropBytes_append before behind
  rw [same, offset] at first second
  exact ⟨first.symm.trans (takeBytes_append before' behind'),
    second.symm.trans (dropBytes_append before' behind')⟩

end Unpacking.Text
