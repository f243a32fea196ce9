import Mathlib.Data.List.Lex
import Unpacking.Text.Order

/-!
The order of texts by their UTF-8 forms. The first byte of a character grows with the number of its
bytes and holds the first digit of its code to the base 64, and the bytes behind it hold the other
digits. So the bytes of two texts are ordered as their characters are. Main statement:
`bytesPrecede_iff`.
-/

namespace Unpacking.Text

/-- The UTF-8 form of a text. -/
def bytes (text : Text) : List UInt8 :=
  text.flatMap String.utf8EncodeChar

/-- The order of byte sequences by their first differing byte. -/
abbrev ByteLex : List UInt8 → List UInt8 → Prop :=
  List.Lex fun left right => left.toNat < right.toNat

/-- The UTF-8 form of a text comes strictly before that of another one. -/
def BytesPrecede (text other : Text) : Prop :=
  ByteLex (bytes text) (bytes other)

/-! ### Bytes of a character -/

/-- The last digits of a code to the base 64, as the bytes behind the first one. -/
def continuations : Nat → Nat → List UInt8
  | 0, _ => []
  | count + 1, code => continuations count (code / 64) ++ [UInt8.ofNat (code % 64 + 128)]

/-- The number of bytes behind the first one. -/
def continuationCount (code : Nat) : Nat :=
  if code ≤ 0x7f then 0 else if code ≤ 0x7ff then 1 else if code ≤ 0xffff then 2 else 3

/-- What is left of a code without its last digits. -/
def leadingDigit : Nat → Nat → Nat
  | 0, code => code
  | count + 1, code => leadingDigit count (code / 64)

/-- The mark of a first byte, which tells how many bytes follow. -/
def leadMark : Nat → Nat
  | 0 => 0
  | 1 => 0xc0
  | 2 => 0xe0
  | _ => 0xf0

/-- The first byte. -/
def leadByte (code : Nat) : Nat :=
  leadMark (continuationCount code) + leadingDigit (continuationCount code) code

theorem toNat_lt (c : Char) : c.toNat < 0x110000 := by
  have valid : Nat.isValidChar c.toNat := c.valid
  unfold Nat.isValidChar at valid
  omega

/-- The bytes of a character are its first byte and the digits behind it. -/
theorem utf8EncodeChar_eq (c : Char) :
    String.utf8EncodeChar c =
      UInt8.ofNat (leadByte c.toNat) :: continuations (continuationCount c.toNat) c.toNat := by
  have valid := toNat_lt c
  have second (code : Nat) : code / 64 / 64 = code / 4096 := by omega
  have third (code : Nat) : code / 4096 / 64 = code / 262144 := by omega
  unfold String.utf8EncodeChar leadByte continuationCount
  by_cases one : c.toNat ≤ 0x7f
  · simp [one, leadMark, leadingDigit, continuations]
  · by_cases two : c.toNat ≤ 0x7ff
    · have lead : c.toNat / 64 % 0x20 = c.toNat / 64 := by omega
      simp [one, two, leadMark, leadingDigit, continuations, lead, UInt8.add_comm]
    · by_cases three : c.toNat ≤ 0xffff
      · have lead : c.toNat / 4096 % 0x10 = c.toNat / 4096 := by omega
        simp [one, two, three, leadMark, leadingDigit, continuations, lead, second, UInt8.add_comm]
      · have lead : c.toNat / 262144 % 0x08 = c.toNat / 262144 := by omega
        simp [one, two, three, leadMark, leadingDigit, continuations, lead, second, third,
          UInt8.add_comm]

theorem leadByte_lt {code : Nat} (valid : code < 0x110000) : leadByte code < 256 := by
  unfold leadByte continuationCount
  repeat' split
  all_goals simp only [leadMark, leadingDigit]
  all_goals omega

/-- A smaller code has the smaller first byte, or the same first digit and as many bytes. -/
theorem leadByte_lt_or {code other : Nat} (less : code < other) (valid : other < 0x110000) :
    leadByte code < leadByte other ∨
      continuationCount code = continuationCount other ∧
        leadingDigit (continuationCount code) code =
          leadingDigit (continuationCount code) other := by
  -- One case for each pair of sizes. Where the sizes differ, the marks are far enough apart.
  unfold leadByte continuationCount
  repeat' split
  all_goals simp [leadMark, leadingDigit]
  all_goals omega

/-! ### Order of bytes -/

theorem byteLex_ofNat_cons {first second : Nat} (left right : List UInt8) (small : first < 256)
    (small' : second < 256) :
    ByteLex (UInt8.ofNat first :: left) (UInt8.ofNat second :: right) ↔
      first < second ∨ first = second ∧ ByteLex left right := by
  rw [ByteLex, List.cons_lex_cons_iff, ← UInt8.toNat_inj, UInt8.toNat_ofNat_of_lt' small,
    UInt8.toNat_ofNat_of_lt' small']

/-- The last digits are ordered as the codes are, if all digits before them are the same. -/
theorem byteLex_continuations (count : Nat) {code other : Nat} (less : code < other)
    (same : leadingDigit count code = leadingDigit count other) (left right : List UInt8) :
    ByteLex (continuations count code ++ left) (continuations count other ++ right) := by
  induction count generalizing code other left right with
  | zero => exact absurd same (Nat.ne_of_lt less)
  | succ count inductionHypothesis =>
      simp only [continuations, List.append_assoc, List.singleton_append]
      by_cases quotient : code / 64 = other / 64
      · -- The codes differ in their last digit alone.
        have last : ByteLex (UInt8.ofNat (code % 64 + 128) :: left)
            (UInt8.ofNat (other % 64 + 128) :: right) :=
          (byteLex_ofNat_cons _ _ (by omega) (by omega)).mpr (.inl (by omega))
        rw [quotient]
        exact List.Lex.append_left _ last _
      · exact inductionHypothesis (by omega) same _ _

/-- The bytes of two characters are ordered as their codes are, whatever follows them. -/
theorem byteLex_utf8EncodeChar {a b : Char} (less : a.toNat < b.toNat) (left right : List UInt8) :
    ByteLex (String.utf8EncodeChar a ++ left) (String.utf8EncodeChar b ++ right) := by
  rw [utf8EncodeChar_eq, utf8EncodeChar_eq, List.cons_append, List.cons_append,
    byteLex_ofNat_cons _ _ (leadByte_lt (toNat_lt a)) (leadByte_lt (toNat_lt b))]
  obtain lead | ⟨count, digit⟩ := leadByte_lt_or less (toNat_lt b)
  · exact .inl lead
  · right
    constructor
    · rw [leadByte, leadByte, ← count, digit]
    · rw [← count]
      exact byteLex_continuations _ less digit left right

theorem bytesPrecede_of_precedes {text other : Text} (before : precedes text other = true) :
    BytesPrecede text other := by
  induction text generalizing other with
  | nil =>
      cases other with
      | nil => simp [precedes] at before
      | cons b right =>
          simp only [BytesPrecede, bytes, List.flatMap_nil, List.flatMap_cons, utf8EncodeChar_eq]
          exact .nil
  | cons a left inductionHypothesis =>
      cases other with
      | nil => simp [precedes] at before
      | cons b right =>
          simp only [BytesPrecede, bytes, List.flatMap_cons]
          by_cases same : a = b
          · subst same
            exact List.Lex.append_left _ (inductionHypothesis (by simpa [precedes] using before)) _
          · exact byteLex_utf8EncodeChar (by simpa [precedes, same] using before) _ _

/-- The texts are ordered as their UTF-8 forms are. -/
theorem bytesPrecede_iff {text other : Text} :
    BytesPrecede text other ↔ precedes text other = true := by
  refine ⟨fun before => ?_, bytesPrecede_of_precedes⟩
  by_contra notBefore
  have asymmetric (left right : List UInt8) (forth : ByteLex left right) : ¬ ByteLex right left :=
    List.lex_asymm (fun less => Nat.lt_asymm less) forth
  by_cases same : text = other
  · subst same
    exact asymmetric _ _ before before
  · have back := precedes_total same (Bool.eq_false_iff.mpr notBefore)
    exact asymmetric _ _ before (bytesPrecede_of_precedes back)

end Unpacking.Text
