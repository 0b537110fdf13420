import Mathlib.Data.List.Lex
import Mathlib.Data.String.Basic

/-!
# The order of texts in UTF-8

Texts are ordered by their characters, and characters by their codes.  In UTF-8 that is the order of the bytes
(`Utf8.bytes_lt`): the first byte of a longer encoding is greater than that of a shorter one, and among encodings of one
length greater codes have greater bytes at the first difference.
-/

namespace Segmentation.Utf8

/-- The bytes of a text in UTF-8. -/
def bytes (text : String) : List UInt8 := text.toUTF8.data.toList

theorem bytes_eq (text : String) : bytes text = text.toList.flatMap String.utf8EncodeChar := by
  rw [bytes, String.toUTF8, ← String.utf8Encode_toList, List.utf8Encode]
  simp

/-- Lists of bytes are compared by their first bytes, and behind equal ones by the rest. -/
private theorem cons_lt {a b : Nat} {l m : List UInt8} (b_lt : b < 256) (le : a ≤ b) (rest : a = b → l < m) :
    UInt8.ofNat a :: l < UInt8.ofNat b :: m := by
  rw [List.cons_lt_cons_iff]
  rcases Nat.lt_or_eq_of_le le with less | same
  · left
    rw [UInt8.lt_iff_toNat_lt, UInt8.toNat_ofNat_of_lt' (Nat.lt_trans less b_lt), UInt8.toNat_ofNat_of_lt' b_lt]
    exact less
  · exact .inr ⟨congrArg UInt8.ofNat same, rest same⟩

/-- The four lengths of an encoding, with the ranges of their first bytes. -/
private theorem encode_cases (c : Char) : ∃ v, v = c.val.toNat ∧
    (v ≤ 127 ∧ String.utf8EncodeChar c = [UInt8.ofNat v] ∨
    127 < v ∧ v ≤ 2047 ∧ String.utf8EncodeChar c = [UInt8.ofNat (v / 64 + 192), UInt8.ofNat (v % 64 + 128)] ∨
    2047 < v ∧ v ≤ 65535 ∧ String.utf8EncodeChar c =
      [UInt8.ofNat (v / 4096 + 224), UInt8.ofNat (v / 64 % 64 + 128), UInt8.ofNat (v % 64 + 128)] ∨
    65535 < v ∧ v < 1114112 ∧ String.utf8EncodeChar c =
      [UInt8.ofNat (v / 262144 + 240), UInt8.ofNat (v / 4096 % 64 + 128), UInt8.ofNat (v / 64 % 64 + 128),
        UInt8.ofNat (v % 64 + 128)]) := by
  refine ⟨c.val.toNat, rfl, ?_⟩
  have valid := c.valid
  unfold UInt32.isValidChar Nat.isValidChar at valid
  simp only [String.utf8EncodeChar]
  generalize c.val.toNat = v at valid
  split
  · exact .inl ⟨‹_›, rfl⟩
  · split
    · have same : v / 64 % 32 = v / 64 := by omega
      exact .inr (.inl ⟨by omega, ‹_›, by rw [same]⟩)
    · split
      · have same : v / 4096 % 16 = v / 4096 := by omega
        exact .inr (.inr (.inl ⟨by omega, ‹_›, by rw [same]⟩))
      · have same : v / 262144 % 8 = v / 262144 := by omega
        exact .inr (.inr (.inr ⟨by omega, by omega, by rw [same]⟩))

/-- The bytes of a lesser character come before those of a greater one, whatever follows. -/
theorem encode_lt {c d : Char} (less : c < d) (l m : List UInt8) :
    String.utf8EncodeChar c ++ l < String.utf8EncodeChar d ++ m := by
  have less : c.val.toNat < d.val.toNat := less
  obtain ⟨v, rfl, of_c⟩ := encode_cases c
  obtain ⟨w, rfl, of_d⟩ := encode_cases d
  generalize c.val.toNat = v, d.val.toNat = w at less of_c of_d
  rcases of_c with ⟨hv, eq⟩ | ⟨hv, hv', eq⟩ | ⟨hv, hv', eq⟩ | ⟨hv, hv', eq⟩ <;>
    rcases of_d with ⟨hw, eq'⟩ | ⟨hw, hw', eq'⟩ | ⟨hw, hw', eq'⟩ | ⟨hw, hw', eq'⟩ <;>
    rw [eq, eq'] <;>
    refine cons_lt (by omega) (by omega) fun first => ?_
  -- the first bytes differ, unless both have the same length and it is two or more
  all_goals try omega
  · exact cons_lt (by omega) (by omega) fun second => by omega
  · exact cons_lt (by omega) (by omega) fun second => cons_lt (by omega) (by omega) fun third => by omega
  · exact cons_lt (by omega) (by omega) fun second => cons_lt (by omega) (by omega) fun third =>
      cons_lt (by omega) (by omega) fun fourth => by omega

theorem encode_ne_nil (c : Char) : String.utf8EncodeChar c ≠ [] := by
  obtain ⟨v, -, ⟨-, eq⟩ | ⟨-, -, eq⟩ | ⟨-, -, eq⟩ | ⟨-, -, eq⟩⟩ := encode_cases c <;> rw [eq] <;> nofun

theorem flatMap_encode_lt : {cs ds : List Char} → cs < ds →
    cs.flatMap String.utf8EncodeChar < ds.flatMap String.utf8EncodeChar
  | [], [], less => absurd less (List.not_lt_nil [])
  | [], d :: ds, _ => by
    obtain ⟨b, bs, eq⟩ := List.exists_cons_of_ne_nil (encode_ne_nil d)
    rw [List.flatMap_nil, List.flatMap_cons, eq]
    exact List.nil_lt_cons b _
  | c :: cs, [], less => absurd less (List.not_lt_nil _)
  | c :: cs, d :: ds, less => by
    rw [List.flatMap_cons, List.flatMap_cons]
    rcases List.cons_lt_cons_iff.1 less with first | ⟨rfl, rest⟩
    · exact encode_lt first _ _
    · exact List.append_left_lt (flatMap_encode_lt rest)

/-- Texts in their order are in the order of their bytes. -/
theorem bytes_lt {s t : String} (less : s < t) : bytes s < bytes t := by
  rw [bytes_eq, bytes_eq]
  exact flatMap_encode_lt (String.lt_iff_toList_lt.1 less)

end Segmentation.Utf8
