import Segmentation.Node

/-!
# Strings inside stable keys

A reader who goes through a stable key from left to right always knows whether it is inside a string (`read`).  At
the end of a key it is outside (`read_keyChars`), and outside of strings a key has neither parentheses nor
backslashes.  So a text that is a key read from outside is no key when it is read from inside a string
(`not_key_from_inside`), and a key in parentheses behind a name shows where the name ends
(`append_keyChars_inj`).
-/

namespace Segmentation

/-- Where a reader of a key is. -/
inductive Quotation where
  | outside
  | inside
  /-- Inside a string, behind the backslash of an escape. -/
  | escaping
  deriving DecidableEq

namespace Quotation

/-- One character further; `none` where no key has this character. -/
def next : Quotation → Char → Option Quotation
  | .outside, c => if c = '"' then some .inside else if c = '\\' ∨ c = '(' ∨ c = ')' then none else some .outside
  | .inside, c => if c = '"' then some .outside else if c = '\\' then some .escaping else some .inside
  | .escaping, c => if c = '(' then none else some .inside

/-- Through a whole text. -/
def read (start : Quotation) (text : List Char) : Option Quotation := text.foldlM next start

@[simp] theorem read_nil (q : Quotation) : read q [] = some q := rfl

@[simp] theorem read_cons (q : Quotation) (c : Char) (text : List Char) :
    read q (c :: text) = (next q c).bind fun r => read r text := by
  simp [read, bind]

theorem read_append (q : Quotation) (s t : List Char) : read q (s ++ t) = (read q s).bind fun r => read r t := by
  simp [read, bind]

/-! ### What a key is made of -/

/-- The characters of numbers and of the names `null`, `true` and `false` are among these. -/
private def Bare (c : Char) : Prop := c ≠ '"' ∧ c ≠ '\\' ∧ c ≠ '(' ∧ c ≠ ')'

private instance (c : Char) : Decidable (Bare c) := by unfold Bare; infer_instance

private theorem read_bare {text : List Char} (h : ∀ c ∈ text, Bare c) : read .outside text = some .outside := by
  induction text with
  | nil => rfl
  | cons c text ih =>
    obtain ⟨h₁, h₂, h₃, h₄⟩ := h c (by simp)
    simp [next, h₁, h₂, h₃, h₄, ih fun d hd => h d (by simp [hd])]

private theorem bare_of_isDigit {c : Char} (h : c.isDigit = true) : Bare c := by
  refine ⟨?_, ?_, ?_, ?_⟩ <;> (rintro rfl; revert h; decide)

private theorem bare_of_mem_toDigits {n : Nat} {c : Char} (h : c ∈ Nat.toDigits 10 n) : Bare c :=
  bare_of_isDigit (Nat.isDigit_of_mem_toDigits (by omega) (by omega) h)

private theorem bare_of_mem_intText {n : Int} {c : Char} (h : c ∈ Json.intText n) : Bare c := by
  unfold Json.intText at h
  split at h
  · rcases List.mem_cons.1 h with rfl | h
    · decide
    · exact bare_of_mem_toDigits h
  · exact bare_of_mem_toDigits h

private theorem bare_of_mem_plain {style : NumberStyle} {digits : List Char} {point : Int}
    (hd : ∀ c ∈ digits, Bare c) {c : Char} (h : c ∈ style.plain digits point) : Bare c := by
  have zero : ∀ n : Int, c ∈ List.replicate n.toNat '0' → Bare c := by
    intro n hn
    rw [List.eq_of_mem_replicate hn]
    decide
  unfold NumberStyle.plain at h
  split at h
  · simp only [List.mem_cons, List.mem_append] at h
    rcases h with rfl | rfl | h | h
    · decide
    · decide
    · exact zero _ h
    · exact hd c h
  · split at h
    · simp only [List.mem_append] at h
      rcases h with (h | h) | h
      · exact hd c h
      · exact zero _ h
      · split at h
        · simp only [List.mem_cons, List.not_mem_nil, or_false] at h
          rcases h with rfl | rfl <;> decide
        · simp at h
    · simp only [List.mem_append, List.mem_cons] at h
      rcases h with h | rfl | h
      · exact hd c (List.mem_of_mem_take h)
      · decide
      · exact hd c (List.mem_of_mem_drop h)

private theorem bare_of_mem_scientific {digits : List Char} {point : Int}
    (hd : ∀ c ∈ digits, Bare c) {c : Char} (h : c ∈ NumberStyle.scientific digits point) : Bare c := by
  unfold NumberStyle.scientific at h
  simp only [List.mem_append, List.mem_cons] at h
  rcases h with (h | h) | rfl | h | h
  · exact hd c (List.mem_of_mem_take h)
  · split at h
    · simp at h
    · rename_i rest eq
      rcases List.mem_cons.1 h with rfl | h
      · decide
      · exact hd c (List.mem_of_mem_drop h)
  · decide
  · split at h <;> (subst h; decide)
  · exact bare_of_mem_toDigits h

private theorem bare_of_mem_decimal {style : NumberStyle} {x : Decimal} {c : Char} (h : c ∈ style.decimal x) :
    Bare c := by
  simp only [NumberStyle.decimal] at h
  cases hb : style.bounds with
  | none =>
    rw [hb] at h
    exact bare_of_mem_plain (fun _ => bare_of_mem_toDigits) h
  | some bounds =>
    simp only [hb] at h
    split at h
    · exact bare_of_mem_plain (fun _ => bare_of_mem_toDigits) h
    · exact bare_of_mem_scientific (fun _ => bare_of_mem_toDigits) h

private theorem bare_of_mem_floatText {x : Double} {c : Char} (h : c ∈ Json.floatText x) : Bare c := by
  unfold Json.floatText NumberStyle.text at h
  rcases List.mem_append.1 h with h | h
  · split at h
    · rw [List.mem_singleton.1 h]; decide
    · simp at h
  · exact bare_of_mem_decimal h

private theorem read_floatKey (x : Double) : read .outside (Json.floatKey x) = some .outside := by
  unfold Json.floatKey
  split
  · exact read_bare fun _ => bare_of_mem_intText
  · exact read_bare fun _ => bare_of_mem_floatText

private theorem read_escape (c : Char) : read .inside (Text.escape c) = some .inside := by
  have digit : ∀ n < 32, next .inside (Nat.digitChar (n / 16)) = some .inside ∧
      next .inside (Nat.digitChar (n % 16)) = some .inside := by decide
  unfold Text.escape
  split
  -- The last case is that of all characters without an escape of their own.
  case h_8 _ hq hb _ _ _ _ _ =>
    split
    · obtain ⟨high, low⟩ := digit c.toNat ‹_›
      change ((next .inside (Nat.digitChar (c.toNat / 16))).bind fun r =>
        (next r (Nat.digitChar (c.toNat % 16))).bind some) = some .inside
      rw [high, Option.bind_some, low, Option.bind_some]
    · have hq : c ≠ '"' := hq
      have hb : c ≠ '\\' := hb
      simp [next, hq, hb]
  all_goals decide

theorem read_quoted (s : List Char) : read .outside (Text.quoted s) = some .outside := by
  have inner : read .inside (s.flatMap Text.escape) = some .inside := by
    induction s with
    | nil => rfl
    | cons c s ih => rw [List.flatMap_cons, read_append, read_escape]; exact ih
  rw [Text.quoted, List.cons_append, read_cons]
  show (read .inside _) = _
  rw [read_append, inner]
  decide

private theorem read_joined {ts : List (List Char)} (h : ∀ t ∈ ts, read .outside t = some .outside) :
    read .outside (Text.joined [','] ts) = some .outside := by
  fun_induction Text.joined [','] ts with
  | case1 => rfl
  | case2 t => exact h t (by simp)
  | case3 t ts _ ih =>
    rw [read_append, read_append, h t (by simp)]
    exact ih fun u hu => h u (by simp [hu])

mutual

/-- A key leaves the reader where it met him, outside of all strings. -/
theorem read_keyChars : (value : Json) → read .outside value.keyChars = some .outside
  | .null => by decide
  | .bool true => by decide
  | .bool false => by decide
  | .int n => read_bare fun _ => bare_of_mem_intText
  | .float x => read_floatKey x
  | .str s => read_quoted s.toList
  | .arr items => by
    have inner := read_joined (read_itemKeys items)
    simp only [Json.keyChars, List.cons_append, read_cons]
    change (read .outside _) = _
    rw [read_append, inner]
    decide
  | .obj members => by
    have each : ∀ t ∈ (Keyed.ofList (Json.memberKeys members)).map fun (k, t) => Text.quoted k.toList ++ ':' :: t,
        read .outside t = some .outside := by
      intro t ht
      obtain ⟨⟨k, u⟩, hm, rfl⟩ := List.mem_map.1 ht
      rw [read_append, read_quoted]
      exact read_memberKeys members (k, u) (Keyed.mem_ofList hm)
    have inner := read_joined each
    simp only [Json.keyChars, List.cons_append, read_cons]
    change (read .outside _) = _
    rw [read_append, inner]
    decide

private theorem read_itemKeys : (items : List Json) → ∀ t ∈ Json.itemKeys items, read .outside t = some .outside
  | [], _, h => by simp [Json.itemKeys] at h
  | v :: vs, t, h => by
    rcases List.mem_cons.1 h with rfl | h
    · exact read_keyChars v
    · exact read_itemKeys vs t h

private theorem read_memberKeys : (members : List (String × Json)) →
    ∀ m ∈ Json.memberKeys members, read .outside m.2 = some .outside
  | [], _, h => by simp [Json.memberKeys] at h
  | (k, v) :: ms, m, h => by
    rcases List.mem_cons.1 h with rfl | h
    · exact read_keyChars v
    · exact read_memberKeys ms m h

end

/-! ### Where a key can begin -/

/-- On different sides of a quotation mark. -/
private def Opposite (q r : Quotation) : Prop := q = .outside ∧ r = .inside ∨ q = .inside ∧ r = .outside

private theorem opposite_of_next_outside {c : Char} {q r : Quotation} (hq : next .outside c = some q)
    (hr : next .inside c = some r) : Opposite q r := by
  simp only [next] at hq hr
  by_cases quote : c = '"'
  · simp only [quote, ↓reduceIte, Option.some.injEq] at hq hr
    exact .inr ⟨hq.symm, hr.symm⟩
  · by_cases other : c = '\\' ∨ c = '(' ∨ c = ')'
    · simp [quote, other] at hq
    · obtain ⟨h₁, h₂, h₃⟩ : c ≠ '\\' ∧ c ≠ '(' ∧ c ≠ ')' := by simpa using other
      simp only [quote, h₁, h₂, h₃, or_self, ↓reduceIte, Option.some.injEq] at hq hr
      exact .inl ⟨hq.symm, hr.symm⟩

private theorem opposite_of_next {c : Char} {p s q r : Quotation} (h : Opposite p s) (hq : next p c = some q)
    (hr : next s c = some r) : Opposite q r := by
  rcases h with ⟨rfl, rfl⟩ | ⟨rfl, rfl⟩
  · exact opposite_of_next_outside hq hr
  · exact (opposite_of_next_outside hr hq).symm.imp And.symm And.symm

/-- Readers of one text who begin on different sides of a quotation mark stay on different sides. -/
private theorem opposite_of_read {text : List Char} {p s q r : Quotation} (h : Opposite p s)
    (hq : read p text = some q) (hr : read s text = some r) : Opposite q r := by
  induction text generalizing p s with
  | nil =>
    cases hq
    cases hr
    exact h
  | cons c text ih =>
    rw [read_cons] at hq hr
    obtain ⟨p', hp, hq⟩ := Option.bind_eq_some_iff.1 hq
    obtain ⟨s', hs, hr⟩ := Option.bind_eq_some_iff.1 hr
    exact ih (opposite_of_next h hp hs) hq hr

/-- A text that ends outside of strings for a reader who began outside does not for one who began inside. -/
theorem not_key_from_inside {text : List Char} (h : read .outside text = some .outside) :
    read .inside text ≠ some .outside := by
  intro h'
  rcases opposite_of_read (.inl ⟨rfl, rfl⟩) h h' with ⟨_, h⟩ | ⟨h, _⟩ <;> cases h

/-- No key ends in a parenthesis and another key. -/
theorem keyChars_ne_append (text : List Char) (v w : Json) : v.keyChars ≠ text ++ '(' :: w.keyChars := by
  intro h
  have hv := read_keyChars v
  rw [h, read_append] at hv
  obtain ⟨q, -, hq⟩ := Option.bind_eq_some_iff.1 hv
  rw [read_cons] at hq
  obtain ⟨r, hr, hq⟩ := Option.bind_eq_some_iff.1 hq
  -- the parenthesis can only stand inside a string, and there the second key cannot begin
  cases q with
  | outside => simp [next] at hr
  | inside =>
    obtain rfl : .inside = r := by simpa [next] using hr
    exact not_key_from_inside (read_keyChars w) hq
  | escaping => simp [next] at hr

private theorem eq_of_append_prefix {m n : List Char} {v w : Json}
    (h : m ++ '(' :: v.keyChars = n ++ '(' :: w.keyChars) (hl : m.length ≤ n.length) :
    m = n ∧ v.keyChars = w.keyChars := by
  obtain ⟨rest, rfl⟩ := List.prefix_of_prefix_length_le (List.prefix_append m _) (h ▸ List.prefix_append n _) hl
  rw [List.append_assoc, List.append_cancel_left_eq] at h
  cases rest with
  | nil => exact ⟨(List.append_nil m).symm, (List.cons.inj h).2⟩
  | cons c rest => exact absurd (List.cons.inj h).2 (keyChars_ne_append rest v w)

/-- A key behind a name and a parenthesis shows where the name ends. -/
theorem append_keyChars_inj {m n : List Char} {v w : Json} :
    m ++ '(' :: v.keyChars = n ++ '(' :: w.keyChars ↔ m = n ∧ v.keyChars = w.keyChars := by
  constructor
  · intro h
    rcases Nat.le_total m.length n.length with hl | hl
    · exact eq_of_append_prefix h hl
    · obtain ⟨names, keys⟩ := eq_of_append_prefix h.symm hl
      exact ⟨names.symm, keys.symm⟩
  · rintro ⟨rfl, hk⟩
    rw [hk]

end Quotation

end Segmentation
