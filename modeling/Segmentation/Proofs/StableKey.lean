import Mathlib.Data.List.Forall2
import Mathlib.Tactic.IntervalCases
import Segmentation.Json.Reader
import Segmentation.Proofs.Double.Numeral
import Segmentation.Proofs.Keyed
import Segmentation.StableKey

/-!
# What stable keys tell apart

Two values have one stable key if and only if they are equal, in whatever order the members of objects are written,
once every whole binary64 number below `2 ^ 53` is replaced by the equal integer (`stableKey_eq_iff`).

* The order of members has no influence on a key, as it lists them in the order of their own keys
  (`keyChars_eq_of_equal`).
* A value can be read off the beginning of a text that continues like the text behind a key: with a comma, a closing
  bracket or brace, or not at all (`Reads`, `reads`).
-/

namespace Segmentation

/-! ### Strings -/

namespace Text

/-- Every character of a JSON string is read back. -/
theorem string?_escape (c : Char) (fuel : Nat) (rest done : List Char) :
    Json.Reader.string? (fuel + 1) (escape c ++ rest) done = Json.Reader.string? fuel rest (c :: done) := by
  by_cases control : c.toNat < 0x20
  · obtain ⟨n, small, rfl⟩ : ∃ n < 0x20, c = Char.ofNat n := ⟨c.toNat, control, (Char.ofNat_toNat c).symm⟩
    clear control
    interval_cases n <;> rfl
  · by_cases quote : c = '"'
    · subst quote
      rfl
    · by_cases backslash : c = '\\'
      · subst backslash
        rfl
      · have plain : escape c = [c] := by
          unfold escape
          split
          case h_8 => exact if_neg control
          all_goals first | exact absurd rfl quote | exact absurd rfl backslash | exact absurd (by decide) control
        rw [plain, List.singleton_append, Json.Reader.string?, if_neg control]
        · exact quote
        · exact backslash

/-- A string is read back with all that follows it. -/
theorem string?_quoted (s rest : List Char) (done : List Char) {fuel : Nat} (enough : s.length < fuel) :
    Json.Reader.string? fuel (s.flatMap escape ++ '"' :: rest) done = some (String.ofList (done.reverse ++ s), rest) := by
  induction s generalizing done fuel with
  | nil =>
    obtain ⟨fuel, rfl⟩ := Nat.exists_eq_add_of_le' enough
    rw [List.flatMap_nil, List.nil_append, List.append_nil]
    rfl
  | cons c s ih =>
    obtain ⟨fuel, rfl⟩ := Nat.exists_eq_add_of_le' (Nat.zero_lt_of_lt enough)
    rw [List.flatMap_cons, List.append_assoc, string?_escape, ih (c :: done) (Nat.lt_of_succ_lt_succ enough),
      List.reverse_cons, List.append_assoc, List.singleton_append]

/-- A text that begins with a string shows the string and what follows it. -/
theorem quoted_append_inj {s t rest rest' : List Char} (eq : quoted s ++ rest = quoted t ++ rest') :
    s = t ∧ rest = rest' := by
  have inner : s.flatMap escape ++ '"' :: rest = t.flatMap escape ++ '"' :: rest' := by
    simpa [quoted] using eq
  have read := string?_quoted s rest [] (Nat.lt_succ_of_le (Nat.le_max_left s.length t.length))
  rw [inner, string?_quoted t rest' [] (Nat.lt_succ_of_le (Nat.le_max_right s.length t.length))] at read
  obtain ⟨strings, rests⟩ := Prod.mk.inj (Option.some.inj read)
  exact ⟨(String.ofList_inj.1 strings).symm, rests.symm⟩

/-! ### Lists -/

/-- What may follow the key of a value. -/
def Ends (rest : List Char) : Prop := ∀ c ∈ rest.head?, c = ',' ∨ c = ']' ∨ c = '\x7d'

/-- What stands behind the first of several texts. -/
private def behind (ts : List (List Char)) (rest : List Char) : List Char :=
  match ts with
  | [] => rest
  | t :: ts => ',' :: (joined [','] (t :: ts) ++ rest)

private theorem joined_cons (t : List Char) (ts : List (List Char)) (rest : List Char) :
    joined [','] (t :: ts) ++ rest = t ++ behind ts rest := by
  cases ts with
  | nil => rfl
  | cons u ts => simp only [joined, behind, List.append_assoc, List.cons_append, List.nil_append]

/-- A list of texts with commas between them shows its parts, and what follows its closing character, if the parts can
be read off the beginning of a text and none of them begins like the end of the list. -/
theorem joined_inj {α β : Type} {f : α → List Char} {g : β → List Char} {R : α → β → Prop} {close : Char}
    (closes : close = ']' ∨ close = '\x7d') {as : List α} {bs : List β}
    (reads : ∀ a ∈ as, ∀ b ∈ bs, ∀ s t, Ends s → Ends t → f a ++ s = g b ++ t → R a b ∧ s = t)
    (opens : ∀ a ∈ as, ∀ s, close ∉ (f a ++ s).head?) (opens' : ∀ b ∈ bs, ∀ s, close ∉ (g b ++ s).head?)
    {s t : List Char}
    (eq : joined [','] (as.map f) ++ close :: s = joined [','] (bs.map g) ++ close :: t) :
    List.Forall₂ R as bs ∧ s = t := by
  have comma : close ≠ ',' := by rcases closes with rfl | rfl <;> decide
  have ends (ts : List (List Char)) (rest : List Char) : Ends (behind ts (close :: rest)) := by
    cases ts with
    | nil => exact fun c first => Option.some.inj first ▸ .inr closes
    | cons t ts => exact fun c first => .inl (Option.some.inj first).symm
  induction as generalizing bs with
  | nil =>
    cases bs with
    | nil => exact ⟨.nil, (List.cons.inj eq).2⟩
    | cons b bs =>
      rw [List.map_cons, joined_cons] at eq
      exact absurd (congrArg List.head? eq.symm) (opens' b List.mem_cons_self _)
  | cons a as ih =>
    rw [List.map_cons, joined_cons] at eq
    cases bs with
    | nil => exact absurd (congrArg List.head? eq) (opens a List.mem_cons_self _)
    | cons b bs =>
      rw [List.map_cons, joined_cons] at eq
      obtain ⟨related, later⟩ := reads a List.mem_cons_self b List.mem_cons_self _ _ (ends _ s) (ends _ t) eq
      cases as with
      | nil =>
        cases bs with
        | nil => exact ⟨.cons related .nil, (List.cons.inj later).2⟩
        | cons b' bs => exact absurd (List.cons.inj later).1 comma
      | cons a' as =>
        cases bs with
        | nil => exact absurd (List.cons.inj later).1.symm comma
        | cons b' bs =>
          obtain ⟨others, rests⟩ := ih
            (fun a mem b mem' => reads a (List.mem_cons_of_mem _ mem) b (List.mem_cons_of_mem _ mem'))
            (fun a mem => opens a (List.mem_cons_of_mem _ mem)) (fun b mem => opens' b (List.mem_cons_of_mem _ mem))
            (List.cons.inj later).2
          exact ⟨.cons related others, rests⟩

end Text

namespace Json

/-! ### Numbers -/

mutual

/-- The value with every whole binary64 number of less magnitude than `2 ^ 53` replaced by the equal integer. -/
def integral : Json → Json
  | .float x => if x.value.den = 1 ∧ |x.value| < 2 ^ 53 then .int x.value.num else .float x
  | .arr items => .arr (integralItems items)
  | .obj members => .obj (integralMembers members)
  | value => value

def integralItems : List Json → List Json
  | [] => []
  | v :: vs => integral v :: integralItems vs

def integralMembers : List (String × Json) → List (String × Json)
  | [] => []
  | (k, v) :: ms => (k, integral v) :: integralMembers ms

end

/-- The integers that take the place of binary64 numbers in keys: those of less magnitude than `2 ^ 53`. -/
theorem keyInteger?_eq_some_iff (x : Double) (n : ℤ) :
    keyInteger? x = some n ↔ x.value = n ∧ |x.value| < 2 ^ 53 := by
  have below : n.natAbs < exactIntegerBound ↔ |(n : ℚ)| < 2 ^ 53 := by
    rw [← Int.cast_abs, Int.abs_eq_natAbs, Int.cast_natCast]
    exact_mod_cast Iff.rfl
  rw [keyInteger?, Option.filter_eq_some_iff, Double.toInt?_eq_some_iff, decide_eq_true_iff, below]
  exact and_congr_right fun value => by rw [value]

/-- Exactly these numbers are written like integers in keys. -/
theorem integral_float (x : Double) :
    (Json.float x).integral = match keyInteger? x with
      | some n => .int n
      | none => .float x := by
  rw [integral]
  cases found : keyInteger? x with
  | some n =>
    obtain ⟨value, small⟩ := (keyInteger?_eq_some_iff x n).1 found
    rw [if_pos ⟨value ▸ Rat.den_intCast n, small⟩, value, Rat.num_intCast]
  | none =>
    refine if_neg fun ⟨whole, small⟩ => ?_
    have other := (keyInteger?_eq_some_iff x x.value.num).2 ⟨((Rat.den_eq_one_iff _).1 whole).symm, small⟩
    rw [found] at other
    cases other

/-! ### Equality whatever the order of members -/

mutual

/-- Equality of values in which the order of the members of objects has no meaning. -/
def Equal : Json → Json → Prop
  | .null, .null => True
  | .bool a, .bool b => a = b
  | .int a, .int b => a = b
  | .float x, .float y => x.same y
  | .str s, .str t => s = t
  | .arr items, .arr others => EqualItems items others
  | .obj members, .obj others => ∃ ordered, ordered.Perm others ∧ EqualMembers members ordered
  | _, _ => False

def EqualItems : List Json → List Json → Prop
  | [], [] => True
  | v :: vs, w :: ws => Equal v w ∧ EqualItems vs ws
  | _, _ => False

def EqualMembers : List (String × Json) → List (String × Json) → Prop
  | [], [] => True
  | (k, v) :: ms, (l, w) :: ns => k = l ∧ Equal v w ∧ EqualMembers ms ns
  | _, _ => False

end

mutual

/-- In no object a key stands twice. -/
def Distinct : Json → Prop
  | .arr items => DistinctItems items
  | .obj members => (Keyed.keys members).Nodup ∧ DistinctMembers members
  | _ => True

def DistinctItems : List Json → Prop
  | [] => True
  | v :: vs => Distinct v ∧ DistinctItems vs

def DistinctMembers : List (String × Json) → Prop
  | [] => True
  | (_, v) :: ms => Distinct v ∧ DistinctMembers ms

end

/-! ### Lists of items and members -/

theorem itemKeys_eq (items : List Json) : itemKeys items = items.map keyChars := by
  induction items with
  | nil => rfl
  | cons v vs ih => rw [itemKeys, ih, List.map_cons]

theorem memberKeys_eq (members : List (String × Json)) :
    memberKeys members = members.map fun (k, v) => (k, keyChars v) := by
  induction members with
  | nil => rfl
  | cons m ms ih => rw [memberKeys, ih, List.map_cons]

theorem integralItems_eq (items : List Json) : integralItems items = items.map integral := by
  induction items with
  | nil => rfl
  | cons v vs ih => rw [integralItems, ih, List.map_cons]

theorem integralMembers_eq (members : List (String × Json)) :
    integralMembers members = members.map fun (k, v) => (k, integral v) := by
  induction members with
  | nil => rfl
  | cons m ms ih => rw [integralMembers, ih, List.map_cons]

theorem equalItems_iff {items others : List Json} : EqualItems items others ↔ List.Forall₂ Equal items others := by
  induction items generalizing others with
  | nil => cases others <;> simp [EqualItems]
  | cons v vs ih => cases others <;> simp [EqualItems, ih]

theorem equalMembers_iff {members others : List (String × Json)} :
    EqualMembers members others ↔ List.Forall₂ (fun m n => m.1 = n.1 ∧ m.2.Equal n.2) members others := by
  induction members generalizing others with
  | nil => cases others <;> simp [EqualMembers]
  | cons m ms ih => cases others <;> simp [EqualMembers, ih, and_assoc]

theorem distinctItems_iff {items : List Json} : DistinctItems items ↔ ∀ v ∈ items, v.Distinct := by
  induction items with
  | nil => simp [DistinctItems]
  | cons v vs ih => simp [DistinctItems, ih]

theorem distinctMembers_iff {members : List (String × Json)} :
    DistinctMembers members ↔ ∀ m ∈ members, m.2.Distinct := by
  induction members with
  | nil => simp [DistinctMembers]
  | cons m ms ih => simp [DistinctMembers, ih]

theorem keyChars_arr (items : List Json) :
    (Json.arr items).keyChars = '[' :: (Text.joined [','] (items.map keyChars) ++ [']']) := by
  rw [keyChars, itemKeys_eq, List.cons_append]

/-- A member in a key. -/
def memberText (member : String × Json) : List Char := Text.quoted member.1.toList ++ ':' :: member.2.keyChars

theorem keyChars_obj (members : List (String × Json)) :
    (Json.obj members).keyChars =
      '\x7b' :: (Text.joined [','] ((Keyed.ofList members).map memberText) ++ ['\x7d']) := by
  rw [keyChars, memberKeys_eq, Keyed.ofList_map (fun _ v => keyChars v), List.map_map]
  rfl

/-! ### Equal values have one key -/

mutual

/-- A key does not tell whole numbers below `2 ^ 53` from the equal integers. -/
theorem keyChars_integral : (value : Json) → value.integral.keyChars = value.keyChars
  | .null => rfl
  | .bool _ => rfl
  | .int _ => rfl
  | .float x => by
    rw [integral_float, keyChars, floatKey]
    cases whole : keyInteger? x with
    | some n => rfl
    | none => simp only [keyChars, floatKey, whole]
  | .str _ => rfl
  | .arr items => by rw [integral, keyChars, keyChars, itemKeys_integral items]
  | .obj members => by rw [integral, keyChars, keyChars, memberKeys_integral members]

private theorem itemKeys_integral : (items : List Json) → itemKeys (integralItems items) = itemKeys items
  | [] => rfl
  | v :: vs => by rw [integralItems, itemKeys, itemKeys, keyChars_integral v, itemKeys_integral vs]

private theorem memberKeys_integral : (members : List (String × Json)) →
    memberKeys (integralMembers members) = memberKeys members
  | [] => rfl
  | (k, v) :: ms => by rw [integralMembers, memberKeys, memberKeys, keyChars_integral v, memberKeys_integral ms]

end

mutual

theorem distinct_integral : (value : Json) → value.Distinct → value.integral.Distinct
  | .null, _ => trivial
  | .bool _, _ => trivial
  | .int _, _ => trivial
  | .float x, _ => by
    rw [integral]
    split <;> trivial
  | .str _, _ => trivial
  | .arr items, distinct => distinct_integralItems items distinct
  | .obj members, distinct => by
    have keys_eq : Keyed.keys (integralMembers members) = Keyed.keys members := by
      simp only [integralMembers_eq, Keyed.keys, List.map_map]
      rfl
    exact ⟨keys_eq ▸ distinct.1, distinct_integralMembers members distinct.2⟩

private theorem distinct_integralItems : (items : List Json) → DistinctItems items →
    DistinctItems (integralItems items)
  | [], _ => trivial
  | v :: vs, distinct => ⟨distinct_integral v distinct.1, distinct_integralItems vs distinct.2⟩

private theorem distinct_integralMembers : (members : List (String × Json)) → DistinctMembers members →
    DistinctMembers (integralMembers members)
  | [], _ => trivial
  | (_, v) :: ms, distinct => ⟨distinct_integral v distinct.1, distinct_integralMembers ms distinct.2⟩

end

theorem keyInteger?_of_isZero {x : Double} (zero : x.isZero = true) : keyInteger? x = some 0 := by
  have mantissa : x.mantissa = 0 := by simpa [Double.isZero] using zero
  have value : x.value = 0 := by simp [Double.value, Double.magnitude, mantissa]
  rw [keyInteger?_eq_some_iff, value]
  norm_num

/-- The two zeros have one key. -/
private theorem floatKey_eq_of_same {x y : Double} (same : x.same y = true) : floatKey x = floatKey y := by
  rcases Bool.or_eq_true _ _ ▸ same with same | zeros
  · rw [of_decide_eq_true same]
  · obtain ⟨first, second⟩ := Bool.and_eq_true _ _ ▸ zeros
    rw [floatKey, floatKey, keyInteger?_of_isZero first, keyInteger?_of_isZero second]

mutual

/-- Equal values have one key. -/
theorem keyChars_eq_of_equal : (a : Json) → ∀ b : Json, a.Distinct → b.Distinct → a.Equal b → a.keyChars = b.keyChars
  | .null, b, _, _, equal => by
    cases b with
    | null => rfl
    | _ => exact False.elim equal
  | .bool v, b, _, _, equal => by
    cases b with
    | bool w => exact congrArg (fun b => keyChars (.bool b)) equal
    | _ => exact False.elim equal
  | .int m, b, _, _, equal => by
    cases b with
    | int n => exact congrArg intText equal
    | _ => exact False.elim equal
  | .float x, b, _, _, equal => by
    cases b with
    | float y => exact floatKey_eq_of_same equal
    | _ => exact False.elim equal
  | .str s, b, _, _, equal => by
    cases b with
    | str t => exact congrArg (fun s : String => Text.quoted s.toList) equal
    | _ => exact False.elim equal
  | .arr items, b, distinct, distinct', equal => by
    cases b with
    | arr others => rw [keyChars, keyChars, itemKeys_eq_of_equal items others distinct distinct' equal]
    | _ => exact False.elim equal
  | .obj members, b, distinct, distinct', equal => by
    cases b with
    | obj others =>
      obtain ⟨ordered, perm, equal⟩ := equal
      have keys_eq := memberKeys_eq_of_equal members ordered distinct.2
        (distinctMembers_iff.2 fun m mem => distinctMembers_iff.1 distinct'.2 m (perm.subset mem)) equal
      have nodup : (Keyed.keys (memberKeys ordered)).Nodup := by
        have same : Keyed.keys (memberKeys ordered) = Keyed.keys ordered := by
          simp only [memberKeys_eq, Keyed.keys, List.map_map]
          rfl
        exact same ▸ (Keyed.keys_perm perm).nodup_iff.2 distinct'.1
      have listed : (memberKeys ordered).Perm (memberKeys others) := by
        rw [memberKeys_eq, memberKeys_eq]
        exact perm.map _
      rw [keyChars, keyChars, keys_eq, Keyed.ofList_eq_of_perm listed nodup]
    | _ => exact False.elim equal

private theorem itemKeys_eq_of_equal : (items : List Json) → ∀ others, DistinctItems items → DistinctItems others →
    EqualItems items others → itemKeys items = itemKeys others
  | [], others, _, _, equal => by
    cases others with
    | nil => rfl
    | cons w ws => exact False.elim equal
  | v :: vs, others, distinct, distinct', equal => by
    cases others with
    | nil => exact False.elim equal
    | cons w ws =>
      rw [itemKeys, itemKeys, keyChars_eq_of_equal v w distinct.1 distinct'.1 equal.1,
        itemKeys_eq_of_equal vs ws distinct.2 distinct'.2 equal.2]

private theorem memberKeys_eq_of_equal : (members : List (String × Json)) → ∀ others, DistinctMembers members →
    DistinctMembers others → EqualMembers members others → memberKeys members = memberKeys others
  | [], others, _, _, equal => by
    cases others with
    | nil => rfl
    | cons n ns => exact False.elim equal
  | (k, v) :: ms, others, distinct, distinct', equal => by
    cases others with
    | nil => exact False.elim equal
    | cons n ns =>
      obtain ⟨keys, values, rest⟩ := equal
      rw [memberKeys, memberKeys, keyChars_eq_of_equal v n.2 distinct.1 distinct'.1 values,
        memberKeys_eq_of_equal ms ns distinct.2 distinct'.2 rest, keys]

end

/-! ### Values read off their keys -/

/-- What a key begins with; all numbers begin alike. -/
inductive Opening where
  | null
  | yes
  | no
  | number
  | string
  | array
  | object

def Opening.ofChar? (c : Char) : Option Opening :=
  if inNumber c then some .number
  else match c with
    | 'n' => some .null
    | 't' => some .yes
    | 'f' => some .no
    | '"' => some .string
    | '[' => some .array
    | '\x7b' => some .object
    | _ => none

def opening : Json → Opening
  | .null => .null
  | .bool true => .yes
  | .bool false => .no
  | .int _ => .number
  | .float _ => .number
  | .str _ => .string
  | .arr _ => .array
  | .obj _ => .object

/-- The key of a number: its text, after an integer has taken its place if there is one. -/
private theorem number_cases {a : Json} (number : a.opening = .number) :
    (∃ n, a.integral = .int n ∧ a.keyChars = intText n) ∨
      ∃ x, a.integral = .float x ∧ a.keyChars = floatText x := by
  cases a with
  | int n => exact .inl ⟨n, rfl, rfl⟩
  | float x =>
    rw [integral_float, keyChars, floatKey]
    cases keyInteger? x with
    | some n => exact .inl ⟨n, rfl, rfl⟩
    | none => exact .inr ⟨x, rfl, rfl⟩
  | bool v => cases v <;> cases number
  | _ => cases number

private theorem inNumber_of_number {a : Json} (number : a.opening = .number) :
    a.keyChars ≠ [] ∧ ∀ c ∈ a.keyChars, inNumber c = true := by
  rcases number_cases number with ⟨n, -, text⟩ | ⟨x, -, text⟩ <;> rw [text]
  · exact ⟨intText_ne_nil n, fun _ => inNumber_of_mem_intText⟩
  · exact ⟨floatText_ne_nil x, fun _ => inNumber_of_mem_floatText⟩

/-- The first character of a key shows how it opens. -/
theorem opening_of_head (a : Json) (rest : List Char) :
    (a.keyChars ++ rest).head?.bind Opening.ofChar? = some a.opening := by
  have of_number {a : Json} (number : a.opening = .number) :
      (a.keyChars ++ rest).head?.bind Opening.ofChar? = some .number := by
    obtain ⟨some_chars, all⟩ := inNumber_of_number number
    obtain ⟨c, cs, eq⟩ := List.exists_cons_of_ne_nil some_chars
    rw [eq, List.cons_append, List.head?_cons, Option.bind_some]
    exact if_pos (all c (eq ▸ List.mem_cons_self))
  cases a with
  | null => rfl
  | bool v => cases v <;> rfl
  | int n => exact of_number rfl
  | float x => exact of_number rfl
  | str s => rfl
  | arr items => rfl
  | obj members => rfl

theorem opening_eq {a b : Json} {s t : List Char} (eq : a.keyChars ++ s = b.keyChars ++ t) :
    a.opening = b.opening := by
  have read := opening_of_head a s
  rw [eq, opening_of_head] at read
  exact (Option.some.inj read).symm

/-- A value is read off any text that begins with its key and goes on like the text behind a key. -/
def Reads (a : Json) : Prop :=
  ∀ (b : Json) (s t : List Char), b.Distinct → Text.Ends s → Text.Ends t →
    a.keyChars ++ s = b.keyChars ++ t → a.integral.Equal b.integral ∧ s = t

theorem reads_number {a : Json} (number : a.opening = .number) : a.Reads := by
  intro b s t _ ends ends' eq
  have stop {rest : List Char} (ends : Text.Ends rest) : ∀ c ∈ rest.head?, inNumber c = false := fun c first => by
    rcases ends c first with rfl | rfl | rfl <;> rfl
  have number' : b.opening = .number := opening_eq eq ▸ number
  obtain ⟨texts, rests⟩ := append_inj_of_stop (inNumber_of_number number).2 (inNumber_of_number number').2 (stop ends)
    (stop ends') eq
  refine ⟨?_, rests⟩
  rcases number_cases number with ⟨m, integer, text⟩ | ⟨x, float, text⟩ <;>
    rcases number_cases number' with ⟨n, integer', text'⟩ | ⟨y, float', text'⟩ <;> rw [text, text'] at texts
  · rw [integer, integer']
    exact intText_injective texts
  · exact absurd texts (intText_ne_floatText m y)
  · exact absurd texts.symm (intText_ne_floatText n x)
  · rw [float, float', floatText_injective texts]
    simp [Equal, Double.same]

/-- No key begins with a character that opens no value. -/
private theorem not_head_of_ofChar? {c : Char} (opens_none : Opening.ofChar? c = none) (a : Json) (rest : List Char) :
    c ∉ (a.keyChars ++ rest).head? := by
  intro first
  have read := opening_of_head a rest
  rw [Option.mem_def.1 first, Option.bind_some, opens_none] at read
  cases read

private theorem brace_not_head_memberText (member : String × Json) (rest : List Char) :
    '\x7d' ∉ (memberText member ++ rest).head? := by
  intro first
  have quote : some '"' = some '\x7d' := first
  exact absurd quote (by decide)

theorem reads_arr {items : List Json} (all : ∀ v ∈ items, v.Reads) : (Json.arr items).Reads := by
  intro b s t distinct' _ _ eq
  have same := opening_eq eq
  cases b with
  | arr others =>
    have inner : Text.joined [','] (items.map keyChars) ++ ']' :: s =
        Text.joined [','] (others.map keyChars) ++ ']' :: t := by
      rw [keyChars_arr, keyChars_arr] at eq
      simpa only [List.cons_append, List.append_assoc, List.nil_append, List.cons.injEq, true_and] using eq
    obtain ⟨related, rests⟩ := Text.joined_inj (R := fun v w => v.integral.Equal w.integral) (.inl rfl)
      (fun v mem w mem' s t => all v mem w s t (distinctItems_iff.1 distinct' w mem'))
      (fun v _ => not_head_of_ofChar? rfl v) (fun w _ => not_head_of_ofChar? rfl w) inner
    refine ⟨equalItems_iff.2 ?_, rests⟩
    rwa [integralItems_eq, integralItems_eq, List.forall₂_map_left_iff, List.forall₂_map_right_iff]
  | bool w => cases w <;> cases same
  | _ => cases same

/-- The members of an object are read in the order of their keys, which is some order of the given ones. -/
theorem reads_obj {members : List (String × Json)} (nodup : (Keyed.keys members).Nodup)
    (all : ∀ m ∈ members, m.2.Reads) : (Json.obj members).Reads := by
  intro b s t distinct' _ _ eq
  have same := opening_eq eq
  cases b with
  | obj others =>
    have inner : Text.joined [','] ((Keyed.ofList members).map memberText) ++ '\x7d' :: s =
        Text.joined [','] ((Keyed.ofList others).map memberText) ++ '\x7d' :: t := by
      rw [keyChars_obj, keyChars_obj] at eq
      simpa only [List.cons_append, List.append_assoc, List.nil_append, List.cons.injEq, true_and] using eq
    obtain ⟨related, rests⟩ := Text.joined_inj
      (R := fun m n : String × Json => m.1 = n.1 ∧ m.2.integral.Equal n.2.integral) (.inr rfl)
      (fun m mem n mem' s t ends ends' eq => by
        rw [memberText, memberText, List.append_assoc, List.append_assoc] at eq
        obtain ⟨keys, values⟩ := Text.quoted_append_inj eq
        obtain ⟨equal, rests⟩ := all m (Keyed.mem_ofList mem) n.2 s t
          (distinctMembers_iff.1 distinct'.2 n (Keyed.mem_ofList mem')) ends ends' (List.cons.inj values).2
        exact ⟨⟨String.toList_inj.1 keys, equal⟩, rests⟩)
      (fun m _ => brace_not_head_memberText m) (fun n _ => brace_not_head_memberText n) inner
    obtain ⟨ordered, paired, perm⟩ := List.perm_comp_forall₂ (Keyed.perm_ofList nodup).symm related
    refine ⟨⟨integralMembers ordered, ?_, equalMembers_iff.2 ?_⟩, rests⟩
    · rw [integralMembers_eq, integralMembers_eq]
      exact (perm.trans (Keyed.perm_ofList distinct'.1)).map _
    · rwa [integralMembers_eq, integralMembers_eq, List.forall₂_map_left_iff, List.forall₂_map_right_iff]
  | bool w => cases w <;> cases same
  | _ => cases same

mutual

/-- Every value is read off its key. -/
theorem reads : (a : Json) → a.Distinct → a.Reads
  | .null, _ => by
    intro b s t _ _ _ eq
    have same := opening_eq eq
    cases b with
    | null => exact ⟨trivial, List.append_cancel_left eq⟩
    | bool v => cases v <;> cases same
    | _ => cases same
  | .bool v, _ => by
    intro b s t _ _ _ eq
    have same := opening_eq eq
    cases b with
    | bool w =>
      cases v <;> cases w
      · exact ⟨rfl, List.append_cancel_left eq⟩
      · cases same
      · cases same
      · exact ⟨rfl, List.append_cancel_left eq⟩
    | _ => cases v <;> cases same
  | .int n, _ => reads_number rfl
  | .float x, _ => reads_number rfl
  | .str s, _ => by
    intro b rest rest' _ _ _ eq
    have same := opening_eq eq
    cases b with
    | str t =>
      obtain ⟨strings, rests⟩ := Text.quoted_append_inj eq
      exact ⟨String.toList_inj.1 strings, rests⟩
    | bool w => cases w <;> cases same
    | _ => cases same
  | .arr items, distinct => reads_arr (reads_items items distinct)
  | .obj members, distinct => reads_obj distinct.1 (reads_members members distinct.2)

private theorem reads_items : (items : List Json) → DistinctItems items → ∀ v ∈ items, v.Reads
  | [], _, _, mem => nomatch mem
  | v :: vs, distinct, w, mem => by
    rcases List.mem_cons.1 mem with same | mem
    · exact same ▸ reads v distinct.1
    · exact reads_items vs distinct.2 w mem

private theorem reads_members : (members : List (String × Json)) → DistinctMembers members → ∀ m ∈ members, m.2.Reads
  | [], _, _, mem => nomatch mem
  | (k, v) :: ms, distinct, m, mem => by
    rcases List.mem_cons.1 mem with same | mem
    · exact same ▸ reads v distinct.1
    · exact reads_members ms distinct.2 m mem

end

/-! ### Stable keys -/

/-- Values without repeated keys have one stable key if and only if they are equal, whatever the order of members, once
every whole binary64 number below `2 ^ 53` has given way to the equal integer. -/
theorem stableKey_eq_iff {a b : Json} (distinct : a.Distinct) (distinct' : b.Distinct) :
    a.stableKey = b.stableKey ↔ a.integral.Equal b.integral := by
  constructor
  · intro same
    have same : a.keyChars ++ [] = b.keyChars ++ [] := congrArg (· ++ []) (String.ofList_inj.1 same)
    exact (reads a distinct b [] [] distinct' nofun nofun same).1
  · intro equal
    have same := keyChars_eq_of_equal _ _ (distinct_integral a distinct) (distinct_integral b distinct') equal
    rw [keyChars_integral, keyChars_integral] at same
    exact congrArg String.ofList same

/-- Members in another order, and a whole number and a negative zero for integers, at any depth. -/
theorem stableKey_eq_of_reordered :
    let one : Double := ⟨false, 2 ^ 52, -52, by decide⟩
    let a : Json := .obj [("limit", .float one), ("at", .arr [.float (.zero true), .str "b"])]
    let b : Json := .obj [("at", .arr [.int 0, .str "b"]), ("limit", .int 1)]
    a.Distinct ∧ b.Distinct ∧ a.stableKey = b.stableKey := by
  intro one a b
  have distinct : a.Distinct := by simp [a, Distinct, DistinctMembers, DistinctItems, Keyed.keys]
  have distinct' : b.Distinct := by simp [b, Distinct, DistinctMembers, DistinctItems, Keyed.keys]
  have one_integral : (Json.float one).integral = .int 1 := by
    rw [integral_float, show keyInteger? one = some 1 by decide +kernel]
  have zero_integral : (Json.float (.zero true)).integral = .int 0 := by
    rw [integral_float, keyInteger?_of_isZero rfl]
  have a_integral : a.integral = .obj [("limit", .int 1), ("at", .arr [.int 0, .str "b"])] := by
    simp only [a, integral.eq_3, integral.eq_2, integralMembers, integralItems, one_integral, zero_integral]
    rfl
  refine ⟨distinct, distinct', (stableKey_eq_iff distinct distinct').2 ?_⟩
  rw [a_integral]
  have numbers : (0 : ℤ) = 0 ∧ (1 : ℤ) = 1 := ⟨rfl, rfl⟩
  exact ⟨_, .swap _ _ _, rfl, numbers.2, rfl, ⟨numbers.1, Eq.refl "b", trivial⟩, trivial⟩

end Json

end Segmentation
