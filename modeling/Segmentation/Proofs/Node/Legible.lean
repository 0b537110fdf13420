import Segmentation.Proofs.Quotation
import Segmentation.Proofs.StableKey

/-!
# Reading trees off their texts

The text of a tree shows the tree, but for what stable keys do not show of its arguments (`render_eq_iff`): where
groups have two operands or more, and names can be told from blanks, parentheses and the word `NOT`.

A tree is at the same time a list of disjuncts, and each of these a list of conjuncts.  Its text is that of the
disjuncts with `OR` between them, and theirs is that of their conjuncts with `AND` between them.  So it is enough to
read a list whose parts can be read (`Text.joined_append_inj`), and to read a conjunct: a leaf, a negation, or a group in
parentheses (`reads_conjunct`).
-/

namespace Segmentation

/-! ### Texts with a separator between them -/

namespace Text

/-- What stands behind the first of several texts, where `rest` stands behind the last. -/
private def beyond (separator : List Char) (ts : List (List Char)) (rest : List Char) : List Char :=
  match ts with
  | [] => rest
  | t :: ts => separator ++ (joined separator (t :: ts) ++ rest)

private theorem joined_cons_append (separator t : List Char) (ts : List (List Char)) (rest : List Char) :
    joined separator (t :: ts) ++ rest = t ++ beyond separator ts rest := by
  cases ts with
  | nil => rfl
  | cons u ts => simp only [joined, beyond, List.append_assoc]

/-- A list of texts shows its parts, and what follows it, if each of the parts shows itself where the separator follows
or the end of the list does, and the end of the list does not look like a separator. -/
theorem joined_append_inj {α : Type} {f : α → List Char} {R : α → α → Prop} {separator : List Char}
    {Follows : List Char → Prop} (separates : ∀ rest, Follows (separator ++ rest)) {as bs : List α} (some : as ≠ [])
    (some' : bs ≠ [])
    (reads : ∀ a ∈ as, ∀ b ∈ bs, ∀ s t, Follows s → Follows t → f a ++ s = f b ++ t → R a b ∧ s = t)
    {s t : List Char} (ends : Follows s) (last : ¬ separator <+: s) (ends' : Follows t) (last' : ¬ separator <+: t)
    (eq : joined separator (as.map f) ++ s = joined separator (bs.map f) ++ t) : List.Forall₂ R as bs ∧ s = t := by
  have follows {rest : List Char} (ends : Follows rest) (ts : List (List Char)) :
      Follows (beyond separator ts rest) := by
    cases ts with
    | nil => exact ends
    | cons t ts => exact separates _
  induction as generalizing bs with
  | nil => exact absurd rfl some
  | cons a as ih =>
    obtain ⟨b, bs, rfl⟩ := List.exists_cons_of_ne_nil some'
    rw [List.map_cons, List.map_cons, joined_cons_append, joined_cons_append] at eq
    obtain ⟨related, rests⟩ :=
      reads a List.mem_cons_self b List.mem_cons_self _ _ (follows ends _) (follows ends' _) eq
    cases as with
    | nil =>
      cases bs with
      | nil => exact ⟨.cons related .nil, rests⟩
      | cons b' bs => exact absurd ⟨_, rests.symm⟩ last
    | cons a' as =>
      cases bs with
      | nil => exact absurd ⟨_, rests⟩ last'
      | cons b' bs =>
        obtain ⟨others, rests⟩ := ih (List.cons_ne_nil _ _) (List.cons_ne_nil _ _)
          (fun a mem b mem' => reads a (List.mem_cons_of_mem _ mem) b (List.mem_cons_of_mem _ mem'))
          (List.append_cancel_left rests)
        exact ⟨.cons related others, rests⟩

end Text

/-! ### Keys in parentheses -/

/-- A key shows where it ends if a closing parenthesis follows it: outside of its strings it has none. -/
theorem Json.keyChars_append_inj {v w : Json} {s t : List Char} (eq : v.keyChars ++ ')' :: s = w.keyChars ++ ')' :: t) :
    v.keyChars = w.keyChars ∧ s = t := by
  have closed (v w : Json) (c : Char) (text : List Char) (longer : w.keyChars = v.keyChars ++ c :: text) : c ≠ ')' := by
    rintro rfl
    have read := Quotation.read_keyChars w
    rw [longer, Quotation.read_append, Quotation.read_keyChars] at read
    cases read
  rcases List.append_eq_append_iff.1 eq with ⟨text, longer, rest⟩ | ⟨text, longer, rest⟩
  · cases text with
    | nil => exact ⟨by rw [longer, List.append_nil], (List.cons.inj rest).2⟩
    | cons c text => exact absurd (List.cons.inj rest).1.symm (closed v w c text longer)
  · cases text with
    | nil => exact ⟨by rw [longer, List.append_nil], (List.cons.inj rest).2.symm⟩
    | cons c text => exact absurd (List.cons.inj rest).1.symm (closed w v c text longer)

namespace Node

/-! ### Trees that can be read -/

/-- A name that is seen to be one: it has some characters, but neither blanks nor parentheses, and is not the word that
stands before what is denied. -/
structure PlainName (name : String) : Prop where
  nonempty : name ≠ ""
  solid : ∀ c ∈ name.toList, c ≠ ' ' ∧ c ≠ '(' ∧ c ≠ ')'
  affirms : name ≠ "NOT"

mutual

/-- All names of a tree are plain, and each of its groups has two operands or more. -/
def Legible : Node → Prop
  | .leaf name _ => PlainName name
  | .and children => 2 ≤ children.length ∧ AllLegible children
  | .or children => 2 ≤ children.length ∧ AllLegible children
  | .not child => Legible child

def AllLegible : List Node → Prop
  | [] => True
  | n :: ns => Legible n ∧ AllLegible ns

end

mutual

/-- Trees of the same shape, with the same operators and names.  At leaves in the same places both have no argument, or
arguments with one stable key. -/
def Alike : Node → Node → Prop
  | .leaf name args, .leaf name' args' => name = name' ∧ args.map Json.stableKey = args'.map Json.stableKey
  | .and children, .and children' => AllAlike children children'
  | .or children, .or children' => AllAlike children children'
  | .not child, .not child' => Alike child child'
  | _, _ => False

def AllAlike : List Node → List Node → Prop
  | [], [] => True
  | n :: ns, m :: ms => Alike n m ∧ AllAlike ns ms
  | _, _ => False

end

instance (name : String) : Decidable (PlainName name) :=
  decidable_of_iff (name ≠ "" ∧ name.toList.all (fun c => c ≠ ' ' ∧ c ≠ '(' ∧ c ≠ ')') = true ∧ name ≠ "NOT")
    ⟨fun ⟨nonempty, solid, affirms⟩ => ⟨nonempty, by simpa using solid, affirms⟩,
      fun h => ⟨h.nonempty, by simpa using h.solid, h.affirms⟩⟩

mutual

instance decidableLegible : (n : Node) → Decidable n.Legible
  | .leaf name _ => inferInstanceAs (Decidable (PlainName name))
  | .and children =>
    have := decidableAllLegible children
    inferInstanceAs (Decidable (2 ≤ children.length ∧ AllLegible children))
  | .or children =>
    have := decidableAllLegible children
    inferInstanceAs (Decidable (2 ≤ children.length ∧ AllLegible children))
  | .not child => decidableLegible child

instance decidableAllLegible : (ns : List Node) → Decidable (AllLegible ns)
  | [] => inferInstanceAs (Decidable True)
  | n :: ns =>
    have := decidableLegible n
    have := decidableAllLegible ns
    inferInstanceAs (Decidable (n.Legible ∧ AllLegible ns))

end

theorem allLegible_iff {ns : List Node} : AllLegible ns ↔ ∀ n ∈ ns, n.Legible := by
  induction ns with
  | nil => simp [AllLegible]
  | cons n ns ih => simp [AllLegible, ih]

theorem allAlike_iff {ns ms : List Node} : AllAlike ns ms ↔ List.Forall₂ Alike ns ms := by
  induction ns generalizing ms with
  | nil => cases ms <;> simp [AllAlike]
  | cons n ns ih => cases ms <;> simp [AllAlike, ih]

theorem operandChars_eq (outer : Nat) (ns : List Node) : operandChars outer ns = ns.map (chars outer) := by
  induction ns with
  | nil => rfl
  | cons n ns ih => rw [operandChars, ih, List.map_cons]

/-! ### Disjuncts and conjuncts -/

/-- What joins operands. -/
inductive Joint where
  | and
  | or

namespace Joint

/-- What stands between operands. -/
def word : Joint → List Char
  | .and => " AND ".toList
  | .or => " OR ".toList

/-- Binding strength around a group that needs no parentheses. -/
def outer : Joint → Nat
  | .and => 2
  | .or => 0

/-- Binding strength around its operands. -/
def inner : Joint → Nat
  | .and => 3
  | .or => 2

/-- What stands between the operands of groups that need no parentheses among the operands. -/
def within : Joint → List (List Char)
  | .and => []
  | .or => [" AND ".toList]

end Joint

/-- What the joint joins in a tree: the operands of its group, or the tree alone. -/
def parts : Joint → Node → List Node
  | .and, .and children => children
  | .or, .or children => children
  | _, n => [n]

theorem chars_joint (j : Joint) (n : Node) : n.chars j.outer = Text.joined j.word ((n.parts j).map (chars j.inner)) := by
  cases j <;> cases n
  case and.and children => rw [parts, ← operandChars_eq]; rfl
  case or.or children => rw [parts, ← operandChars_eq]; rfl
  all_goals rfl

theorem Legible.parts {n : Node} (legible : n.Legible) (j : Joint) :
    n.parts j ≠ [] ∧ ∀ m ∈ n.parts j, m.Legible := by
  have some {children : List Node} (long : 2 ≤ children.length) : children ≠ [] :=
    List.ne_nil_of_length_pos (Nat.lt_of_lt_of_le Nat.zero_lt_two long)
  cases j <;> cases n
  case and.and children => exact ⟨some legible.1, allLegible_iff.1 legible.2⟩
  case or.or children => exact ⟨some legible.1, allLegible_iff.1 legible.2⟩
  all_goals exact ⟨List.cons_ne_nil _ _, List.forall_mem_singleton.2 legible⟩

/-- A group of two operands or more is not taken for a single one. -/
theorem Legible.alike_of_parts {n m : Node} (legible : n.Legible) (legible' : m.Legible) (j : Joint)
    (related : List.Forall₂ Alike (n.parts j) (m.parts j)) : n.Alike m := by
  have lengths := related.length_eq
  have several {k : Nat} (long : 2 ≤ k) : k ≠ 1 := Nat.ne_of_gt long
  cases j <;> cases n <;> cases m
  case and.and.and => exact allAlike_iff.2 related
  case or.or.or => exact allAlike_iff.2 related
  -- one of them is a group of this joint and the other is not
  case and.and.leaf | and.and.or | and.and.not => exact absurd lengths (several legible.1)
  case or.or.leaf | or.or.and | or.or.not => exact absurd lengths (several legible.1)
  case and.leaf.and | and.or.and | and.not.and => exact absurd lengths.symm (several legible'.1)
  case or.leaf.or | or.and.or | or.not.or => exact absurd lengths.symm (several legible'.1)
  all_goals exact (List.forall₂_cons.1 related).1

/-! ### Reading -/

/-- What can stand behind a text: nothing, or what begins with a blank or a closing parenthesis, but not with one of the
words. -/
structure Follows (words : List (List Char)) (rest : List Char) : Prop where
  begins : ∀ c ∈ rest.head?, c = ' ' ∨ c = ')'
  ends : ∀ word ∈ words, ¬ word <+: rest

/-- The text of the tree below an operator of the given strength shows the tree and where it ends, if none of the words
follows. -/
def Reads (outer : Nat) (words : List (List Char)) (n : Node) : Prop :=
  ∀ m s t, m.Legible → Follows words s → Follows words t → n.chars outer ++ s = m.chars outer ++ t → n.Alike m ∧ s = t

theorem Joint.follows (j : Joint) (rest : List Char) : Follows j.within (j.word ++ rest) := by
  cases j <;> constructor <;> simp [Joint.within, Joint.word]

/-- A list of operands can be read if the operands can. -/
theorem reads_of_parts {n : Node} (legible : n.Legible) (j : Joint)
    (reads : ∀ part ∈ n.parts j, part.Reads j.inner j.within) : n.Reads j.outer (j.word :: j.within) := by
  intro m s t legible' follows follows' eq
  have behind {rest : List Char} (h : Follows (j.word :: j.within) rest) :
      Follows j.within rest ∧ ¬ j.word <+: rest :=
    ⟨⟨h.begins, fun word mem => h.ends word (List.mem_cons_of_mem _ mem)⟩, h.ends _ List.mem_cons_self⟩
  rw [chars_joint, chars_joint] at eq
  obtain ⟨related, rest⟩ := Text.joined_append_inj j.follows (legible.parts j).1 (legible'.parts j).1
    (fun part mem part' mem' s t => reads part mem part' s t ((legible'.parts j).2 part' mem'))
    (behind follows).1 (behind follows).2 (behind follows').1 (behind follows').2 eq
  exact ⟨legible.alike_of_parts legible' j related, rest⟩

/-! ### Conjuncts -/

/-- The word at the beginning of the text of a conjunct; none at the beginning of a group. -/
def opening : Node → List Char
  | .leaf name _ => name.toList
  | .not _ => "NOT".toList
  | _ => []

/-- What stands behind that word, where `rest` stands behind the conjunct. -/
def remainder : Node → List Char → List Char
  | .leaf _ none, rest => rest
  | .leaf _ (some args), rest => '(' :: (args.keyChars ++ ')' :: rest)
  | .not child, rest => ' ' :: (child.chars 3 ++ rest)
  | n, rest => '(' :: (n.chars 0 ++ ')' :: rest)

theorem chars_conjunct (n : Node) (rest : List Char) : n.chars 3 ++ rest = n.opening ++ n.remainder rest := by
  cases n with
  | leaf name args => cases args <;> simp [chars, leafChars, opening, remainder]
  | and children => simp [chars, parenthesized, opening, remainder]
  | or children => simp [chars, parenthesized, opening, remainder]
  | not child => rfl

theorem Legible.solid_opening {n : Node} (legible : n.Legible) : ∀ c ∈ n.opening, c ≠ ' ' ∧ c ≠ '(' ∧ c ≠ ')' := by
  cases n with
  | leaf name args => exact legible.solid
  | not child =>
    show ∀ c ∈ "NOT".toList, _
    simp
  | and children | or children => exact List.forall_mem_nil _

theorem head_remainder (n : Node) {words : List (List Char)} {rest : List Char} (follows : Follows words rest) :
    ∀ c ∈ (n.remainder rest).head?, c = ' ' ∨ c = '(' ∨ c = ')' := by
  cases n with
  | leaf name args =>
    cases args with
    | none => exact fun c first => (follows.begins c first).imp_right .inr
    | some args => simp [remainder]
  | not child => simp [remainder]
  | and children | or children => simp [remainder]

/-- Conjuncts of one text begin with one word. -/
theorem Legible.same_opening {n m : Node} (legible : n.Legible) (legible' : m.Legible) {words : List (List Char)}
    {s t : List Char} (follows : Follows words s) (follows' : Follows words t)
    (eq : n.chars 3 ++ s = m.chars 3 ++ t) : n.opening = m.opening ∧ n.remainder s = m.remainder t := by
  rw [chars_conjunct, chars_conjunct] at eq
  have own {n : Node} (legible : n.Legible) : ∀ c ∈ n.opening, decide (c ≠ ' ' ∧ c ≠ '(' ∧ c ≠ ')') = true :=
    fun c mem => decide_eq_true (legible.solid_opening c mem)
  have stop (n : Node) {s : List Char} (follows : Follows words s) :
      ∀ c ∈ (n.remainder s).head?, decide (c ≠ ' ' ∧ c ≠ '(' ∧ c ≠ ')') = false := by
    intro c first
    rcases head_remainder n follows c first with rfl | rfl | rfl <;> rfl
  exact append_inj_of_stop (own legible) (own legible') (stop n follows) (stop m follows') eq

theorem reads_leaf {name : String} {args : Option Json} (plain : PlainName name) : (leaf name args).Reads 3 [] := by
  intro m s t legible follows follows' eq
  obtain ⟨word, rest⟩ := Legible.same_opening (n := leaf name args) plain legible follows follows' eq
  cases m with
  | leaf name' args' =>
    have unopened {text rest : List Char} (follows : Follows [] rest) : rest ≠ '(' :: text := by
      rintro rfl
      exact absurd (follows.begins _ rfl) (by decide)
    obtain rfl := String.toList_injective word
    cases args with
    | none =>
      cases args' with
      | none => exact ⟨⟨rfl, rfl⟩, rest⟩
      | some value' => exact absurd rest (unopened follows)
    | some value =>
      cases args' with
      | none => exact absurd rest.symm (unopened follows')
      | some value' =>
        obtain ⟨keys, rest⟩ := Json.keyChars_append_inj (List.cons.inj rest).2
        exact ⟨⟨rfl, congrArg (fun key => some (String.ofList key)) keys⟩, rest⟩
  | not child => exact absurd (String.toList_injective word) plain.affirms
  | and children | or children => exact absurd (String.toList_eq_nil_iff.1 word) plain.nonempty

theorem reads_not {child : Node} (legible : child.Legible) (reads : child.Reads 3 []) : (not child).Reads 3 [] := by
  intro m s t legible' follows follows' eq
  obtain ⟨word, rest⟩ := Legible.same_opening (n := not child) legible legible' follows follows' eq
  cases m with
  | leaf name args => exact absurd (String.toList_injective word).symm legible'.affirms
  | not child' => exact reads child' s t legible' follows follows' (List.cons.inj rest).2
  | and children | or children => cases word

theorem Legible.remainder_of_group {n : Node} (legible : n.Legible) (group : n.opening = []) (rest : List Char) :
    n.remainder rest = '(' :: (n.chars 0 ++ ')' :: rest) := by
  cases n with
  | leaf name args => exact absurd (String.toList_eq_nil_iff.1 group) legible.nonempty
  | not child => cases group
  | and children | or children => rfl

/-- A group can be read in parentheses if it can be read without. -/
theorem reads_group {n : Node} (legible : n.Legible) (group : n.opening = [])
    (reads : n.Reads Joint.or.outer (Joint.or.word :: Joint.or.within)) : n.Reads 3 [] := by
  intro m s t legible' follows follows' eq
  obtain ⟨word, rest⟩ := legible.same_opening legible' follows follows' eq
  rw [legible.remainder_of_group group, legible'.remainder_of_group (word ▸ group)] at rest
  have closed (rest : List Char) : Follows (Joint.or.word :: Joint.or.within) (')' :: rest) := by
    constructor <;> simp [Joint.word, Joint.within]
  obtain ⟨alike, rest⟩ := reads m _ _ legible' (closed s) (closed t) (List.cons.inj rest).2
  exact ⟨alike, (List.cons.inj rest).2⟩

/-! ### The whole tree -/

/-- The tree can be read wherever it can stand in a text. -/
structure Readable (n : Node) : Prop where
  conjunct : n.Reads Joint.and.inner Joint.and.within
  disjunct : n.Reads Joint.and.outer (Joint.and.word :: Joint.and.within)
  whole : n.Reads Joint.or.outer (Joint.or.word :: Joint.or.within)

/-- What is no group is its own only conjunct. -/
theorem readable_of_conjunct {n : Node} (legible : n.Legible) (single : ∀ j, n.parts j = [n])
    (conjunct : n.Reads Joint.and.inner Joint.and.within) : n.Readable := by
  have disjunct : n.Reads Joint.and.outer (Joint.and.word :: Joint.and.within) :=
    reads_of_parts legible .and (by rw [single]; exact List.forall_mem_singleton.2 conjunct)
  exact ⟨conjunct, disjunct, reads_of_parts legible .or (by rw [single]; exact List.forall_mem_singleton.2 disjunct)⟩

mutual

theorem Legible.readable : (n : Node) → n.Legible → n.Readable
  | .leaf _ _, plain => readable_of_conjunct plain (by rintro (_ | _) <;> rfl) (reads_leaf plain)
  | .not child, legible =>
    readable_of_conjunct legible (by rintro (_ | _) <;> rfl) (reads_not legible (Legible.readable child legible).conjunct)
  | .and children, legible => by
    have disjunct : (and children).Reads Joint.and.outer (Joint.and.word :: Joint.and.within) :=
      reads_of_parts legible .and fun part mem => (AllLegible.readable children legible.2 part mem).conjunct
    have whole : (and children).Reads Joint.or.outer (Joint.or.word :: Joint.or.within) :=
      reads_of_parts legible .or (List.forall_mem_singleton.2 disjunct)
    exact ⟨reads_group legible rfl whole, disjunct, whole⟩
  | .or children, legible => by
    have whole : (or children).Reads Joint.or.outer (Joint.or.word :: Joint.or.within) :=
      reads_of_parts legible .or fun part mem => (AllLegible.readable children legible.2 part mem).disjunct
    have conjunct : (or children).Reads Joint.and.inner Joint.and.within := reads_group legible rfl whole
    exact ⟨conjunct, reads_of_parts legible .and (List.forall_mem_singleton.2 conjunct), whole⟩

theorem AllLegible.readable : (ns : List Node) → AllLegible ns → ∀ n ∈ ns, n.Readable
  | [], _ => List.forall_mem_nil _
  | n :: ns, legible =>
    List.forall_mem_cons.2 ⟨Legible.readable n legible.1, AllLegible.readable ns legible.2⟩

end

mutual

/-- Names and stable keys are all that is written of leaves. -/
theorem chars_eq_of_alike (outer : Nat) : (n m : Node) → n.Alike m → n.chars outer = m.chars outer
  | .leaf name none, .leaf _ none, ⟨names, _⟩ => by rw [names]
  | .leaf name (some v), .leaf _ (some w), ⟨names, keys⟩ => by
    rw [chars, chars, leafChars, leafChars, names, String.ofList_injective (Option.some.inj keys)]
  | .and children, .and children', alike => by rw [chars, chars, operandChars_eq_of_alike 3 children children' alike]
  | .or children, .or children', alike => by rw [chars, chars, operandChars_eq_of_alike 2 children children' alike]
  | .not child, .not child', alike => by rw [chars, chars, chars_eq_of_alike 3 child child' alike]

theorem operandChars_eq_of_alike (outer : Nat) : (ns ms : List Node) → AllAlike ns ms →
    operandChars outer ns = operandChars outer ms
  | [], [], _ => rfl
  | n :: ns, m :: ms, ⟨first, others⟩ => by
    rw [operandChars, operandChars, chars_eq_of_alike outer n m first, operandChars_eq_of_alike outer ns ms others]

end

/-- Of two trees whose groups have two operands or more and whose names are plain, the texts are the same if and only
if the trees are the same up to the stable keys of the arguments. -/
theorem render_eq_iff {n m : Node} (legible : n.Legible) (legible' : m.Legible) : n.render = m.render ↔ n.Alike m := by
  constructor
  · intro same
    have nothing : Follows (Joint.or.word :: Joint.or.within) [] := by constructor <;> simp [Joint.word, Joint.within]
    have chars : n.chars 0 ++ [] = m.chars 0 ++ [] := by rw [String.ofList_injective same]
    exact ((Legible.readable n legible).whole m [] [] legible' nothing nothing chars).1
  · intro alike
    rw [render, render, chars_eq_of_alike 0 n m alike]

/-- A tree whose texts of arguments look like operators and parentheses. -/
def wordy (args : List (String × Json)) : Node :=
  .or [.and [.or [.leaf "a" none, .leaf "b" (some (.obj args))], .not (.not (.leaf "c" (some (.str "\")("))))],
    .not (.and [.leaf "a" none, .leaf "OR" none])]

/-- One key of two arguments, and one word that moves from one group into another. -/
theorem wordy_trees_show :
    let args : List (String × Json) := [("x", .str ") AND NOT ("), ("y", .int 1)]
    let args' : List (String × Json) := [("y", .float ⟨false, 2 ^ 52, -52, by decide⟩), ("x", .str ") AND NOT (")]
    let loose : Node := .or [.leaf "a" none, .and [.leaf "b" (some (.obj args)), .not (.leaf "c" none)]]
    let tight : Node := .and [.or [.leaf "a" none, .leaf "b" (some (.obj args'))], .not (.leaf "c" none)]
    (wordy args).render =
        "(a OR b(\x7b\"x\":\") AND NOT (\",\"y\":1\x7d)) AND NOT NOT c(\"\\\")(\") OR NOT (a AND OR)" ∧
      (wordy args).Alike (wordy args') ∧ loose.render ≠ tight.render := by
  intro args args' loose tight
  have alike : (wordy args).Alike (wordy args') :=
    (render_eq_iff (n := wordy args) (m := wordy args') (by decide) (by decide)).1 (by decide +kernel)
  have apart : ¬ loose.Alike tight := id
  exact ⟨by decide +kernel, alike, fun same => apart ((render_eq_iff (by decide) (by decide)).1 same)⟩

end Node

end Segmentation
