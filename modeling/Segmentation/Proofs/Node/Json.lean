import Segmentation.Node.Json
import Mathlib.Tactic.Ring

/-!
# Reading trees back

Whatever tree is written as JSON is read back with its shape, its names and its arguments, but a null that is bound to
a leaf is read as no argument (`ofJson?_toJson`).  Such a null stands in the text of the tree as well, so that a tree is
read back as it was, and with the same text, just if null is bound to none of its leaves (`reads_back_iff`).
-/

namespace Segmentation

/-- The separator stands between each two of the texts. -/
theorem Text.length_joined (separator : List Char) (ts : List (List Char)) :
    (joined separator ts).length = (ts.map List.length).sum + separator.length * (ts.length - 1) := by
  induction ts with
  | nil => rfl
  | cons t ts ih =>
    cases ts with
    | nil => simp [joined]
    | cons u us =>
      simp only [joined, List.length_append, ih, List.map_cons, List.sum_cons, List.length_cons, Nat.add_sub_cancel]
      ring

namespace Node

mutual

/-- The tree with no argument at the leaves to which null is bound. -/
def withoutNull : Node → Node
  | .leaf name args => .leaf name (boundArgs args)
  | .and children => .and (allWithoutNull children)
  | .or children => .or (allWithoutNull children)
  | .not child => .not (withoutNull child)

def allWithoutNull : List Node → List Node
  | [] => []
  | n :: ns => withoutNull n :: allWithoutNull ns

end

mutual

/-- The number of leaves to which null is bound. -/
def nullCount : Node → Nat
  | .leaf _ (some .null) => 1
  | .leaf _ _ => 0
  | .and children => nullCounts children
  | .or children => nullCounts children
  | .not child => nullCount child

def nullCounts : List Node → Nat
  | [] => 0
  | n :: ns => nullCount n + nullCounts ns

end

/-! ### What is read -/

mutual

/-- What was written is read back, but for nulls that are bound, at the root as well as below it. -/
theorem ofJson?_toJson (nested : Bool) : (n : Node) → ofJson? nested n.toJson = some n.withoutNull
  | .leaf _ none => rfl
  | .leaf _ (some _) => rfl
  | .and children => congrArg (Option.map Node.and) (ofJsons?_toJsons children)
  | .or children => congrArg (Option.map Node.or) (ofJsons?_toJsons children)
  | .not child => congrArg (Option.map Node.not) (ofJson?_toJson true child)

theorem ofJsons?_toJsons : (ns : List Node) → ofJsons? (toJsons ns) = some (allWithoutNull ns)
  | [] => rfl
  | n :: ns => by
    rw [toJsons, ofJsons?, ofJson?_toJson true n, ofJsons?_toJsons ns]
    rfl

end

mutual

theorem leafCount_withoutNull : (n : Node) → n.withoutNull.leafCount = n.leafCount
  | .leaf _ _ => rfl
  | .and children => leafCounts_allWithoutNull children
  | .or children => leafCounts_allWithoutNull children
  | .not child => leafCount_withoutNull child

theorem leafCounts_allWithoutNull : (ns : List Node) → leafCounts (allWithoutNull ns) = leafCounts ns
  | [] => rfl
  | n :: ns => congrArg₂ (· + ·) (leafCount_withoutNull n) (leafCounts_allWithoutNull ns)

end

mutual

theorem withoutNull_eq_self : (n : Node) → n.nullCount = 0 → n.withoutNull = n
  | .leaf _ args, free => by
    unfold nullCount at free
    unfold withoutNull boundArgs
    split
    · simp at free
    · rfl
  | .and children, free => congrArg Node.and (allWithoutNull_eq_self children free)
  | .or children, free => congrArg Node.or (allWithoutNull_eq_self children free)
  | .not child, free => congrArg Node.not (withoutNull_eq_self child free)

theorem allWithoutNull_eq_self : (ns : List Node) → nullCounts ns = 0 → allWithoutNull ns = ns
  | [], _ => rfl
  | n :: ns, free => congrArg₂ List.cons (withoutNull_eq_self n (Nat.add_eq_zero_iff.1 free).1)
      (allWithoutNull_eq_self ns (Nat.add_eq_zero_iff.1 free).2)

end

/-! ### What the texts say of it -/

theorem length_parenthesized (needed : Bool) (text : List Char) :
    (parenthesized needed text).length = text.length + 2 * needed.toNat := by
  cases needed <;> simp [parenthesized]

theorem length_operandChars (outer : Nat) (ns : List Node) : (operandChars outer ns).length = ns.length := by
  induction ns with
  | nil => rfl
  | cons n ns ih => exact congrArg (· + 1) ih

theorem length_allWithoutNull (ns : List Node) : (allWithoutNull ns).length = ns.length := by
  induction ns with
  | nil => rfl
  | cons n ns ih => exact congrArg (· + 1) ih

mutual

/-- Every null that is bound stands in the text, in parentheses. -/
theorem length_chars (outer : Nat) : (n : Node) →
    (n.chars outer).length = (n.withoutNull.chars outer).length + 6 * n.nullCount
  | .leaf name none => rfl
  | .leaf name (some args) => by
    cases args
    case null => simp [withoutNull, boundArgs, chars, leafChars, nullCount, Json.keyChars, Json.chars]
    all_goals rfl
  | .and children => by
    have each := sum_operandChars 3 children
    simp only [withoutNull, chars, nullCount, length_parenthesized, Text.length_joined, length_operandChars,
      length_allWithoutNull]
    omega
  | .or children => by
    have each := sum_operandChars 2 children
    simp only [withoutNull, chars, nullCount, length_parenthesized, Text.length_joined, length_operandChars,
      length_allWithoutNull]
    omega
  | .not child => by
    have below := length_chars 3 child
    simp only [withoutNull, chars, nullCount, length_parenthesized, List.length_append]
    omega

theorem sum_operandChars (outer : Nat) : (ns : List Node) →
    ((operandChars outer ns).map List.length).sum =
      ((operandChars outer (allWithoutNull ns)).map List.length).sum + 6 * nullCounts ns
  | [] => rfl
  | n :: ns => by
    have first := length_chars outer n
    have rest := sum_operandChars outer ns
    simp only [operandChars, allWithoutNull, nullCounts, List.map_cons, List.sum_cons]
    omega

end

theorem nullCount_eq_zero_of_render {n : Node} (same : n.withoutNull.render = n.render) : n.nullCount = 0 := by
  have texts : n.withoutNull.chars 0 = n.chars 0 := String.ofList_injective same
  have lengths := length_chars 0 n
  rw [texts] at lengths
  omega

/-- Every tree that is written is read back as some tree with as many leaves.  It is the same tree just if null is bound
to no leaf, and just then has it the same text. -/
theorem reads_back_iff (n : Node) : ∃ m, ofJson? false n.toJson = some m ∧ m.leafCount = n.leafCount ∧
    (m = n ↔ n.nullCount = 0) ∧ (m.render = n.render ↔ n.nullCount = 0) := by
  refine ⟨n.withoutNull, ofJson?_toJson false n, leafCount_withoutNull n, ⟨fun same => ?_, withoutNull_eq_self n⟩,
    nullCount_eq_zero_of_render, fun free => ?_⟩
  · exact nullCount_eq_zero_of_render (congrArg render same)
  · rw [withoutNull_eq_self n free]

/-- A null that is bound is lost: another tree with another text is read. -/
theorem bound_null_is_lost :
    let written : Node := .leaf "a" (some .null)
    let read : Node := .leaf "a" none
    ofJson? false written.toJson = some read ∧ read ≠ written ∧ read.leafCount = written.leafCount ∧
      written.render = "a(null)" ∧ read.render = "a" ∧ ¬ ofJson? false written.toJson = some written :=
  ⟨rfl, nofun, rfl, by decide, by decide, nofun⟩

end Node

end Segmentation
