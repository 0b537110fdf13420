import Segmentation.Engine.Service
import Segmentation.Proofs.Launch
import Segmentation.Proofs.Quotation

/-!
# Leaves that share an invocation

Two leaves of an expression are at one invocation exactly when their definitions have one key
(`Session.launch_same_number_iff`).  Definitions have one key when they make the same request: the same name, and
arguments with the same stable key or none.  The key of a definition with argument shows where its name ends, so the
only other case is a definition without argument whose name spells out the other one with its argument
(`Definition.key_eq_iff`).
-/

namespace Segmentation

namespace Definition

/-- The same name, and arguments with the same stable key or none. -/
def SameRequest (d e : Definition) : Prop :=
  d.name = e.name ∧ d.args.map Json.stableKey = e.args.map Json.stableKey

/-- A definition without argument whose name is that of the other one with its argument in parentheses. -/
def Mimics (d e : Definition) : Prop :=
  d.args.isNone ∧ e.args.map (fun args => e.name ++ "(" ++ args.stableKey ++ ")") = some d.name

instance (d e : Definition) : Decidable (d.SameRequest e) := inferInstanceAs (Decidable (_ ∧ _))

instance (d e : Definition) : Decidable (d.Mimics e) := inferInstanceAs (Decidable (_ ∧ _))

private theorem leafChars_none_eq_some {m n : String} {v : Json} :
    Node.leafChars m none = Node.leafChars n (some v) ↔ n ++ "(" ++ v.stableKey ++ ")" = m := by
  simp only [Node.leafChars, ← String.toList_inj, String.toList_append, Json.stableKey, String.toList_ofList]
  simp [eq_comm]

private theorem leafChars_some_eq_some {m n : String} {v w : Json} :
    Node.leafChars m (some v) = Node.leafChars n (some w) ↔ m = n ∧ v.stableKey = w.stableKey := by
  -- Both keys end in a parenthesis; without it the name ends where the stable key begins.
  have drop_last : Node.leafChars m (some v) = Node.leafChars n (some w) ↔
      m.toList ++ '(' :: v.keyChars = n.toList ++ '(' :: w.keyChars := List.append_left_inj [')']
  rw [drop_last, Quotation.append_keyChars_inj, String.toList_inj, Json.stableKey, Json.stableKey,
    String.ofList_inj]

theorem key_eq_iff (d e : Definition) : d.key = e.key ↔ d.SameRequest e ∨ d.Mimics e ∨ e.Mimics d := by
  obtain ⟨m, v, _, _⟩ := d
  obtain ⟨n, w, _, _⟩ := e
  simp only [key, String.ofList_inj, SameRequest, Mimics]
  cases v with
  | none =>
    cases w with
    | none => simp [Node.leafChars, String.toList_inj]
    | some w => simp [leafChars_none_eq_some]
  | some v =>
    cases w with
    | none => simp [eq_comm (a := Node.leafChars m _), leafChars_none_eq_some]
    | some w => simp [leafChars_some_eq_some]

theorem SameRequest.not_mimics {d e : Definition} (same : d.SameRequest e) : ¬ d.Mimics e := by
  rintro ⟨none, some⟩
  have args := same.2
  rw [Option.isNone_iff_eq_none.1 none] at args
  cases h : e.args with
  | none => simp [h] at some
  | some _ => simp [h] at args

end Definition

namespace Session

private theorem leaves_launch (session : Session) (expr : Expr) (journal : Journal) :
    ∃ keys : List String, (∀ d ∈ expr.leaves, d.key ∈ keys) ∧
      (session.launch expr journal).1.leaves = expr.leaves.map fun d => keys.idxOf d.key := by
  obtain ⟨_, mem, launched⟩ := launch_spec expr session journal
  exact ⟨_, mem, launched.leaves_eq⟩

/-- Every leaf gets the number of an invocation; those of two leaves are the same exactly when they have one key. -/
private theorem launch_same_number_iff (session : Session) (expr : Expr) (journal : Journal) {i j : Nat}
    {d e : Definition} (hi : expr.leaves[i]? = some d) (hj : expr.leaves[j]? = some e) :
    (session.launch expr journal).1.leaves[i]? = (session.launch expr journal).1.leaves[j]? ↔ d.key = e.key := by
  obtain ⟨keys, mem, numbers⟩ := leaves_launch session expr journal
  simp only [numbers, List.getElem?_map, hi, hj, Option.map_some, Option.some_inj]
  exact List.idxOf_inj (mem d (List.mem_of_getElem? hi))

/-- Launching an expression gives every leaf an invocation.  Two leaves get the same one exactly when they make the
same request or one of them mimics the other, so leaves that share an invocation always make the same request exactly
when no leaf of the expression mimics another. -/
theorem launch_merges_same_requests_iff (session : Session) (expr : Expr) (journal : Journal) :
    let numbers := (session.launch expr journal).1.leaves
    numbers.length = expr.leaves.length ∧
    (∀ (i j : Nat) (d e : Definition), expr.leaves[i]? = some d → expr.leaves[j]? = some e →
      (numbers[i]? = numbers[j]? ↔ d.SameRequest e ∨ d.Mimics e ∨ e.Mimics d)) ∧
    ((∀ (i j : Nat) (d e : Definition), expr.leaves[i]? = some d → expr.leaves[j]? = some e →
        numbers[i]? = numbers[j]? → d.SameRequest e) ↔
      ∀ d ∈ expr.leaves, ∀ e ∈ expr.leaves, ¬ d.Mimics e) := by
  intro numbers
  have shared_iff (i j : Nat) (d e : Definition) (hi : expr.leaves[i]? = some d) (hj : expr.leaves[j]? = some e) :
      numbers[i]? = numbers[j]? ↔ d.SameRequest e ∨ d.Mimics e ∨ e.Mimics d :=
    (launch_same_number_iff session expr journal hi hj).trans (Definition.key_eq_iff d e)
  refine ⟨?_, shared_iff, ?_, ?_⟩
  · obtain ⟨keys, -, eq⟩ := leaves_launch session expr journal
    simp [numbers, eq]
  · intro same d hd e he mimics
    obtain ⟨i, hi⟩ := List.mem_iff_getElem?.1 hd
    obtain ⟨j, hj⟩ := List.mem_iff_getElem?.1 he
    exact (same i j d e hi hj ((shared_iff i j d e hi hj).2 (.inr (.inl mimics)))).not_mimics mimics
  · intro none i j d e hi hj shared
    have hd := List.mem_of_getElem? hi
    have he := List.mem_of_getElem? hj
    rcases (shared_iff i j d e hi hj).1 shared with same | mimics | mimics
    · exact same
    · exact absurd mimics (none d hd e he)
    · exact absurd mimics (none e he d hd)

/-- A matcher named `a(1)` is not asked beside the matcher `a` bound to 1: both leaves of the disjunction get the
answer of the first one, although `a` alone answers with true. -/
theorem mimicking_name_hides_answer :
    let any : Schema := fun value => .starts (.done (.ok (.accepted value)))
    let never : Matcher := ⟨none, .single fun _ _ => .starts (.done (.value false))⟩
    let always : Matcher := ⟨some any, .single fun _ _ => .starts (.done (.value true))⟩
    let service : Service :=
      ⟨⟨any, [], .compile [("a(1)", never), ("a", always)] defaultMemoCapacity, .default⟩, .empty, []⟩
    let answers (recipe : Recipe) := (service.ask 8 none [.start .null (.adHoc fun _ => recipe) none]).2.1
    answers (.matcherWith "a" (.int 1)) = [some true] ∧
      answers (.or [.matcher "a(1)", .matcherWith "a" (.int 1)]) = [some false] := by
  decide

end Session

end Segmentation
