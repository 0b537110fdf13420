import Mathlib.Data.List.Basic
import Segmentation.Session

/-!
# Launching an expression

`Session.launch` gives every leaf of an expression an invocation: the first one with the key of its definition, and
a new one if there is none.  So the keys of a session only grow at the end, and the number of a leaf's invocation is
the position of its key among them (`launch_spec`, `leaves_launch`).
-/

namespace Segmentation

namespace Expr

mutual

/-- The definitions at the leaves, from left to right and counting duplicates. -/
def leaves : Expr → List Definition
  | .leaf definition => [definition]
  | .and operands => leavesOfAll operands
  | .or operands => leavesOfAll operands
  | .not operand => leaves operand

def leavesOfAll : List Expr → List Definition
  | [] => []
  | e :: es => leaves e ++ leavesOfAll es

end

end Expr

namespace Progress

mutual

/-- The invocations at the leaves without outcome, from left to right and counting duplicates. -/
def leaves : Progress → List Nat
  | .leaf invocation _ => [invocation]
  | .group _ _ _ operands _ _ => leavesOfAll operands
  | .not operand => leaves operand
  | .settled _ => []

def leavesOfAll : List Progress → List Nat
  | [] => []
  | p :: ps => leaves p ++ leavesOfAll ps

end

mutual

/-- An expression none of whose leaves was looked at; the number of a leaf's invocation is the position of its
key. -/
def Launched (keys : List String) : Expr → Progress → Prop
  | .leaf d, p => ∃ seat, p = .leaf (keys.idxOf d.key) seat
  | .and es, p => ∃ ps : List Progress,
      p = .group .and (List.range ps.length) (List.range ps.length) ps [] none ∧ LaunchedAll keys es ps
  | .or es, p => ∃ ps : List Progress,
      p = .group .or (List.range ps.length) (List.range ps.length) ps [] none ∧ LaunchedAll keys es ps
  | .not e, p => ∃ q, p = .not q ∧ Launched keys e q

def LaunchedAll (keys : List String) : List Expr → List Progress → Prop
  | [], ps => ps = []
  | e :: es, ps => ∃ q qs, ps = q :: qs ∧ Launched keys e q ∧ LaunchedAll keys es qs

end

mutual

theorem Launched.leaves_eq {keys : List String} : {e : Expr} → {p : Progress} → Launched keys e p →
    p.leaves = e.leaves.map fun d => keys.idxOf d.key
  | .leaf _, _, ⟨_, rfl⟩ => rfl
  | .and es, _, ⟨ps, rfl, h⟩ => @LaunchedAll.leaves_eq keys es ps h
  | .or es, _, ⟨ps, rfl, h⟩ => @LaunchedAll.leaves_eq keys es ps h
  | .not e, _, ⟨q, rfl, h⟩ => Launched.leaves_eq (e := e) (p := q) h

theorem LaunchedAll.leaves_eq {keys : List String} : {es : List Expr} → {ps : List Progress} →
    LaunchedAll keys es ps → leavesOfAll ps = (Expr.leavesOfAll es).map fun d => keys.idxOf d.key
  | [], _, h => by subst h; rfl
  | e :: es, _, ⟨q, qs, h, he, hes⟩ => by
    subst h
    rw [leavesOfAll, Expr.leavesOfAll, List.map_append, Launched.leaves_eq he, LaunchedAll.leaves_eq hes]

end

mutual

/-- Further keys do not change the positions of those that are there. -/
theorem Launched.mono {keys later : List String} (hl : keys <+: later) : {e : Expr} → {p : Progress} →
    (∀ d ∈ e.leaves, d.key ∈ keys) → Launched keys e p → Launched later e p
  | .leaf d, _, hk, ⟨seat, h⟩ => by
    obtain ⟨rest, rfl⟩ := hl
    exact ⟨seat, by rw [h, List.idxOf_append_of_mem (hk d (List.mem_singleton_self d))]⟩
  | .and _, _, hk, ⟨ps, h, hes⟩ => ⟨ps, h, LaunchedAll.mono hl hk hes⟩
  | .or _, _, hk, ⟨ps, h, hes⟩ => ⟨ps, h, LaunchedAll.mono hl hk hes⟩
  | .not _, _, hk, ⟨q, h, he⟩ => ⟨q, h, Launched.mono hl hk he⟩

theorem LaunchedAll.mono {keys later : List String} (hl : keys <+: later) : {es : List Expr} →
    {ps : List Progress} → (∀ d ∈ Expr.leavesOfAll es, d.key ∈ keys) → LaunchedAll keys es ps →
    LaunchedAll later es ps
  | [], _, _, h => h
  | _ :: _, _, hk, ⟨q, qs, h, he, hes⟩ =>
    ⟨q, qs, h, Launched.mono hl (fun d hd => hk d (List.mem_append_left _ hd)) he,
      LaunchedAll.mono hl (fun d hd => hk d (List.mem_append_right _ hd)) hes⟩

end

end Progress

/-- What is read off the elements of a list stays when an element is replaced by one that reads the same. -/
theorem map_set_of_same {α β : Type} {f : α → β} {l : List α} {index : Nat} {a b : α} (here : l[index]? = some a)
    (same : f b = f a) : (l.set index b).map f = l.map f := by
  obtain ⟨lt, rfl⟩ := List.getElem?_eq_some_iff.1 here
  rw [List.map_set, same]
  exact List.map_set.symm.trans (congrArg (List.map f) (List.set_getElem_self lt))

namespace Session

open Progress (Launched LaunchedAll)

/-- The keys of the invocations, in their order. -/
def keys (session : Session) : List String := session.invocations.map (·.definition.key)

theorem findIdx?_key {session : Session} {key : String} (h : key ∈ session.keys) :
    session.invocations.findIdx? (·.definition.key = key) = some (session.keys.idxOf key) := by
  obtain ⟨i, hi, rfl⟩ := List.mem_map.1 h
  rw [List.findIdx?_eq_some_of_exists ⟨i, hi, by simp⟩, keys, List.idxOf, List.findIdx_map]
  congr 2

theorem findIdx?_no_key {session : Session} {key : String} (h : key ∉ session.keys) :
    session.invocations.findIdx? (·.definition.key = key) = none := by
  rw [List.findIdx?_eq_none_iff]
  intro i hi
  simpa using fun same : i.definition.key = key => h (List.mem_map.2 ⟨i, hi, same⟩)

/-- Another invocation for the same definition does not change the keys. -/
theorem keys_set {session : Session} {index : Nat} {i : Invocation} (h : session.invocations[index]? = some i)
    {j : Invocation} (hj : j.definition = i.definition) :
    keys { session with invocations := session.invocations.set index j } = session.keys :=
  map_set_of_same h (congrArg Definition.key hj)

theorem keys_takeSeat (session : Session) (index : Nat) : (session.takeSeat index).2.keys = session.keys := by
  unfold takeSeat
  cases h : session.invocations[index]? with
  | none => rfl
  | some i =>
    cases hv : i.vacant with
    | nil => simp only [hv]; exact keys_set h rfl
    | cons seat vacant => simp only [hv]; exact keys_set h rfl

/-- The number of the invocation for a definition, and the keys when it is there. -/
theorem invocationFor_spec (session : Session) (definition : Definition) (journal : Journal) :
    let r := session.invocationFor definition journal
    session.keys <+: r.2.1.keys ∧ definition.key ∈ r.2.1.keys ∧ r.1 = r.2.1.keys.idxOf definition.key := by
  unfold invocationFor
  by_cases h : definition.key ∈ session.keys
  · simp only [findIdx?_key h]
    exact ⟨List.prefix_rfl, h, trivial⟩
  · simp only [findIdx?_no_key h]
    have keys_eq : keys { session with invocations := session.invocations ++ [⟨definition, .fresh, 0, []⟩] } =
        session.keys ++ [definition.key] := by simp [keys]
    refine ⟨?_, ?_, ?_⟩
    · rw [keys_eq]; exact List.prefix_append _ _
    · rw [keys_eq]; simp
    · rw [keys_eq, List.idxOf_append_of_notMem h]
      simp [keys]

mutual

/-- Launching adds the keys that are missing, and every leaf is at the invocation with its key. -/
theorem launch_spec : (expr : Expr) → (session : Session) → (journal : Journal) →
    let r := session.launch expr journal
    session.keys <+: r.2.1.keys ∧ (∀ d ∈ expr.leaves, d.key ∈ r.2.1.keys) ∧ Launched r.2.1.keys expr r.1
  | .leaf d, session, journal => by
    obtain ⟨grown, mem, number⟩ := invocationFor_spec session d journal
    simp only [launch, keys_takeSeat]
    refine ⟨grown, ?_, _, by rw [← number]⟩
    intro e he
    rwa [List.mem_singleton.1 he]
  | .and es, session, journal => by
    obtain ⟨grown, mem, launched⟩ := launchAll_spec es session journal
    exact ⟨grown, mem, _, rfl, launched⟩
  | .or es, session, journal => by
    obtain ⟨grown, mem, launched⟩ := launchAll_spec es session journal
    exact ⟨grown, mem, _, rfl, launched⟩
  | .not e, session, journal => by
    obtain ⟨grown, mem, launched⟩ := launch_spec e session journal
    exact ⟨grown, mem, _, rfl, launched⟩

theorem launchAll_spec : (exprs : List Expr) → (session : Session) → (journal : Journal) →
    let r := session.launchAll exprs journal
    session.keys <+: r.2.1.keys ∧ (∀ d ∈ Expr.leavesOfAll exprs, d.key ∈ r.2.1.keys) ∧
      LaunchedAll r.2.1.keys exprs r.1
  | [], session, journal => ⟨List.prefix_rfl, by simp [Expr.leavesOfAll], rfl⟩
  | e :: es, session, journal => by
    obtain ⟨grown, mem, launched⟩ := launch_spec e session journal
    obtain ⟨grown', mem', launched'⟩ :=
      launchAll_spec es (session.launch e journal).2.1 (session.launch e journal).2.2
    refine ⟨grown.trans grown', ?_, _, _, rfl, launched.mono grown' mem, launched'⟩
    intro d hd
    rcases List.mem_append.1 hd with hd | hd
    · exact grown'.subset (mem d hd)
    · exact mem' d hd

end

end Session

end Segmentation
