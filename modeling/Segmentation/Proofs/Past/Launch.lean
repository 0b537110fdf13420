import Mathlib.Data.List.Forall2
import Segmentation.Proofs.Past.Solitary
import Segmentation.Proofs.Sharing

/-!
# Launching alike expressions

Expressions are alike if they differ in the arguments at their leaves only, and in none of the stable keys of these.
An evaluation calls a matcher with the argument of the first leaf of a key.  So alike expressions whose first leaves
have the same arguments launch the same sessions (`Session.launch_alike`).
-/

namespace Segmentation

/-- The same matcher, asked for the same. -/
def Definition.Alike (d e : Definition) : Prop := d.SameRequest e ∧ d.matcher = e.matcher

theorem Definition.Alike.key_eq {d e : Definition} (alike : d.Alike e) : d.key = e.key :=
  (Definition.key_eq_iff d e).2 (.inl alike.1)

namespace Expr

mutual

/-- The same expression of alike definitions. -/
def Alike : Expr → Expr → Prop
  | .leaf d, .leaf e => d.Alike e
  | .and es, .and fs => AlikeAll es fs
  | .or es, .or fs => AlikeAll es fs
  | .not e, .not f => Alike e f
  | _, _ => False

def AlikeAll : List Expr → List Expr → Prop
  | [], [] => True
  | e :: es, f :: fs => Alike e f ∧ AlikeAll es fs
  | _, _ => False

end

mutual

theorem Alike.refl : (e : Expr) → Alike e e
  | .leaf _ => ⟨⟨rfl, rfl⟩, rfl⟩
  | .and es => AlikeAll.refl es
  | .or es => AlikeAll.refl es
  | .not e => Alike.refl e

theorem AlikeAll.refl : (es : List Expr) → AlikeAll es es
  | [] => trivial
  | e :: es => ⟨Alike.refl e, AlikeAll.refl es⟩

end

mutual

theorem Alike.leaves : {e f : Expr} → Alike e f → List.Forall₂ Definition.Alike e.leaves f.leaves
  | .leaf _, .leaf _, alike => .cons alike .nil
  | .and es, .and fs, alike => @AlikeAll.leaves es fs alike
  | .or es, .or fs, alike => @AlikeAll.leaves es fs alike
  | .not e, .not f, alike => @Alike.leaves e f alike

theorem AlikeAll.leaves : {es fs : List Expr} → AlikeAll es fs →
    List.Forall₂ Definition.Alike (leavesOfAll es) (leavesOfAll fs)
  | [], [], _ => .nil
  | _ :: _, _ :: _, alike => List.rel_append (Alike.leaves alike.1) (AlikeAll.leaves alike.2)

end

/-- The argument of the first of some definitions with a key. -/
def firstArgs (definitions : List Definition) (key : String) : Option Json :=
  (definitions.find? (·.key = key)).bind (·.args)

/-- The first definitions with a key have the same argument, unless the key is known. -/
def AgreeFirst (known : List String) (ds es : List Definition) : Prop :=
  ∀ key, key ∉ known → firstArgs ds key = firstArgs es key

theorem find?_alike {ds es : List Definition} (alike : List.Forall₂ Definition.Alike ds es) (key : String) :
    (ds.find? (·.key = key)).isSome = (es.find? (·.key = key)).isSome := by
  induction alike with
  | nil => rfl
  | @cons d e ds es alike_head alike ih =>
    simp only [List.find?_cons, alike_head.key_eq]
    cases decide (e.key = key)
    · exact ih
    · rfl

theorem AgreeFirst.left {known : List String} {ds ds' es es' : List Definition}
    (alike : List.Forall₂ Definition.Alike ds es) (agree : AgreeFirst known (ds ++ ds') (es ++ es')) :
    AgreeFirst known ds es := by
  intro key unknown
  have found := find?_alike alike key
  have agree := agree key unknown
  simp only [firstArgs, List.find?_append] at agree ⊢
  cases hd : ds.find? (·.key = key) with
  | none =>
    rw [hd, Option.isSome_none] at found
    rw [Option.isSome_eq_false_iff.1 found.symm |> Option.isNone_iff_eq_none.1]
  | some d =>
    rw [hd, Option.isSome_some] at found
    obtain ⟨e, he⟩ := Option.isSome_iff_exists.1 found.symm
    simpa [hd, he] using agree

theorem AgreeFirst.right {known later : List String} {ds ds' es es' : List Definition}
    (alike : List.Forall₂ Definition.Alike ds es) (agree : AgreeFirst known (ds ++ ds') (es ++ es'))
    (grown : known ⊆ later) (seen : ∀ d ∈ ds, d.key ∈ later) : AgreeFirst later ds' es' := by
  intro key unknown
  have none_left : ds.find? (·.key = key) = none := by
    rw [List.find?_eq_none]
    exact fun d mem same => unknown (of_decide_eq_true same ▸ seen d mem)
  have none_right : es.find? (·.key = key) = none := by
    have found := find?_alike alike key
    rw [none_left, Option.isSome_none] at found
    exact Option.isSome_eq_false_iff.1 found.symm |> Option.isNone_iff_eq_none.1
  have agree := agree key fun mem => unknown (grown mem)
  simpa [firstArgs, List.find?_append, none_left, none_right] using agree

end Expr

namespace Session

open Segmentation.Expr (Alike AlikeAll AgreeFirst)

theorem keys_after (past : Past) (session : Session) : (session.after past).keys = session.keys := by
  simp only [keys, after, List.map_map]
  rfl

theorem takeSeat_after (past : Past) (session : Session) (index : Nat) :
    (session.after past).takeSeat index = ((session.takeSeat index).1, (session.takeSeat index).2.after past) := by
  unfold takeSeat
  simp only [after, List.getElem?_map]
  cases session.invocations[index]? with
  | none => rfl
  | some invocation =>
    obtain ⟨definition, stage, seats, vacant⟩ := invocation
    cases vacant <;> simp [Invocation.after]

/-- The same session and journal, the one after `p` and the other after `q`. -/
def Same (p q : Past) (r r' : Session × Journal) : Prop := r.1.after p = r'.1.after q ∧ r.2.after p = r'.2.after q

variable {p q : Past}

theorem Same.keys_eq {r r' : Session × Journal} (same : Same p q r r') : r.1.keys = r'.1.keys := by
  rw [← keys_after p, same.1, keys_after]

theorem invocationFor_alike (serial : p.serial = q.serial) {r r' : Session × Journal} (same : Same p q r r')
    {d e : Definition} (alike : d.Alike e) (args : d.key ∉ r.1.keys → d.args = e.args) :
    (r.1.invocationFor d r.2).1 = (r'.1.invocationFor e r'.2).1 ∧
      Same p q (r.1.invocationFor d r.2).2 (r'.1.invocationFor e r'.2).2 := by
  have keys_eq := same.keys_eq
  have scope_eq : r.1.scope.after p = r'.1.scope.after q := congrArg (·.scope) same.1
  rw [alike.key_eq, keys_eq] at args
  unfold invocationFor
  by_cases known : e.key ∈ r'.1.keys
  · have known_too : e.key ∈ r.1.keys := keys_eq ▸ known
    have segment_eq : r.1.scope.segment = r'.1.scope.segment := congrArg (·.segment) scope_eq
    simp only [alike.key_eq, findIdx?_key known, findIdx?_key known_too, keys_eq, segment_eq]
    exact ⟨trivial, same.1, by rw [← Journal.notice_after, same.2, Journal.notice_after]⟩
  · -- Only a new invocation takes over the argument, and then these leaves are the first of their key.
    have unknown_too : e.key ∉ r.1.keys := keys_eq ▸ known
    have definition_eq : d.after p = e.after q := by
      simp only [Definition.after, alike.1.1, alike.2, args known, serial]
    have invocations_eq : r.1.invocations.map (·.after p) = r'.1.invocations.map (·.after q) :=
      congrArg (·.invocations) same.1
    simp only [alike.key_eq, findIdx?_no_key known, findIdx?_no_key unknown_too]
    refine ⟨?_, ?_, same.2⟩
    · simpa using congrArg List.length invocations_eq
    · have new_eq : (⟨d, .fresh, 0, []⟩ : Invocation).after p = (⟨e, .fresh, 0, []⟩ : Invocation).after q := by
        simp only [Invocation.after, definition_eq]
        rfl
      simp only [after, List.map_append, List.map_cons, List.map_nil, new_eq, scope_eq, invocations_eq]

theorem takeSeat_same {session session' : Session} (same : session.after p = session'.after q) (index : Nat) :
    (session.takeSeat index).1 = (session'.takeSeat index).1 ∧
      (session.takeSeat index).2.after p = (session'.takeSeat index).2.after q := by
  have taken := takeSeat_after p session index
  rw [same, takeSeat_after] at taken
  exact ⟨(congrArg (·.1) taken).symm, (congrArg (·.2) taken).symm⟩

mutual

/-- Alike expressions whose first leaves have the same arguments launch the same session. -/
theorem launch_alike (serial : p.serial = q.serial) : (e f : Expr) → Alike e f → (r r' : Session × Journal) →
    Same p q r r' → AgreeFirst r.1.keys e.leaves f.leaves →
    (r.1.launch e r.2).1 = (r'.1.launch f r'.2).1 ∧ Same p q (r.1.launch e r.2).2 (r'.1.launch f r'.2).2
  | .leaf d, .leaf e, alike, r, r', same, agree => by
    have args (unknown : d.key ∉ r.1.keys) : d.args = e.args := by
      have first := agree d.key unknown
      simpa [Expr.firstArgs, Expr.leaves, alike.key_eq] using first
    obtain ⟨number, same⟩ := invocationFor_alike serial same alike args
    obtain ⟨seat, taken⟩ := takeSeat_same same.1 (r.1.invocationFor d r.2).1
    simp only [launch, number] at seat taken ⊢
    exact ⟨by rw [seat], taken, same.2⟩
  | .and es, .and fs, alike, r, r', same, agree => by
    obtain ⟨progress, same⟩ := launchAll_alike serial es fs alike r r' same agree
    simp only [launch, progress]
    exact ⟨trivial, same⟩
  | .or es, .or fs, alike, r, r', same, agree => by
    obtain ⟨progress, same⟩ := launchAll_alike serial es fs alike r r' same agree
    simp only [launch, progress]
    exact ⟨trivial, same⟩
  | .not e, .not f, alike, r, r', same, agree => by
    obtain ⟨progress, same⟩ := launch_alike serial e f alike r r' same agree
    simp only [launch, progress]
    exact ⟨trivial, same⟩

theorem launchAll_alike (serial : p.serial = q.serial) : (es fs : List Expr) → AlikeAll es fs →
    (r r' : Session × Journal) → Same p q r r' → AgreeFirst r.1.keys (Expr.leavesOfAll es) (Expr.leavesOfAll fs) →
    (r.1.launchAll es r.2).1 = (r'.1.launchAll fs r'.2).1 ∧
      Same p q (r.1.launchAll es r.2).2 (r'.1.launchAll fs r'.2).2
  | [], [], _, r, r', same, _ => ⟨rfl, same⟩
  | e :: es, f :: fs, alike, r, r', same, agree => by
    obtain ⟨grown, seen, -⟩ := launch_spec e r.1 r.2
    have leaves := alike.1.leaves
    obtain ⟨first, same⟩ := launch_alike serial e f alike.1 r r' same (agree.left leaves)
    obtain ⟨others, same⟩ := launchAll_alike serial es fs alike.2 _ _ same (agree.right leaves grown.subset seen)
    simp only [launchAll, first, others]
    exact ⟨trivial, same⟩

end

/-! Launching pure matchers gives a session of pure matchers. -/

theorem pure_takeSeat {session : Session} (pure : session.Pure) (index : Nat) : (session.takeSeat index).2.Pure := by
  unfold takeSeat
  cases h : session.invocations[index]? with
  | none => exact pure
  | some i =>
    have pure_i := pure i (List.mem_of_getElem? h)
    intro j mem
    rcases List.mem_or_eq_of_mem_set mem with mem | rfl
    · exact pure j mem
    · cases vacant : i.vacant <;> simpa only [vacant] using pure_i

theorem pure_invocationFor {session : Session} (pure : session.Pure) {d : Definition} (pure_d : d.matcher.Pure)
    (journal : Journal) : (session.invocationFor d journal).2.1.Pure := by
  unfold invocationFor
  simp only
  split
  · exact pure
  · intro i mem
    rcases List.mem_append.1 mem with mem | mem
    · exact pure i mem
    · rw [List.mem_singleton.1 mem]
      exact pure_d

mutual

theorem pure_launch : (e : Expr) → (session : Session) → (journal : Journal) → session.Pure →
    (∀ d ∈ e.leaves, d.matcher.Pure) → (session.launch e journal).2.1.Pure
  | .leaf d, _, journal, pure, pure_leaves =>
    pure_takeSeat (pure_invocationFor pure (pure_leaves d (List.mem_singleton_self d)) journal) _
  | .and es, session, journal, pure, pure_leaves => pure_launchAll es session journal pure pure_leaves
  | .or es, session, journal, pure, pure_leaves => pure_launchAll es session journal pure pure_leaves
  | .not e, session, journal, pure, pure_leaves => pure_launch e session journal pure pure_leaves

theorem pure_launchAll : (es : List Expr) → (session : Session) → (journal : Journal) → session.Pure →
    (∀ d ∈ Expr.leavesOfAll es, d.matcher.Pure) → (session.launchAll es journal).2.1.Pure
  | [], _, _, pure, _ => pure
  | e :: es, session, journal, pure, pure_leaves =>
    pure_launchAll es _ _ (pure_launch e session journal pure fun d mem => pure_leaves d (List.mem_append_left _ mem))
      fun d mem => pure_leaves d (List.mem_append_right _ mem)

end

end Session

namespace Call

open Segmentation.Expr (AgreeFirst)

/-- What a call writes before it builds its expression. -/
def preface (name : String) (journal : Journal) : Journal :=
  journal.recordAll
    [.span (.started 0 ("segment:" ++ name) none),
      .span (.attributed journal.spanCount "segment.name" (.string name)), .span (.contextTaken journal.spanCount)]

theorem preface_after (past : Past) (name : String) (journal : Journal) :
    preface name (journal.after past) = (preface name journal).after past := by
  unfold preface
  rw [← Journal.recordAll_after]
  simp [Event.after, SpanEvent.after]

/-- The scope of the session of a call. -/
def scope (call : Call) (journal : Journal) : Scope :=
  ⟨call.subject, call.target.name, true, 0, some (.taken journal.contextCount)⟩

/-- A call starts to evaluate the expression it built. -/
def launch (call : Call) (expr : Expr) (journal : Journal) : Solitary :=
  let (progress, session, noted) :=
    (Session.start (call.scope journal)).launch expr (preface call.target.name journal)
  let (call, later) :=
    call.driveOn journal.spanCount journal.contextCount (.start ⟨session, progress, 0⟩) ⟨.empty, noted⟩
  ⟨call, later⟩

theorem begins_of_built (call : Call) {segments : Keyed SegmentDefinition} {registry later : Registry} {expr : Expr}
    (built : Engine.buildExpr segments registry call.subject call.target = (.ok expr, later)) (journal : Journal) :
    call.begins segments registry journal =
      ((call.launch expr journal).call, later, (call.launch expr journal).journal) := by
  unfold begins
  rw [built]
  rfl

variable {p q : Past} {c d : Call} {e f : Expr} {journal journal' : Journal}

/-- Calls with alike expressions whose first leaves have the same arguments begin in the same way. -/
theorem launch_alike (serial : p.serial = q.serial) (same : journal.after p = journal'.after q)
    (same_call : c.after p = d.after q) (alike : e.Alike f) (agree : AgreeFirst [] e.leaves f.leaves)
    (pure : ∀ d ∈ e.leaves, d.matcher.Pure) (pure' : ∀ d ∈ f.leaves, d.matcher.Pure) :
    Solitary.Alike p q (c.launch e journal) (d.launch f journal') := by
  have name_eq : c.target.name = d.target.name := by
    simpa using congrArg (·.target) same_call
  have subject_eq : c.subject = d.subject := congrArg (·.subject) same_call
  have span_eq : p.journal.spanCount + journal.spanCount = q.journal.spanCount + journal'.spanCount := by
    rw [← Journal.spanCount_after, same, Journal.spanCount_after]
  have context_eq :
      p.journal.contextCount + journal.contextCount = q.journal.contextCount + journal'.contextCount := by
    rw [← Journal.contextCount_after, same, Journal.contextCount_after]
  have same_start : Session.Same p q (Session.start (c.scope journal), preface c.target.name journal)
      (Session.start (d.scope journal'), preface d.target.name journal') := by
    refine ⟨?_, ?_⟩
    · simp [Session.start, Session.after, Scope.after, ContextRef.after, scope, name_eq, subject_eq, context_eq]
    · rw [← preface_after, same, name_eq, preface_after]
  obtain ⟨progress_eq, same_launch⟩ := Session.launch_alike serial e f alike _ _ same_start agree
  have pure_session := Session.pure_launch e (Session.start (c.scope journal)) (preface c.target.name journal)
    (List.forall_mem_nil _) pure
  have pure_session' := Session.pure_launch f (Session.start (d.scope journal')) (preface d.target.name journal')
    (List.forall_mem_nil _) pure'
  unfold launch
  generalize (Session.start (c.scope journal)).launch e _ = r at progress_eq same_launch pure_session ⊢
  generalize (Session.start (d.scope journal')).launch f _ = r' at progress_eq same_launch pure_session' ⊢
  obtain ⟨progress, session, noted⟩ := r
  obtain ⟨progress', session', noted'⟩ := r'
  obtain rfl : progress = progress' := progress_eq
  have pure_drive : (Drive.start ⟨session, progress, 0⟩ : Drive Evaluation).Pure .empty :=
    ⟨pure_session, Hub.pure_empty⟩
  have pure_drive' : (Drive.start ⟨session', progress, 0⟩ : Drive Evaluation).Pure .empty :=
    ⟨pure_session', Hub.pure_empty⟩
  have driven := driveOn_after p c journal.spanCount journal.contextCount (.start ⟨session, progress, 0⟩)
    ⟨.empty, noted⟩ pure_drive
  have driven' := driveOn_after q d journal'.spanCount journal'.contextCount (.start ⟨session', progress, 0⟩)
    ⟨.empty, noted'⟩ pure_drive'
  have same_drive : (Drive.start ⟨session, progress, 0⟩ : Drive Evaluation).after p =
      (Drive.start ⟨session', progress, 0⟩ : Drive Evaluation).after q := by
    simp only [Drive.start, Drive.after, Evaluation.after, same_launch.1]
    rfl
  have same_scene : (⟨.empty, noted⟩ : Scene).after p = (⟨.empty, noted'⟩ : Scene).after q := by
    simp only [Scene.after, same_launch.2]
    rfl
  -- Both calls drive on from the same state, each after its own past.
  rw [same_call, span_eq, context_eq, same_drive, same_scene, driven'] at driven
  refine ⟨?_, (driveOn_spec ..).1, pure_driveOn _ _ _ _ _ pure_drive, (driveOn_spec ..).1,
    pure_driveOn _ _ _ _ _ pure_drive'⟩
  simpa [Solitary.after] using driven.symm

end Call

end Segmentation
