import Segmentation.Proofs.Canonical.Call
import Segmentation.Proofs.Canonical.Recipe

/-!
# Parallel calls

Calls are parallel if they are the same in canonical form, and discreet.  Polled with registries of the same matchers,
whatever these remember, they stay parallel (`Call.Parallel.poll`).  So parties of parallel calls run in lockstep
(`Party.Parallel.lockstep`), whether all of their calls end or they are dropped.
-/

namespace Segmentation

/-! ### Calls at once -/

/-- The registry is sound and has the given matchers, which are discreet. -/
structure Registry.Offers (matchers : String → Option Matcher) (registry : Registry) : Prop where
  holds : Service.Holds matchers registry
  discreet : ∀ name matcher, matchers name = some matcher → matcher.Discreet

theorem Registry.Offers.poll {matchers : String → Option Matcher} {registry : Registry} (offers : registry.Offers matchers)
    (call : Call) (segments : Keyed SegmentDefinition) (journal : Journal) :
    (call.poll segments registry journal).2.1.Offers matchers :=
  ⟨offers.holds.poll call segments journal, offers.discreet⟩

/-- The expressions that are built have discreet matchers. -/
theorem Registry.Offers.discreet_built {matchers : String → Option Matcher} {registry : Registry}
    (offers : registry.Offers matchers) (segments : Keyed SegmentDefinition) (subject : Json) (target : Target) :
    ∀ expr, (Engine.buildExpr segments registry subject target).1 = .ok expr →
      ∀ d ∈ expr.leaves, d.matcher.Discreet := by
  intro expr built d mem
  obtain ⟨name, known⟩ := Engine.registered_buildExpr segments subject target offers.holds.1 built d mem
  exact offers.discreet name d.matcher (offers.holds.2 ▸ known)

namespace Call

/-- The same call in canonical form, of discreet matchers and with a discreet fallback. -/
structure Parallel (call call' : Call) : Prop where
  same : call.canonical = call'.canonical
  discreet : call.Discreet
  discreet' : call'.Discreet

namespace Parallel

variable {call call' : Call} (parallel : call.Parallel call')

include parallel

/-- What does not depend on arguments is the same of both. -/
theorem eq_of_canonical {α : Type} (f : Call → α) (plain : ∀ call, f call.canonical = f call) : f call = f call' := by
  rw [← plain call, parallel.same, plain]

/-- Whatever the registries remember, a poll does the same in canonical form. -/
theorem poll {matchers : String → Option Matcher} {registry registry' : Registry} (offers : registry.Offers matchers)
    (offers' : registry'.Offers matchers) (segments : Keyed SegmentDefinition) {journal journal' : Journal}
    (journals : journal.canonical = journal'.canonical) :
    let r := call.poll segments registry journal
    let r' := call'.poll segments registry' journal'
    r.1.Parallel r'.1 ∧ r.2.2.canonical = r'.2.2.canonical := by
  have subjects : call.subject = call'.subject := parallel.eq_of_canonical Call.subject subject_canonical
  have targets : call.target = call'.target := parallel.eq_of_canonical Call.target target_canonical
  have matchers_eq : registry.matcher? = registry'.matcher? := offers.holds.2.trans offers'.holds.2.symm
  have built := Engine.buildExpr_canonical offers.holds.1 offers'.holds.1 matchers_eq segments call.subject call.target
  have known := offers.discreet_built segments call.subject call.target
  have known' := offers'.discreet_built segments call.subject call.target
  obtain ⟨call_eq, journal_eq⟩ := call.poll_eq_go segments registry journal
  obtain ⟨call_eq', journal_eq'⟩ := call'.poll_eq_go segments registry' journal'
  rw [← subjects, ← targets] at call_eq' journal_eq'
  generalize (Engine.buildExpr segments registry call.subject call.target).1 = expr at *
  generalize (Engine.buildExpr segments registry' call.subject call.target).1 = expr' at *
  have goes := call.go_canonical parallel.discreet expr known journal
  rw [parallel.same, built, journals, call'.go_canonical parallel.discreet' expr' known' journal'] at goes
  obtain ⟨calls, written⟩ := Prod.mk.inj goes
  dsimp only
  rw [call_eq, call_eq', journal_eq, journal_eq']
  exact ⟨⟨calls.symm, parallel.discreet.go expr known journal, parallel.discreet'.go expr' known' journal'⟩,
    written.symm⟩

theorem advance (now : Nat) : (call.advance now).Parallel (call'.advance now) := by
  refine ⟨?_, parallel.discreet.advance now, parallel.discreet'.advance now⟩
  rw [← advance_canonical, parallel.same, advance_canonical]

theorem drop {journal journal' : Journal} (journals : journal.canonical = journal'.canonical) :
    (call.drop journal).canonical = (call'.drop journal').canonical := by
  rw [← drop_canonical, parallel.same, journals, drop_canonical]

end Parallel

end Call

/-- What does not depend on arguments is the same of parallel calls, one by one. -/
theorem Call.map_eq_of_parallel {α : Type} (f : Call → α) {calls calls' : List Call}
    (parallel : List.Forall₂ Call.Parallel calls calls') (plain : ∀ call, f call.canonical = f call) :
    calls.map f = calls'.map f := by
  induction parallel with
  | nil => rfl
  | cons first _ ih => rw [List.map_cons, first.eq_of_canonical f plain, ih, List.map_cons]

namespace Party

/-- Parties of parallel calls.  Their registries have the same matchers, whatever they remember. -/
structure Parallel (matchers : String → Option Matcher) (party party' : Party) : Prop where
  segments : party.segments = party'.segments
  offers : party.registry.Offers matchers
  offers' : party'.registry.Offers matchers
  calls : List.Forall₂ Call.Parallel party.calls party'.calls
  woken : party.woken = party'.woken
  journal : party.journal.canonical = party'.journal.canonical

namespace Parallel

variable {matchers : String → Option Matcher} {party party' : Party} (parallel : party.Parallel matchers party')

include parallel

theorem now : party.journal.now = party'.journal.now := by
  rw [← party.journal.now_canonical, parallel.journal, Journal.now_canonical]

theorem pollCall (index : Nat) : (party.pollCall index).Parallel matchers (party'.pollCall index) := by
  unfold Party.pollCall
  cases here : party.calls[index]? with
  | none =>
    have none : party'.calls[index]? = none := by
      rw [List.getElem?_eq_none_iff] at here ⊢
      rwa [← parallel.calls.length_eq]
    rw [none]
    exact parallel
  | some call =>
    obtain ⟨call', here', calls⟩ := forall₂_getElem? parallel.calls here
    simp only [here', parallel.now, calls.eq_of_canonical (·.awake party'.journal.now) (·.awake_canonical _)]
    cases call'.awake party'.journal.now with
    | false => exact parallel
    | true =>
      obtain ⟨polled, journals⟩ := calls.poll parallel.offers parallel.offers' party.segments parallel.journal
      simp only [Bool.not_true, Bool.false_eq_true, if_false]
      refine ⟨parallel.segments, parallel.offers.poll call _ _, parallel.offers'.poll call' _ _, ?_, parallel.woken, ?_⟩
      · rw [← parallel.segments]
        exact forall₂_set parallel.calls polled index
      · rw [← parallel.segments]
        exact journals

theorem poll : party.poll.Parallel matchers party'.poll := by
  have polled (turns : List Nat) {party party' : Party} (parallel : party.Parallel matchers party') :
      (turns.foldl Party.pollCall party).Parallel matchers (turns.foldl Party.pollCall party') := by
    induction turns generalizing party party' with
    | nil => exact parallel
    | cons index turns ih => exact ih (parallel.pollCall index)
  have later := polled (Gathering.turns party'.calls.length party'.woken) parallel
  unfold Party.poll
  simp only [parallel.calls.length_eq, parallel.woken]
  refine ⟨later.segments, later.offers, later.offers', later.calls, ?_, later.journal⟩
  refine List.filter_congr fun index _ => ?_
  have here := congrArg (·[index]?) (Call.map_eq_of_parallel
    (·.awake ((Gathering.turns party'.calls.length party'.woken).foldl Party.pollCall party').journal.now) later.calls
    (·.awake_canonical _))
  simp only [List.getElem?_map] at here
  rw [later.now, here]

theorem advance (now : Nat) : (Machine.advance now party).Parallel matchers (Machine.advance now party') := by
  have advanced {calls calls' : List Call} (all : List.Forall₂ Call.Parallel calls calls') :
      List.Forall₂ Call.Parallel (calls.map (·.advance now)) (calls'.map (·.advance now)) := by
    induction all with
    | nil => exact .nil
    | cons first _ ih => exact .cons (first.advance now) ih
  have roused (party : Party) : party.roused now = Gathering.ranked
      ((party.calls.map (·.firstRousing now)).zipIdx.filterMap fun (number, index) => number.map (·, index)) := by
    rw [List.zipIdx_map, List.filterMap_map]
    rfl
  have rousing := Call.map_eq_of_parallel (·.firstRousing now) parallel.calls (·.firstRousing_canonical now)
  refine ⟨parallel.segments, parallel.offers, parallel.offers', advanced parallel.calls, ?_, ?_⟩
  · simp only [Machine.advance, roused, rousing, parallel.woken]
  · simp only [Machine.advance, Journal.moveTo_canonical, parallel.journal]

omit parallel in
theorem lockstep : Machine.Lockstep id id (Parallel matchers) where
  finished {party party'} parallel := by
    have answers := Call.map_eq_of_parallel Call.answer? parallel.calls Call.answer?_canonical
    have finished (party : Party) : Machine.finished party = (party.calls.map (·.answer?)).all (·.isSome) := by
      rw [List.all_map]
      rfl
    rw [finished, finished, answers]
  awake {party party'} parallel := by
    have awake (party : Party) : Machine.awake party = (party.calls.map (·.awake party.journal.now)).any id := by
      rw [List.any_map]
      rfl
    have awake_eq := Call.map_eq_of_parallel (·.awake party'.journal.now) parallel.calls (·.awake_canonical _)
    rw [awake, awake, parallel.now, awake_eq]
  nextAlarm {party party'} parallel := by
    have alarms := Call.map_eq_of_parallel Call.alarms parallel.calls Call.alarms_canonical
    simp only [Machine.nextAlarm, List.flatMap_def, alarms]
  poll parallel _ := parallel.poll
  advance {_ _ u v} parallel same := by
    obtain rfl : u = v := same
    exact parallel.advance u

theorem answers_eq : party.answers = party'.answers := Call.map_eq_of_parallel Call.answer? parallel.calls Call.answer?_canonical

theorem leftovers_eq : party.leftovers = party'.leftovers := by
  simp only [Party.leftovers, List.flatMap_def, Call.map_eq_of_parallel Call.leftovers parallel.calls Call.leftovers_canonical]

theorem drop : party.drop.canonical = party'.drop.canonical := by
  have dropped {calls calls' : List Call} (all : List.Forall₂ Call.Parallel calls calls') {journal journal' : Journal}
      (journals : journal.canonical = journal'.canonical) :
      (calls.foldl (fun journal call => call.drop journal) journal).canonical =
        (calls'.foldl (fun journal call => call.drop journal) journal').canonical := by
    induction all generalizing journal journal' with
    | nil => exact journals
    | cons first _ ih => exact ih (first.drop journals)
  exact dropped parallel.calls parallel.journal

end Parallel

end Party

end Segmentation
