import Segmentation.Proofs.Chronicle
import Segmentation.Proofs.Queues

/-!
# The turns of batches

Batches do nothing with the queues, unless they load requests of their own (`Hub.Continues`).  In the turns of one pass
every batch that has not started is handed to its evaluator once, and what is in flight later is what has not landed
(`Drive.turns_spec`).
-/

namespace Segmentation

/-! ### What batches do with the queues -/

/-- Nothing happened to the queues, but for the requests that batches loaded. -/
structure Hub.Continues (before later : Hub) : Prop where
  extends_ : before.Extends later
  reloads : before.reloads <+: later.reloads
  quiet : later.reloads = before.reloads → later.ledger = before.ledger

namespace Hub.Continues

theorem of_ledger {before later : Hub} (same : later.ledger = before.ledger) : before.Continues later where
  extends_ := .of_ledger same
  reloads := reloads_of_ledger same ▸ List.prefix_rfl
  quiet _ := same

theorem refl (hub : Hub) : hub.Continues hub := .of_ledger rfl

theorem trans {a b c : Hub} (first : a.Continues b) (second : b.Continues c) : a.Continues c where
  extends_ := first.extends_.trans second.extends_
  reloads := first.reloads.trans second.reloads
  quiet same := by
    have between : b.reloads = a.reloads :=
      (first.reloads.eq_of_length_le (same ▸ second.reloads.length_le)).symm
    rw [second.quiet (same.trans between.symm), first.quiet between]

end Hub.Continues

open Hub (Continues Extends)

theorem BatchTask.run_continues (matcher : String) (tickets : List Nat) (task : BatchTask) (scene : Scene) :
    scene.hub.Continues (task.run matcher tickets scene).2.hub := by
  induction task generalizing scene with
  | done ending => exact .refl _
  | sleep ticks rest ih =>
    cases ticks with
    | zero => exact ih scene
    | succ ticks => exact .refl _
  | resolve entry value rest ih =>
    refine Continues.trans ?_ (ih _)
    split
    · exact .of_ledger (Hub.ledger_resolve _ _ _)
    · exact .refl _
  | resolveLater ticks entry value rest ih =>
    refine Continues.trans ?_ (ih _)
    split
    · exact .of_ledger (Scene.ledger_answerAt _ _ _ _)
    · exact .refl _
  | keep entry rest ih =>
    refine Continues.trans ?_ (ih _)
    split
    · exact .of_ledger (Hub.ledger_keep _ _)
    · exact .refl _
  | loadInto peer request rest ih =>
    -- a request that a batch loads stands among the `reloads`
    refine Continues.trans ?_ (ih _)
    have loaded := scene.hub.loadKeyed_extends (peer.getD matcher) request.stableKey request
    refine ⟨⟨loaded.names, loaded.nodup, loaded.taken, loaded.accepted, loaded.nextFlight⟩, List.prefix_append _ _, ?_⟩
    intro same
    have longer := congrArg List.length same
    simp [Hub.modifyCoalescer] at longer

namespace Flight

variable (flight : Flight) (scene : Scene)

theorem advance_continues : scene.hub.Continues (flight.advance (flight.announce scene)).2.hub := by
  have noted (r : FlightProgress × Scene) : (flight.noteEnd r).2.hub = r.2.hub := by
    obtain ⟨progress, scene⟩ := r
    cases progress <;> rfl
  rw [advance_eq, noted, ← flight.hub_called scene]
  cases flight.next scene with
  | panics payload => exact .refl _
  | starts task => exact BatchTask.run_continues _ _ _ _

theorem landContained_continues (ending : Ending Unit) :
    scene.hub.Continues (flight.landContained ending scene).hub := by
  unfold landContained
  cases ending.contained with
  | ok value => exact .of_ledger (Hub.ledger_releaseAll _ _)
  | error cause => exact .of_ledger ((Hub.ledger_releaseAll _ _).trans (Hub.ledger_resolveAll _ _ _))

theorem pollContained_continues : scene.hub.Continues (flight.pollContained scene).2.hub := by
  unfold pollContained
  split
  · exact .refl _
  · have advanced := flight.advance_continues scene
    generalize flight.advance (flight.announce scene) = r at advanced ⊢
    obtain ⟨progress, scene⟩ := r
    cases progress with
    | asleep deadline rest => exact advanced.trans (.of_ledger rfl)
    | ended ending => exact advanced.trans (flight.landContained_continues scene ending)

/-- A batch that is still in flight after it was polled sleeps. -/
theorem pollContained_asleep {later : Flight} (h : (flight.pollContained scene).1 = some later) :
    later.id = flight.id ∧ later.matcher = flight.matcher ∧ later.tickets = flight.tickets ∧ later.isAsleep = true := by
  unfold pollContained at h
  split at h
  · rename_i early
    obtain rfl := Option.some.inj h
    refine ⟨rfl, rfl, rfl, ?_⟩
    unfold isDue at early
    unfold isAsleep
    split at early
    · simp at early
    · rfl
  · generalize flight.advance (flight.announce scene) = r at h
    obtain ⟨progress, scene⟩ := r
    cases progress with
    | asleep deadline rest =>
      obtain rfl := Option.some.inj h
      exact ⟨rfl, rfl, rfl, rfl⟩
    | ended ending => cases h

/-- What is handed to the evaluator when a batch starts. -/
def entry (flight : Flight) (hub : Hub) : Nat × String × List Request :=
  (flight.id, flight.matcher, (hub.coalescer flight.matcher).requests flight.tickets)

/-- Polling a batch starts it, unless it has started. -/
theorem batches_happen (known : flight.isAsleep = false → flight.matcher ∈ scene.hub.names) :
    (flight.happens scene).filterMap Happening.batch? =
      if flight.isAsleep then [] else [flight.entry scene.hub] := by
  obtain ⟨id, matcher, tickets, stage⟩ := flight
  cases stage with
  | asleep deadline rest =>
    cases due : Flight.isDue ⟨id, matcher, tickets, .asleep deadline rest⟩ scene.journal.now with
    | false => simp [happens, due, isAsleep]
    | true =>
      rw [batch?_happens _ scene due]
      rfl
  | boarding =>
    obtain ⟨queue, found⟩ := Option.isSome_iff_exists.1 ((scene.hub.isSome_queue?_iff _).2 (known rfl))
    have coalescer : scene.hub.coalescer matcher = queue.coalescer := by
      rw [Hub.coalescer, found]
      rfl
    rw [batch?_happens _ scene rfl]
    simp [boards, isAsleep, entry, found, coalescer, Happening.batch?]

end Flight

namespace Drive

/-! ### Turns -/

/-- The batches that have not started. -/
def boarding (flights : List Flight) : List Flight := flights.filter (!·.isAsleep)

def ids (flights : List Flight) : List Nat := flights.map (·.id)

theorem pollFlight_continues (flights : List Flight) (scene : Scene) (id : Nat) :
    scene.hub.Continues (pollFlight flights scene id).2.hub := by
  rcases pollFlight_scene_cases flights scene id with same | ⟨flight, -, polled⟩
  · rw [same]
    exact .refl _
  · rw [polled]
    exact flight.pollContained_continues scene

/-- There is no other batch with the number of one in flight. -/
theorem filter_id {flights : List Flight} (nodup : (ids flights).Nodup) {id : Nat} {flight : Flight}
    (found : flights.find? (·.id = id) = some flight) : flights.filter (·.id = id) = [flight] := by
  induction flights with
  | nil => cases found
  | cons f flights ih =>
    obtain ⟨fresh, nodup⟩ := List.nodup_cons.1 nodup
    by_cases here : f.id = id
    · have same : f = flight := by simpa [here] using found
      have others : ∀ g ∈ flights, ¬ (decide (g.id = id)) = true := by
        intro g mem same_id
        have twice : f.id = g.id := here.trans (of_decide_eq_true same_id).symm
        exact fresh (List.mem_map.2 ⟨g, mem, twice.symm⟩)
      rw [List.filter_cons_of_pos (by simpa using here), List.filter_eq_nil_iff.2 others, same]
    · rw [List.find?_cons_of_neg (by simpa using here)] at found
      rw [List.filter_cons_of_neg (by simpa using here)]
      exact ih nodup found

/-- The batch with some number apart from all others. -/
theorem perm_others {flights : List Flight} (nodup : (ids flights).Nodup) {id : Nat} {flight : Flight}
    (found : flights.find? (·.id = id) = some flight) : flights.Perm (flight :: flights.filter (·.id ≠ id)) := by
  have parted := List.filter_append_perm (fun f : Flight => decide (f.id = id)) flights
  rw [filter_id nodup found] at parted
  simpa using parted.symm

/-- After the turn of a batch the others are as they were. -/
theorem perm_pollFlight {flights : List Flight} (nodup : (ids flights).Nodup) (scene : Scene) {id : Nat}
    {flight : Flight} (found : flights.find? (·.id = id) = some flight) :
    (pollFlight flights scene id).1.Perm
      ((flight.pollContained scene).1.toList ++ flights.filter (·.id ≠ id)) := by
  rcases pollFlight_cases flights scene id with
    ⟨absent, -⟩ | ⟨other, later, there, polled, eq⟩ | ⟨other, next, later, there, polled, eq⟩
  · rw [found] at absent
    cases absent
  · obtain rfl : flight = other := Option.some.inj (found.symm.trans there)
    rw [eq, polled]
    exact .refl _
  · obtain rfl : flight = other := Option.some.inj (found.symm.trans there)
    have own : flight.id = id := by simpa using List.find?_some found
    have others : (flights.filter (·.id ≠ id)).map (fun f => if f.id = id then next else f) =
        flights.filter (·.id ≠ id) := by
      refine (List.map_congr_left fun f mem => ?_).trans (List.map_id _)
      exact if_neg (by simpa using (List.mem_filter.1 mem).2)
    have all := (perm_others nodup found).map fun f => if f.id = id then next else f
    rw [List.map_cons, others, if_pos own] at all
    rw [eq, polled]
    exact all

/-- A turn of a batch takes it out of those that have not started; no other batch gets among them. -/
theorem boarding_pollFlight (flights : List Flight) (scene : Scene) (id : Nat) :
    boarding (pollFlight flights scene id).1 = (boarding flights).filter (·.id ≠ id) := by
  rcases pollFlight_cases flights scene id with
    ⟨found, eq⟩ | ⟨flight, later, found, polled, eq⟩ | ⟨flight, next, later, found, polled, eq⟩
  · rw [eq]
    refine (List.filter_eq_self.2 fun flight mem => ?_).symm
    have differs := List.find?_eq_none.1 found flight (List.mem_of_mem_filter mem)
    simpa using differs
  · rw [eq]
    unfold boarding
    rw [List.filter_filter, List.filter_filter]
    exact List.filter_congr fun flight _ => Bool.and_comm _ _
  · obtain ⟨-, -, -, asleep⟩ := flight.pollContained_asleep scene (congrArg Prod.fst polled)
    rw [eq]
    clear found eq
    unfold boarding
    induction flights with
    | nil => rfl
    | cons f flights ih =>
      by_cases here : f.id = id
      · cases f.isAsleep <;> simp_all
      · cases h : f.isAsleep <;> simp_all

theorem landings_happen (flight : Flight) (scene : Scene) :
    (flight.happens scene).filterMap Happening.landing? =
      if (flight.pollContained scene).1.isSome then [] else [flight.id] := by
  have boards : (flight.boards scene).filterMap Happening.landing? = [] := by
    unfold Flight.boards
    split <;> rfl
  have gives : (flight.gives scene).filterMap Happening.landing? = [] :=
    Flight.filterMap_gives (fun _ _ => rfl) flight scene
  unfold Flight.happens Flight.pollContained
  cases flight.isDue scene.journal.now with
  | false => rfl
  | true =>
    simp only [Bool.not_true, Bool.false_eq_true, if_false, List.filterMap_append, boards, gives, List.nil_append]
    generalize flight.advance (flight.announce scene) = r
    obtain ⟨progress, scene⟩ := r
    cases progress <;> rfl

/-- The batches in flight are those that were, but for one that has landed. -/
theorem ids_pollFlight {flights : List Flight} (nodup : (ids flights).Nodup) (scene : Scene) (id : Nat) :
    ((turn flights scene id).filterMap Happening.landing? ++ ids (pollFlight flights scene id).1).Perm
      (ids flights) := by
  unfold turn
  cases found : flights.find? (·.id = id) with
  | none =>
    rw [pollFlight_of_none found]
    exact .refl _
  | some flight =>
    have before := (perm_others nodup found).map (·.id)
    have after := (perm_pollFlight nodup scene found).map (·.id)
    -- The batch has landed or has kept its number.
    have own : ((flight.happens scene).filterMap Happening.landing?) ++
        (flight.pollContained scene).1.toList.map (·.id) = [flight.id] := by
      rw [landings_happen]
      cases polled : (flight.pollContained scene).1 with
      | none => rfl
      | some next => simp [(flight.pollContained_asleep scene polled).1]
    rw [List.map_append] at after
    refine (after.append_left _).trans ?_
    rw [← List.append_assoc]
    dsimp only
    rw [own]
    exact before.symm

/-- The batches have their matchers' queues, and nothing but tickets that were given out. -/
def Filled (flights : List Flight) (hub : Hub) : Prop :=
  ∀ flight ∈ flights, flight.matcher ∈ hub.names ∧
    ∀ ticket ∈ flight.tickets, ticket < (hub.account flight.matcher).accepted.length

theorem Filled.mono {flights : List Flight} {before later : Hub} (filled : Filled flights before)
    (ext : before.Extends later) : Filled flights later := by
  intro flight mem
  obtain ⟨known, given⟩ := filled flight mem
  refine ⟨ext.names.subset known, fun ticket ht => ?_⟩
  exact Nat.lt_of_lt_of_le (given ticket ht) (ext.accepted flight.matcher).length_le

/-- What is handed to the evaluators does not depend on what else was loaded meanwhile. -/
theorem Filled.map_entry {flights : List Flight} {before later : Hub} (filled : Filled flights before)
    (ext : before.Extends later) : flights.map (·.entry later) = flights.map (·.entry before) := by
  refine List.map_congr_left fun flight mem => ?_
  unfold Flight.entry
  rw [ext.requests_eq (filled flight mem).2]

theorem batches_turn {flights : List Flight} (nodup : (ids flights).Nodup) (scene : Scene)
    (filled : Filled (boarding flights) scene.hub) (id : Nat) :
    (turn flights scene id).filterMap Happening.batch? =
      ((boarding flights).filter (·.id = id)).map (·.entry scene.hub) := by
  have swapped : (boarding flights).filter (·.id = id) = (flights.filter (·.id = id)).filter (!·.isAsleep) := by
    unfold boarding
    rw [List.filter_filter, List.filter_filter]
    exact List.filter_congr fun flight _ => Bool.and_comm _ _
  unfold turn
  rw [swapped]
  cases found : flights.find? (·.id = id) with
  | none =>
    have nobody : flights.filter (·.id = id) = [] := by
      rw [List.filter_eq_nil_iff]
      exact List.find?_eq_none.1 found
    rw [nobody]
    rfl
  | some flight =>
    rw [filter_id nodup found, flight.batches_happen scene]
    · cases asleep : flight.isAsleep <;> simp [asleep]
    · intro awake
      refine (filled flight ?_).1
      exact List.mem_filter.2 ⟨List.mem_of_find?_eq_some found, by simp [awake]⟩

/-- The turns of some batches, one after the other: those that have not started are handed to their evaluators, each
once, and what is in flight later is what has not landed. -/
theorem turns_spec (ready : List Nat) (flights : List Flight) (polled : Nat) (scene : Scene)
    (nodup : (ids flights).Nodup) (filled : Filled (boarding flights) scene.hub) :
    let happened := turns flights ready scene
    let later := pollReady flights polled ready scene
    (happened.filterMap Happening.batch?).Perm
        (((boarding flights).filter (·.id ∈ ready)).map (·.entry scene.hub)) ∧
      boarding later.1 = (boarding flights).filter (·.id ∉ ready) ∧
      (happened.filterMap Happening.landing? ++ ids later.1).Perm (ids flights) ∧
      scene.hub.Continues later.2.2.hub := by
  induction ready generalizing flights polled scene with
  | nil =>
    refine ⟨?_, ?_, ?_, .refl _⟩
    · simp [turns]
    · simp [pollReady]
    · exact .refl _
  | cons id ready ih =>
    have continues := pollFlight_continues flights scene id
    have boarding_eq := boarding_pollFlight flights scene id
    have in_flight := ids_pollFlight nodup scene id
    have batches := batches_turn nodup scene filled id
    have rest_filled : Filled ((boarding flights).filter (·.id ≠ id)) scene.hub :=
      fun flight mem => filled flight (List.mem_of_mem_filter mem)
    obtain ⟨later_batches, later_boarding, later_flights, later_continues⟩ := ih
      (pollFlight flights scene id).1
      (if (pollFlight flights scene id).1.length < flights.length then 0 else polled + 1)
      (pollFlight flights scene id).2
      (List.Nodup.sublist (List.sublist_append_right _ _) (in_flight.nodup_iff.2 nodup))
      (boarding_eq ▸ rest_filled.mono continues.extends_)
    rw [boarding_eq] at later_batches later_boarding
    -- the batches whose turns are to come fall into the one whose turn it is and the rest
    have others : ((boarding flights).filter (·.id ∈ id :: ready)).filter (¬ ·.id = id) =
        ((boarding flights).filter (·.id ≠ id)).filter (·.id ∈ ready) := by
      rw [List.filter_filter, List.filter_filter]
      refine List.filter_congr fun flight _ => ?_
      by_cases here : flight.id = id <;> simp [here]
    have first : ((boarding flights).filter (·.id ∈ id :: ready)).filter (·.id = id) =
        (boarding flights).filter (·.id = id) := by
      rw [List.filter_filter]
      refine List.filter_congr fun flight _ => ?_
      by_cases here : flight.id = id <;> simp [here]
    have rest_ready : Filled (((boarding flights).filter (·.id ≠ id)).filter (·.id ∈ ready)) scene.hub :=
      fun flight mem => rest_filled flight (List.mem_of_mem_filter mem)
    refine ⟨?_, ?_, ?_, continues.trans later_continues⟩
    · -- those with this number come first, and the order of the others is that of their turns
      have parted := List.filter_append_perm (fun f : Flight => decide (f.id = id))
        ((boarding flights).filter (·.id ∈ id :: ready))
      simp only [← decide_not] at parted
      rw [first, others] at parted
      rw [rest_ready.map_entry continues.extends_] at later_batches
      rw [turns, List.filterMap_append, batches]
      refine (List.Perm.append_left _ later_batches).trans ?_
      rw [← List.map_append]
      exact parted.map _
    · refine later_boarding.trans ?_
      rw [List.filter_filter]
      refine List.filter_congr fun flight _ => ?_
      by_cases here : flight.id = id <;> simp [here]
    · rw [turns, List.filterMap_append, List.append_assoc]
      exact (List.Perm.append_left _ later_flights).trans in_flight

end Drive

end Segmentation
