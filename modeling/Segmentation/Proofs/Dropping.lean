import Segmentation.Engine.Call
import Segmentation.Proofs.Chronicle

/-!
# What dropped calls write

Calls that are dropped write that their spans end, that their contexts are released, and which of their evaluators were
asleep, and nothing else (`Party.drop_adds`).
-/

namespace Segmentation

open Journal (Adds)

/-- What is written when something is dropped. -/
def Event.IsParting : Event → Prop
  | .evaluatorDropped _ => True
  | .span (.ended _) => True
  | .span (.contextReleased _) => True
  | _ => False

theorem Flight.drop_adds (flight : Flight) (scene : Scene) :
    scene.journal.Adds Event.IsParting (flight.drop scene).journal := by
  unfold drop
  dsimp only
  split
  · exact .record _ trivial
  · exact .refl _

theorem Flight.dropAll_adds (flights : List Flight) (scene : Scene) : scene.journal.Adds Event.IsParting
    (flights.foldl (fun scene flight => flight.drop scene) scene).journal := by
  refine List.foldlRecOn flights _ (motive := fun later : Scene => scene.journal.Adds Event.IsParting later.journal)
    (.refl _) fun later adds flight _ => ?_
  exact adds.trans (flight.drop_adds later)

theorem Invocation.drop_adds (scope : Scope) (invocation : Invocation) (journal : Journal) :
    journal.Adds Event.IsParting (invocation.drop scope journal) := by
  have ends (span : Nat) (journal : Journal) :
      journal.Adds Event.IsParting (journal.recordAll (scope.spanEvents [.ended span])) := by
    refine .recordAll journal ?_
    unfold Scope.spanEvents
    split
    · exact List.forall_mem_singleton.2 trivial
    · exact List.forall_mem_nil _
  have drops : (Event.evaluatorDropped invocation.definition.name).IsParting := trivial
  unfold drop
  split
  · exact .refl _
  · exact ends _ journal
  · exact (Adds.record journal drops).trans (ends _ _)
  · exact ends _ journal
  · exact .refl _

theorem Session.drop_adds (session : Session) (journal : Journal) :
    journal.Adds Event.IsParting (session.drop journal) := by
  refine List.foldlRecOn session.invocations _ (motive := fun later => journal.Adds Event.IsParting later)
    (.refl _) fun later adds invocation _ => ?_
  exact adds.trans (invocation.drop_adds session.scope later)

theorem Call.drop_adds (call : Call) (journal : Journal) : journal.Adds Event.IsParting (call.drop journal) := by
  have leaves (context span : Nat) (journal : Journal) : journal.Adds Event.IsParting
      (journal.recordAll [.span (.contextReleased context), .span (.ended span)]) :=
    .recordAll journal (List.forall_mem_cons.2 ⟨trivial, List.forall_mem_singleton.2 trivial⟩)
  unfold drop
  split
  · exact .refl _
  · rename_i span context hub drive _
    have batches := Flight.dropAll_adds drive.flights ⟨hub, journal⟩
    exact (batches.trans (drive.client.session.drop_adds _)).trans (leaves context span _)
  · rename_i span context hub _ _ flush _
    exact (Flight.dropAll_adds flush.flights ⟨hub, journal⟩).trans (leaves context span _)
  · exact .record journal trivial
  · exact .refl _

theorem Party.drop_adds (party : Party) : party.journal.Adds Event.IsParting party.drop := by
  refine List.foldlRecOn party.calls _ (motive := fun later => party.journal.Adds Event.IsParting later)
    (.refl _) fun later adds call _ => ?_
  exact adds.trans (call.drop_adds later)

end Segmentation
