import Segmentation.Drive
import Segmentation.Machine

/-!
# Drives and flushes on the clock

A drive, or a flush, together with its scene is a `Machine`.  So is a client that is polled without anybody who
takes the batches from the queues, `Unaided`.
-/

namespace Segmentation

variable {κ : Type} [Client κ]

instance : Machine (Drive κ × Scene) where
  poll s := s.1.pass s.2
  finished s := s.1.finished
  awake s := s.1.awake s.2.hub
  nextAlarm s := s.2.hub.nextAlarm
  advance now s :=
    let (drive, hub) := s.1.advance s.2.hub now
    (drive, ⟨hub, s.2.journal.moveTo now⟩)

instance : Machine (Flush × Scene) where
  poll s := s.1.pass s.2
  finished s := s.1.finished
  awake s := s.1.awake s.2.journal.now
  nextAlarm s := s.2.hub.nextAlarm
  advance now s := (s.1, ⟨s.2.hub.advance now, s.2.journal.moveTo now⟩)

/-- A client whose requests stay in the queues. -/
structure Unaided (κ : Type) where
  client : κ
  scene : Scene

instance : Machine (Unaided κ) where
  poll s :=
    let (client, scene) := Client.poll s.client s.scene
    ⟨client, scene⟩
  finished s := Client.settled s.client
  awake s := Client.stirred s.client s.scene.hub
  nextAlarm s := s.scene.hub.nextAlarm
  advance now s := ⟨s.client, ⟨s.scene.hub.advance now, s.scene.journal.moveTo now⟩⟩

end Segmentation
