import Segmentation.Error

/-!
# The causes below an error

The chain of an error is its message and one line for each error below it, from the top down
(`Error.chain_names_causes`).  The loop that writes the lines goes from source to source and adds one line in each
round, so it adds what the errors on its way say (`Error.withSources_some`).  Its way begins at the handle to the cause.
That looks like the fault it holds (`Cause.toFault_eq`), so handles do not show, neither this one nor those further
down.
-/

namespace Segmentation

/-! ### Faults and their sources -/

namespace Fault

@[simp] theorem text_ofSource (text : String) (below : Option Fault) : (ofSource text below).text = text := by
  cases below <;> rfl

@[simp] theorem source?_ofSource (text : String) (below : Option Fault) : (ofSource text below).source? = below := by
  cases below <;> rfl

/-- A fault is known by its text and its source. -/
theorem ofSource_source? (fault : Fault) : ofSource fault.text fault.source? = fault := by
  obtain ⟨_, _ | _⟩ := fault <;> rfl

/-- Sources come to an end, so what holds at the bottom and is handed up holds of all faults. -/
@[elab_as_elim]
theorem descent {motive : Fault → Prop} (bottom : ∀ text, motive (ofSource text none))
    (above : ∀ text source, motive source → motive (ofSource text (some source))) (fault : Fault) : motive fault := by
  obtain ⟨text, sources⟩ := fault
  induction sources generalizing text with
  | nil => exact bottom text
  | cons next sources ih => exact above text ⟨next, sources⟩ (ih next)

/-- The error so many steps down from a fault, each step from an error to its source. -/
def below? (fault : Fault) : Nat → Option Fault
  | 0 => some fault
  | steps + 1 => fault.source?.bind fun source => source.below? steps

/-- What a fault and the errors below it say, from the top down. -/
def links (fault : Fault) : List String := fault.text :: fault.sources

@[simp] theorem links_ofSource_none (text : String) : (ofSource text none).links = [text] := rfl

@[simp] theorem links_ofSource_some (text : String) (source : Fault) :
    (ofSource text (some source)).links = text :: source.links := rfl

/-- The links are the texts of the errors that are met going down, none left out and none twice. -/
theorem getElem?_links (fault : Fault) (steps : Nat) : fault.links[steps]? = (fault.below? steps).map text := by
  induction fault using descent generalizing steps with
  | bottom text => cases steps <;> simp [below?]
  | above text source ih =>
    cases steps with
    | zero => simp [below?]
    | succ steps => simpa [below?] using ih steps

end Fault

/-- The handle to a fault looks like the fault. -/
@[simp] theorem Cause.toFault_eq (cause : Cause) : cause.toFault = cause.fault := cause.fault.ofSource_source?

namespace Error

/-! ### The loop along the sources -/

@[simp] theorem withSources_none (text : String) : withSources text none = text := by rw [withSources]

/-- One round of the loop. -/
theorem withSources_ofSource (text link : String) (below : Option Fault) :
    withSources text (some (.ofSource link below)) = withSources (text ++ "\n  caused by: " ++ link) below := by
  rw [withSources, Fault.text_ofSource, Fault.source?_ofSource]

/-- The loop adds a line for each link of the fault it begins with. -/
theorem withSources_some (text : String) (fault : Fault) : withSources text (some fault) =
    text ++ String.join (fault.links.map fun link => "\n  caused by: " ++ link) := by
  -- The lines written so far stand in front of what is still to come, so the claim is about all of them.
  induction fault using Fault.descent generalizing text with
  | bottom link => simp [withSources_ofSource, String.append_assoc]
  | above link source ih =>
    calc withSources text (some (.ofSource link (some source)))
        = withSources (text ++ "\n  caused by: " ++ link) (some source) := withSources_ofSource ..
      _ = text ++ "\n  caused by: " ++ link ++
            String.join (source.links.map fun link => "\n  caused by: " ++ link) := ih _
      _ = _ := by simp [String.append_assoc]

/-! ### Chains -/

/-- What the errors below an error say: its cause, if it has one, and the sources of that. -/
def causes (error : Error) : List String := error.cause?.elim [] fun cause => cause.fault.links

theorem chain_eq (error : Error) : error.chain =
    error.message ++ String.join (error.causes.map fun link => "\n  caused by: " ++ link) := by
  cases held : error.cause? with
  | none => simp [chain, source?, causes, held]
  | some cause => simp [chain, source?, causes, held, withSources_some]

/-- An error that another one is the cause of hands on all the causes of that one. -/
theorem links_toFault (error : Error) : error.toFault.links = error.message :: error.causes := by
  cases held : error.cause? with
  | none => simp [toFault, source?, causes, held]
  | some cause => simp [toFault, source?, causes, held]

end Error

/-- The chain of an error is its message and one line for each of its causes.  The causes of an error are the texts of
the fault that its handle holds, of the source of that, of the next source and so on to the last, so there are none for
an error without a cause, and one for a cause that is a message or a panic.  A handle to a handle has the causes of what
that one holds, and a handle to an error adds the message of the error to the causes that the error has itself. -/
theorem Error.chain_names_causes (error : Error) :
    error.chain = error.message ++ String.join (error.causes.map fun link => "\n  caused by: " ++ link) ∧
      (∀ steps, error.causes[steps]? =
        (error.cause?.bind fun cause => cause.fault.below? steps).map Fault.text) ∧
      (error.cause? = none → error.chain = error.message) ∧
      (∀ cause : Cause, error.cause? = some ⟨cause.toFault⟩ →
        ∀ steps, error.causes[steps]? = (cause.fault.below? steps).map Fault.text) ∧
      (∀ message, error.cause? = some (.ofMessage message) → error.causes = [message]) ∧
      (∀ payload, error.cause? = some (.ofPanic payload) → error.causes = [payload.message]) ∧
      ∀ inner : Error, error.cause? = some ⟨inner.toFault⟩ → error.causes = inner.message :: inner.causes := by
  refine ⟨error.chain_eq, fun steps => ?_, fun bare => ?_, fun cause held steps => ?_, fun message held => ?_,
    fun payload held => ?_, fun inner held => ?_⟩
  · cases held : error.cause? with
    | none => simp [causes, held]
    | some cause => simpa [causes, held] using cause.fault.getElem?_links steps
  · simp [chain_eq, causes, bare]
  · simpa [causes, held] using cause.fault.getElem?_links steps
  · simp [causes, held, Cause.ofMessage]
  · simp [causes, held, Cause.ofPanic, Cause.ofMessage]
  · simp [causes, held, links_toFault]

/-- A segment whose definition fails with the error of a matcher, which has a fault of two links as its cause. -/
theorem Error.chain_names_nested_causes :
    let lost : Fault := .ofSource "query failed" (some (.ofSource "socket closed" none))
    let inner : Error := .matcherEvaluation "isAdmin" "admins" .null none ⟨lost⟩
    let error : Error := .segmentDefinition "beta" ⟨inner.toFault⟩
    error.cause? = some ⟨inner.toFault⟩ ∧
      error.causes = [inner.message, "query failed", "socket closed"] ∧
      error.chain = error.message ++ "\n  caused by: " ++ inner.message ++
        "\n  caused by: query failed\n  caused by: socket closed" := by
  intro lost inner error
  obtain ⟨lines, -, -, -, -, -, nested⟩ := error.chain_names_causes
  have texts : error.causes = [inner.message, "query failed", "socket closed"] := nested inner rfl
  refine ⟨rfl, texts, ?_⟩
  rw [lines, texts]
  simp [String.append_assoc]

end Segmentation
