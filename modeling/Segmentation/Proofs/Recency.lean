import Mathlib.Data.Finset.Card
import Segmentation.Proofs.Independence

/-!
# The memo keeps what was asked for last

A registry is asked for one definition after the other.  Whatever the asks are, the memo of a matcher with argument
holds the keys asked for last, the last one first, and as many of them as it has room for (`Registry.exists_handle`).  So an
ask gets the very definition that the last ask with the same key got, if fewer other keys were asked for since than
the memo has room for, and else a new one (`Registry.definitionWith_recent`).
-/

namespace Segmentation

/-! ### The distinct entries of a list by their last occurrences -/

section Lists

variable {α : Type}

/-- An entry is among the first ones exactly if few enough stand before it. -/
theorem mem_take_append_cons_iff {l m : List α} {a : α} (nodup : (l ++ a :: m).Nodup) (n : Nat) :
    a ∈ (l ++ a :: m).take n ↔ l.length < n := by
  have here : (l ++ a :: m)[l.length]? = some a := by simp
  obtain ⟨lt, at_⟩ := List.getElem?_eq_some_iff.1 here
  rw [List.mem_take_iff_getElem]
  constructor
  · rintro ⟨i, small, found⟩
    have same : i = l.length := (nodup.getElem_inj_iff).1 (found.trans at_.symm)
    omega
  · intro small
    exact ⟨l.length, by omega, at_⟩

variable [DecidableEq α]

/-- Of the first entries, without one of them, only the last one makes a difference. -/
theorem take_cons_filter_take {l : List α} (nodup : l.Nodup) (a : α) (n : Nat) :
    (a :: (l.take n).filter (· ≠ a)).take n = (a :: l.filter (· ≠ a)).take n := by
  cases n with
  | zero => rfl
  | succ n =>
    rw [List.take_succ_cons, List.take_succ_cons]
    congr 1
    induction l generalizing n with
    | nil => rfl
    | cons b l ih =>
      obtain ⟨fresh, nodup⟩ := List.nodup_cons.1 nodup
      rw [List.take_succ_cons]
      by_cases here : b = a
      · subst here
        have all (m : List α) (absent : b ∉ m) : m.filter (· ≠ b) = m :=
          List.filter_eq_self.2 fun c mem => by simpa using fun same : c = b => absent (same ▸ mem)
        rw [List.filter_cons_of_neg (by simp), List.filter_cons_of_neg (by simp), all l fresh,
          all _ fun mem => fresh (List.mem_of_mem_take mem), List.take_take, Nat.min_self]
      · rw [List.filter_cons_of_pos (by simpa using here), List.filter_cons_of_pos (by simpa using here)]
        cases n with
        | zero => rfl
        | succ n => rw [List.take_succ_cons, List.take_succ_cons, ih nodup n]

theorem dedup_concat (l : List α) (a : α) : (l ++ [a]).dedup = l.dedup.filter (· ≠ a) ++ [a] := by
  induction l with
  | nil => rfl
  | cons b l ih =>
    by_cases again : b ∈ l
    · rw [List.cons_append, List.dedup_cons_of_mem (List.mem_append_left _ again), List.dedup_cons_of_mem again, ih]
    · rw [List.cons_append, List.dedup_cons_of_notMem again]
      by_cases last : b = a
      · subst last
        rw [List.dedup_cons_of_mem (by simp), List.filter_cons_of_neg (by simp), ih]
      · rw [List.dedup_cons_of_notMem (by simp [again, last]), List.filter_cons_of_pos (by simpa using last), ih]
        rfl

/-- Behind the last occurrence of an entry there are the distinct entries that come after it. -/
theorem exists_dedup_append_cons (l : List α) {a : α} {m : List α} (last : a ∉ m) :
    ∃ earlier, (l ++ a :: m).dedup = earlier ++ a :: m.dedup := by
  induction l with
  | nil => exact ⟨[], List.dedup_cons_of_notMem last⟩
  | cons b l ih =>
    obtain ⟨earlier, eq⟩ := ih
    by_cases again : b ∈ l ++ a :: m
    · exact ⟨earlier, (List.dedup_cons_of_mem again).trans eq⟩
    · exact ⟨b :: earlier, (List.dedup_cons_of_notMem again).trans (congrArg (b :: ·) eq)⟩

/-- An entry is among the last distinct ones of a list exactly if few enough others come after its last occurrence. -/
theorem mem_take_dedup_iff {l m : List α} {a : α} (last : a ∉ m) (n : Nat) :
    a ∈ (l ++ a :: m).dedup.reverse.take n ↔ m.toFinset.card < n := by
  obtain ⟨earlier, eq⟩ := exists_dedup_append_cons l last
  have turned : (l ++ a :: m).dedup.reverse = m.dedup.reverse ++ a :: earlier.reverse := by simp [eq]
  have nodup : (m.dedup.reverse ++ a :: earlier.reverse).Nodup :=
    turned ▸ List.nodup_reverse.2 (l ++ a :: m).nodup_dedup
  rw [turned, mem_take_append_cons_iff nodup, List.length_reverse, List.card_toFinset]

end Lists

/-! ### The keys of a memo -/

namespace Memo

variable {α : Type} (memo : Memo α)

/-- The keys that a memo holds, the most recent one first. -/
def keys : List String := memo.entries.map (·.1)

theorem find?_eq_none_iff (key : String) : memo.find? key = none ↔ key ∉ memo.keys := by
  simp only [find?, List.lookup_eq_none_iff, keys, List.mem_map, not_exists, not_and, bne_iff_ne, ne_eq]
  exact ⟨fun absent entry mem same => absent entry mem same.symm, fun absent entry mem same => absent entry mem same.symm⟩

theorem keys_insert (key : String) (value : α) :
    (memo.insert key value).keys = (key :: memo.keys.filter (· ≠ key)).take memo.bound := by
  rw [keys, insert, List.map_take, List.map_cons, keys, List.filter_map]
  rfl

/-- If a memo holds the last of some keys, then after an insertion it holds the last of these and the new one. -/
theorem keys_insert_eq {keys : List String} (recent : memo.keys = keys.dedup.reverse.take memo.bound) (key : String)
    (value : α) : (memo.insert key value).keys = (keys ++ [key]).dedup.reverse.take memo.bound := by
  have nodup : keys.dedup.reverse.Nodup := List.nodup_reverse.2 keys.nodup_dedup
  rw [keys_insert, recent, take_cons_filter_take nodup, dedup_concat, List.reverse_append, List.filter_reverse]
  rfl

end Memo

/-! ### Asking a registry -/

namespace Handle

/-- The definition that a handle keeps for an argument, or for none. -/
def known? (handle : Handle) : Option Json → Option Definition
  | none => handle.singleton
  | some args => handle.memo.find? args.stableKey

/-- The handle that keeps a definition for an argument, or for none. -/
def keep (handle : Handle) (d : Definition) : Option Json → Handle
  | none => { handle with singleton := some d }
  | some args => { handle with memo := handle.memo.insert args.stableKey d }

end Handle

namespace Registry

/-- Asks for the definition of a name, with an argument or without one. -/
def ask (registry : Registry) (name : String) : Option Json → Except Error Definition × Registry
  | none => registry.definition name
  | some args => registry.definitionWith name args

/-- What an ask gives and leaves: the definition that the handle keeps, or the next one; the handle keeps it from then
on. -/
structure Gives (registry : Registry) (name : String) (args : Option Json) (handle : Handle) (d : Definition)
    (r : Except Error Definition × Registry) : Prop where
  known : registry.get? name = some handle
  takes : handle.matcher.takesArgs = args.isSome
  given : r.1 = .ok d
  get?_eq (other : String) : r.2.get? other = if other = name then some (handle.keep d args) else registry.get? other
  recalled : handle.known? args = some d ∧ r.2.nextSerial = registry.nextSerial ∨
    handle.known? args = none ∧ d = ⟨name, args, handle.matcher, registry.nextSerial⟩ ∧
      r.2.nextSerial = registry.nextSerial + 1

variable {registry : Registry}

theorem get?_modify_handle {name : String} {handle : Handle} (known : registry.get? name = some handle)
    (f : Handle → Handle) (serial : Nat) (other : String) :
    (⟨registry.handles.modify name f, serial⟩ : Registry).get? other =
      if other = name then some (f handle) else registry.get? other := by
  rw [get?, Keyed.get?_modify]
  split
  · subst other
    exact congrArg (Option.map f) known
  · rfl

/-- An ask fails and changes nothing, or it gives a definition. -/
theorem ask_cases (sound : registry.Sound) (name : String) (args : Option Json) :
    (∃ error, registry.ask name args = (.error error, registry)) ∨
      ∃ handle d, registry.Gives name args handle d (registry.ask name args) := by
  cases known : registry.get? name with
  | none => cases args <;> simp [ask, definition, definitionWith, known]
  | some handle =>
    have own := (sound name handle known).name_eq
    -- what is not remembered is defined anew and then kept, with arguments or without
    have defines (recalled : handle.known? args = none) (takes : handle.matcher.takesArgs = args.isSome)
        (eq : registry.ask name args = (.ok (registry.define handle args).1, (registry.define handle args).2)) :
        registry.Gives name args handle (registry.define handle args).1 (registry.ask name args) := by
      refine ⟨known, takes, congrArg (·.1) eq, fun other => ?_, .inr ⟨recalled, ?_, congrArg (·.2.nextSerial) eq⟩⟩
      · rw [eq, define, own, get?_modify_handle known]
        cases args <;> rfl
      · rw [define, own]
    cases args with
    | none =>
      by_cases takes : handle.matcher.takesArgs = true
      · exact .inl ⟨_, by simp only [ask, definition, known, takes]; rfl⟩
      · refine .inr ⟨handle, ?_⟩
        have takes : handle.matcher.takesArgs = false := by simpa using takes
        cases kept : handle.singleton with
        | none =>
          refine ⟨_, defines kept takes ?_⟩
          simp only [ask, definition, known, takes, kept]
          rfl
        | some d =>
          have eq : registry.ask name none = (.ok d, registry) := by simp [ask, definition, known, takes, kept]
          refine ⟨d, known, takes, by rw [eq], fun other => ?_, .inl ⟨kept, by rw [eq]⟩⟩
          rw [eq, Handle.keep, ← kept]
          split
          · subst other
            exact known
          · rfl
    | some args =>
      by_cases takes : handle.matcher.takesArgs = true
      · refine .inr ⟨handle, ?_⟩
        cases kept : handle.memo.find? args.stableKey with
        | none =>
          refine ⟨_, defines kept takes ?_⟩
          simp only [ask, definitionWith, known, takes, kept]
          rfl
        | some d =>
          have eq : registry.ask name (some args) = (.ok d, ⟨registry.handles.modify name fun handle =>
              { handle with memo := handle.memo.insert args.stableKey d }, registry.nextSerial⟩) := by
            simp [ask, definitionWith, known, takes, kept]
          exact ⟨d, known, takes, by rw [eq], fun other => by rw [eq, get?_modify_handle known]; rfl,
            .inl ⟨kept, by rw [eq]⟩⟩
      · exact .inl ⟨_, by simp only [ask, definitionWith, known, takes]; rfl⟩

/-! ### One ask after the other -/

/-- The registry after some asks. -/
def askAll (registry : Registry) (asks : List (String × Option Json)) : Registry :=
  asks.foldl (fun registry (name, args) => (registry.ask name args).2) registry

/-- The keys for which a name was asked with an argument. -/
def requested (name : String) (asks : List (String × Option Json)) : List String :=
  asks.filterMap fun (other, args) => if other = name then args.map Json.stableKey else none

theorem askAll_append (asks later : List (String × Option Json)) :
    registry.askAll (asks ++ later) = (registry.askAll asks).askAll later := List.foldl_append

theorem requested_append (name : String) (asks later : List (String × Option Json)) :
    requested name (asks ++ later) = requested name asks ++ requested name later := List.filterMap_append

theorem Sound.ask (sound : registry.Sound) (name : String) (args : Option Json) : (registry.ask name args).2.Sound := by
  have spec : registry.HandsOut name args (registry.ask name args) := by
    cases args with
    | none => exact definition_spec sound name
    | some args => exact definitionWith_spec sound name args
  unfold HandsOut at spec
  split at spec
  · obtain ⟨d, -, -, later⟩ := spec
    exact later.sound
  · obtain ⟨error, eq⟩ := spec
    rw [eq]
    exact sound

theorem Sound.askAll (sound : registry.Sound) (asks : List (String × Option Json)) : (registry.askAll asks).Sound := by
  induction asks generalizing registry with
  | nil => exact sound
  | cons ask asks ih => exact ih (sound.ask ask.1 ask.2)

/-! ### What a memo holds after some asks -/

/-- An ask with an argument that a matcher takes is given a definition. -/
theorem ask_with (sound : registry.Sound) {name : String} {handle : Handle} (known : registry.get? name = some handle)
    (takes : handle.matcher.takesArgs = true) (args : Json) :
    ∃ d, registry.Gives name (some args) handle d (registry.ask name (some args)) := by
  rcases registry.ask_cases sound name (some args) with ⟨error, eq⟩ | ⟨other, d, gives⟩
  · have accepts : registry.accepts name (some args) = true := by simp [accepts, matcher?, known, takes]
    have spec := definitionWith_spec sound name args
    rw [HandsOut, if_pos accepts] at spec
    obtain ⟨d, given, -⟩ := spec
    cases given.symm.trans (congrArg (·.1) eq)
  · obtain rfl : other = handle := Option.some.inj (gives.known.symm.trans known)
    exact ⟨d, gives⟩

end Registry

/-- What a handle has become by asks with some keys: if its memo held the keys asked for last it does so still, and it
holds nothing for another key that it did not hold before. -/
structure Handle.Ages (before : Handle) (keys : List String) (later : Handle) : Prop where
  matcher_eq : later.matcher = before.matcher
  bound_eq : later.memo.bound = before.memo.bound
  recent {older : List String} : before.memo.keys = older.dedup.reverse.take before.memo.bound →
    later.memo.keys = (older ++ keys).dedup.reverse.take before.memo.bound
  kept {key : String} {d : Definition} : key ∉ keys → later.memo.find? key = some d → before.memo.find? key = some d

namespace Handle.Ages

theorem refl (handle : Handle) : handle.Ages [] handle :=
  ⟨rfl, rfl, fun {older} recent => by rw [recent, List.append_nil], fun _ => id⟩

theorem trans {a b c : Handle} {keys keys' : List String} (first : a.Ages keys b) (second : b.Ages keys' c) :
    a.Ages (keys ++ keys') c where
  matcher_eq := second.matcher_eq.trans first.matcher_eq
  bound_eq := second.bound_eq.trans first.bound_eq
  recent {older} held := by
    have held' := first.recent held
    rw [← first.bound_eq] at held' ⊢
    rw [second.recent held', List.append_assoc]
  kept other found := by
    rw [List.mem_append, not_or] at other
    exact first.kept other.1 (second.kept other.2 found)

theorem keep (handle : Handle) (d : Definition) (args : Json) :
    handle.Ages [args.stableKey] (handle.keep d (some args)) where
  matcher_eq := rfl
  bound_eq := rfl
  recent held := handle.memo.keys_insert_eq held args.stableKey d
  kept other found := by
    rcases handle.memo.find?_insert found with ⟨same, -⟩ | found
    · exact absurd (List.mem_singleton.2 same) other
    · exact found

end Handle.Ages

namespace Registry

variable {registry : Registry}

theorem ages_ask (sound : registry.Sound) {name : String} {handle : Handle} (known : registry.get? name = some handle)
    (takes : handle.matcher.takesArgs = true) (other : String) (args : Option Json) :
    ∃ later, (registry.ask other args).2.get? name = some later ∧ handle.Ages (requested name [(other, args)]) later := by
  by_cases here : other = name ∧ args.isSome
  · obtain ⟨rfl, bound⟩ := here
    obtain ⟨args, rfl⟩ := Option.isSome_iff_exists.1 bound
    obtain ⟨d, gives⟩ := ask_with sound known takes args
    refine ⟨_, (gives.get?_eq other).trans (if_pos rfl), ?_⟩
    simpa [requested] using Handle.Ages.keep handle d args
  · have silent : requested name [(other, args)] = [] := by
      cases args with
      | none => simp [requested]
      | some args => simpa [requested] using here
    refine ⟨handle, ?_, silent ▸ .refl handle⟩
    rcases registry.ask_cases sound other args with ⟨error, eq⟩ | ⟨handle', d, gives⟩
    · rw [eq]
      exact known
    · rw [gives.get?_eq, if_neg, known]
      rintro rfl
      obtain rfl : handle' = handle := Option.some.inj (gives.known.symm.trans known)
      exact here ⟨rfl, gives.takes.symm.trans takes⟩

theorem ages_askAll (sound : registry.Sound) {name : String} {handle : Handle} (known : registry.get? name = some handle)
    (takes : handle.matcher.takesArgs = true) (asks : List (String × Option Json)) :
    ∃ later, (registry.askAll asks).get? name = some later ∧ handle.Ages (requested name asks) later := by
  induction asks generalizing registry handle with
  | nil => exact ⟨handle, known, .refl handle⟩
  | cons ask asks ih =>
    obtain ⟨next, known', ages⟩ := ages_ask sound known takes ask.1 ask.2
    obtain ⟨later, known'', ages'⟩ := ih (sound.ask ask.1 ask.2) known' (ages.matcher_eq ▸ takes)
    refine ⟨later, known'', ?_⟩
    rw [← List.singleton_append, requested_append]
    exact ages.trans ages'

/-! ### Serial numbers -/

/-- Every definition that is kept has a number that was given out. -/
def Numbered (registry : Registry) : Prop :=
  ∀ name handle args d, registry.get? name = some handle → handle.known? args = some d → d.serial < registry.nextSerial

theorem numbered_compile (matchers : List (String × Matcher)) (capacity : Nat) :
    (compile matchers capacity).Numbered := by
  intro name handle args d known recalled
  obtain ⟨matcher, -, rfl⟩ := get?_compile known
  cases args <;> cases recalled

end Registry

/-- A handle keeps one more definition at most. -/
theorem Handle.known?_keep {handle : Handle} {d e : Definition} {args args' : Option Json}
    (recalled : (handle.keep d args).known? args' = some e) : e = d ∨ handle.known? args' = some e := by
  cases args with
  | none =>
    cases args' with
    | none => exact .inl (Option.some.inj recalled).symm
    | some args' => exact .inr recalled
  | some args =>
    cases args' with
    | none => exact .inr recalled
    | some args' => exact (handle.memo.find?_insert recalled).imp_left (·.2)

namespace Registry

variable {registry : Registry}

/-- A definition that is given has a number that was given out before or with it. -/
theorem Numbered.ask (numbered : registry.Numbered) (sound : registry.Sound) (name : String) (args : Option Json) :
    (registry.ask name args).2.Numbered ∧ registry.nextSerial ≤ (registry.ask name args).2.nextSerial ∧
      ∀ d, (registry.ask name args).1 = .ok d → d.serial < (registry.ask name args).2.nextSerial := by
  rcases registry.ask_cases sound name args with ⟨error, eq⟩ | ⟨handle, d, gives⟩
  · rw [eq]
    exact ⟨numbered, Nat.le_refl _, nofun⟩
  · have grown : registry.nextSerial ≤ (registry.ask name args).2.nextSerial ∧
        d.serial < (registry.ask name args).2.nextSerial := by
      rcases gives.recalled with ⟨kept, same⟩ | ⟨-, new, next⟩
      · exact ⟨Nat.le_of_eq same.symm, same ▸ numbered name handle args d gives.known kept⟩
      · subst new
        exact ⟨by omega, by dsimp only; omega⟩
    refine ⟨fun other handle' args' e known recalled => ?_, grown.1, fun e given => ?_⟩
    · rw [gives.get?_eq] at known
      split at known
      · obtain rfl := Option.some.inj known
        rcases Handle.known?_keep recalled with rfl | old
        · exact grown.2
        · exact Nat.lt_of_lt_of_le (numbered name handle args' e gives.known old) grown.1
      · exact Nat.lt_of_lt_of_le (numbered other handle' args' e known recalled) grown.1
    · obtain rfl := Except.ok.inj (gives.given.symm.trans given)
      exact grown.2

theorem Numbered.askAll (numbered : registry.Numbered) (sound : registry.Sound) (asks : List (String × Option Json)) :
    (registry.askAll asks).Numbered ∧ registry.nextSerial ≤ (registry.askAll asks).nextSerial := by
  induction asks generalizing registry with
  | nil => exact ⟨numbered, Nat.le_refl _⟩
  | cons ask asks ih =>
    obtain ⟨numbered', grown, -⟩ := numbered.ask sound ask.1 ask.2
    obtain ⟨numbered'', grown'⟩ := ih numbered' (sound.ask ask.1 ask.2)
    exact ⟨numbered'', grown.trans grown'⟩

/-- The definition given for one of some asks has another number than the next definition. -/
theorem Numbered.lt_of_given (numbered : registry.Numbered) (sound : registry.Sound)
    {early : List (String × Option Json)} {ask : String × Option Json} {d : Definition}
    (given : ((registry.askAll early).ask ask.1 ask.2).1 = .ok d) (later : List (String × Option Json)) :
    d.serial < (registry.askAll (early ++ ask :: later)).nextSerial := by
  obtain ⟨numbered', -⟩ := numbered.askAll sound early
  obtain ⟨numbered'', -, lt⟩ := numbered'.ask (sound.askAll early) ask.1 ask.2
  have grown := (numbered''.askAll ((sound.askAll early).ask ask.1 ask.2) later).2
  rw [askAll_append]
  exact Nat.lt_of_lt_of_le (lt d given) grown

/-! ### The definition that is given -/

/-- What is given for an ask after some others. -/
def given (registry : Registry) (asks : List (String × Option Json)) (ask : String × Option Json) :
    Except Error Definition := ((registry.askAll asks).ask ask.1 ask.2).1

/-- Whether a definition is none of those that were given for some asks. -/
def IsNew (registry : Registry) (asks : List (String × Option Json)) (d : Definition) : Prop :=
  ∀ early ask later e, asks = early ++ ask :: later → registry.given early ask = .ok e → e.serial ≠ d.serial

/-- A handle of a new registry, after some asks. -/
theorem exists_handle {matchers : List (String × Matcher)} {capacity : Nat} {name : String} {matcher : Matcher}
    (known : (compile matchers capacity).matcher? name = some matcher) (takes : matcher.takesArgs = true)
    (asks : List (String × Option Json)) :
    ∃ handle, ((compile matchers capacity).askAll asks).get? name = some handle ∧ handle.matcher = matcher ∧
      handle.memo.keys = (requested name asks).dedup.reverse.take (max capacity 1) := by
  obtain ⟨first, known, matcher_eq⟩ := Option.map_eq_some_iff.1 known
  have first_eq : first = ⟨name, matcher, none, .empty capacity⟩ := by
    obtain ⟨matcher', -, rfl⟩ := get?_compile known
    rw [← matcher_eq]
  obtain ⟨handle, known', ages⟩ := ages_askAll (sound_compile matchers capacity) known (matcher_eq ▸ takes) asks
  have none_yet : first.memo.keys = [].dedup.reverse.take first.memo.bound := by
    rw [first_eq, List.dedup_nil, List.reverse_nil, List.take_nil]
    rfl
  refine ⟨handle, known', ages.matcher_eq.trans matcher_eq, (ages.recent none_yet).trans ?_⟩
  rw [first_eq]
  rfl

/-- What a memo still holds for the key of an ask, after asks for other keys, is what was given then. -/
theorem held_since (sound : registry.Sound) {name : String} {first handle : Handle} {args : Json} {e d : Definition}
    (known : registry.get? name = some first) (takes : first.matcher.takesArgs = true)
    (given : (registry.ask name (some args)).1 = .ok e) {between : List (String × Option Json)}
    (here : ((registry.ask name (some args)).2.askAll between).get? name = some handle)
    (others : args.stableKey ∉ requested name between) (held : handle.memo.find? args.stableKey = some d) : d = e := by
  obtain ⟨e', gives⟩ := ask_with sound known takes args
  obtain rfl : e' = e := Except.ok.inj (gives.given.symm.trans given)
  have kept : (registry.ask name (some args)).2.get? name = some (first.keep e' (some args)) :=
    (gives.get?_eq name).trans (if_pos rfl)
  obtain ⟨later, here', ages⟩ := ages_askAll (sound.ask name (some args)) kept takes between
  obtain rfl : later = handle := Option.some.inj (here'.symm.trans here)
  have put : (first.keep e' (some args)).memo.find? args.stableKey = some e' := first.memo.find?_insert_self _ _
  exact Option.some.inj ((ages.kept others held).symm.trans put)

/-- A matcher with argument is asked for a definition after any other asks.  Its memo holds the keys that were asked for
last, the last one first, and as many of them as there is room for.  The definition belongs to the matcher, and its
argument has the key asked for.  It is the very definition that was given for the last ask with this key, exactly if
fewer other keys were asked for since than there is room for; without such an ask it is a new one. -/
theorem definitionWith_recent {matchers : List (String × Matcher)} {capacity : Nat} {name : String} {matcher : Matcher}
    (known : (compile matchers capacity).matcher? name = some matcher) (takes : matcher.takesArgs = true)
    (asks : List (String × Option Json)) (args : Json) :
    let start := compile matchers capacity
    let room := max capacity 1
    ((start.askAll asks).get? name).map (·.memo.keys) = some ((requested name asks).dedup.reverse.take room) ∧
      ∃ d, start.given asks (name, some args) = .ok d ∧
        (d.name = name ∧ d.matcher = matcher ∧ d.args.map Json.stableKey = some args.stableKey) ∧
        (args.stableKey ∉ requested name asks → start.IsNew asks d ∧ d.args = some args) ∧
        ∀ early args' between e, asks = early ++ (name, some args') :: between → args'.stableKey = args.stableKey →
          args.stableKey ∉ requested name between → start.given early (name, some args') = .ok e →
          let others := (requested name between).toFinset.card
          (d.serial = e.serial ↔ others < room) ∧ (others < room → d = e) ∧
            (room ≤ others → start.IsNew asks d ∧ d.args = some args) := by
  intro start room
  have sound : start.Sound := sound_compile matchers capacity
  obtain ⟨handle, here, matcher_eq, recent⟩ := exists_handle known takes asks
  obtain ⟨d, gives⟩ := ask_with (sound.askAll asks) here (matcher_eq ▸ takes) args
  have own := (sound.askAll asks) name handle here
  have about : d.name = name ∧ d.matcher = matcher ∧ d.args.map Json.stableKey = some args.stableKey := by
    rcases gives.recalled with ⟨kept, -⟩ | ⟨-, rfl, -⟩
    · obtain ⟨name_eq, matcher_d, key⟩ := own.memo kept
      exact ⟨name_eq, matcher_d.trans matcher_eq, key⟩
    · exact ⟨rfl, matcher_eq, rfl⟩
  -- a definition that the memo does not hold has the next serial number
  have new (forgotten : args.stableKey ∉ handle.memo.keys) : start.IsNew asks d ∧ d.args = some args := by
    have nothing : handle.known? (some args) = none := (handle.memo.find?_eq_none_iff _).2 forgotten
    rcases gives.recalled with ⟨kept, -⟩ | ⟨-, next, -⟩
    · cases nothing.symm.trans kept
    · refine ⟨fun early ask later e eq given => ?_, next ▸ rfl⟩
      have lt := (numbered_compile matchers capacity).lt_of_given sound (given : start.given early ask = .ok e) later
      rw [next]
      exact Nat.ne_of_lt (eq ▸ lt)
  refine ⟨by rw [here, Option.map_some, recent], d, gives.given, about, fun never => new fun mem => never ?_, ?_⟩
  · rw [recent] at mem
    exact List.mem_dedup.1 (List.mem_reverse.1 (List.mem_of_mem_take mem))
  · intro early args' between e eq same others_differ given others
    have keys_eq : requested name asks = requested name early ++ args.stableKey :: requested name between := by
      rw [eq, requested_append, ← same]
      simp [requested]
    have held_iff : args.stableKey ∈ handle.memo.keys ↔ others < room := by
      rw [recent, keys_eq]
      exact mem_take_dedup_iff others_differ room
    have identical (few : others < room) : d = e := by
      obtain ⟨first, known', matcher_eq', -⟩ := exists_handle known takes early
      rw [eq, askAll_append] at here
      rcases gives.recalled with ⟨kept, -⟩ | ⟨forgotten, -⟩
      · exact held_since (sound.askAll early) known' (matcher_eq' ▸ takes) given here (same ▸ others_differ) (same ▸ kept)
      · exact absurd (held_iff.2 few) ((handle.memo.find?_eq_none_iff _).1 forgotten)
    have fresh (many : room ≤ others) := new (mt held_iff.1 (Nat.not_lt.2 many))
    refine ⟨⟨fun same => ?_, fun few => congrArg (·.serial) (identical few)⟩, identical, fresh⟩
    by_contra many
    exact (fresh (Nat.not_lt.1 many)).1 early _ between e eq given same.symm

/-- With room for two definitions, the one for 1 is still the same after an ask for 2, and new after asks for 2 and 3. -/
theorem definitionWith_recent_in_room_for_two :
    let matcher : Matcher := ⟨some .any, .single fun _ _ => .starts (.done (.value true))⟩
    let start := compile [("level", matcher)] 2
    let level (n : Int) : String × Option Json := ("level", some (.int n))
    (start.matcher? "level" = some matcher ∧ matcher.takesArgs = true) ∧
      (∃ d, start.given [level 1, level 2] (level 1) = .ok d ∧ start.given [] (level 1) = .ok d) ∧
      ∃ d e, start.given [level 1, level 2, level 3] (level 1) = .ok d ∧ start.given [] (level 1) = .ok e ∧
        d.serial ≠ e.serial := by
  intro matcher start level
  have known : start.matcher? "level" = some matcher := rfl
  have takes : matcher.takesArgs = true := rfl
  obtain ⟨-, e, first, -⟩ := definitionWith_recent known takes [] (.int 1)
  obtain ⟨-, d, again, -, -, since⟩ := definitionWith_recent known takes [level 1, level 2] (.int 1)
  obtain ⟨-, d', later, -, -, since'⟩ := definitionWith_recent known takes [level 1, level 2, level 3] (.int 1)
  have same := since [] (.int 1) [level 2] e rfl rfl (by decide) first
  have other := since' [] (.int 1) [level 2, level 3] e rfl rfl (by decide) first
  obtain rfl := same.2.1 (by decide)
  refine ⟨⟨known, takes⟩, ⟨d, again, first⟩, d', d, later, first, fun equal => ?_⟩
  exact absurd (other.1.1 equal) (by decide)

end Registry

end Segmentation
