import Jayess.Resolver.Subgraph

/-!
# The registry of modules

`InitializeModule` calls an initializer, which may itself register modules and ask for the initialization of
others, and may panic. A run of such calls is a derivation with the events of the initializers in their order:
whatever the initializers do, each is called at most once.
-/

namespace Jayess.Runtime

structure RuntimeModule (Initializer : Type*) where
  name : String
  initializer : Option Initializer
  initializing : Bool
  initialized : Bool

structure ModuleRegistry (Initializer : Type*) where
  modules : String → Option (RuntimeModule Initializer)
  order : List String

def newModuleRegistry {Initializer : Type*} : ModuleRegistry Initializer := ⟨fun _ => none, []⟩

def newRuntimeModule {Initializer : Type*} (name : String) (initializer : Option Initializer) :
    RuntimeModule Initializer :=
  ⟨name, initializer, false, false⟩

/-- A call of an initializer begins, and it returns or panics. -/
inductive InitializerEvent where
  | started (name : String)
  | finished (name : String)
  | panicked (name : String)
deriving DecidableEq

/-- Where the initialization of a module is. -/
inductive ModulePhase where
  | absent
  | waiting
  | running
  | done
deriving DecidableEq

def RuntimeModule.phase {Initializer : Type*} (module : RuntimeModule Initializer) : ModulePhase :=
  if module.initialized then .done else if module.initializing then .running else .waiting

namespace ModuleRegistry

variable {Initializer : Type*}

/-- `Register`: a module that is there gets the new initializer and keeps its flags. -/
def register (registry : ModuleRegistry Initializer) (name : String) (initializer : Option Initializer) :
    ModuleRegistry Initializer :=
  if name = "" then registry
  else
    match registry.modules name with
    | none =>
        ⟨Function.update registry.modules name (some (newRuntimeModule name initializer)), registry.order ++ [name]⟩
    | some module =>
        { registry with
          modules := Function.update registry.modules name (some { module with initializer := initializer }) }

/-- `Initialized` of the module of a name. -/
def initialized (registry : ModuleRegistry Initializer) (name : String) : Bool :=
  (registry.modules name).any (·.initialized)

/-- The check of `InitializeModule`. -/
def waits (registry : ModuleRegistry Initializer) (name : String) : Bool :=
  match registry.modules name with
  | none => false
  | some module => !module.initialized && !module.initializing

/-- `InitializeModule` before it calls the initializer. -/
def start (registry : ModuleRegistry Initializer) (name : String) : ModuleRegistry Initializer :=
  { registry with
    modules := Function.update registry.modules name
      ((registry.modules name).map fun module => { module with initializing := true }) }

/-- `InitializeModule` after the initializer has returned. -/
def finish (registry : ModuleRegistry Initializer) (name : String) : ModuleRegistry Initializer :=
  { registry with
    modules := Function.update registry.modules name
      ((registry.modules name).map fun module => { module with initializing := false, initialized := true }) }

def moduleNames (registry : ModuleRegistry Initializer) : List String :=
  registry.order.filter fun name => (registry.modules name).isSome

def PerformsNothing (registry : ModuleRegistry Initializer) (name : String) (events : List InitializerEvent)
    (middle : ModuleRegistry Initializer) : Prop :=
  (∀ module ∈ registry.modules name, module.initializer = none) → events = [] ∧ middle = registry.start name

section Runs

variable (asks : Option String → String → Prop)

/-- The calls of the program or of the initializer of a module, which asks for the modules that it may ask for. A
panic of an initializer is recovered by its caller. -/
inductive Performs : Option String → ModuleRegistry Initializer → List InitializerEvent →
    ModuleRegistry Initializer → Prop where
  | done {caller : Option String} {registry : ModuleRegistry Initializer} : Performs caller registry [] registry
  | register {caller : Option String} {registry final : ModuleRegistry Initializer}
      {events : List InitializerEvent} (name : String) (initializer : Option Initializer)
      (rest : Performs caller (registry.register name initializer) events final) :
      Performs caller registry events final
  | refused {caller : Option String} {registry final : ModuleRegistry Initializer} {events : List InitializerEvent}
      {name : String} (hask : asks caller name) (hrefused : registry.waits name = false)
      (rest : Performs caller registry events final) : Performs caller registry events final
  | returns {caller : Option String} {registry middle final : ModuleRegistry Initializer}
      {inner events : List InitializerEvent} {name : String} (hask : asks caller name)
      (hwaits : registry.waits name = true) (body : Performs (some name) (registry.start name) inner middle)
      (hnothing : registry.PerformsNothing name inner middle)
      (rest : Performs caller (middle.finish name) events final) :
      Performs caller registry (.started name :: (inner ++ .finished name :: events)) final
  | panics {caller : Option String} {registry middle final : ModuleRegistry Initializer}
      {inner events : List InitializerEvent} {name : String} (hask : asks caller name)
      (hwaits : registry.waits name = true) (body : Performs (some name) (registry.start name) inner middle)
      (hcalled : ∃ module ∈ registry.modules name, module.initializer ≠ none)
      (rest : Performs caller middle events final) :
      Performs caller registry (.started name :: (inner ++ .panicked name :: events)) final

/-- A call of `InitializeModules` that returns, with the names it returns. -/
inductive InitializesModules : ModuleRegistry Initializer → List String → List String → List InitializerEvent →
    ModuleRegistry Initializer → Prop where
  | nil {registry : ModuleRegistry Initializer} : InitializesModules registry [] [] [] registry
  | refused {registry final : ModuleRegistry Initializer} {name : String} {names result : List String}
      {events : List InitializerEvent} (hrefused : registry.waits name = false)
      (rest : InitializesModules registry names result events final) :
      InitializesModules registry (name :: names) result events final
  | initialized {registry middle final : ModuleRegistry Initializer} {name : String} {names result : List String}
      {inner events : List InitializerEvent} (hwaits : registry.waits name = true)
      (body : Performs asks (some name) (registry.start name) inner middle)
      (hnothing : registry.PerformsNothing name inner middle)
      (rest : InitializesModules (middle.finish name) names result events final) :
      InitializesModules registry (name :: names) (name :: result)
        (.started name :: (inner ++ .finished name :: events)) final

end Runs

def phase (registry : ModuleRegistry Initializer) (name : String) : ModulePhase :=
  (registry.modules name).elim .absent RuntimeModule.phase

variable {registry middle final : ModuleRegistry Initializer} {name other : String}
  {events inner : List InitializerEvent}

theorem phase_newModuleRegistry : (newModuleRegistry : ModuleRegistry Initializer).phase name = .absent := rfl

theorem waits_iff : registry.waits name = true ↔ registry.phase name = .waiting := by
  unfold waits phase
  cases registry.modules name with
  | none => simp
  | some module => cases hdone : module.initialized <;> cases hrunning : module.initializing <;>
      simp [RuntimeModule.phase, hdone, hrunning]

theorem phase_register (name : String) (initializer : Option Initializer) (other : String) :
    (registry.register name initializer).phase other = registry.phase other ∨
      registry.phase other = .absent ∧ (registry.register name initializer).phase other = .waiting := by
  rw [register]
  split
  · exact .inl rfl
  · by_cases hother : other = name
    · subst hother
      cases hmodule : registry.modules other with
      | none => exact .inr ⟨by simp [phase, hmodule], by simp [phase, newRuntimeModule, RuntimeModule.phase]⟩
      | some module => exact .inl (by simp [phase, hmodule, RuntimeModule.phase])
    · cases hmodule : registry.modules name <;> simp [phase, hother]

theorem phase_start (hwaits : registry.phase name = .waiting) :
    (registry.start name).phase = Function.update registry.phase name .running := by
  funext other
  by_cases hother : other = name
  · subst hother
    unfold phase at hwaits
    cases hmodule : registry.modules other with
    | none => simp [hmodule] at hwaits
    | some module =>
        cases hdone : module.initialized with
        | true => simp [hmodule, RuntimeModule.phase, hdone] at hwaits
        | false => simp [phase, start, hmodule, RuntimeModule.phase, hdone]
  · simp [phase, start, hother]

theorem phase_finish (hpresent : registry.phase name ≠ .absent) :
    (registry.finish name).phase = Function.update registry.phase name .done := by
  funext other
  by_cases hother : other = name
  · subst hother
    unfold phase at hpresent
    cases hmodule : registry.modules other with
    | none => simp [hmodule] at hpresent
    | some module => simp [phase, finish, hmodule, RuntimeModule.phase]
  · simp [phase, finish, hother]

/-- What a run with these events makes of the phases: each initializer is called once, in a module that waited, and
what it ended with is the phase of its module from then on. -/
structure Marks (before after : String → ModulePhase) (events : List InitializerEvent) : Prop where
  nodup : events.Nodup
  waited : ∀ name, .started name ∈ events → before name = .waiting ∨ before name = .absent
  began : ∀ name, .finished name ∈ events ∨ .panicked name ∈ events → .started name ∈ events
  ended : ∀ name, .started name ∈ events →
    (.finished name ∈ events ∧ .panicked name ∉ events ∧ after name = .done) ∨
      (.panicked name ∈ events ∧ .finished name ∉ events ∧ after name = .running)
  kept : ∀ name, .started name ∉ events →
    after name = before name ∨ before name = .absent ∧ after name = .waiting

namespace Marks

variable {before between after : String → ModulePhase} {more : List InitializerEvent}

theorem nil (hkept : ∀ name, after name = before name ∨ before name = .absent ∧ after name = .waiting) :
    Marks before after [] where
  nodup := List.nodup_nil
  waited _ hmem := absurd hmem List.not_mem_nil
  began _ hmem := hmem.elim (absurd · List.not_mem_nil) (absurd · List.not_mem_nil)
  ended _ hmem := absurd hmem List.not_mem_nil
  kept name _ := hkept name

/-- A module whose initializer was called does not wait any more. -/
theorem not_started (first : Marks before between events) (second : Marks between after more)
    (hstarted : .started name ∈ events) : .started name ∉ more := by
  intro hagain
  rcases second.waited name hagain with hphase | hphase <;>
    rcases first.ended name hstarted with ⟨-, -, hended⟩ | ⟨-, -, hended⟩ <;> simp [hphase] at hended

theorem started_of_mem (marks : Marks before after events) {event : InitializerEvent} (hmem : event ∈ events) :
    ∃ name, .started name ∈ events ∧
      (event = .started name ∨ event = .finished name ∨ event = .panicked name) := by
  cases event with
  | started name => exact ⟨name, hmem, .inl rfl⟩
  | finished name => exact ⟨name, marks.began name (.inl hmem), .inr (.inl rfl)⟩
  | panicked name => exact ⟨name, marks.began name (.inr hmem), .inr (.inr rfl)⟩

theorem append (first : Marks before between events) (second : Marks between after more) :
    Marks before after (events ++ more) where
  nodup := by
    refine List.nodup_append.mpr ⟨first.nodup, second.nodup, ?_⟩
    rintro event hevent _ hmore rfl
    obtain ⟨name, hstarted, hcases⟩ := first.started_of_mem hevent
    refine first.not_started second hstarted ?_
    rcases hcases with rfl | rfl | rfl
    · exact hmore
    · exact second.began name (.inl hmore)
    · exact second.began name (.inr hmore)
  waited name hmem := by
    rcases List.mem_append.mp hmem with hfirst | hsecond
    · exact first.waited name hfirst
    · have hnot : .started name ∉ events := fun hstarted => first.not_started second hstarted hsecond
      rcases first.kept name hnot with hsame | ⟨habsent, -⟩
      · exact hsame ▸ second.waited name hsecond
      · exact .inr habsent
  began name hmem := by
    simp only [List.mem_append] at hmem ⊢
    rcases hmem with (hfirst | hsecond) | (hfirst | hsecond)
    · exact .inl (first.began name (.inl hfirst))
    · exact .inr (second.began name (.inl hsecond))
    · exact .inl (first.began name (.inr hfirst))
    · exact .inr (second.began name (.inr hsecond))
  ended name hmem := by
    simp only [List.mem_append, not_or] at hmem ⊢
    rcases hmem with hfirst | hsecond
    · have hnot := first.not_started second hfirst
      have hends := not_or.mp fun hmem => hnot (second.began name hmem)
      have hphase : after name = between name := by
        rcases second.kept name hnot with hsame | ⟨habsent, -⟩
        · exact hsame
        · rcases first.ended name hfirst with ⟨-, -, hended⟩ | ⟨-, -, hended⟩ <;> simp [habsent] at hended
      simpa [hends, hphase] using first.ended name hfirst
    · have hnot : .started name ∉ events := fun hstarted => first.not_started second hstarted hsecond
      have hends := not_or.mp fun hmem => hnot (first.began name hmem)
      simpa [hends] using second.ended name hsecond
  kept name hnot := by
    rw [List.mem_append, not_or] at hnot
    rcases first.kept name hnot.1 with hfirst | ⟨habsent, hfirst⟩ <;>
      rcases second.kept name hnot.2 with hsecond | ⟨habsent', hsecond⟩
    · exact .inl (hsecond.trans hfirst)
    · exact .inr ⟨hfirst.symm.trans habsent', hsecond⟩
    · exact .inr ⟨habsent, hsecond.trans hfirst⟩
    · rw [hfirst] at habsent'
      cases habsent'

/-- The module whose initializer runs is not started again by what it calls. -/
theorem running (body : Marks (Function.update before name .running) between inner) :
    .started name ∉ inner ∧ between name = .running := by
  have hnot : .started name ∉ inner := fun hstarted => by
    rcases body.waited name hstarted with hphase | hphase <;> simp at hphase
  refine ⟨hnot, ?_⟩
  rcases body.kept name hnot with hsame | ⟨habsent, -⟩
  · rw [hsame, Function.update_self]
  · simp at habsent

/-- An initializer that returns or panics, around what it calls. -/
theorem enclose (hwaiting : before name = .waiting)
    (body : Marks (Function.update before name .running) between inner) {ending : InitializerEvent}
    {phase : ModulePhase}
    (hending : ending = .finished name ∧ phase = .done ∨ ending = .panicked name ∧ phase = .running) :
    Marks before (Function.update between name phase) (.started name :: (inner ++ [ending])) := by
  obtain ⟨hnot, -⟩ := body.running
  have hends : .finished name ∉ inner ∧ .panicked name ∉ inner :=
    ⟨fun hmem => hnot (body.began name (.inl hmem)), fun hmem => hnot (body.began name (.inr hmem))⟩
  have hfresh : ending ∉ inner := by
    rcases hending with ⟨rfl, -⟩ | ⟨rfl, -⟩
    · exact hends.1
    · exact hends.2
  have hother : ∀ other, other ≠ name →
      (.started other ∈ .started name :: (inner ++ [ending]) ↔ .started other ∈ inner) ∧
      (.finished other ∈ .started name :: (inner ++ [ending]) ↔ .finished other ∈ inner) ∧
      (.panicked other ∈ .started name :: (inner ++ [ending]) ↔ .panicked other ∈ inner) := by
    intro other hne
    rcases hending with ⟨rfl, -⟩ | ⟨rfl, -⟩ <;> simp [hne]
  refine ⟨?_, ?_, ?_, ?_, ?_⟩
  · rw [List.nodup_cons, List.nodup_append]
    refine ⟨?_, body.nodup, List.nodup_singleton _, ?_⟩
    · rcases hending with ⟨rfl, -⟩ | ⟨rfl, -⟩ <;> simp [hnot]
    · rintro event hevent last hlast rfl
      exact hfresh (List.mem_singleton.mp hlast ▸ hevent)
  · intro other hmem
    by_cases hne : other = name
    · exact .inl (hne ▸ hwaiting)
    · have hphase := body.waited other ((hother other hne).1.mp hmem)
      rwa [Function.update_of_ne hne] at hphase
  · intro other hmem
    by_cases hne : other = name
    · exact hne ▸ List.mem_cons_self
    · rw [(hother other hne).1]
      rw [(hother other hne).2.1, (hother other hne).2.2] at hmem
      exact body.began other hmem
  · intro other hmem
    by_cases hne : other = name
    · subst hne
      rw [Function.update_self]
      rcases hending with ⟨rfl, rfl⟩ | ⟨rfl, rfl⟩ <;> simp [hends]
    · rw [(hother other hne).2.1, (hother other hne).2.2, Function.update_of_ne hne]
      exact body.ended other ((hother other hne).1.mp hmem)
  · intro other hnotMem
    have hne : other ≠ name := fun heq => hnotMem (heq ▸ List.mem_cons_self)
    have hkept := body.kept other fun hmem => hnotMem ((hother other hne).1.mpr hmem)
    rwa [Function.update_of_ne hne] at hkept ⊢

end Marks

variable {asks : Option String → String → Prop} {caller : Option String}

theorem marks_returns (hwaits : registry.waits name = true)
    (body : Marks (registry.start name).phase middle.phase inner) :
    Marks registry.phase (middle.finish name).phase (.started name :: (inner ++ [.finished name])) := by
  have hwaiting := waits_iff.mp hwaits
  rw [phase_start hwaiting] at body
  rw [phase_finish (by rw [body.running.2]; exact ModulePhase.noConfusion)]
  exact body.enclose hwaiting (.inl ⟨rfl, rfl⟩)

theorem marks_panics (hwaits : registry.waits name = true)
    (body : Marks (registry.start name).phase middle.phase inner) :
    Marks registry.phase middle.phase (.started name :: (inner ++ [.panicked name])) := by
  have hwaiting := waits_iff.mp hwaits
  rw [phase_start hwaiting] at body
  have hmarks := body.enclose hwaiting (.inr ⟨rfl, rfl⟩)
  rwa [← body.running.2, Function.update_eq_self] at hmarks

theorem Performs.marks (run : Performs asks caller registry events final) :
    Marks registry.phase final.phase events := by
  induction run with
  | done => exact .nil fun _ => .inl rfl
  | register name initializer _ ih => exact (Marks.nil (phase_register name initializer)).append ih
  | refused _ _ _ ih => exact ih
  | returns _ hwaits _ _ _ ihbody ihrest =>
      have hmarks := (marks_returns hwaits ihbody).append ihrest
      rwa [List.cons_append, List.append_assoc, List.singleton_append] at hmarks
  | panics _ hwaits _ _ _ ihbody ihrest =>
      have hmarks := (marks_panics hwaits ihbody).append ihrest
      rwa [List.cons_append, List.append_assoc, List.singleton_append] at hmarks

theorem InitializesModules.marks {names result : List String}
    (run : InitializesModules asks registry names result events final) :
    Marks registry.phase final.phase events := by
  induction run with
  | nil => exact .nil fun _ => .inl rfl
  | refused _ _ ih => exact ih
  | initialized hwaits body _ _ ih =>
      have hmarks := (marks_returns hwaits body.marks).append ih
      rwa [List.cons_append, List.append_assoc, List.singleton_append] at hmarks

structure Listed (registry : ModuleRegistry Initializer) : Prop where
  nodup : registry.order.Nodup
  mem_order : ∀ name, name ∈ registry.order ↔ (registry.modules name).isSome = true

theorem Listed.register (hlisted : registry.Listed) (name : String) (initializer : Option Initializer) :
    (registry.register name initializer).Listed := by
  rw [ModuleRegistry.register]
  split
  · exact hlisted
  · cases hmodule : registry.modules name with
    | none =>
        have hnew : name ∉ registry.order := fun hmem => by
          simpa [hmodule] using (hlisted.mem_order name).mp hmem
        refine ⟨?_, fun other => ?_⟩
        · rw [List.nodup_append]
          refine ⟨hlisted.nodup, List.nodup_singleton _, ?_⟩
          rintro other hmem last hlast rfl
          exact hnew (List.mem_singleton.mp hlast ▸ hmem)
        · by_cases hother : other = name
          · simp [hother]
          · simp [hother, hlisted.mem_order]
    | some module =>
        refine ⟨hlisted.nodup, fun other => ?_⟩
        by_cases hother : other = name
        · simp [hother, hlisted.mem_order, hmodule]
        · simp [hother, hlisted.mem_order]

/-- A step that changes the flags of one module. -/
theorem Listed.update (hlisted : registry.Listed)
    (change : RuntimeModule Initializer → RuntimeModule Initializer) :
    Listed { registry with
      modules := Function.update registry.modules name ((registry.modules name).map change) } where
  nodup := hlisted.nodup
  mem_order other := by
    by_cases hother : other = name
    · simp [hother, hlisted.mem_order]
    · simp [hother, hlisted.mem_order]

theorem Performs.listed (run : Performs asks caller registry events final) (hlisted : registry.Listed) :
    final.Listed := by
  induction run with
  | done => exact hlisted
  | register name initializer _ ih => exact ih (hlisted.register name initializer)
  | refused _ _ _ ih => exact ih hlisted
  | returns _ _ _ _ _ ihbody ihrest => exact ihrest ((ihbody (hlisted.update _)).update _)
  | panics _ _ _ _ _ ihbody ihrest => exact ihrest (ihbody (hlisted.update _))

theorem initialized_iff : registry.initialized name = true ↔ registry.phase name = .done := by
  unfold initialized phase
  cases registry.modules name with
  | none => simp
  | some module => cases hdone : module.initialized <;> cases hrunning : module.initializing <;>
      simp [RuntimeModule.phase, hdone, hrunning]

/-- Each initializer was called at most once. The modules whose initializer returned are initialized, and those whose
initializer panicked stay marked as running. -/
structure CalledOnce (events : List InitializerEvent) (registry : ModuleRegistry Initializer) : Prop where
  nodup : events.Nodup
  names_nodup : registry.moduleNames.Nodup
  mem_names : ∀ name, name ∈ registry.moduleNames ↔ registry.phase name ≠ .absent
  finished : ∀ name, .finished name ∈ events ↔ registry.initialized name = true
  panicked : ∀ name, .panicked name ∈ events ↔ registry.phase name = .running
  started : ∀ name, .started name ∈ events ↔ .finished name ∈ events ∨ .panicked name ∈ events

/-- Whatever the initializers register, ask for and recover from. -/
theorem performs_once (run : Performs asks caller newModuleRegistry events final) : CalledOnce events final := by
  have hmarks := run.marks
  have hlisted := run.listed ⟨List.nodup_nil, by simp [newModuleRegistry]⟩
  have hends : ∀ name, (.finished name ∈ events ↔ final.initialized name = true) ∧
      (.panicked name ∈ events ↔ final.phase name = .running) ∧
      (.started name ∈ events ↔ .finished name ∈ events ∨ .panicked name ∈ events) := by
    intro name
    rw [initialized_iff]
    by_cases hstarted : .started name ∈ events
    · rcases hmarks.ended name hstarted with ⟨hfinished, hpanicked, hphase⟩ | ⟨hpanicked, hfinished, hphase⟩ <;>
        simp [hstarted, hfinished, hpanicked, hphase]
    · have hends := not_or.mp fun hmem => hstarted (hmarks.began name hmem)
      have hkept := hmarks.kept name hstarted
      rw [phase_newModuleRegistry] at hkept
      rcases hkept with hphase | ⟨-, hphase⟩ <;> simp [hstarted, hends, hphase]
  refine ⟨hmarks.nodup, hlisted.nodup.filter _, fun name => ?_, fun name => (hends name).1,
    fun name => (hends name).2.1, fun name => (hends name).2.2⟩
  have hmem := hlisted.mem_order name
  unfold moduleNames phase
  cases hmodule : final.modules name with
  | none => simp [hmodule]
  | some module =>
      rw [hmodule] at hmem
      have hphase : module.phase ≠ .absent := by
        unfold RuntimeModule.phase
        split
        · exact ModulePhase.noConfusion
        · split <;> exact ModulePhase.noConfusion
      simpa [hmodule, hmem] using hphase

/-- Two modules whose initializers ask for each other. -/
theorem performs_once_mutual : ∃ final : ModuleRegistry Unit,
    CalledOnce [.started "app", .started "log", .finished "log", .finished "app"] final := by
  let registry := ((newModuleRegistry.register "app" (some ())).register "log" (some ()))
  have hcalled : ∀ {name : String} {registry middle : ModuleRegistry Unit} {inner : List InitializerEvent},
      (∃ module ∈ registry.modules name, module.initializer = some ()) → registry.PerformsNothing name inner middle :=
    fun ⟨module, hmem, hsome⟩ hnone => absurd (hnone module hmem) (by simp [hsome])
  have hback : Performs (fun _ _ => True) (some "log") ((registry.start "app").start "log") []
      ((registry.start "app").start "log") :=
    @Performs.refused _ _ _ _ _ _ "app" trivial (by decide) .done
  have hlog : Performs (fun _ _ => True) (some "app") (registry.start "app")
      [.started "log", .finished "log"] (((registry.start "app").start "log").finish "log") :=
    .returns trivial (by decide) hback (hcalled ⟨_, rfl, rfl⟩) .done
  have happ : Performs (fun _ _ => True) none registry
      [.started "app", .started "log", .finished "log", .finished "app"] _ :=
    .returns trivial (by decide) hlog (hcalled ⟨_, rfl, rfl⟩) .done
  exact ⟨_, performs_once (.register "app" (some ()) (.register "log" (some ()) happ))⟩

theorem Marks.stays {before after : String → ModulePhase} (marks : Marks before after events)
    (hphase : before name = .done ∨ before name = .running) : after name = before name := by
  have hnot : .started name ∉ events := fun hstarted => by
    rcases marks.waited name hstarted with hwaited | hwaited <;> simp [hwaited] at hphase
  rcases marks.kept name hnot with hsame | ⟨habsent, -⟩
  · exact hsame
  · simp [habsent] at hphase

theorem Marks.present {before after : String → ModulePhase} (marks : Marks before after events)
    (hpresent : before name ≠ .absent) : after name ≠ .absent := by
  by_cases hstarted : .started name ∈ events
  · rcases marks.ended name hstarted with ⟨-, -, hphase⟩ | ⟨-, -, hphase⟩ <;> simp [hphase]
  · rcases marks.kept name hstarted with hsame | ⟨-, hphase⟩
    · rwa [hsame]
    · simp [hphase]

/-- Each name is returned once, in the order of the list. A registered module of the list is then initialized, or it
was running before, or its initializer panicked where another one recovered from it. -/
structure Completes (registry final : ModuleRegistry Initializer) (names result : List String)
    (events : List InitializerEvent) : Prop where
  sublist : result.Sublist names
  nodup : result.Nodup
  finished : ∀ name ∈ result, .finished name ∈ events
  ended : ∀ name ∈ names, registry.phase name ≠ .absent → final.phase name = .done ∨
    final.phase name = .running ∧ (registry.phase name = .running ∨ .panicked name ∈ events)

theorem initializeModules_completes {names result : List String}
    (run : InitializesModules asks registry names result events final) :
    Completes registry final names result events := by
  have hevents : (result.map InitializerEvent.finished).Sublist events := by
    induction run with
    | nil => exact .slnil
    | refused _ _ ih => exact ih
    | @initialized _ _ _ _ _ _ inner _ _ _ _ _ ih =>
        exact ((ih.cons_cons _).trans (List.sublist_append_right inner _)).cons _
  have hnodup : result.Nodup := (run.marks.nodup.sublist hevents).of_map _
  have hfinished : ∀ name ∈ result, .finished name ∈ events := fun name hname =>
    hevents.subset (List.mem_map_of_mem hname)
  refine ⟨?_, hnodup, hfinished, ?_⟩
  · clear hevents hnodup hfinished
    induction run with
    | nil => exact .slnil
    | refused _ _ ih => exact ih.cons _
    | initialized _ _ _ _ ih => exact ih.cons_cons _
  · clear hevents hnodup hfinished
    induction run with
    | nil => simp
    | @refused registry _ head _ _ _ hrefused rest ih =>
        intro name hname hpresent
        rcases List.mem_cons.mp hname with rfl | hname
        · have hphase : registry.phase name = .done ∨ registry.phase name = .running := by
            have hwaits := mt waits_iff.mpr (hrefused ▸ Bool.false_ne_true)
            cases hphase : registry.phase name <;> simp_all
          rw [rest.marks.stays hphase]
          exact hphase.imp_right fun hrunning => ⟨hrunning, .inl hrunning⟩
        · exact ih name hname hpresent
    | @initialized registry middle _ head _ _ inner _ hwaits body _ rest ih =>
        intro name hname hpresent
        have hmarks := marks_returns hwaits body.marks
        rcases List.mem_cons.mp hname with rfl | hname
        · have hdone : (middle.finish name).phase name = .done := by
            rcases hmarks.ended name List.mem_cons_self with ⟨-, -, hphase⟩ | ⟨-, hnot, -⟩
            · exact hphase
            · simp at hnot
          exact .inl ((rest.marks.stays (.inl hdone)).trans hdone)
        · refine (ih name hname (hmarks.present hpresent)).imp_right fun ⟨hrunning, hcause⟩ => ⟨hrunning, ?_⟩
          rcases hcause with hcause | hcause
          · by_cases hstarted : .started name ∈ InitializerEvent.started head :: (inner ++ [.finished head])
            · rcases hmarks.ended name hstarted with ⟨-, -, hphase⟩ | ⟨hpanicked, -, -⟩
              · simp [hcause] at hphase
              · right
                simp only [List.mem_cons, List.mem_append, reduceCtorEq, List.not_mem_nil, false_or, or_false] at hpanicked ⊢
                exact .inl hpanicked
            · rcases hmarks.kept name hstarted with hsame | ⟨-, hphase⟩
              · exact .inl (hsame ▸ hcause)
              · simp [hcause] at hphase
          · right
            simp [hcause]

/-- The second module is initialized by the first one of the list. -/
theorem initializeModules_completes_nested : ∃ registry final : ModuleRegistry Unit,
    Completes registry final ["app", "log", "app"] ["app"]
      [.started "app", .started "log", .finished "log", .finished "app"] := by
  let registry := (((newModuleRegistry : ModuleRegistry Unit).register "app" (some ())).register "log" none)
  have hlog : Performs (fun _ _ => True) (some "app") (registry.start "app")
      [.started "log", .finished "log"] (((registry.start "app").start "log").finish "log") :=
    .returns trivial (by decide) .done (fun _ => ⟨rfl, rfl⟩) .done
  have hcalled : registry.PerformsNothing "app" [.started "log", .finished "log"]
      (((registry.start "app").start "log").finish "log") := by
    intro hnone
    exact absurd (hnone (newRuntimeModule "app" (some ())) rfl) (by simp [newRuntimeModule])
  exact ⟨registry, _, initializeModules_completes
    (.initialized (by decide) hlog hcalled (.refused (by decide) (.refused (by decide) .nil)))⟩

open Resolver

/-- What asks only for modules that are done calls nothing. -/
theorem Performs.silent {target : String} (run : Performs asks (some target) registry events final)
    (hdone : ∀ name, asks (some target) name → registry.phase name = .done) : events = [] := by
  generalize hcaller : some target = caller at run
  induction run with
  | done => rfl
  | @register _ registry _ _ name initializer _ ih =>
      refine ih (fun other hother => ?_) hcaller
      rcases phase_register name initializer other with hsame | ⟨habsent, -⟩
      · exact hsame.trans (hdone other hother)
      · rw [hdone other hother] at habsent
        cases habsent
  | refused _ _ _ ih => exact ih hdone hcaller
  | returns hask hwaits | panics hask hwaits =>
      rw [waits_iff, hdone _ (hcaller ▸ hask)] at hwaits
      cases hwaits

/-- When each initializer asks only for what its module reaches by imports, and the modules of a list that puts
imports first all wait, the initializers run one after the other in the order of the list. -/
theorem initializeModules_ordered {graph : ModuleGraph} {rest result : List String} (done : List String)
    (run : InitializesModules asks registry rest result events final)
    (hasks : ∀ target name, asks (some target) name → Relation.TransGen graph.Imports target name)
    (hordered : graph.Ordered (done ++ rest)) (hnodup : rest.Nodup)
    (hdone : ∀ name ∈ done, registry.phase name = .done) (hwaiting : ∀ name ∈ rest, registry.waits name = true) :
    result = rest ∧ events = rest.flatMap fun name => [.started name, .finished name] := by
  induction run generalizing done with
  | nil => exact ⟨rfl, rfl⟩
  | refused hrefused => simp [hwaiting _ List.mem_cons_self] at hrefused
  | @initialized registry middle _ name names _ _ _ hwaits body _ rest ih =>
      have hnew : name ∉ names := (List.nodup_cons.mp hnodup).1
      have hinner := body.silent fun other hother => by
        have hbefore := hdone other (hordered.before (hasks name other hother))
        have hne : other ≠ name := fun heq => by
          rw [waits_iff, ← heq, hbefore] at hwaits
          cases hwaits
        rw [phase_start (waits_iff.mp hwaits), Function.update_of_ne hne, hbefore]
      subst hinner
      have hmarks := marks_returns hwaits body.marks
      have hfinished : (middle.finish name).phase name = .done := by
        rcases hmarks.ended name List.mem_cons_self with ⟨-, -, hphase⟩ | ⟨-, hnot, -⟩
        · exact hphase
        · simp at hnot
      have hrest := @ih (done ++ [name]) (by simpa using hordered) (List.nodup_cons.mp hnodup).2
        (fun other hother => by
          rcases List.mem_append.mp hother with hother | hother
          · exact (hmarks.stays (.inl (hdone other hother))).trans (hdone other hother)
          · exact List.mem_singleton.mp hother ▸ hfinished)
        (fun other hother => by
          have hphase := waits_iff.mp (hwaiting other (List.mem_cons_of_mem _ hother))
          have hne : other ≠ name := fun heq => hnew (heq ▸ hother)
          rcases hmarks.kept other (by simp [hne]) with hsame | ⟨habsent, -⟩
          · exact waits_iff.mpr (hsame.trans hphase)
          · simp [habsent] at hphase)
      obtain ⟨rfl, rfl⟩ := hrest
      exact ⟨rfl, rfl⟩

theorem initializationOrderFor_ok {graph : ModuleGraph} {fuel : Nat} {entries order : List String}
    (hfuel : (graph.imports.getD []).length < fuel)
    (horder : graph.initializationOrderFor fuel entries = some (.ok order)) : order.Nodup ∧ graph.Ordered order := by
  by_cases hmap : graph.imports = none
  · rw [ModuleGraph.initializationOrderFor, hmap] at horder
    cases horder
    exact ⟨List.nodup_nil, ordered_nil⟩
  · rcases initializationOrderFor_cases entries hmap hfuel with
      ⟨order', horder', hnodup, hordered, -⟩ | ⟨error, herror, -⟩
    · rw [horder'] at horder
      cases horder
      exact ⟨hnodup, hordered⟩
    · rw [herror] at horder
      cases horder

/-- Initializing the modules of `InitializationOrderFor`: each initializer returns before that of a module that imports
its module is called. -/
theorem initializationOrderFor_initializes {graph : ModuleGraph} {fuel : Nat} {entries order result : List String}
    (hfuel : (graph.imports.getD []).length < fuel)
    (horder : graph.initializationOrderFor fuel entries = some (.ok order))
    (hasks : ∀ target name, asks (some target) name → Relation.TransGen graph.Imports target name)
    (hwaiting : ∀ name ∈ order, registry.waits name = true)
    (run : InitializesModules asks registry order result events final) :
    result = order ∧ events = order.flatMap fun name => [.started name, .finished name] := by
  obtain ⟨hnodup, hordered⟩ := initializationOrderFor_ok hfuel horder
  exact initializeModules_ordered [] run hasks hordered hnodup (by simp) hwaiting

/-- A module whose initializer asks for the module that it imports. -/
theorem initializationOrderFor_initializes_import : ∃ final : ModuleRegistry Unit,
    InitializesModules (fun caller name => caller = some "app" ∧ name = "log")
        (((newModuleRegistry : ModuleRegistry Unit).register "app" (some ())).register "log" none) ["log", "app"]
        ["log", "app"] [.started "log", .finished "log", .started "app", .finished "app"] final ∧
      ["log", "app"] = ["log", "app"] ∧
      [InitializerEvent.started "log", .finished "log", .started "app", .finished "app"] =
        ["log", "app"].flatMap fun name => [.started name, .finished name] := by
  let graph := newModuleGraph.addModule "app" ["log"]
  let registry := (((newModuleRegistry : ModuleRegistry Unit).register "app" (some ())).register "log" none)
  let middle := (registry.start "log").finish "log"
  have hcalled : middle.PerformsNothing "app" [] (middle.start "app") := fun _ => ⟨rfl, rfl⟩
  have happ : Performs (fun caller name => caller = some "app" ∧ name = "log") (some "app") (middle.start "app") []
      (middle.start "app") := @Performs.refused _ _ _ _ _ _ "log" ⟨rfl, rfl⟩ (by decide) .done
  have hrun : InitializesModules (fun caller name => caller = some "app" ∧ name = "log") registry ["log", "app"]
      ["log", "app"] [.started "log", .finished "log", .started "app", .finished "app"]
      ((middle.start "app").finish "app") :=
    @InitializesModules.initialized _ _ registry _ _ "log" ["app"] _ [] _ (by decide) .done (fun _ => ⟨rfl, rfl⟩)
      (@InitializesModules.initialized _ _ middle _ _ "app" [] _ [] _ (by decide) happ hcalled .nil)
  refine ⟨_, hrun, @initializationOrderFor_initializes Unit registry _ _ _ graph 3 ["app"] _ _ (by decide) rfl ?_
    (by decide) hrun⟩
  rintro target name ⟨heq, rfl⟩
  obtain rfl := Option.some.inj heq
  exact .single (show "log" ∈ graph.importsOf "app" by decide)

end ModuleRegistry

end Jayess.Runtime
