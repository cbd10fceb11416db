import BuildAhead.Proofs.Code.Splitting
import BuildAhead.Services.Rendering

set_option autoImplicit false

/-!
# Services: what a rendered table does

When the unit of a table is first used, its sub-loaders run in order and put each entry of the table
into its map, once and in the order of the table. This holds for both profiles and wherever the
table is split; the profiles differ in the values that they put, and in what is done with the map
afterwards. Both split a table at the same places.
-/

namespace BuildAhead.TableSpec

open Code Code.Exec

variable {t : TableSpec} {profile : Profile} {space : String} {maxUnitSize : Nat}

/-- The map of a table, which is the first object that is made. -/
def entriesMap : Value := .object 0 "LinkedHashMap" []

/-- The fields of a table once it is in use. -/
def entriesScope : Scope := [(entriesField, entriesMap)]

/-- What the generated map has for an entry once the code has run. -/
def entryAnswer (profile : Profile) (e : TableEntry) : Value :=
  match profile, e.implementation with
  | .jit, _ => .null
  | .native, .factoryMethod => .methodRef e.name "provider"
  | .native, .noArgConstructor => .methodRef e.name "new"

/-- The call that enters an entry. -/
def putEvent (profile : Profile) (e : TableEntry) : Event :=
  .outside entriesMap "put" [.text e.name, entryAnswer profile e]

/-- The calls behind those of the sub-loaders. -/
def afterEvents : Profile → List Event
  | .jit => [.outside (.typeRef Runtime.serviceTable) "preloadParallel" [entriesMap]]
  | .native => []

/-- All calls of a table that is first used: each sub-loader, with the entries that it enters. -/
def loadEvents (t : TableSpec) (profile : Profile) (maxUnitSize : Nat) : List Event :=
  (t.segments maxUnitSize).zipIdx.flatMap (fun s =>
    .own ("load" ++ toString s.2) [] :: s.1.map (putEvent profile)) ++ afterEvents profile

/-- No two methods of a rendered table have one name. -/
theorem names_methods_render_nodup :
    ((t.render profile space maxUnitSize).methods.map Method.name).Nodup := by
  have hnodup : ((t.loaders profile maxUnitSize).methods.map Method.name).Nodup :=
    SubLoaders.names_nodup
  unfold render
  rw [List.map_append, List.nodup_append]
  refine ⟨hnodup, List.nodup_singleton _, ?_⟩
  intro name hname other hother
  unfold loaders at hname
  rw [SubLoaders.names_methods, List.mem_map] at hname
  obtain ⟨i, -, rfl⟩ := hname
  have hother : other = "findAll" := by simpa [findAll] using hother
  rw [hother]
  intro heq
  have hchars := congrArg String.toList heq
  simp [String.toList_append] at hchars

section

variable {own : String → List Value → Exec Value} {scope : Scope}

theorem answers_entryValue (e : TableEntry) :
    Answers (eval own scope (entryValue profile e)) (entryAnswer profile e) [] := by
  obtain ⟨name, implementation⟩ := e
  cases profile with
  | jit => exact answers_eval_null
  | native =>
    cases implementation with
    | factoryMethod => exact answers_eval_methodRef name "provider"
    | noArgConstructor => exact answers_eval_methodRef name "new"

theorem answers_entriesField :
    Answers (eval own entriesScope (.ident entriesField)) entriesMap [] :=
  answers_eval_ident rfl

theorem answers_putEntry (e : TableEntry) :
    Answers (perform own entriesScope (putEntry profile e)) (none, entriesScope)
      [putEvent profile e] := by
  have hargs : Answers (evalAll own entriesScope [.text e.name, entryValue profile e])
      [.text e.name, entryAnswer profile e] [] :=
    answers_evalAll_cons (answers_eval_text e.name)
      (answers_evalAll_cons (answers_entryValue e) answers_evalAll_nil)
  exact answers_perform_eval (answers_eval_callOn answers_entriesField hargs)

theorem answers_afterLoading :
    Answers (performAll own entriesScope (afterLoading profile)) none (afterEvents profile) := by
  cases profile with
  | jit =>
    have hpreload : Answers (eval own entriesScope
        (.callStatic Runtime.serviceTable "preloadParallel" [.ident entriesField])) _ _ :=
      answers_eval_callOn (answers_eval_typeRef _)
        (answers_evalAll_cons answers_entriesField answers_evalAll_nil)
    exact answers_performAll_cons (answers_perform_eval hpreload) answers_performAll_nil
  | native => exact answers_performAll_nil

end

/-- When a rendered table is first used, its field is given the map, and the sub-loaders enter the
entries into it. -/
theorem run_firstUse_render (depth : Nat) :
    ((t.render profile space maxUnitSize).firstUse (depth + 1)).run {} =
      some (entriesScope, ⟨1, t.loadEvents profile maxUnitSize⟩) := by
  have hfields : ((t.render profile space maxUnitSize).initFields (depth + 1) []
      (t.render profile space maxUnitSize).fields).run {} = some (entriesScope, ⟨1, []⟩) := rfl
  have hblock : Answers
      (performAll ((t.render profile space maxUnitSize).call entriesScope (depth + 1))
        entriesScope (t.render profile space maxUnitSize).staticInit)
      none (t.loadEvents profile maxUnitSize) := by
    refine CodeUnit.answers_subLoaders names_methods_render_nodup ?_ answers_evalAll_nil rfl
      answers_putEntry answers_afterLoading
    intro m hm
    exact List.mem_append_left _ hm
  unfold CodeUnit.firstUse
  rw [run_bind_of_eq hfields]
  exact hblock.map (fun _ => entriesScope) ⟨1, []⟩

theorem callOn?_afterEvents : (afterEvents profile).filterMap (Trace.callOn? 0) = [] := by
  cases profile with
  | jit => rfl
  | native => rfl

/-- Each entry is put into the map once, in the order of the table. -/
theorem fills_loadEvents :
    (⟨1, t.loadEvents profile maxUnitSize⟩ : Trace).Fills 0
      (t.entries.map fun e => (e.name, entryAnswer profile e)) := by
  have hput : (fun e => Trace.callOn? 0 (putEvent profile e)) =
      some ∘ fun e => ("put", [.text e.name, entryAnswer profile e]) := rfl
  unfold Trace.Fills Trace.callsOn loadEvents
  rw [List.filterMap_append, callOn?_afterEvents, List.append_nil, CodeUnit.callsOn_subLoaders, hput,
    List.filterMap_eq_map, TableSpec.segments, flatten_segments, List.map_map]
  rfl

/-! ## Segments -/

theorem names_methods_render :
    (t.render profile space maxUnitSize).methods.map Method.name =
      (List.range (t.segments maxUnitSize).length).map (fun i => "load" ++ toString i) ++
        ["findAll"] := by
  unfold render loaders
  rw [List.map_append, SubLoaders.names_methods, List.length_map]
  rfl

/-- What the sub-loaders do: each is called once, in the order of their numbers. -/
theorem ownCalls_loadEvents :
    (⟨1, t.loadEvents profile maxUnitSize⟩ : Trace).ownCalls =
      (List.range (t.segments maxUnitSize).length).map fun i => ("load" ++ toString i, []) := by
  have hafter : (afterEvents profile).filterMap Trace.ownCall? = [] := by
    cases profile with
    | jit => rfl
    | native => rfl
  unfold Trace.ownCalls loadEvents
  rw [List.filterMap_append, hafter, List.append_nil, CodeUnit.ownCalls_subLoaders fun _ => rfl]

/-- The calls of the sub-loaders, each followed by the entries of its segment. -/
def segmentEvents (profile : Profile) (segments : List (List TableEntry)) : List Event :=
  segments.zipIdx.flatMap fun s =>
    .own ("load" ++ toString s.2) [] :: s.1.map (putEvent profile)

/-- Nothing is preloaded while the sub-loaders run. -/
theorem method_ne_preload_of_mem {segments : List (List TableEntry)} {e : Event}
    (he : e ∈ segmentEvents profile segments) : e.method ≠ "preloadParallel" := by
  obtain ⟨s, -, he⟩ := List.mem_flatMap.1 he
  rcases List.mem_cons.1 he with rfl | he
  · intro heq
    have hchars := congrArg String.toList heq
    simp [Event.method, String.toList_append] at hchars
  · obtain ⟨entry, -, rfl⟩ := List.mem_map.1 he
    show "put" ≠ "preloadParallel"
    decide

/-- A unit holds segments of a table. It has a sub-loader for each of them, and when it is first
used, these are called in order, and each puts the entries of its segment into the map. -/
structure LoadsSegments (profile : Profile) (u : CodeUnit) (segments : List (List TableEntry)) :
    Prop where
  methods : u.methods.map Method.name =
    (List.range segments.length).map (fun i => "load" ++ toString i) ++ ["findAll"]
  distinct : (u.methods.map Method.name).Nodup
  runs : ∀ depth, ∃ trace, (u.firstUse (depth + 1)).run {} = some (entriesScope, trace) ∧
    trace.Fills 0 (segments.flatten.map fun e => (e.name, entryAnswer profile e)) ∧
    trace.ownCalls = ((List.range segments.length).map fun i => ("load" ++ toString i, [])) ∧
    trace.events = segmentEvents profile segments ++ afterEvents profile
  /-- nothing is preloaded before all entries are in the map -/
  preloadsLast : ∀ e ∈ segmentEvents profile segments, e.method ≠ "preloadParallel"

/-- The units of both profiles hold a table in the same segments, which keep within the budget. -/
theorem render_loadsSegments (t : TableSpec) (space : String) (maxUnitSize : Nat) :
    ∃ segments : List (List TableEntry), segments.flatten = t.entries ∧
      (∀ s ∈ segments, Fits maxUnitSize (fun e => e.name.utf8ByteSize + 32) s) ∧
      ∀ profile, LoadsSegments profile (t.render profile space maxUnitSize) segments := by
  refine ⟨t.segments maxUnitSize, flatten_segments _ _ _, fits_segments _ _ _, ?_⟩
  intro profile
  refine ⟨names_methods_render, names_methods_render_nodup, ?_,
    fun e he => method_ne_preload_of_mem he⟩
  intro depth
  have hfills : (⟨1, t.loadEvents profile maxUnitSize⟩ : Trace).Fills 0
      ((t.segments maxUnitSize).flatten.map fun e => (e.name, entryAnswer profile e)) := by
    rw [TableSpec.segments, flatten_segments]
    exact fills_loadEvents
  exact ⟨_, run_firstUse_render depth, hfills, ownCalls_loadEvents, rfl⟩

end BuildAhead.TableSpec
