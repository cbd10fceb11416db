import BuildAhead.Optimizations.EntryPoint
import BuildAhead.Proofs.Code.OwnCalls
import BuildAhead.Proofs.Generation.History

set_option autoImplicit false

/-!
# Optimizations: what the entry point does

The unit of the entry point has the static initializers first, then `configure` and one helper,
`list0`. Its initializers are told apart by name, so the static block calls each of them once.
Nothing keeps an initializer from having the name of one of the two other methods, though, and then
every call by this name runs the initializer.
-/

namespace BuildAhead

open Code Code.Exec

namespace EntryPoint

/-- The methods of the entry point besides the initializers. -/
def reserved : List String := ["configure", "list0"]

/-- Calls methods without giving them anything, one after the other. -/
def callEach (own : String → List Value → Exec Value) : List String → Exec Unit
  | [] => return ()
  | name :: rest => do
    let _ ← own name []
    callEach own rest

/-- What an application is told about how it was prepared, where this is taken for the modules that
were run. -/
def told (profile : Profile) (optimizations : Value) : Value :=
  .map [(.text "prebake.enabled", .bool true), (.text "prebake.optimizations", optimizations),
    (.text "prebake.runtime", .text profile.slug)]

/-- What a unit does that is made of the initializers and the modules in this context. -/
structure Configures (c : Context) (u : CodeUnit) : Prop where
  methods : u.methods.map Method.name = c.staticInitializers.map Method.name ++ reserved
  /-- its methods have different names exactly when no initializer has a reserved one -/
  distinct_iff : (u.methods.map Method.name).Nodup ↔
    ∀ m ∈ c.staticInitializers, m.name ∉ reserved
  /-- a call by the name of an initializer is a call of it -/
  resolves : ∀ m ∈ c.staticInitializers, u.method? m.name = some m
  /-- there is one statement for each initializer, in order, which binds what it returns, if
  anything -/
  statements : List.Forall₂
    (fun m s => s.callees = [m.name] ∧
      ((∃ name, s = .bind name (.callOwn m.name [])) ↔ m.returns.isSome = true))
    c.staticInitializers u.staticInit
  /-- to use it for the first time is to call each initializer once, in order -/
  firstUse : ∀ depth, u.firstUse depth = do
    callEach (u.call [] depth) (c.staticInitializers.map Method.name)
    return []
  /-- no other method is called when the initializers call none -/
  callsOwn : (∀ m ∈ c.staticInitializers, m.callees = []) → ∀ depth,
    CallsOwn (u.firstUse depth) (c.staticInitializers.map fun m => (m.name, []))
  /-- the run ends when each call of an initializer does -/
  ends : ∀ depth, (∀ m ∈ c.staticInitializers, ∀ t,
      ((u.call [] depth m.name []).run t).isSome = true) →
    ∀ t, ((u.firstUse depth).run t).isSome = true
  /-- each other method that is called is there -/
  others : (u.methods.drop c.staticInitializers.length).flatMap Method.callees = ["list0"]
  /-- the builder is told what the first method named `list0` answers -/
  passes : (∀ m ∈ c.staticInitializers, m.name ≠ "configure") →
    ∀ fields depth builder optimizations events,
      Answers (u.call fields depth "list0" []) optimizations events →
      Answers (u.call fields (depth + 1) "configure" [builder]) .null
        (.own "configure" [builder] :: events ++
          [.outside builder "properties" [told c.profile optimizations]])
  /-- this is the list of the modules that were run when no initializer has a reserved name -/
  configures : (∀ m ∈ c.staticInitializers, m.name ∉ reserved) → ∀ fields depth builder,
    Answers (u.call fields (depth + 2) "configure" [builder]) .null
      [.own "configure" [builder], .own "list0" [],
        .outside builder "properties" [told c.profile (.list (c.executedModules.map .text))]]

/-! ## The code -/

theorem canonicalItems_map_text (names : List String) :
    Json.canonicalItems (names.map .text) = names.map .text := by
  induction names with
  | nil => rfl
  | cons name rest ih => rw [List.map_cons, Json.canonicalItems, ih, Json.canonical]

theorem itemsOf_map_text (names : List String) (g : Literals) :
    g.itemsOf (names.map .text) = (names.map .text, g) := by
  induction names with
  | nil => rfl
  | cons name rest ih => simp [Literals.itemsOf, Literals.valueOf, ih]

/-- What an application is told, with the keys in their order. -/
theorem canonicalMembers_diagnosticProperties (c : Context) :
    Json.canonicalMembers (diagnosticProperties c).toList [] =
      [("prebake.enabled", .bool true), ("prebake.optimizations", .ofNames c.executedModules),
        ("prebake.runtime", .text c.profile.slug)] := by
  have hfirst : "prebake.enabled" < "prebake.optimizations" := by decide +kernel
  have hsecond : "prebake.optimizations" < "prebake.runtime" := by decide +kernel
  have hlist : (diagnosticProperties c).toList =
      [("prebake.enabled", .bool true), ("prebake.optimizations", .ofNames c.executedModules),
        ("prebake.runtime", .text c.profile.slug)] := by
    simp only [diagnosticProperties, Dict.ofList, List.foldl_cons, List.foldl_nil, Dict.insert,
      Dict.alter, Dict.toList, Dict.empty, Dict.alterEntries_nil]
    rw [Dict.alterEntries_cons_of_gt (String.lt_trans hfirst hsecond), Dict.alterEntries_nil,
      Dict.alterEntries_cons_of_gt hfirst, Dict.alterEntries_cons_of_lt hsecond]
  rw [hlist]
  simp only [Json.canonicalMembers, Json.canonical, Json.ofNames, Json.insertMember,
    canonicalItems_map_text, Dict.alterEntries_nil]
  rw [Dict.alterEntries_cons_of_gt hfirst, Dict.alterEntries_nil,
    Dict.alterEntries_cons_of_gt (String.lt_trans hfirst hsecond),
    Dict.alterEntries_cons_of_gt hsecond, Dict.alterEntries_nil]

/-- The helper with the list of the modules that were run. -/
def helper (c : Context) : Method :=
  Literals.helper "list0" "List" (.list (c.executedModules.map .text))

/-- The code for what an application is told. -/
def toldExpr (profile : Profile) : Expr :=
  .map [(.text "prebake.enabled", .bool true), (.text "prebake.optimizations", .callOwn "list0" []),
    (.text "prebake.runtime", .text profile.slug)]

/-- The method that tells the builder how the application was prepared. -/
def configure (c : Context) : Method where
  name := "configure"
  params := [⟨"builder", Runtime.contextBuilder⟩]
  body := [.eval (.callOn (.ident "builder") "properties" [toldExpr c.profile])]

theorem configurer_eq (c : Context) : configurer c =
    { space := c.space
      name := configurerName
      implements := [Runtime.applicationConfigurer]
      methods := c.staticInitializers ++ [configure c, helper c]
      staticInit := c.staticInitializers.map initializerCall } := by
  unfold configurer Literals.map
  rw [canonicalMembers_diagnosticProperties]
  simp only [Literals.membersOf, Literals.valueOf, Json.ofNames, itemsOf_map_text, Literals.record]
  rfl

/-! ## The static block -/

theorem performAll_initializerCalls (own : String → List Value → Exec Value) (scope : Scope)
    (ms : List Method) :
    Code.performAll own scope (ms.map initializerCall) = do
      callEach own (ms.map Method.name)
      return none := by
  induction ms generalizing scope with
  | nil => rfl
  | cons m rest ih =>
    rw [List.map_cons, List.map_cons, Code.performAll, callEach, initializerCall]
    cases m.returns with
    | none => simp [perform, eval, evalAll, Expr.callOwn, ih]
    | some type => simp [perform, eval, evalAll, Expr.callOwn, ih]

theorem callsOwn_callEach {own : String → List Value → Exec Value} {names : List String}
    (h : ∀ name ∈ names, CallsOwn (own name []) [(name, [])]) :
    CallsOwn (callEach own names) (names.map fun name => (name, [])) := by
  induction names with
  | nil => exact callsOwn_pure ()
  | cons name rest ih =>
    refine (h name List.mem_cons_self).bind fun _ => ih fun other hother => ?_
    exact h other (List.mem_cons_of_mem name hother)

theorem isSome_callEach {own : String → List Value → Exec Value} {names : List String}
    (h : ∀ name ∈ names, ∀ t, ((own name []).run t).isSome = true) (t : Trace) :
    ((callEach own names).run t).isSome = true := by
  induction names generalizing t with
  | nil => rfl
  | cons name rest ih =>
    obtain ⟨⟨value, t'⟩, hrun⟩ := Option.isSome_iff_exists.1 (h name List.mem_cons_self t)
    rw [callEach, run_bind_of_eq hrun]
    exact ih (fun other hother => h other (List.mem_cons_of_mem name hother)) t'

theorem firstUse_configurer (c : Context) (depth : Nat) :
    (configurer c).firstUse depth = do
      callEach ((configurer c).call [] depth) (c.staticInitializers.map Method.name)
      return [] := by
  have hfields : (configurer c).initFields depth [] (configurer c).fields = pure [] := by
    rw [configurer_eq, CodeUnit.initFields]
  have hinit : (configurer c).staticInit = c.staticInitializers.map initializerCall := by
    rw [configurer_eq]
  rw [CodeUnit.firstUse, hfields, pure_bind, hinit, performAll_initializerCalls]
  simp

/-! ## Names -/

section

variable {c : Context}

theorem names_configurer :
    (configurer c).methods.map Method.name = c.staticInitializers.map Method.name ++ reserved := by
  rw [configurer_eq, List.map_append]
  rfl

theorem nodup_names_configurer_iff (h : (c.staticInitializers.map Method.name).Nodup) :
    ((configurer c).methods.map Method.name).Nodup ↔
      ∀ m ∈ c.staticInitializers, m.name ∉ reserved := by
  have hreserved : reserved.Nodup := by decide
  rw [names_configurer, List.nodup_append]
  constructor
  · rintro ⟨-, -, hapart⟩ m hm hname
    exact hapart m.name (List.mem_map_of_mem hm) m.name hname rfl
  · intro hfree
    refine ⟨h, hreserved, ?_⟩
    rintro _ hname other hother rfl
    obtain ⟨m, hm, rfl⟩ := List.mem_map.1 hname
    exact hfree m hm hother

/-- Calls by the names of the initializers find them, since they come first. -/
theorem method?_initializer (h : (c.staticInitializers.map Method.name).Nodup) {m : Method}
    (hm : m ∈ c.staticInitializers) : (configurer c).method? m.name = some m := by
  have hfirst : c.staticInitializers.find? (·.name == m.name) = some m :=
    CodeUnit.method?_of_mem (u := { configurer c with methods := c.staticInitializers }) h hm
  rw [configurer_eq, CodeUnit.method?, List.find?_append, hfirst, Option.some_or]

/-- Calls by any other name find the first of the other methods with this name. -/
theorem method?_other {name : String} (h : ∀ m ∈ c.staticInitializers, m.name ≠ name) :
    (configurer c).method? name = [configure c, helper c].find? (·.name == name) := by
  have hnone : c.staticInitializers.find? (·.name == name) = none := by
    rw [List.find?_eq_none]
    intro m hm
    simpa using h m hm
  rw [configurer_eq, CodeUnit.method?, List.find?_append, hnone, Option.none_or]

/-! ## The method `configure` -/

theorem answers_helper (h : ∀ m ∈ c.staticInitializers, m.name ≠ "list0") (fields : Scope)
    (depth : Nat) :
    Answers ((configurer c).call fields (depth + 1) "list0" [])
      (.list (c.executedModules.map .text)) [.own "list0" []] := by
  have hmethod : (configurer c).method? "list0" = some (helper c) := method?_other h
  have hitems : ∀ names : List String,
      Answers (evalAll ((configurer c).call fields depth) fields (names.map .text))
        (names.map .text) [] := by
    intro names
    induction names with
    | nil => exact answers_evalAll_nil
    | cons name rest ih => exact answers_evalAll_cons (answers_eval_text name) ih
  exact CodeUnit.answers_call hmethod rfl
    (answers_performAll_ret (answers_eval_list (hitems c.executedModules)) [])

theorem answers_toldExpr {own : String → List Value → Exec Value} (scope : Scope)
    (profile : Profile) {optimizations : Value} {events : List Event}
    (hlist : Answers (own "list0" []) optimizations events) :
    Answers (eval own scope (toldExpr profile)) (told profile optimizations) events := by
  have hruntime : Answers (evalEntries own scope [(.text "prebake.runtime", .text profile.slug)])
      _ [] :=
    answers_evalEntries_cons (answers_eval_text _) (answers_eval_text _) answers_evalEntries_nil
  have hentries := answers_evalEntries_cons (answers_eval_text "prebake.optimizations")
    (answers_eval_callOwn answers_evalAll_nil hlist) hruntime
  rw [List.append_nil] at hentries
  exact answers_eval_map (answers_evalEntries_cons (answers_eval_text _) (answers_eval_bool true)
    hentries)

theorem answers_configure (h : ∀ m ∈ c.staticInitializers, m.name ≠ "configure") (fields : Scope)
    (depth : Nat) (builder optimizations : Value) (events : List Event)
    (hlist : Answers ((configurer c).call fields depth "list0" []) optimizations events) :
    Answers ((configurer c).call fields (depth + 1) "configure" [builder]) .null
      (.own "configure" [builder] :: events ++
        [.outside builder "properties" [told c.profile optimizations]]) := by
  have hmethod : (configurer c).method? "configure" = some (configure c) := method?_other h
  have hbuilder : Answers (eval ((configurer c).call fields depth) (("builder", builder) :: fields)
      (.ident "builder")) builder [] :=
    answers_eval_ident (if_pos rfl)
  have hargs := answers_evalAll_cons
    (answers_toldExpr (("builder", builder) :: fields) c.profile hlist) answers_evalAll_nil
  rw [List.append_nil] at hargs
  have hstatement : Answers (perform _ _ (.eval (.callOn (.ident "builder") "properties"
      [toldExpr c.profile]))) _ _ :=
    answers_perform_eval (answers_eval_callOn_after hbuilder hargs)
  have hbody : Answers (Code.performAll ((configurer c).call fields depth)
      (((configure c).params.map (·.name)).zip [builder] ++ fields) (configure c).body) none
      (events ++ [.outside builder "properties" [told c.profile optimizations]] ++ []) :=
    answers_performAll_cons hstatement answers_performAll_nil
  rw [List.append_nil] at hbody
  exact CodeUnit.answers_call hmethod rfl hbody

end

/-! ## The whole unit -/

theorem configurer_configures {c : Context} (h : (c.staticInitializers.map Method.name).Nodup) :
    Configures c (configurer c) where
  methods := names_configurer
  distinct_iff := nodup_names_configurer_iff h
  resolves m hm := method?_initializer h hm
  statements := by
    rw [configurer_eq, List.forall₂_map_right_iff, List.forall₂_same]
    intro m _
    unfold initializerCall
    cases m.returns with
    | none => exact ⟨rfl, by simp⟩
    | some type => exact ⟨rfl, by simp⟩
  firstUse := firstUse_configurer c
  callsOwn hcallees depth := by
    rw [firstUse_configurer]
    have hcalls : CallsOwn (callEach ((configurer c).call [] depth)
        (c.staticInitializers.map Method.name)) _ := callsOwn_callEach fun name hname => by
      obtain ⟨m, hm, rfl⟩ := List.mem_map.1 hname
      exact CodeUnit.callsOwn_call (method?_initializer h hm) (hcallees m hm)
    have hall := hcalls.bind fun _ => callsOwn_pure ([] : Scope)
    rwa [List.append_nil, List.map_map] at hall
  ends depth hends t := by
    have hsome : ((callEach ((configurer c).call [] depth)
        (c.staticInitializers.map Method.name)).run t).isSome = true :=
      isSome_callEach (fun name hname => by
        obtain ⟨m, hm, rfl⟩ := List.mem_map.1 hname
        exact hends m hm) t
    obtain ⟨⟨⟨⟩, t'⟩, hrun⟩ := Option.isSome_iff_exists.1 hsome
    rw [firstUse_configurer, run_bind_of_eq hrun]
    rfl
  others := by
    have hnames : ∀ names : List String, Expr.calleesOfAll (names.map .text) = [] := by
      intro names
      induction names with
      | nil => rfl
      | cons name rest ih => exact ih
    have hhelper : (helper c).callees = [] := by
      simp [helper, Literals.helper, Method.callees, Stmt.calleesOfAll, Stmt.callees, Expr.callees,
        hnames]
    rw [configurer_eq]
    simp only [List.drop_left, List.flatMap_cons, List.flatMap_nil, hhelper]
    rfl
  passes hfree fields depth builder optimizations events hlist :=
    answers_configure hfree fields depth builder optimizations events hlist
  configures hfree fields depth builder := by
    have hconfigure : ∀ m ∈ c.staticInitializers, m.name ≠ "configure" := fun m hm hname =>
      hfree m hm (hname ▸ List.mem_cons_self)
    have hlist : ∀ m ∈ c.staticInitializers, m.name ≠ "list0" := fun m hm hname =>
      hfree m hm (hname ▸ List.mem_cons_of_mem _ List.mem_cons_self)
    exact answers_configure hconfigure fields (depth + 1) builder _ _
      (answers_helper hlist fields depth)

theorem runOn_synthesize (c : Context) : synthesize.runOn c =
    if c.finished then (.error .alreadyFinished, c)
    else if c.hasUnit (configurer c).qualifiedName then
      (.error (.nameCollision (configurer c).qualifiedName), c)
    else (.ok (configurer c).unitName, { c.addUnit (configurer c) with
      pending := c.pending ++ [⟨Names.serviceManifest Runtime.applicationConfigurer,
        fun _ => .append (Generation.manifestLine c.space configurerName)⟩] }) := by
  rw [synthesize, Generation.runOn_bind, Generation.runOn_get]
  dsimp only
  rw [Generation.runOn_bind, Generation.runOn_registerUnit]
  by_cases hfinished : c.finished = true
  · rw [if_pos hfinished, if_pos hfinished]
  rw [if_neg hfinished, if_neg hfinished]
  by_cases hhas : c.hasUnit (configurer c).qualifiedName = true
  · rw [if_pos hhas, if_pos hhas]
  rw [if_neg hhas, if_neg hhas]
  have hadded : ¬ (c.addUnit (configurer c)).finished = true := hfinished
  dsimp only
  rw [Generation.runOn_bind, Generation.runOn_registerServiceImplementation, if_neg hadded]
  rfl

theorem runOn_synthesize_eq_ok {c c' : Context} {name : UnitName}
    (h : synthesize.runOn c = (.ok name, c')) :
    c'.units = c.units ++ [configurer c] ∧ name = (configurer c).unitName := by
  rw [runOn_synthesize] at h
  split_ifs at h
  · cases h
  · cases h
  cases h
  exact ⟨rfl, rfl⟩

/-- When the entry point is made, after whatever calls, its static block calls every initializer
once and `configure` tells how the application was prepared, unless an initializer has the name of
one of the methods for this. -/
theorem synthesize_configures {space : String} {profile : Profile} {settings : Settings}
    {analyzer : Analyzer} {application : ApplicationModel} {schedule : Schedule}
    {calls : List ContextCall} {c c' : Context} {name : UnitName}
    (hcalls : (ContextCall.performAll calls).runOn
      { space, profile, settings, analyzer, application, schedule } = (.ok (), c))
    (hmade : synthesize.runOn c = (.ok name, c')) :
    ∃ u, c'.units = c.units ++ [u] ∧ u.unitName = name ∧ Configures c u := by
  rw [ContextCall.runOn_performAll] at hcalls
  cases hcalls
  obtain ⟨hunits, hname⟩ := runOn_synthesize_eq_ok hmade
  exact ⟨_, hunits, hname.symm,
    configurer_configures (Operation.initializers_nodup_after _ _ List.nodup_nil)⟩

/-- An initializer that returns something, with a name of its own, and a module that was run. -/
theorem synthesize_configures_warmup :
    let start : Context :=
      { space := "gen", profile := .jit, settings := {}, analyzer := ⟨{}, requirementsMet⟩
        application := {} }
    let warmup : Method := { name := "warmup", isStatic := true, returns := some "Object" }
    let calls : List ContextCall :=
      [.once (.registerStaticInitializer warmup), .once (.markExecuted "yaml")]
    let c : Context := { start with staticInitializers := [warmup], executedModules := ["yaml"] }
    (ContextCall.performAll calls).runOn start = (.ok (), c) ∧
      (∀ m ∈ c.staticInitializers, m.callees = [] ∧ m.name ∉ reserved) ∧
      ∃ c' name, synthesize.runOn c = (.ok name, c') ∧
        ∃ u, c'.units = c.units ++ [u] ∧ u.unitName = name ∧ Configures c u := by
  intro start warmup calls c
  have hcalls : (ContextCall.performAll calls).runOn start = (.ok (), c) := rfl
  obtain ⟨c', name, hmade⟩ : ∃ c' name, synthesize.runOn c = (.ok name, c') := ⟨_, _, rfl⟩
  exact ⟨hcalls, by decide, c', name, hmade, synthesize_configures hcalls hmade⟩

/-- An initializer can have the name of the helper. Then the helper is never called, and the
application is not told which modules were run. -/
theorem initializer_hides_helper :
    let start : Context :=
      { space := "gen", profile := .jit, settings := {}, analyzer := ⟨{}, requirementsMet⟩
        application := {} }
    let calls : List ContextCall :=
      [.once (.registerStaticInitializer { name := "list0", isStatic := true })]
    ∃ c c' u name, (ContextCall.performAll calls).runOn start = (.ok (), c) ∧
      (∀ m ∈ c.staticInitializers, m.callees = []) ∧
      synthesize.runOn c = (.ok name, c') ∧ c'.units = [u] ∧
      u.methods.map Method.name = ["list0", "configure", "list0"] ∧
      Answers (u.call [] 2 "configure" [.text "b"]) .null
        [.own "configure" [.text "b"], .own "list0" [],
          .outside (.text "b") "properties" [told .jit .null]] ∧
      told .jit .null ≠ told .jit (.list (c.executedModules.map .text)) := by
  intro start calls
  let c : Context := { start with staticInitializers := [{ name := "list0", isStatic := true }] }
  have hfound : (configurer c).method? "list0" = some { name := "list0", isStatic := true } :=
    method?_initializer (c := c) (by decide) List.mem_cons_self
  have hlist : Answers ((configurer c).call [] 1 "list0" []) (Option.getD none .null)
      [.own "list0" []] :=
    CodeUnit.answers_call hfound rfl answers_performAll_nil
  obtain ⟨c', name, hmade⟩ : ∃ c' name, synthesize.runOn c = (.ok name, c') := by
    rw [runOn_synthesize]
    exact ⟨_, _, rfl⟩
  obtain ⟨hunits, -⟩ := runOn_synthesize_eq_ok hmade
  have hconfigure := answers_configure (by decide) [] 1 (.text "b") .null _ hlist
  refine ⟨c, c', configurer c, name, rfl, by decide, hmade, hunits, names_configurer,
    hconfigure, ?_⟩
  intro h
  cases h

end EntryPoint

end BuildAhead
