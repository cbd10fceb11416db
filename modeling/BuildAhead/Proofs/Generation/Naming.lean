import BuildAhead.Proofs.Generation.Units

set_option autoImplicit false

/-!
# Generation: the names that actions take

Units and static initializers are registered under names that can be given once. For an action it is
therefore enough to know which names it takes and for what else it fails: behind each other, actions
take the names of both, and fail when a name is taken twice. Everything here is about the contexts of
one build, which agree in all that modules decide by.
-/

namespace BuildAhead

/-- A name that can be given once in a build. -/
inductive Slot where
  /-- the name of a unit in the namespace of the build -/
  | unit (name : String)
  | initializer (name : String)
  deriving DecidableEq, Repr, Inhabited

theorem Names.qualify_injective (space : String) : Function.Injective (Names.qualify space) := by
  intro a b hab
  unfold Names.qualify at hab
  split at hab
  · exact hab
  · have hchars := congrArg String.toList hab
    simp only [String.toList_append, List.append_right_inj] at hchars
    exact String.toList_injective hchars

namespace Context

/-- A name has been given. -/
def Taken (c : Context) : Slot → Prop
  | .unit name => c.hasUnit (Names.qualify c.space name) = true
  | .initializer name => (c.staticInitializers.any fun m => m.name == name) = true

/-- An open context of the build that began with another one. -/
structure Continues (base c : Context) : Prop where
  space : c.space = base.space
  settings : c.settings = base.settings
  analyzer : c.analyzer = base.analyzer
  application : c.application = base.application
  isOpen : c.finished = false

/-- Where the recorded names and the initializers stay, the names that have been given do. -/
theorem taken_iff_of_eq {c c' : Context} (hspace : c'.space = c.space)
    (hnames : c'.unitNames = c.unitNames) (hmethods : c'.staticInitializers = c.staticInitializers)
    (s : Slot) : c'.Taken s ↔ c.Taken s := by
  cases s with
  | unit name => rw [Taken, Taken, hasUnit, hasUnit, hnames, hspace]
  | initializer name => rw [Taken, Taken, hmethods]

/-- One more unit of the build has its name besides. -/
theorem taken_addUnit {c : Context} {u : CodeUnit}
    (hname : u.qualifiedName = Names.qualify c.space u.name) (s : Slot) :
    (c.addUnit u).Taken s ↔ c.Taken s ∨ s = .unit u.name := by
  cases s with
  | unit name =>
    show (c.addUnit u).hasUnit (Names.qualify c.space name) = true ↔ _
    rw [hasUnit_addUnit, hname, (Names.qualify_injective c.space).eq_iff, Slot.unit.injEq]
    exact Iff.rfl
  | initializer name => simp [Taken, addUnit]

/-- One more initializer has its name besides. -/
theorem taken_addInitializer (c : Context) (m : Code.Method) (s : Slot) :
    { c with staticInitializers := c.staticInitializers ++ [m] }.Taken s ↔
      c.Taken s ∨ s = .initializer m.name := by
  cases s with
  | unit name => simp [Taken, hasUnit]
  | initializer name =>
    have heq : m.name = name ↔ name = m.name := eq_comm
    simp [Taken, heq]

end Context

namespace Generation

variable {α β : Type}

/-- In the build that began with `base`, an action succeeds exactly when it accepts its input and the
names that it takes are different and free. It has taken these names then, and its result satisfies
`post`. -/
structure Registers (base : Context) (x : Generation α) (slots : List Slot) (accepts : Prop)
    (post : α → Prop) : Prop where
  succeeds_iff : ∀ c, base.Continues c →
    ((∃ a, (x.runOn c).1 = .ok a) ↔ accepts ∧ slots.Nodup ∧ ∀ s ∈ slots, ¬ c.Taken s)
  leaves : ∀ c a c', base.Continues c → x.runOn c = (.ok a, c') →
    base.Continues c' ∧ post a ∧ ∀ s, c'.Taken s ↔ c.Taken s ∨ s ∈ slots

namespace Registers

variable {base : Context} {x : Generation α} {f : α → Generation β} {slots slots' : List Slot}
  {accepts accepts' : Prop} {post : α → Prop} {post' : β → Prop}

theorem pure {a : α} (ha : post a) : Registers base (pure a) [] True post := by
  refine ⟨?_, ?_⟩
  · intro c _
    simp
  · intro c b c' hc hrun
    cases hrun
    exact ⟨hc, ha, by simp⟩

theorem fail {e : BuildError} (hrefused : ¬ accepts) :
    Registers base (throw e : Generation α) slots accepts post := by
  refine ⟨?_, ?_⟩
  · intro c _
    constructor
    · intro hgiven
      obtain ⟨a, ha⟩ := hgiven
      cases ha
    · intro hgiven
      exact absurd hgiven.1 hrefused
  · intro c a c' _ hrun
    cases hrun

theorem look : Registers base (get : Generation Context) [] True base.Continues := by
  refine ⟨?_, ?_⟩
  · intro c _
    simp
  · intro c a c' hc hrun
    cases hrun
    exact ⟨hc, hc, by simp⟩

/-- A change that leaves units, initializers and all that modules decide by. -/
theorem update {f : Context → Context}
    (hf : ∀ c, (f c).space = c.space ∧ (f c).settings = c.settings ∧ (f c).analyzer = c.analyzer ∧
      (f c).application = c.application ∧ (f c).finished = c.finished ∧
      (f c).unitNames = c.unitNames ∧ (f c).staticInitializers = c.staticInitializers) :
    Registers base (modify f) [] True fun _ => True := by
  refine ⟨?_, ?_⟩
  · intro c _
    simp
  · intro c a c' hc hrun
    cases hrun
    obtain ⟨hspace, hsettings, hanalyzer, happlication, hfinished, hnames, hmethods⟩ := hf c
    refine ⟨⟨hspace.trans hc.space, hsettings.trans hc.settings, hanalyzer.trans hc.analyzer,
      happlication.trans hc.application, hfinished.trans hc.isOpen⟩, trivial, ?_⟩
    intro s
    rw [Context.taken_iff_of_eq hspace hnames hmethods]
    simp

/-- Behind each other, two actions take the names of both. -/
theorem bind (hx : Registers base x slots accepts post)
    (hf : ∀ a, post a → Registers base (f a) slots' accepts' post') :
    Registers base (x >>= f) (slots ++ slots') (accepts ∧ accepts') post' := by
  refine ⟨?_, ?_⟩
  · intro c hc
    constructor
    · intro hgiven
      obtain ⟨b, hb⟩ := hgiven
      obtain ⟨a, c₁, hfirst, hsecond⟩ :=
        runOn_bind_eq_ok_iff.1 (show (x >>= f).runOn c = (.ok b, _) from Prod.ext hb rfl)
      obtain ⟨hc₁, ha, htaken₁⟩ := hx.leaves c a c₁ hc hfirst
      obtain ⟨haccepts, hnodup, hfree⟩ := (hx.succeeds_iff c hc).1 ⟨a, by rw [hfirst]⟩
      obtain ⟨haccepts', hnodup', hfree'⟩ :=
        ((hf a ha).succeeds_iff c₁ hc₁).1 ⟨b, by rw [hsecond]⟩
      refine ⟨⟨haccepts, haccepts'⟩, List.nodup_append.2 ⟨hnodup, hnodup', ?_⟩, ?_⟩
      · rintro s hs t ht rfl
        exact hfree' s ht ((htaken₁ s).2 (.inr hs))
      · intro s hs htaken
        rcases List.mem_append.1 hs with hs | hs
        · exact hfree s hs htaken
        · exact hfree' s hs ((htaken₁ s).2 (.inl htaken))
    · intro hgiven
      obtain ⟨⟨haccepts, haccepts'⟩, hnodup, hfree⟩ := hgiven
      obtain ⟨hslots, hslots', hapart⟩ := List.nodup_append.1 hnodup
      obtain ⟨a, ha⟩ := (hx.succeeds_iff c hc).2
        ⟨haccepts, hslots, fun s hs => hfree s (List.mem_append_left _ hs)⟩
      cases hfirst : x.runOn c with
      | mk outcome c₁ =>
        rw [hfirst] at ha
        cases ha
        obtain ⟨hc₁, hpost, htaken₁⟩ := hx.leaves c a c₁ hc hfirst
        have hfree' : ∀ s ∈ slots', ¬ c₁.Taken s := by
          intro s hs htaken
          rcases (htaken₁ s).1 htaken with htaken | hmem
          · exact hfree s (List.mem_append_right _ hs) htaken
          · exact hapart s hmem s hs rfl
        obtain ⟨b, hb⟩ := ((hf a hpost).succeeds_iff c₁ hc₁).2 ⟨haccepts', hslots', hfree'⟩
        refine ⟨b, ?_⟩
        rw [runOn_bind, hfirst]
        exact hb
  · intro c b c₂ hc hrun
    obtain ⟨a, c₁, hfirst, hsecond⟩ := runOn_bind_eq_ok_iff.1 hrun
    obtain ⟨hc₁, ha, htaken₁⟩ := hx.leaves c a c₁ hc hfirst
    obtain ⟨hc₂, hb, htaken₂⟩ := (hf a ha).leaves c₁ b c₂ hc₁ hsecond
    refine ⟨hc₂, hb, ?_⟩
    intro s
    rw [htaken₂, htaken₁, List.mem_append, or_assoc]

theorem congr (hx : Registers base x slots accepts post) (hiff : accepts ↔ accepts') :
    Registers base x slots accepts' post := by
  rw [← propext hiff]
  exact hx

/-- What is known of the results of an action by other means. -/
theorem strengthen {post'' : α → Prop} (hx : Registers base x slots accepts post)
    (hpost : ∀ c a c', base.Continues c → x.runOn c = (.ok a, c') → post'' a) :
    Registers base x slots accepts post'' := by
  refine ⟨hx.succeeds_iff, ?_⟩
  intro c a c' hc hrun
  obtain ⟨hc', -, htaken⟩ := hx.leaves c a c' hc hrun
  exact ⟨hc', hpost c a c' hc hrun, htaken⟩

/-- An action that fails if a computation does, and is known otherwise. -/
theorem ofExcept {r : Except BuildError β} (haccepts : (∃ b, r = .ok b) ↔ accepts)
    (herror : ∀ e, r = .error e → x = throw e)
    (hok : ∀ b, r = .ok b → Registers base x slots accepts' post) :
    Registers base x slots (accepts ∧ accepts') post := by
  cases hr : r with
  | error e =>
    rw [herror e hr]
    refine fail fun hgiven => ?_
    obtain ⟨b, hb⟩ := haccepts.2 hgiven.1
    rw [hr] at hb
    cases hb
  | ok b => exact (hok b hr).congr (iff_and_self.2 fun _ => haccepts.1 ⟨b, hr⟩)

/-- Behind an action that takes no name and never fails. -/
theorem quietly (hx : Registers base x [] True post)
    (hf : ∀ a, post a → Registers base (f a) slots accepts post') :
    Registers base (x >>= f) slots accepts post' :=
  (hx.bind hf).congr (iff_of_eq (true_and _))

/-- In front of an action that takes no name and never fails. -/
theorem thenQuietly (hx : Registers base x slots accepts post)
    (hf : ∀ a, post a → Registers base (f a) [] True post') :
    Registers base (x >>= f) slots accepts post' := by
  have hbind := (hx.bind hf).congr (iff_of_eq (and_true _))
  rwa [List.append_nil] at hbind

/-! ## Operations on the context -/

theorem ensureOpen : Registers base ensureOpen [] True fun _ => True := by
  refine look.quietly fun c hc => ?_
  rw [hc.isOpen]
  exact pure trivial

/-- A unit takes its name. -/
theorem registerUnit {u : CodeUnit} (hspace : u.space = base.space) :
    Registers base (registerUnit u) [.unit u.name] True fun _ => True := by
  have hname : ∀ c, base.Continues c → u.qualifiedName = Names.qualify c.space u.name := by
    intro c hc
    rw [hc.space, ← hspace]
    rfl
  refine ⟨?_, ?_⟩
  · intro c hc
    have htaken : c.Taken (.unit u.name) ↔ c.hasUnit u.qualifiedName = true := by
      rw [hname c hc]
      exact Iff.rfl
    rw [runOn_registerUnit, hc.isOpen, if_neg Bool.false_ne_true]
    cases hunit : c.hasUnit u.qualifiedName with
    | true => simp [htaken, hunit]
    | false => simp [htaken, hunit]
  · intro c n c' hc hrun
    rw [runOn_registerUnit, if_neg (by simp [hc.isOpen])] at hrun
    split at hrun
    · cases hrun
    · cases hrun
      refine ⟨⟨hc.space, hc.settings, hc.analyzer, hc.application, hc.isOpen⟩, trivial, ?_⟩
      intro s
      rw [Context.taken_addUnit (hname c hc), List.mem_singleton]

/-- A static initializer takes its name. -/
theorem registerStaticInitializer (m : Code.Method) :
    Registers base (registerStaticInitializer m) [.initializer m.name] True fun _ => True := by
  refine ⟨?_, ?_⟩
  · intro c hc
    have htaken : c.Taken (.initializer m.name) ↔
        (c.staticInitializers.any fun n => n.name == m.name) = true := Iff.rfl
    rw [runOn_registerStaticInitializer, hc.isOpen, if_neg Bool.false_ne_true]
    cases hmethod : c.staticInitializers.any fun n => n.name == m.name with
    | true => simp [htaken, hmethod]
    | false => simp [htaken, hmethod]
  · intro c n c' hc hrun
    rw [runOn_registerStaticInitializer, if_neg (by simp [hc.isOpen])] at hrun
    split at hrun
    · cases hrun
    · cases hrun
      refine ⟨⟨hc.space, hc.settings, hc.analyzer, hc.application, hc.isOpen⟩, trivial, ?_⟩
      intro s
      rw [Context.taken_addInitializer, List.mem_singleton]

theorem registerResource (path : String) (action : FinishView → FileAction) :
    Registers base (registerResource path action) [] True fun _ => True :=
  ensureOpen.quietly fun _ _ => update fun _ => ⟨rfl, rfl, rfl, rfl, rfl, rfl, rfl⟩

theorem registerServiceImplementation (service name : String) :
    Registers base (registerServiceImplementation service name) [] True fun _ => True :=
  look.quietly fun _ _ => registerResource _ _

theorem writeServiceManifest (service name : String) :
    Registers base (writeServiceManifest service name) [] True fun _ => True :=
  look.quietly fun _ _ => registerResource _ _

theorem diagnose (category message : String) :
    Registers base (diagnose category message) [] True fun _ => True :=
  update fun _ => ⟨rfl, rfl, rfl, rfl, rfl, rfl, rfl⟩

theorem excludeResource (path : String) :
    Registers base (excludeResource path) [] True fun _ => True :=
  update fun _ => ⟨rfl, rfl, rfl, rfl, rfl, rfl, rfl⟩

theorem requireBuildTimeInit (name : String) :
    Registers base (requireBuildTimeInit name) [] True fun _ => True :=
  update fun _ => ⟨rfl, rfl, rfl, rfl, rfl, rfl, rfl⟩

theorem publishSubstitutes (s : Substitutes) :
    Registers base (publishSubstitutes s) [] True fun _ => True :=
  update fun _ => ⟨rfl, rfl, rfl, rfl, rfl, rfl, rfl⟩

theorem publishDeducedEnvironment (deduce : Bool) :
    Registers base (publishDeducedEnvironment deduce) [] True fun _ => True :=
  update fun _ => ⟨rfl, rfl, rfl, rfl, rfl, rfl, rfl⟩

theorem markExecuted (id : String) : Registers base (markExecuted id) [] True fun _ => True :=
  update fun _ => ⟨rfl, rfl, rfl, rfl, rfl, rfl, rfl⟩

/-- An optimization loader takes the name of its unit. -/
theorem registerStaticOptimization (name kind : String) (body : LoaderBody) :
    Registers base (registerStaticOptimization name kind body) [.unit name] True
      fun _ => True := by
  refine ensureOpen.quietly fun _ _ => (requireBuildTimeInit kind).quietly fun _ _ =>
    look.quietly fun c hc => ?_
  have hspace : (loaderUnit c.space name kind body).space = base.space := hc.space
  exact (registerUnit hspace).thenQuietly fun _ _ =>
    (registerServiceImplementation _ _).quietly fun _ _ => pure trivial

theorem trackUnits (hx : Registers base x slots accepts post) :
    Registers base (trackUnits x) slots accepts fun _ => True :=
  look.quietly fun _ _ => hx.thenQuietly fun _ _ => look.quietly fun _ _ => pure trivial

end Registers

/-! ## The owners of names -/

/-- In the build that began with `base`, an action takes names of certain owners only. While all
names of these are free, it succeeds exactly when it accepts its input. -/
structure TakesOwn (base : Context) (owner : Slot → String) (x : Generation α)
    (owners : List String) (accepts : Prop) : Prop where
  succeeds_iff : ∀ c, base.Continues c → (∀ s, owner s ∈ owners → ¬ c.Taken s) →
    ((∃ a, (x.runOn c).1 = .ok a) ↔ accepts)
  leaves : ∀ c a c', base.Continues c → x.runOn c = (.ok a, c') →
    base.Continues c' ∧ ∀ s, c'.Taken s → c.Taken s ∨ owner s ∈ owners

namespace TakesOwn

variable {base : Context} {owner : Slot → String} {x : Generation α} {f : α → Generation β}
  {owners owners' : List String} {slots : List Slot} {accepts accepts' : Prop} {post : α → Prop}

theorem congr (hx : TakesOwn base owner x owners accepts) (hiff : accepts ↔ accepts') :
    TakesOwn base owner x owners accepts' := by
  rw [← propext hiff]
  exact hx

/-- An action whose names belong to certain owners fails for a name of its own only if it takes this
name twice. -/
theorem of_registers (hx : Registers base x slots accepts post)
    (howner : ∀ s ∈ slots, owner s ∈ owners) :
    TakesOwn base owner x owners (accepts ∧ slots.Nodup) := by
  refine ⟨?_, ?_⟩
  · intro c hc hfree
    have hslots : ∀ s ∈ slots, ¬ c.Taken s := fun s hs => hfree s (howner s hs)
    rw [hx.succeeds_iff c hc]
    exact ⟨fun h => ⟨h.1, h.2.1⟩, fun h => ⟨h.1, h.2, hslots⟩⟩
  · intro c a c' hc hrun
    obtain ⟨hc', -, htaken⟩ := hx.leaves c a c' hc hrun
    exact ⟨hc', fun s hs => ((htaken s).1 hs).imp_right (howner s)⟩

theorem pure {a : α} : TakesOwn base owner (pure a) [] True := by
  have hpure : Registers base (Pure.pure a : Generation α) [] True fun _ => True := .pure trivial
  exact (of_registers hpure (by simp)).congr (by simp)

/-- Behind each other, actions whose names have different owners fail for their own reasons. -/
theorem bind (hx : TakesOwn base owner x owners accepts)
    (hf : ∀ a, TakesOwn base owner (f a) owners' accepts') (hapart : ∀ o ∈ owners, o ∉ owners') :
    TakesOwn base owner (x >>= f) (owners ++ owners') (accepts ∧ accepts') := by
  -- what the first action takes is no name of the second
  have hfree' : ∀ c a c₁, base.Continues c → x.runOn c = (.ok a, c₁) →
      (∀ s, owner s ∈ owners ++ owners' → ¬ c.Taken s) →
      ∀ s, owner s ∈ owners' → ¬ c₁.Taken s := by
    intro c a c₁ hc hfirst hfree s hs htaken
    rcases (hx.leaves c a c₁ hc hfirst).2 s htaken with htaken | howner
    · exact hfree s (List.mem_append_right _ hs) htaken
    · exact hapart _ howner hs
  refine ⟨?_, ?_⟩
  · intro c hc hfree
    have hsucceeds := hx.succeeds_iff c hc fun s hs => hfree s (List.mem_append_left _ hs)
    constructor
    · intro hgiven
      obtain ⟨b, hb⟩ := hgiven
      obtain ⟨a, c₁, hfirst, hsecond⟩ :=
        runOn_bind_eq_ok_iff.1 (show (x >>= f).runOn c = (.ok b, _) from Prod.ext hb rfl)
      have hc₁ := (hx.leaves c a c₁ hc hfirst).1
      refine ⟨hsucceeds.1 ⟨a, by rw [hfirst]⟩, ?_⟩
      exact ((hf a).succeeds_iff c₁ hc₁ (hfree' c a c₁ hc hfirst hfree)).1 ⟨b, by rw [hsecond]⟩
    · intro hgiven
      obtain ⟨haccepts, haccepts'⟩ := hgiven
      obtain ⟨a, ha⟩ := hsucceeds.2 haccepts
      have hfirst : x.runOn c = (.ok a, (x.runOn c).2) := Prod.ext ha rfl
      have hc₁ := (hx.leaves c a _ hc hfirst).1
      obtain ⟨b, hb⟩ :=
        ((hf a).succeeds_iff _ hc₁ (hfree' c a _ hc hfirst hfree)).2 haccepts'
      refine ⟨b, ?_⟩
      rw [runOn_bind, hfirst]
      exact hb
  · intro c b c₂ hc hrun
    obtain ⟨a, c₁, hfirst, hsecond⟩ := runOn_bind_eq_ok_iff.1 hrun
    obtain ⟨hc₁, htaken₁⟩ := hx.leaves c a c₁ hc hfirst
    obtain ⟨hc₂, htaken₂⟩ := (hf a).leaves c₁ b c₂ hc₁ hsecond
    refine ⟨hc₂, fun s hs => ?_⟩
    rcases htaken₂ s hs with hs | hs
    · exact (htaken₁ s hs).imp_right (List.mem_append_left _)
    · exact .inr (List.mem_append_right _ hs)

end TakesOwn

end Generation

end BuildAhead
