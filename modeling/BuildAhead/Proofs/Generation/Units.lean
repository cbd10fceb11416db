import BuildAhead.Proofs.Generation.Actions

set_option autoImplicit false

/-!
# Generation: the units of a context

A unit is registered under a name that was not recorded before, and recorded names stay. Where the
recorded names are those of the units, as they are in every context that began without any, a
registered unit stays the only one of its name.
-/

namespace BuildAhead

/-- Behind elements of distinct keys, one with a key of its own leaves the keys distinct. -/
theorem nodup_map_concat {β : Type} {key : β → String} {old : List β} {b : β}
    (hold : (old.map key).Nodup) (hnew : (old.any fun other => key other == key b) = false) :
    ((old ++ [b]).map key).Nodup := by
  rw [List.map_append, List.map_singleton, List.nodup_append]
  refine ⟨hold, List.nodup_singleton _, ?_⟩
  intro name hname name' hname'
  obtain ⟨other, hother, rfl⟩ := List.mem_map.1 hname
  rw [List.mem_singleton.1 hname']
  exact beq_eq_false_iff_ne.1 (Bool.eq_false_iff.2 (List.any_eq_false.1 hnew other hother))

namespace Context

/-! ## Recorded names -/

theorem hasUnit_iff {c : Context} {qualified : String} :
    c.hasUnit qualified = true ↔ qualified ∈ c.unitNames.toList := NameSet.contains_iff

theorem hasUnit_addUnit (c : Context) (u : CodeUnit) (qualified : String) :
    (c.addUnit u).hasUnit qualified = true ↔
      c.hasUnit qualified = true ∨ qualified = u.qualifiedName := by
  rw [hasUnit_iff, hasUnit_iff, addUnit, NameSet.mem_insert, or_comm]

/-- The recorded names are those of the units. -/
def NamesRecorded (c : Context) : Prop :=
  ∀ qualified, c.hasUnit qualified = true ↔ qualified ∈ c.units.map CodeUnit.qualifiedName

/-- A context without units has no names recorded. -/
theorem namesRecorded_start {c : Context} (hunits : c.units = []) (hnames : c.unitNames = ∅) :
    c.NamesRecorded := by
  intro qualified
  rw [hasUnit_iff, hunits, hnames]
  exact Iff.rfl

/-- The units with this qualified name. -/
def unitsNamed (c : Context) (qualified : String) : List CodeUnit :=
  c.units.filter fun u => u.qualifiedName == qualified

/-! ## Units with new names -/

/-- A context has these further units, and their names are recorded beside the earlier ones, of
which none is among them. -/
structure AddsUnits (c c' : Context) (added : List CodeUnit) : Prop where
  units : c'.units = c.units ++ added
  recorded : ∀ qualified, c'.hasUnit qualified = true ↔
    c.hasUnit qualified = true ∨ qualified ∈ added.map CodeUnit.qualifiedName
  new : ∀ u ∈ added, c.hasUnit u.qualifiedName = false
  once : (added.map CodeUnit.qualifiedName).Nodup

namespace AddsUnits

variable {c c₁ c' : Context} {u : CodeUnit} {added first second : List CodeUnit}

theorem none (hunits : c'.units = c.units) (hnames : c'.unitNames = c.unitNames) :
    c.AddsUnits c' [] where
  units := by rw [hunits, List.append_nil]
  recorded qualified := by simp [hasUnit, hnames]
  new u hu := by cases hu
  once := List.nodup_nil

theorem single (hnew : c.hasUnit u.qualifiedName = false)
    (hunits : c'.units = (c.addUnit u).units) (hnames : c'.unitNames = (c.addUnit u).unitNames) :
    c.AddsUnits c' [u] where
  units := hunits
  recorded qualified := by
    have hsame : c'.hasUnit qualified = (c.addUnit u).hasUnit qualified := by
      rw [hasUnit, hnames, hasUnit]
    rw [hsame, hasUnit_addUnit, List.map_singleton, List.mem_singleton]
  new v hv := List.mem_singleton.1 hv ▸ hnew
  once := List.nodup_singleton _

theorem trans (h₁ : c.AddsUnits c₁ first) (h₂ : c₁.AddsUnits c' second) :
    c.AddsUnits c' (first ++ second) where
  units := by rw [h₂.units, h₁.units, List.append_assoc]
  recorded qualified := by
    rw [h₂.recorded, h₁.recorded, List.map_append, List.mem_append, or_assoc]
  new v hv := by
    rcases List.mem_append.1 hv with hv | hv
    · exact h₁.new v hv
    · refine Bool.eq_false_iff.2 fun hearlier => ?_
      exact Bool.eq_false_iff.1 (h₂.new v hv) ((h₁.recorded _).2 (.inl hearlier))
  once := by
    rw [List.map_append, List.nodup_append]
    refine ⟨h₁.once, h₂.once, ?_⟩
    rintro name hname _ hlater rfl
    obtain ⟨v, hv, rfl⟩ := List.mem_map.1 hlater
    exact Bool.eq_false_iff.1 (h₂.new v hv) ((h₁.recorded _).2 (.inr hname))

/-- No unit was added twice. -/
theorem nodup (h : c.AddsUnits c' added) : added.Nodup := h.once.of_map

/-- The names of further units are recorded as those of the earlier ones are. -/
theorem namesRecorded (h : c.AddsUnits c' added) (hc : c.NamesRecorded) : c'.NamesRecorded := by
  intro qualified
  rw [h.recorded, hc qualified, h.units, List.map_append, List.mem_append]

/-- Where the names of the earlier units are recorded, no two units have one name afterwards. -/
theorem names_nodup (h : c.AddsUnits c' added) (hc : c.NamesRecorded)
    (hnodup : (c.units.map CodeUnit.qualifiedName).Nodup) :
    (c'.units.map CodeUnit.qualifiedName).Nodup := by
  rw [h.units, List.map_append, List.nodup_append]
  refine ⟨hnodup, h.once, ?_⟩
  rintro name hname _ hlater rfl
  obtain ⟨v, hv, rfl⟩ := List.mem_map.1 hlater
  exact Bool.eq_false_iff.1 (h.new v hv) ((hc _).2 hname)

/-- Where the names of the earlier units are recorded, an added unit is the only one of its name. -/
theorem unitsNamed_eq (h : c.AddsUnits c' added) (hc : c.NamesRecorded) (hu : u ∈ added) :
    c'.unitsNamed u.qualifiedName = [u] := by
  have hearlier : c.units.filter (fun v => v.qualifiedName == u.qualifiedName) = [] := by
    rw [List.filter_eq_nil_iff]
    intro v hv heq
    have hnamed : u.qualifiedName ∈ c.units.map CodeUnit.qualifiedName :=
      List.mem_map.2 ⟨v, hv, beq_iff_eq.1 heq⟩
    exact Bool.eq_false_iff.1 (h.new u hu) ((hc _).2 hnamed)
  obtain ⟨before, after, rfl⟩ := List.append_of_mem hu
  have hnodup := h.once
  rw [List.map_append, List.map_cons, List.nodup_middle, List.nodup_cons, List.mem_append,
    not_or] at hnodup
  have hother : ∀ l : List CodeUnit, u.qualifiedName ∉ l.map CodeUnit.qualifiedName →
      l.filter (fun v => v.qualifiedName == u.qualifiedName) = [] := by
    intro l hl
    rw [List.filter_eq_nil_iff]
    intro v hv heq
    exact hl (List.mem_map.2 ⟨v, hv, beq_iff_eq.1 heq⟩)
  have hitself : (u :: after).filter (fun v => v.qualifiedName == u.qualifiedName) =
      u :: after.filter (fun v => v.qualifiedName == u.qualifiedName) :=
    List.filter_cons_of_pos (beq_self_eq_true u.qualifiedName)
  unfold unitsNamed
  rw [h.units, List.filter_append, List.filter_append, hearlier, hother before hnodup.1.1, hitself,
    hother after hnodup.1.2, List.nil_append, List.nil_append]

end AddsUnits

end Context

/-! ## Actions that register units -/

namespace Generation

variable {α : Type}

/-- A unit that was registered stands at the end, under a new name. -/
theorem addsUnits_registerUnit {u : CodeUnit} {c c' : Context} {n : Code.UnitName}
    (hrun : (registerUnit u).runOn c = (.ok n, c')) : c.AddsUnits c' [u] ∧ c'.space = c.space := by
  rw [runOn_registerUnit] at hrun
  split at hrun
  · cases hrun
  · split at hrun
    · cases hrun
    · next hnew =>
      cases hrun
      exact ⟨.single (Bool.eq_false_iff.2 hnew) rfl rfl, rfl⟩

theorem addsUnits_registerStaticOptimization {name kind : String} {body : LoaderBody}
    {c c' : Context} {n : Code.UnitName}
    (hrun : (registerStaticOptimization name kind body).runOn c = (.ok n, c')) :
    c.AddsUnits c' [loaderUnit c.space name kind body] ∧ c'.space = c.space := by
  rw [runOn_registerStaticOptimization] at hrun
  simp only at hrun
  split at hrun
  · cases hrun
  · split at hrun
    · cases hrun
    · next hnew =>
      cases hrun
      exact ⟨.single (Bool.eq_false_iff.2 hnew) rfl rfl, rfl⟩

/-- Whether an action succeeds or fails, each unit that it registered has a new name. -/
theorem ByOperations.addsUnits {x : Generation α} (hx : ByOperations x) (c : Context) :
    ∃ added, c.AddsUnits (x.runOn c).2 added := by
  induction hx generalizing c with
  | pure a => exact ⟨[], .none rfl rfl⟩
  | fail e => exact ⟨[], .none rfl rfl⟩
  | @bind _ _ x f _ _ ihx ihf =>
    obtain ⟨first, hfirst⟩ := ihx c
    rw [runOn_bind]
    rcases hrun : x.runOn c with ⟨e | a, c₁⟩
    · rw [hrun] at hfirst
      exact ⟨first, hfirst⟩
    · rw [hrun] at hfirst
      obtain ⟨second, hsecond⟩ := ihf a c₁
      exact ⟨first ++ second, hfirst.trans hsecond⟩
  | @attempt _ x handler _ _ ihx ihhandler =>
    obtain ⟨first, hfirst⟩ := ihx c
    rw [runOn_tryCatch]
    rcases hrun : x.runOn c with ⟨e | a, c₁⟩
    · rw [hrun] at hfirst
      obtain ⟨second, hsecond⟩ := ihhandler e c₁
      exact ⟨first ++ second, hfirst.trans hsecond⟩
    · rw [hrun] at hfirst
      exact ⟨first, hfirst⟩
  | look => exact ⟨[], .none rfl rfl⟩
  | diagnose category message => exact ⟨[], .none rfl rfl⟩
  | registerUnit u =>
    rw [runOn_registerUnit]
    split
    · exact ⟨[], .none rfl rfl⟩
    · split
      · exact ⟨[], .none rfl rfl⟩
      · next hnew => exact ⟨[u], .single (Bool.eq_false_iff.2 hnew) rfl rfl⟩
  | registerStaticInitializer m =>
    rw [runOn_registerStaticInitializer]
    split
    · exact ⟨[], .none rfl rfl⟩
    · split <;> exact ⟨[], .none rfl rfl⟩
  | registerResource path action =>
    rw [runOn_registerResource]
    split <;> exact ⟨[], .none rfl rfl⟩
  | excludeResource path => exact ⟨[], .none rfl rfl⟩
  | requireBuildTimeInit name => exact ⟨[], .none rfl rfl⟩
  | publishSubstitutes s => exact ⟨[], .none rfl rfl⟩
  | publishDeducedEnvironment deduce => exact ⟨[], .none rfl rfl⟩

end Generation

end BuildAhead
