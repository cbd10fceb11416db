import BuildAhead.Proofs.Collection.Dict
import BuildAhead.Proofs.Generation.Noted
import BuildAhead.Proofs.Generation.Units
import BuildAhead.Services.Discovery

set_option autoImplicit false

/-!
# Services: the calls of substitutions

Which substitutions a discovery runs, and which candidates they replace. The discovery is written
down once more so that every call of a substitution is noted. A substitution is called at most once,
so whether it replaces its candidate is settled by its one call, wherever the candidate is found
again.
-/

namespace BuildAhead

/-- One call of a substitution: the candidate that it is for, the context that it found, how it
ended, and the context that it left. -/
structure SubstitutionCall where
  replaces : String
  found : Context
  outcome : Except BuildError Unit
  left : Context

/-- The units that a call registered. -/
def SubstitutionCall.units (call : SubstitutionCall) : List CodeUnit :=
  call.left.units.drop call.found.units.length

namespace Discovery

/-! ## A discovery with its calls noted -/

/-- Runs a substitution, as `Generation.trackUnits` does, and notes the call. -/
def notedGenerate (name : String) (s : Substitution) :
    Noted SubstitutionCall Context (List CodeUnit) :=
  ExceptT.mk fun state =>
    let call : SubstitutionCall :=
      ⟨name, state.1, (s.generate.runOn state.1).1, (s.generate.runOn state.1).2⟩
    (call.outcome.map fun _ => call.units, call.left, state.2 ++ [call])

/-- `Discovery.replacement`, with the calls noted. -/
def notedReplacement (d : Discovery) (progress : Progress) (name : String) :
    Noted SubstitutionCall Context (List CodeUnit × Progress) :=
  match d.substitutions.get? name with
  | none => return ([], progress)
  | some substitution =>
    match progress.generated.get? name with
    | some units => return (units, progress)
    | none => do
      let units ← notedGenerate name substitution
      return (units, { progress with generated := progress.generated.insert name units })

/-- `Discovery.collect`, with the calls noted. -/
def notedCollect (d : Discovery) (capability : String) (progress : Progress) (seen : List String) :
    List String → Noted SubstitutionCall Context (List String × Progress)
  | [] => return ([], progress)
  | name :: rest => do
    if d.settings.rejected.contains name then
      Noted.lift (Generation.diagnose category (rejectedMessage name))
      notedCollect d capability progress seen rest
    else if seen.contains name then
      notedCollect d capability progress seen rest
    else
      let (units, progress) ← d.notedReplacement progress name
      if units.isEmpty then
        let (pending, progress) ← notedCollect d capability progress (name :: seen) rest
        return (name :: pending, progress)
      else
        let progress :=
          { progress with substitutes := progress.substitutes.add capability units }
        notedCollect d capability progress (name :: seen) rest

theorem erases_notedReplacement (d : Discovery) (progress : Progress) (name : String) :
    Noted.Erases (d.notedReplacement progress name) (d.replacement progress name) := by
  unfold notedReplacement replacement
  cases d.substitutions.get? name with
  | none => exact .pure _
  | some s =>
    cases progress.generated.get? name with
    | some units => exact .pure _
    | none =>
      intro c calls
      have htrack := Generation.runOn_trackUnits s.generate c
      show _ = (Generation.trackUnits s.generate >>= fun tracked =>
        (pure (tracked.2, { progress with
          generated := progress.generated.insert name tracked.2 }) :
          Generation (List CodeUnit × Progress))).runOn c
      rw [Generation.runOn_bind, htrack]
      show ((StateT.run (ExceptT.run (notedGenerate name s >>= fun units =>
        pure (units, { progress with generated := progress.generated.insert name units })))
          (c, calls)).1, _) = _
      rw [run_bind]
      have hnoted : StateT.run (ExceptT.run (notedGenerate name s)) (c, calls) =
          ((s.generate.runOn c).1.map fun _ =>
              (s.generate.runOn c).2.units.drop c.units.length, (s.generate.runOn c).2,
            calls ++ [⟨name, c, (s.generate.runOn c).1, (s.generate.runOn c).2⟩]) := rfl
      rw [hnoted]
      rcases s.generate.runOn c with ⟨e | ⟨⟩, c'⟩ <;> rfl

theorem erases_notedCollect (d : Discovery) (capability : String) (progress : Progress)
    (seen names : List String) :
    Noted.Erases (d.notedCollect capability progress seen names)
      (d.collect capability progress seen names) := by
  induction names generalizing progress seen with
  | nil => exact .pure _
  | cons name rest ih =>
    unfold notedCollect collect
    split
    · exact (Noted.Erases.lift _).bind fun _ => ih progress seen
    · split
      · exact ih progress seen
      · refine (d.erases_notedReplacement progress name).bind ?_
        intro hgiven
        obtain ⟨units, progress⟩ := hgiven
        by_cases hempty : units.isEmpty = true
        · simp only [hempty, if_true]
          exact (ih progress (name :: seen)).bind fun _ => .pure _
        · simp only [hempty, Bool.false_eq_true, if_false]
          exact ih _ (name :: seen)

/-! ## What the calls of a run tell -/

/-- A call is what running the substitution of its candidate does. -/
def Genuine (d : Discovery) (call : SubstitutionCall) : Prop :=
  ∃ s, d.substitutions.get? call.replaces = some s ∧
    s.generate.runOn call.found = (call.outcome, call.left)

/-- From a context, and behind earlier calls, an action makes genuine calls. It succeeds when they
all do, and then leaves what `post` says; otherwise it fails as one of them does. -/
def Yields {α : Type} (d : Discovery) (x : Noted SubstitutionCall Context α) (c : Context)
    (calls : List SubstitutionCall)
    (post : α → Context → List SubstitutionCall → Prop) : Prop :=
  ∃ outcome after new, x.run.run (c, calls) = (outcome, after, calls ++ new) ∧ c.Grows after ∧
    (∀ call ∈ new, d.Genuine call) ∧
    ((∃ a, outcome = .ok a ∧ (∀ call ∈ new, call.outcome = .ok ()) ∧ post a after (calls ++ new)) ∨
      ∃ e, outcome = .error e ∧ ∃ call ∈ new, call.outcome = .error e)

section Yields

variable {α β : Type} {d : Discovery} {c : Context} {calls : List SubstitutionCall}
  {post : α → Context → List SubstitutionCall → Prop}

theorem yields_pure {a : α} (hpost : post a c calls) : d.Yields (pure a) c calls post := by
  refine ⟨.ok a, c, [], ?_, .refl c, by simp, .inl ⟨a, rfl, by simp, ?_⟩⟩
  · rw [List.append_nil]
    rfl
  · rw [List.append_nil]
    exact hpost

theorem yields_lift {x : Generation α} {a : α} {after : Context} (hx : x.runOn c = (.ok a, after))
    (hgrows : c.Grows after) (hpost : post a after calls) :
    d.Yields (Noted.lift x) c calls post := by
  refine ⟨.ok a, after, [], ?_, hgrows, by simp, .inl ⟨a, rfl, by simp, ?_⟩⟩
  · have hlift : (Noted.lift x).run.run (c, calls) =
        ((x.runOn c).1, (x.runOn c).2, calls) := rfl
    rw [hlift, hx, List.append_nil]
  · rw [List.append_nil]
    exact hpost

theorem Yields.bind {x : Noted SubstitutionCall Context α}
    {f : α → Noted SubstitutionCall Context β}
    {post' : β → Context → List SubstitutionCall → Prop} (hx : d.Yields x c calls post)
    (hf : ∀ a after calls', c.Grows after → calls <+: calls' → post a after calls' →
      d.Yields (f a) after calls' post') :
    d.Yields (x >>= f) c calls post' := by
  obtain ⟨outcome, after, new, hrun, hgrows, hgenuine, hends⟩ := hx
  rcases hends with ⟨a, rfl, hok, hpost⟩ | ⟨e, rfl, hfailed⟩
  · obtain ⟨outcome', after', new', hrun', hgrows', hgenuine', hends'⟩ :=
      hf a after (calls ++ new) hgrows (List.prefix_append _ _) hpost
    refine ⟨outcome', after', new ++ new', ?_, hgrows.trans hgrows', ?_, ?_⟩
    · rw [run_bind, hrun, ← List.append_assoc]
      exact hrun'
    · intro call hcall
      rcases List.mem_append.1 hcall with hcall | hcall
      · exact hgenuine call hcall
      · exact hgenuine' call hcall
    · rcases hends' with ⟨b, hb, hok', hpost'⟩ | ⟨e, he, call, hcall, hfailed⟩
      · refine .inl ⟨b, hb, ?_, ?_⟩
        · intro call hcall
          rcases List.mem_append.1 hcall with hcall | hcall
          · exact hok call hcall
          · exact hok' call hcall
        · rw [← List.append_assoc]
          exact hpost'
      · exact .inr ⟨e, he, call, List.mem_append_right _ hcall, hfailed⟩
  · refine ⟨.error e, after, new, ?_, hgrows, hgenuine, .inr ⟨e, rfl, hfailed⟩⟩
    rw [run_bind, hrun]

theorem Yields.imp {x : Noted SubstitutionCall Context α}
    {post' : α → Context → List SubstitutionCall → Prop} (hx : d.Yields x c calls post)
    (himp : ∀ a after calls', c.Grows after → calls <+: calls' → post a after calls' →
      post' a after calls') : d.Yields x c calls post' := by
  obtain ⟨outcome, after, new, hrun, hgrows, hgenuine, hends⟩ := hx
  refine ⟨outcome, after, new, hrun, hgrows, hgenuine, ?_⟩
  rcases hends with ⟨a, rfl, hok, hpost⟩ | hfailed
  · exact .inl ⟨a, rfl, hok, himp a after _ hgrows (List.prefix_append _ _) hpost⟩
  · exact .inr hfailed

end Yields

/-- Every substitution acts through the operations of the context. -/
def ByOperations (d : Discovery) : Prop :=
  ∀ name s, d.substitutions.get? name = some s → s.generate.ByOperations

/-- A candidate is replaced when a call for it registered a unit. -/
def Replaced (calls : List SubstitutionCall) (name : String) : Prop :=
  ∃ call ∈ calls, call.replaces = name ∧ call.units ≠ []

/-- The units that the calls for a candidate registered. -/
def unitsFor (calls : List SubstitutionCall) (name : String) : List CodeUnit :=
  (calls.filter fun call => call.replaces == name).flatMap SubstitutionCall.units

theorem unitsFor_ne_nil {calls : List SubstitutionCall} {name : String} :
    unitsFor calls name ≠ [] ↔ Replaced calls name := by
  unfold unitsFor Replaced
  rw [Ne, List.flatMap_eq_nil_iff]
  push Not
  simp only [List.mem_filter, beq_iff_eq, and_assoc]

/-- A candidate with a substitution has had its call. -/
def Settled (d : Discovery) (calls : List SubstitutionCall) (name : String) : Prop :=
  (∃ s, d.substitutions.get? name = some s) → ∃ call ∈ calls, call.replaces = name

/-- A discovery remembers the units of every call so far, and made no call twice. -/
structure Remembers (d : Discovery) (generated : Dict (List CodeUnit))
    (calls : List SubstitutionCall) : Prop where
  once : (calls.map SubstitutionCall.replaces).Nodup
  known : ∀ call ∈ calls, ∃ s, d.substitutions.get? call.replaces = some s
  get?_iff : ∀ name units, generated.get? name = some units ↔
    ∃ call ∈ calls, call.replaces = name ∧ call.units = units

section Remembering

variable {d : Discovery} {generated : Dict (List CodeUnit)} {calls calls' : List SubstitutionCall}
  {name : String}

theorem remembers_nil : d.Remembers ∅ [] := by
  refine ⟨List.nodup_nil, by simp, ?_⟩
  intro name units
  simp

/-- Two calls for one candidate are one call. -/
theorem Remembers.call_unique (h : d.Remembers generated calls) {a b : SubstitutionCall}
    (ha : a ∈ calls) (hb : b ∈ calls) (hname : a.replaces = b.replaces) : a = b :=
  List.inj_on_of_nodup_map h.once ha hb hname

theorem Settled.mono (h : d.Settled calls name) (hearlier : calls <+: calls') :
    d.Settled calls' name := by
  intro hs
  obtain ⟨call, hcall, hname⟩ := h hs
  exact ⟨call, hearlier.subset hcall, hname⟩

/-- The units for a candidate are those of its one call. -/
theorem Remembers.unitsFor_eq (h : d.Remembers generated calls) {call : SubstitutionCall}
    (hcall : call ∈ calls) : unitsFor calls call.replaces = call.units := by
  have honce : ∀ other ∈ calls, other.replaces = call.replaces → other = call :=
    fun other hother hname => h.call_unique hother hcall hname
  have hnodup : calls.Nodup := List.Nodup.of_map _ h.once
  have hfilter : (calls.filter fun other => other.replaces == call.replaces) = [call] := by
    refine List.perm_singleton.1 ?_
    refine (List.perm_ext_iff_of_nodup (hnodup.filter _) (List.nodup_singleton call)).2 ?_
    intro other
    rw [List.mem_filter, List.mem_singleton, beq_iff_eq]
    constructor
    · intro hgiven
      exact honce other hgiven.1 hgiven.2
    · rintro rfl
      exact ⟨hcall, rfl⟩
  unfold unitsFor
  rw [hfilter, List.flatMap_singleton]

/-- Later calls register no units for a settled candidate. -/
theorem Remembers.unitsFor_eq_of_settled (h : d.Remembers generated calls')
    (hearlier : calls <+: calls') (hsettled : d.Settled calls name) :
    unitsFor calls' name = unitsFor calls name := by
  obtain ⟨later, rfl⟩ := hearlier
  unfold unitsFor
  rw [List.filter_append]
  have hnone : (later.filter fun call => call.replaces == name) = [] := by
    rw [List.filter_eq_nil_iff]
    intro call hcall hname
    have hname : call.replaces = name := beq_iff_eq.1 hname
    obtain ⟨s, hs⟩ := h.known call (List.mem_append_right _ hcall)
    obtain ⟨first, hfirst, hreplaces⟩ := hsettled ⟨s, hname ▸ hs⟩
    have honce := h.once
    rw [List.map_append, List.nodup_append] at honce
    exact honce.2.2 _ (List.mem_map_of_mem hfirst) _ (List.mem_map_of_mem hcall)
      (hreplaces.trans hname.symm)
  rw [hnone, List.append_nil]

/-- Later calls do not change whether a settled candidate is replaced. -/
theorem Remembers.replaced_iff (h : d.Remembers generated calls') (hearlier : calls <+: calls')
    (hsettled : d.Settled calls name) : Replaced calls' name ↔ Replaced calls name := by
  rw [← unitsFor_ne_nil, ← unitsFor_ne_nil, h.unitsFor_eq_of_settled hearlier hsettled]

end Remembering

/-! ## What the steps of a discovery yield -/

section Steps

variable {d : Discovery} {c : Context} {calls : List SubstitutionCall} {name : String}

theorem yields_notedGenerate (hops : d.ByOperations) {s : Substitution}
    (hs : d.substitutions.get? name = some s) :
    d.Yields (notedGenerate name s) c calls fun units after calls' =>
      ∃ call : SubstitutionCall, call.replaces = name ∧ call.units = units ∧
        calls' = calls ++ [call] ∧ c.AddsUnits after units := by
  have hgrows := (hops name s hs).growing c
  rcases hrun : s.generate.runOn c with ⟨e | ⟨⟩, after⟩
  · rw [hrun] at hgrows
    refine ⟨.error e, after, [⟨name, c, .error e, after⟩], ?_, hgrows, ?_, ?_⟩
    · show (Except.map _ (s.generate.runOn c).1, (s.generate.runOn c).2,
        calls ++ [⟨name, c, (s.generate.runOn c).1, (s.generate.runOn c).2⟩]) = _
      rw [hrun]
      rfl
    · intro call hcall
      rw [List.mem_singleton.1 hcall]
      exact ⟨s, hs, hrun⟩
    · exact .inr ⟨e, rfl, _, List.mem_singleton_self _, rfl⟩
  · rw [hrun] at hgrows
    refine ⟨.ok (after.units.drop c.units.length), after, [⟨name, c, .ok (), after⟩], ?_, hgrows,
      ?_, .inl ⟨after.units.drop c.units.length, rfl, ?_, ?_⟩⟩
    · show (Except.map _ (s.generate.runOn c).1, (s.generate.runOn c).2,
        calls ++ [⟨name, c, (s.generate.runOn c).1, (s.generate.runOn c).2⟩]) = _
      rw [hrun]
      rfl
    · intro call hcall
      rw [List.mem_singleton.1 hcall]
      exact ⟨s, hs, hrun⟩
    · intro call hcall
      rw [List.mem_singleton.1 hcall]
    · obtain ⟨added, hadded⟩ := (hops name s hs).addsUnits c
      rw [hrun] at hadded
      refine ⟨_, rfl, rfl, rfl, ?_⟩
      have hunits : after.units.drop c.units.length = added := by
        rw [hadded.units, List.drop_left]
      rw [hunits]
      exact hadded

/-- After one more call, for a candidate that had none, its units are remembered too. -/
theorem Remembers.insert {generated : Dict (List CodeUnit)} (h : d.Remembers generated calls)
    {s : Substitution} (hs : d.substitutions.get? name = some s)
    (hnone : generated.get? name = none) {call : SubstitutionCall} (hname : call.replaces = name) :
    d.Remembers (generated.insert name call.units) (calls ++ [call]) := by
  have hnew : ∀ other ∈ calls, other.replaces ≠ name := by
    intro other hother heq
    have hsome := (h.get?_iff name other.units).2 ⟨other, hother, heq, rfl⟩
    rw [hnone] at hsome
    cases hsome
  refine ⟨?_, ?_, ?_⟩
  · rw [List.map_append, List.nodup_append]
    refine ⟨h.once, by simp, ?_⟩
    intro a ha b hb
    obtain ⟨other, hother, rfl⟩ := List.mem_map.1 ha
    have hb' : b = call.replaces := by simpa using hb
    rw [hb', hname]
    exact hnew other hother
  · intro other hother
    rcases List.mem_append.1 hother with hother | hother
    · exact h.known other hother
    · rw [List.mem_singleton.1 hother, hname]
      exact ⟨s, hs⟩
  · intro other units
    rw [Dict.get?_insert]
    split
    · next heq =>
      subst heq
      constructor
      · intro hunits
        exact ⟨call, by simp, hname, Option.some.inj hunits⟩
      · intro hgiven
        obtain ⟨found, hfound, hreplaces, rfl⟩ := hgiven
        rcases List.mem_append.1 hfound with hfound | hfound
        · exact absurd hreplaces (hnew found hfound)
        · rw [List.mem_singleton.1 hfound]
    · next hne =>
      rw [h.get?_iff]
      constructor
      · intro hgiven
        obtain ⟨found, hfound, hreplaces⟩ := hgiven
        exact ⟨found, List.mem_append_left _ hfound, hreplaces⟩
      · intro hgiven
        obtain ⟨found, hfound, hreplaces, hunits⟩ := hgiven
        rcases List.mem_append.1 hfound with hfound | hfound
        · exact ⟨found, hfound, hreplaces, hunits⟩
        · rw [List.mem_singleton.1 hfound, hname] at hreplaces
          exact absurd hreplaces.symm hne

/-- A candidate has got its units, from an earlier call, from one more call or from none. -/
structure Gives (d : Discovery) (c : Context) (calls : List SubstitutionCall) (progress : Progress)
    (name : String) (result : List CodeUnit × Progress) (after : Context)
    (calls' : List SubstitutionCall) : Prop where
  remembers : d.Remembers result.2.generated calls'
  settled : d.Settled calls' name
  units : result.1 = unitsFor calls' name
  tables : result.2.tables = progress.tables
  disabledScopes : result.2.disabledScopes = progress.disabledScopes
  substitutes : result.2.substitutes = progress.substitutes
  called : ∀ call ∈ calls', call ∈ calls ∨ call.replaces = name
  addsUnits : ∀ start : Context, start.AddsUnits c (calls.flatMap SubstitutionCall.units) →
    start.AddsUnits after (calls'.flatMap SubstitutionCall.units)

/-- The units for a candidate are those of its one call, if it has one. -/
theorem yields_notedReplacement (hops : d.ByOperations) {progress : Progress}
    (h : d.Remembers progress.generated calls) :
    d.Yields (d.notedReplacement progress name) c calls fun result after calls' =>
      d.Gives c calls progress name result after calls' := by
  unfold notedReplacement
  cases hs : d.substitutions.get? name with
  | none =>
    have hnone : ¬ ∃ s, d.substitutions.get? name = some s := by
      intro hgiven
      obtain ⟨s, hs'⟩ := hgiven
      rw [hs] at hs'
      cases hs'
    refine yields_pure ⟨h, fun hsome => absurd hsome hnone, ?_, rfl, rfl, rfl,
      fun call hcall => .inl hcall, fun _ hstart => hstart⟩
    by_contra hne
    obtain ⟨call, hcall, rfl, -⟩ := unitsFor_ne_nil.1 (Ne.symm hne)
    exact hnone (h.known call hcall)
  | some s =>
    cases hgenerated : progress.generated.get? name with
    | some units =>
      obtain ⟨call, hcall, rfl, rfl⟩ := (h.get?_iff name units).1 hgenerated
      exact yields_pure ⟨h, fun _ => ⟨call, hcall, rfl⟩, (h.unitsFor_eq hcall).symm, rfl, rfl, rfl,
        fun call hcall => .inl hcall, fun _ hstart => hstart⟩
    | none =>
      refine (yields_notedGenerate hops hs).bind ?_
      rintro units after calls' - - ⟨call, rfl, rfl, rfl, hadded⟩
      have h' := h.insert hs hgenerated rfl
      have hcall : call ∈ calls ++ [call] := by simp
      refine yields_pure ⟨h', fun _ => ⟨call, hcall, rfl⟩, (h'.unitsFor_eq hcall).symm, rfl, rfl, rfl,
        ?_, ?_⟩
      · intro other hother
        rcases List.mem_append.1 hother with hother | hother
        · exact .inl hother
        · exact .inr (List.mem_singleton.1 hother ▸ rfl)
      · intro start hstart
        rw [List.flatMap_append, List.flatMap_singleton]
        exact hstart.trans hadded

/-- How the names found for a service are gone through, one after the other: each is rejected, was
seen before, is left to be evaluated or is replaced. -/
inductive GoesThrough (d : Discovery) (capability : String) :
    Progress → List String → List String → Context → List SubstitutionCall →
      List String × Progress → Context → List SubstitutionCall → Prop where
  | done {progress : Progress} {seen : List String} {c : Context} {calls : List SubstitutionCall}
      (remembers : d.Remembers progress.generated calls) :
      GoesThrough d capability progress seen [] c calls ([], progress) c calls
  | rejected {progress : Progress} {seen names : List String} {name : String} {c c₁ after : Context}
      {calls calls' : List SubstitutionCall} {result : List String × Progress}
      (rejected : d.settings.rejected.contains name = true)
      (told : (Generation.diagnose category (rejectedMessage name)).runOn c = (.ok (), c₁))
      (grows : c₁.Grows after)
      (rest : GoesThrough d capability progress seen names c₁ calls result after calls') :
      GoesThrough d capability progress seen (name :: names) c calls result after calls'
  | repeated {progress : Progress} {seen names : List String} {name : String} {c after : Context}
      {calls calls' : List SubstitutionCall} {result : List String × Progress}
      (kept : d.settings.rejected.contains name = false) (repeats : name ∈ seen)
      (rest : GoesThrough d capability progress seen names c calls result after calls') :
      GoesThrough d capability progress seen (name :: names) c calls result after calls'
  | pending {progress progress₁ progress' : Progress} {seen names pending : List String}
      {name : String} {c c₁ after : Context} {calls calls₁ calls' : List SubstitutionCall}
      (kept : d.settings.rejected.contains name = false) (unseen : name ∉ seen)
      (gives : d.Gives c calls progress name ([], progress₁) c₁ calls₁)
      (earlier : calls₁ <+: calls')
      (rest : GoesThrough d capability progress₁ (name :: seen) names c₁ calls₁ (pending, progress')
        after calls') :
      GoesThrough d capability progress seen (name :: names) c calls (name :: pending, progress')
        after calls'
  | replaced {progress progress₁ : Progress} {seen names : List String} {name : String}
      {units : List CodeUnit} {c c₁ after : Context} {calls calls₁ calls' : List SubstitutionCall}
      {result : List String × Progress}
      (kept : d.settings.rejected.contains name = false) (unseen : name ∉ seen)
      (gives : d.Gives c calls progress name (units, progress₁) c₁ calls₁) (registers : units ≠ [])
      (earlier : calls₁ <+: calls')
      (rest : GoesThrough d capability
        { progress₁ with substitutes := progress₁.substitutes.add capability units } (name :: seen)
        names c₁ calls₁ result after calls') :
      GoesThrough d capability progress seen (name :: names) c calls result after calls'

theorem yields_notedCollect (hops : d.ByOperations) (capability : String) {progress : Progress}
    (h : d.Remembers progress.generated calls) (seen names : List String) :
    d.Yields (d.notedCollect capability progress seen names) c calls
      (d.GoesThrough capability progress seen names c calls) := by
  induction names generalizing progress seen c calls with
  | nil => exact yields_pure (.done h)
  | cons name rest ih =>
    unfold notedCollect
    by_cases hrejected : d.settings.rejected.contains name = true
    · rw [if_pos hrejected]
      have hmessage : d.Yields (Noted.lift (Generation.diagnose category (rejectedMessage name)))
          c calls fun _ after calls' =>
            (Generation.diagnose category (rejectedMessage name)).runOn c = (.ok (), after) ∧
              calls' = calls :=
        yields_lift (Generation.runOn_diagnose _ _ c) (Generation.Growing.diagnose _ _ c)
          ⟨rfl, rfl⟩
      refine hmessage.bind ?_
      rintro ⟨⟩ c₁ calls' - - ⟨htold, rfl⟩
      exact (ih h seen).imp fun _ _ _ hgrows _ hrest => .rejected hrejected htold hgrows hrest
    rw [if_neg hrejected]
    have hkept : d.settings.rejected.contains name = false := by simpa using hrejected
    by_cases hseen : seen.contains name = true
    · rw [if_pos hseen]
      have hmem : name ∈ seen := by simpa using hseen
      exact (ih h seen).imp fun _ _ _ _ _ hrest => .repeated hkept hmem hrest
    rw [if_neg hseen]
    have hunseen : name ∉ seen := by simpa using hseen
    refine (yields_notedReplacement hops h).bind ?_
    rintro ⟨units, progress₁⟩ c₁ calls₁ - - hgives
    cases units with
    | nil =>
      simp only [List.isEmpty_nil, if_true]
      refine (ih hgives.remembers (name :: seen)).bind ?_
      rintro ⟨pending, progress₂⟩ after calls' - hearlier hrest
      exact yields_pure (.pending hkept hunseen hgives hearlier hrest)
    | cons unit units =>
      simp only [List.isEmpty_cons, Bool.false_eq_true, if_false]
      refine (ih ?_ (name :: seen)).imp ?_
      · exact hgives.remembers
      · exact fun _ _ _ _ hearlier hrest =>
          .replaced hkept hunseen hgives (List.cons_ne_nil unit units) hearlier hrest

/-- What going through the names found for a service gives: the names that are left to be evaluated
are those not seen before, not rejected and not replaced. -/
structure Collects (d : Discovery) (calls : List SubstitutionCall) (progress : Progress)
    (seen names : List String) (result : List String × Progress) (calls' : List SubstitutionCall) :
    Prop where
  remembers : d.Remembers result.2.generated calls'
  tables : result.2.tables = progress.tables
  disabledScopes : result.2.disabledScopes = progress.disabledScopes
  mem_iff : ∀ n, n ∈ result.1 ↔ n ∈ names ∧ n ∉ seen ∧ d.settings.rejected.contains n = false ∧
    ¬ Replaced calls' n
  settled : ∀ n ∈ names, n ∉ seen → d.settings.rejected.contains n = false → d.Settled calls' n
  called : ∀ call ∈ calls', call ∈ calls ∨
    call.replaces ∈ names ∧ d.settings.rejected.contains call.replaces = false

/-- A name that is rejected or was seen before is passed over. -/
theorem Collects.skip {calls' : List SubstitutionCall} {progress : Progress}
    {seen names : List String} {result : List String × Progress}
    (h : d.Collects calls progress seen names result calls')
    (hskipped : d.settings.rejected.contains name = true ∨ name ∈ seen) :
    d.Collects calls progress seen (name :: names) result calls' := by
  have hne : ∀ n ∈ name :: names, n ∉ seen → d.settings.rejected.contains n = false →
      n ∈ names := by
    intro n hn hunseen hkept
    rcases List.mem_cons.1 hn with rfl | hn
    · rcases hskipped with hrejected | hseen
      · rw [hrejected] at hkept
        cases hkept
      · exact absurd hseen hunseen
    · exact hn
  refine { h with mem_iff := ?_, settled := ?_, called := ?_ }
  · intro n
    rw [h.mem_iff]
    constructor
    · intro hgiven
      obtain ⟨hn, hrest⟩ := hgiven
      exact ⟨List.mem_cons_of_mem _ hn, hrest⟩
    · intro hgiven
      obtain ⟨hn, hunseen, hkept, hreplaced⟩ := hgiven
      exact ⟨hne n hn hunseen hkept, hunseen, hkept, hreplaced⟩
  · intro n hn hunseen hkept
    exact h.settled n (hne n hn hunseen hkept) hunseen hkept
  · intro call hcall
    rcases h.called call hcall with hcall | ⟨hmem, hkept⟩
    · exact .inl hcall
    · exact .inr ⟨List.mem_cons_of_mem _ hmem, hkept⟩

/-- A new name that is not rejected is left to be evaluated unless it is replaced. -/
theorem Collects.cons {calls₁ calls' : List SubstitutionCall} {progress progress₁ : Progress}
    {seen names : List String} {result : List String × Progress} {pending : List String}
    (h : d.Collects calls₁ progress₁ (name :: seen) names result calls')
    (hearlier : calls₁ <+: calls') (htables : progress₁.tables = progress.tables)
    (hscopes : progress₁.disabledScopes = progress.disabledScopes)
    (hkept : d.settings.rejected.contains name = false) (hunseen : name ∉ seen)
    (hsettled : d.Settled calls₁ name)
    (hcalled : ∀ call ∈ calls₁, call ∈ calls ∨ call.replaces = name)
    (hpending : ∀ n, n ∈ pending ↔ n = name ∧ ¬ Replaced calls₁ name ∨ n ∈ result.1) :
    d.Collects calls progress seen (name :: names) (pending, result.2) calls' := by
  have hreplaced := h.remembers.replaced_iff hearlier hsettled
  refine ⟨h.remembers, h.tables.trans htables, h.disabledScopes.trans hscopes, ?_, ?_, ?_⟩
  · intro n
    rw [hpending, h.mem_iff, ← hreplaced]
    by_cases hn : n = name
    · subst hn
      simp [hunseen, hkept]
    · simp [hn]
  · intro n hn hunseen' hkept'
    by_cases heq : n = name
    · exact heq ▸ hsettled.mono hearlier
    · rcases List.mem_cons.1 hn with rfl | hn
      · exact absurd rfl heq
      · exact h.settled n hn (by simp [heq, hunseen']) hkept'
  · intro call hcall
    rcases h.called call hcall with hcall | ⟨hmem, hkept'⟩
    · rcases hcalled call hcall with hcall | hname
      · exact .inl hcall
      · exact .inr ⟨by simp [hname], hname ▸ hkept⟩
    · exact .inr ⟨List.mem_cons_of_mem _ hmem, hkept'⟩

/-- Going through the names leaves those that are to be evaluated. -/
theorem GoesThrough.collects {capability : String} {progress : Progress} {seen names : List String}
    {after : Context} {calls' : List SubstitutionCall} {result : List String × Progress}
    (h : d.GoesThrough capability progress seen names c calls result after calls') :
    d.Collects calls progress seen names result calls' := by
  induction h with
  | done hremembers =>
    refine ⟨hremembers, rfl, rfl, ?_, ?_, fun call hcall => .inl hcall⟩
    · intro n
      simp
    · intro n hn
      cases hn
  | rejected hrejected _ _ _ ih => exact ih.skip (.inl hrejected)
  | repeated _ hseen _ ih => exact ih.skip (.inr hseen)
  | pending hkept hunseen hgives hearlier _ ih =>
    refine ih.cons hearlier hgives.tables hgives.disabledScopes hkept hunseen hgives.settled
      hgives.called fun n => ?_
    rw [← unitsFor_ne_nil, ← hgives.units]
    simp
  | replaced hkept hunseen hgives hne hearlier _ ih =>
    refine ih.cons hearlier hgives.tables hgives.disabledScopes hkept hunseen hgives.settled
      hgives.called fun n => ?_
    rw [← unitsFor_ne_nil, ← hgives.units]
    simp [hne]

end Steps

end Discovery

end BuildAhead
