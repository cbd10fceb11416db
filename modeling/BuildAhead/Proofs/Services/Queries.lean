import BuildAhead.Proofs.Services.Table

set_option autoImplicit false

/-!
# Services: asking a table

A lazy table remembers what the resolution of each name has answered. What it remembers is what its
resolver would answer again, so its answers do not depend on what it was asked before, and they are
those of the static table: the providers in ascending order of their names, each of the kind of the
first candidate that was given under its name.
-/

namespace BuildAhead

/-- What a table can be asked. -/
inductive TableQuery where
  /-- the providers whose names satisfy a predicate -/
  | find (p : String → Bool)
  /-- whether there is a provider of this name -/
  | contains (name : String)
  /-- to resolve all its names -/
  | preload

/-- What a table answers. -/
inductive TableAnswer where
  | found (entries : List TableEntry)
  | contained (answer : Bool)
  | done
  deriving DecidableEq, Repr

/-- What a static table answers. It has nothing to resolve. -/
def StaticTable.ask (t : StaticTable) : TableQuery → TableAnswer
  | .find p => .found (t.find p)
  | .contains name => .contained (t.contains name)
  | .preload => .done

/-- What a lazy table answers, and the table afterwards. -/
def LazyTable.ask (t : LazyTable) : TableQuery → TableAnswer × LazyTable
  | .find p => (.found (t.find p).1, (t.find p).2)
  | .contains name => (.contained (t.contains name), t)
  | .preload => (.done, t.preload)

/-- What a lazy table answers to queries, one after the other. -/
def LazyTable.askAll (t : LazyTable) : List TableQuery → List TableAnswer
  | [] => []
  | q :: rest => (t.ask q).1 :: (t.ask q).2.askAll rest

/-! ## What a lazy table remembers -/

/-- A cell that was resolved has the kind that the table has for its name. -/
def LazyCell.Remembers (spec : TableSpec) (c : LazyCell) : Prop :=
  ∀ answer, c.resolved = some answer → answer = spec.kind? c.name

/-- The names that a lazy table has are those of its cells. -/
def LazyTable.KnowsCells (t : LazyTable) : Prop :=
  ∀ name, name ∈ t.known.toList ↔ name ∈ t.cells.map LazyCell.name

/-- A lazy table has the names of a table, and remembers nothing but what that table says. -/
structure LazyTable.Reads (t : LazyTable) (spec : TableSpec) : Prop where
  resolver : t.resolver = spec.kind?
  names : t.cells.map LazyCell.name = spec.names
  known : t.KnowsCells
  remembers : ∀ c ∈ t.cells, c.Remembers spec

namespace LazyCell

variable {spec : TableSpec} {c : LazyCell}

@[simp] theorem name_resolve (c : LazyCell) (resolver : Resolver) :
    (c.resolve resolver).name = c.name := by
  unfold resolve
  cases c.resolved <;> rfl

theorem Remembers.resolve (h : c.Remembers spec) : (c.resolve spec.kind?).Remembers spec := by
  unfold LazyCell.resolve
  cases hresolved : c.resolved with
  | none =>
    intro answer hanswer
    exact (Option.some.inj hanswer).symm
  | some answer => exact h

theorem Remembers.entry_resolve (h : c.Remembers spec) :
    LazyCell.entry? (c.resolve spec.kind?) = (spec.kind? c.name).map fun kind => ⟨c.name, kind⟩ := by
  unfold entry? LazyCell.resolve
  cases hresolved : c.resolved with
  | none => rfl
  | some answer => rw [hresolved, Option.getD_some, h answer hresolved]

end LazyCell

namespace LazyTable

variable {t : LazyTable} {spec : TableSpec}

theorem names_ofNames (names : List String) (resolver : Resolver) :
    (ofNames names resolver).cells.map LazyCell.name = names := by
  unfold ofNames
  rw [List.map_map]
  exact List.map_id' names

theorem names_resolveWhere (t : LazyTable) (p : String → Bool) :
    (t.resolveWhere p).cells.map LazyCell.name = t.cells.map LazyCell.name := by
  unfold LazyTable.resolveWhere
  rw [List.map_map]
  refine List.map_congr_left ?_
  intro c _
  simp only [Function.comp_apply]
  split
  · exact LazyCell.name_resolve c _
  · rfl

theorem knowsCells_ofNames (names : List String) (resolver : Resolver) :
    (ofNames names resolver).KnowsCells := by
  intro name
  rw [names_ofNames]
  exact NameSet.mem_ofList

theorem KnowsCells.resolveWhere (h : t.KnowsCells) (p : String → Bool) :
    (t.resolveWhere p).KnowsCells := by
  intro name
  rw [names_resolveWhere]
  exact h name

/-- No query makes a name known or unknown. -/
theorem KnowsCells.ask (h : t.KnowsCells) (q : TableQuery) : (t.ask q).2.KnowsCells := by
  cases q with
  | find p => exact h.resolveWhere p
  | contains name => exact h
  | preload => exact h.resolveWhere fun _ => true

/-- A new lazy table has resolved nothing. -/
theorem reads_ofSpec (spec : TableSpec) : (ofSpec spec).Reads spec where
  resolver := rfl
  names := names_ofNames spec.names spec.kind?
  known := knowsCells_ofNames spec.names spec.kind?
  remembers c hc := by
    obtain ⟨n, -, rfl⟩ := List.mem_map.1 hc
    intro answer hanswer
    cases hanswer

/-- Resolving names changes nothing about what a lazy table has and says. -/
theorem Reads.resolveWhere (h : t.Reads spec) (p : String → Bool) :
    (t.resolveWhere p).Reads spec where
  resolver := h.resolver
  names := (names_resolveWhere t p).trans h.names
  known := h.known.resolveWhere p
  remembers c hc := by
    obtain ⟨old, hold, rfl⟩ := List.mem_map.1 hc
    split
    · rw [h.resolver]
      exact (h.remembers old hold).resolve
    · exact h.remembers old hold

theorem Reads.contains_eq (h : t.Reads spec) (name : String) :
    t.contains name = (StaticTable.ofSpec spec).contains name := by
  have hstatic : (StaticTable.ofSpec spec).contains name = spec.names.any (· == name) := by
    unfold TableSpec.names
    rw [List.any_map]
    rfl
  rw [hstatic, Bool.eq_iff_iff, LazyTable.contains, NameSet.contains_iff, h.known, h.names]
  simp

end LazyTable

/-- A table of distinct names knows the kind of each of its providers. -/
theorem TableSpec.kind?_of_mem {spec : TableSpec} (hnodup : spec.names.Nodup) {e : TableEntry}
    (he : e ∈ spec.entries) : spec.kind? e.name = some e.implementation := by
  obtain ⟨before, after, hentries⟩ := List.append_of_mem he
  have hfind : spec.entries.find? (fun a => a.name == e.name) = some e := by
    rw [List.find?_eq_some_iff_append]
    refine ⟨beq_self_eq_true _, before, after, hentries, ?_⟩
    intro a ha
    unfold names at hnodup
    rw [hentries, List.map_append, List.map_cons, List.nodup_append] at hnodup
    have hne : a.name ≠ e.name :=
      hnodup.2.2 a.name (List.mem_map_of_mem ha) e.name List.mem_cons_self
    simpa using hne
  unfold kind?
  rw [hfind]
  rfl

namespace LazyTable

variable {t : LazyTable} {spec : TableSpec}

/-- What a lazy table finds is what the resolver says of the names that satisfy the predicate. -/
theorem Reads.find_fst_eq_filterMap (h : t.Reads spec) (p : String → Bool) :
    (t.find p).1 = spec.names.filterMap fun n =>
      if p n then (spec.kind? n).map fun kind => ⟨n, kind⟩ else none := by
  rw [← h.names, List.filterMap_map]
  simp only [find, LazyTable.resolveWhere, h.resolver, List.filter_map, List.filterMap_map,
    List.filterMap_filter]
  refine List.filterMap_congr ?_
  intro c hc
  by_cases hp : p c.name = true
  · simp [hp, (h.remembers c hc).entry_resolve]
  · simp [hp]

/-- The providers that a lazy table finds are those that the static table finds. -/
theorem Reads.find_fst (h : t.Reads spec) (hnodup : spec.names.Nodup) (p : String → Bool) :
    (t.find p).1 = (StaticTable.ofSpec spec).find p := by
  rw [h.find_fst_eq_filterMap, TableSpec.names, List.filterMap_map]
  unfold StaticTable.find StaticTable.ofSpec
  rw [← List.filterMap_eq_filter]
  refine List.filterMap_congr ?_
  intro e he
  rw [Function.comp_apply, TableSpec.kind?_of_mem hnodup he, Option.map_some,
    Option.guard_eq_ite]

/-! ## Queries one after the other -/

/-- A query is answered as by the static table, and leaves a table that goes on to do so. -/
theorem Reads.ask (h : t.Reads spec) (hnodup : spec.names.Nodup) (q : TableQuery) :
    (t.ask q).1 = (StaticTable.ofSpec spec).ask q ∧ (t.ask q).2.Reads spec := by
  cases q with
  | find p => exact ⟨congrArg TableAnswer.found (h.find_fst hnodup p), h.resolveWhere p⟩
  | contains name => exact ⟨congrArg TableAnswer.contained (h.contains_eq name), h⟩
  | preload => exact ⟨rfl, h.resolveWhere fun _ => true⟩

theorem Reads.askAll (h : t.Reads spec) (hnodup : spec.names.Nodup) (queries : List TableQuery) :
    t.askAll queries = queries.map (StaticTable.ofSpec spec).ask := by
  induction queries generalizing t with
  | nil => rfl
  | cons q rest ih =>
    obtain ⟨hanswer, hafter⟩ := h.ask hnodup q
    rw [LazyTable.askAll, hanswer, ih hafter, List.map_cons]

end LazyTable

/-! ## The answers -/

theorem TableSpec.mem_entries_ofCandidates {capability : String} {cs : List ServiceCandidate}
    {e : TableEntry} :
    e ∈ (ofCandidates capability cs).entries ↔
      (cs.find? fun c => c.name == e.name).map ServiceCandidate.entry = some e := by
  rw [← find?_entries_ofCandidates capability]
  constructor
  · intro he
    have hnodup : (ofCandidates capability cs).names.Nodup :=
      nodup_of_ascending (names_ofCandidates_ascending capability cs)
    have hkind := kind?_of_mem hnodup he
    unfold kind? at hkind
    obtain ⟨a, ha, hkind⟩ := Option.map_eq_some_iff.1 hkind
    have hname : a.name = e.name := by simpa using List.find?_some ha
    obtain ⟨name, implementation⟩ := a
    rw [ha]
    cases hname
    cases hkind
    rfl
  · exact List.mem_of_find?_eq_some

/-- A table answers for candidates: it finds those whose names satisfy a predicate, in ascending
order of their names and of those with one name the first, and it contains their names alone. -/
structure StaticTable.AnswersFor (t : StaticTable) (cs : List ServiceCandidate) : Prop where
  ascending : ∀ p, ((t.find p).map TableEntry.name).Pairwise (· < ·)
  mem_find : ∀ p e, e ∈ t.find p ↔ p e.name = true ∧
    (cs.find? fun c => c.name == e.name).map ServiceCandidate.entry = some e
  contains_iff : ∀ name, t.contains name = true ↔ ∃ c ∈ cs, c.name = name

theorem StaticTable.answersFor_ofCandidates (capability : String) (cs : List ServiceCandidate) :
    (StaticTable.ofSpec (.ofCandidates capability cs)).AnswersFor cs where
  ascending p :=
    (TableSpec.names_ofCandidates_ascending capability cs).sublist (List.filter_sublist.map _)
  mem_find p e := by
    unfold find ofSpec
    rw [List.mem_filter, TableSpec.mem_entries_ofCandidates, and_comm]
  contains_iff name := by
    show ((TableSpec.ofCandidates capability cs).entries.any fun e => e.name == name) = true ↔ _
    rw [← List.isSome_find?, TableSpec.find?_entries_ofCandidates, Option.isSome_map,
      List.isSome_find?, List.any_eq_true]
    simp only [beq_iff_eq]

/-- Whatever it was asked before, the lazy table of candidates answers every query as their static
table does, which answers for them. -/
theorem LazyTable.askAll_ofCandidates (capability : String) (cs : List ServiceCandidate)
    (queries : List TableQuery) :
    (LazyTable.ofSpec (.ofCandidates capability cs)).askAll queries =
        queries.map (StaticTable.ofSpec (.ofCandidates capability cs)).ask ∧
      (StaticTable.ofSpec (.ofCandidates capability cs)).AnswersFor cs := by
  have hnodup : (TableSpec.ofCandidates capability cs).names.Nodup :=
    nodup_of_ascending (TableSpec.names_ofCandidates_ascending capability cs)
  exact ⟨(reads_ofSpec _).askAll hnodup queries, StaticTable.answersFor_ofCandidates capability cs⟩

end BuildAhead
