import BuildAhead.Proofs.Services.Queries
import Mathlib.Data.List.Nodup

set_option autoImplicit false

/-!
# Services: resolving names

What a lazy table asks its resolver. What the table has resolved is at any time what the queries so
far needed, and a query asks only for what is not resolved. So every position is asked for by the
first query that needs it and by no other, whether its resolution succeeds or not. The table is
written down once more so that every call of the resolver is noted; leaving the notes out gives back
the table itself.
-/

namespace BuildAhead

/-- One call of a resolver: the position that it is for, the name there, and the answer. -/
structure ResolverCall where
  position : Nat
  name : String
  answer : Option ImplementationKind
  deriving DecidableEq, Repr

/-- The answers to queries, the table that they leave, and the calls of its resolver, in order. -/
structure TableRun where
  answers : List TableAnswer
  after : LazyTable
  calls : List ResolverCall

/-! ## A lazy table with its calls noted -/

/-- `LazyCell.resolve` for the cell at a position, with the call noted. -/
def LazyCell.notedResolve (c : LazyCell) (resolver : Resolver) (position : Nat) :
    LazyCell × List ResolverCall :=
  match c.resolved with
  | some _ => (c, [])
  | none =>
    let answer := resolver c.name
    ({ c with resolved := some answer }, [⟨position, c.name, answer⟩])

namespace LazyTable

/-- Resolves those of the cells from a position on whose names satisfy a predicate. -/
def notedCells (resolver : Resolver) (p : String → Bool) :
    Nat → List LazyCell → List LazyCell × List ResolverCall
  | _, [] => ([], [])
  | position, c :: rest =>
    let first := if p c.name then c.notedResolve resolver position else (c, [])
    let others := notedCells resolver p (position + 1) rest
    (first.1 :: others.1, first.2 ++ others.2)

/-- `LazyTable.resolveWhere`, with the calls noted. -/
def notedResolveWhere (t : LazyTable) (p : String → Bool) : LazyTable × List ResolverCall :=
  let resolved := notedCells t.resolver p 0 t.cells
  ({ t with cells := resolved.1 }, resolved.2)

/-- `LazyTable.ask`, with the calls noted. -/
def notedAsk (t : LazyTable) : TableQuery → (TableAnswer × LazyTable) × List ResolverCall
  | .find p =>
    let resolved := t.notedResolveWhere p
    let found := (resolved.1.cells.filter fun c => p c.name).filterMap LazyCell.entry?
    ((.found found, resolved.1), resolved.2)
  | .contains name => ((.contained (t.contains name), t), [])
  | .preload =>
    let resolved := t.notedResolveWhere fun _ => true
    ((.done, resolved.1), resolved.2)

/-- `LazyTable.askAll`, with the calls noted. -/
def notedAskAll (t : LazyTable) : List TableQuery → TableRun
  | [] => ⟨[], t, []⟩
  | q :: rest =>
    let first := t.notedAsk q
    let others := first.1.2.notedAskAll rest
    ⟨first.1.1 :: others.answers, others.after, first.2 ++ others.calls⟩

/-- The table after queries. -/
def askedAll (t : LazyTable) (queries : List TableQuery) : LazyTable :=
  queries.foldl (fun t q => (t.ask q).2) t

/-- Whatever a table was asked, the names that it has are those of its cells. -/
theorem KnowsCells.askedAll {t : LazyTable} (h : t.KnowsCells) (queries : List TableQuery) :
    (t.askedAll queries).KnowsCells := by
  induction queries generalizing t with
  | nil => exact h
  | cons q rest ih => exact ih (h.ask q)

/-- The names that a query makes a table ask its resolver for. -/
def asks (t : LazyTable) : TableQuery → List String
  | .find p => t.unresolvedWhere p
  | .contains _ => []
  | .preload => t.unresolvedWhere fun _ => true

/-- The names that queries make a table ask its resolver for, one query after the other. -/
def asksAll (t : LazyTable) : List TableQuery → List String
  | [] => []
  | q :: rest => t.asks q ++ (t.ask q).2.asksAll rest

/-! ## Leaving the notes out -/

theorem notedCells_fst (resolver : Resolver) (p : String → Bool) (position : Nat)
    (cells : List LazyCell) :
    (notedCells resolver p position cells).1 =
      cells.map fun c => if p c.name then c.resolve resolver else c := by
  induction cells generalizing position with
  | nil => rfl
  | cons c rest ih =>
    have hfirst : (if p c.name then c.notedResolve resolver position else (c, [])).1 =
        if p c.name then c.resolve resolver else c := by
      split
      · unfold LazyCell.notedResolve LazyCell.resolve
        cases c.resolved <;> rfl
      · rfl
    rw [notedCells, List.map_cons, ih, hfirst]

theorem notedResolveWhere_fst (t : LazyTable) (p : String → Bool) :
    (t.notedResolveWhere p).1 = t.resolveWhere p := by
  simp only [notedResolveWhere, resolveWhere, notedCells_fst]

theorem notedAsk_fst (t : LazyTable) (q : TableQuery) : (t.notedAsk q).1 = t.ask q := by
  cases q with
  | find p =>
    simp only [notedAsk, ask, find]
    rw [notedResolveWhere_fst]
  | contains name => rfl
  | preload =>
    simp only [notedAsk, ask, preload]
    rw [notedResolveWhere_fst]

theorem answers_notedAskAll (t : LazyTable) (queries : List TableQuery) :
    (t.notedAskAll queries).answers = t.askAll queries := by
  induction queries generalizing t with
  | nil => rfl
  | cons q rest ih => rw [notedAskAll, askAll, ih, notedAsk_fst]

theorem after_notedAskAll (t : LazyTable) (queries : List TableQuery) :
    (t.notedAskAll queries).after = t.askedAll queries := by
  induction queries generalizing t with
  | nil => rfl
  | cons q rest ih => rw [notedAskAll, askedAll, List.foldl_cons, ih, notedAsk_fst, askedAll]

/-- The calls are for the names that the table says to be unresolved. -/
theorem names_notedCells (resolver : Resolver) (p : String → Bool) (position : Nat)
    (cells : List LazyCell) :
    (notedCells resolver p position cells).2.map ResolverCall.name =
      (cells.filter fun c => p c.name && c.resolved.isNone).map LazyCell.name := by
  induction cells generalizing position with
  | nil => rfl
  | cons c rest ih =>
    rw [notedCells, List.map_append, ih, List.filter_cons]
    by_cases hp : p c.name = true
    · cases hresolved : c.resolved with
      | none => simp [LazyCell.notedResolve, hp, hresolved]
      | some answer => simp [LazyCell.notedResolve, hp, hresolved]
    · simp [hp]

theorem names_notedAsk (t : LazyTable) (q : TableQuery) :
    (t.notedAsk q).2.map ResolverCall.name = t.asks q := by
  cases q with
  | find p => exact names_notedCells t.resolver p 0 t.cells
  | contains name => rfl
  | preload => exact names_notedCells t.resolver (fun _ => true) 0 t.cells

theorem names_notedAskAll (t : LazyTable) (queries : List TableQuery) :
    (t.notedAskAll queries).calls.map ResolverCall.name = t.asksAll queries := by
  induction queries generalizing t with
  | nil => rfl
  | cons q rest ih => rw [notedAskAll, asksAll, List.map_append, names_notedAsk, ih, notedAsk_fst]

end LazyTable

/-! ## What queries need -/

namespace TableQuery

/-- The query needs this name to be resolved, if the table has it. -/
def needs : TableQuery → String → Bool
  | find p, name => p name
  | contains _, _ => false
  | preload, _ => true

/-- What is to be answered for these names, of which the resolver alone says what they are. -/
def answer (names : List String) (resolver : Resolver) : TableQuery → TableAnswer
  | find p =>
    .found (names.filterMap fun n => if p n then (resolver n).map fun kind => ⟨n, kind⟩ else none)
  | contains name => .contained (names.contains name)
  | preload => .done

end TableQuery

namespace LazyTable

variable {names : List String} {resolver : Resolver} {needed : String → Bool}

/-- The table of these names in which those that are needed are resolved. -/
def resolvedFor (names : List String) (resolver : Resolver) (needed : String → Bool) : LazyTable :=
  ⟨names.map fun n => ⟨n, if needed n then some (resolver n) else none⟩, .ofList names, resolver⟩

theorem ofNames_eq_resolvedFor (names : List String) (resolver : Resolver) :
    ofNames names resolver = resolvedFor names resolver fun _ => false := rfl

/-- Resolving needs more names, and does nothing for those that were needed before. -/
theorem resolveWhere_resolvedFor (p : String → Bool) :
    (resolvedFor names resolver needed).resolveWhere p =
      resolvedFor names resolver fun n => needed n || p n := by
  unfold resolveWhere resolvedFor
  rw [List.map_map]
  congr 1
  refine List.map_congr_left fun n _ => ?_
  cases hp : p n <;> cases hneeded : needed n <;> simp [LazyCell.resolve, hp, hneeded]

theorem ask_resolvedFor_fst (q : TableQuery) :
    ((resolvedFor names resolver needed).ask q).1 = q.answer names resolver := by
  cases q with
  | find p =>
    rw [ask, find, resolveWhere_resolvedFor]
    refine congrArg TableAnswer.found ?_
    simp only [resolvedFor, List.filter_map, List.filterMap_map, List.filterMap_filter]
    refine List.filterMap_congr fun n _ => ?_
    cases hp : p n <;> simp [LazyCell.entry?, hp]
  | contains name =>
    refine congrArg TableAnswer.contained ?_
    rw [contains, Bool.eq_iff_iff, NameSet.contains_iff, List.contains_iff_mem]
    exact NameSet.mem_ofList
  | preload => rfl

theorem ask_resolvedFor_snd (q : TableQuery) :
    ((resolvedFor names resolver needed).ask q).2 =
      resolvedFor names resolver fun n => needed n || q.needs n := by
  cases q with
  | find p => exact resolveWhere_resolvedFor p
  | contains name => simp only [ask, TableQuery.needs, Bool.or_false]
  | preload => exact resolveWhere_resolvedFor fun _ => true

theorem resolvedCount_resolvedFor :
    (resolvedFor names resolver needed).resolvedCount = names.countP needed := by
  unfold resolvedCount resolvedFor
  rw [List.filter_map, List.length_map, List.countP_eq_length_filter]
  congr 2
  funext n
  cases hneeded : needed n <;> simp [hneeded]

/-! ## The calls of a query -/

/-- The calls for the wanted ones of names, which stand from a position on. -/
def callsFor (resolver : Resolver) (wanted : String → Bool) (position : Nat)
    (names : List String) : List ResolverCall :=
  ((names.zipIdx position).filter fun e => wanted e.1).map fun e => ⟨e.2, e.1, resolver e.1⟩

theorem mem_callsFor {wanted : String → Bool} {call : ResolverCall} :
    call ∈ callsFor resolver wanted 0 names ↔ names[call.position]? = some call.name ∧
      wanted call.name = true ∧ call.answer = resolver call.name := by
  unfold callsFor
  simp only [List.mem_map, List.mem_filter, List.mem_zipIdx_iff_getElem?]
  constructor
  · rintro ⟨⟨n, i⟩, ⟨hi, hwanted⟩, rfl⟩
    exact ⟨hi, hwanted, rfl⟩
  · rintro ⟨hname, hwanted, hanswer⟩
    refine ⟨(call.name, call.position), ⟨hname, hwanted⟩, ?_⟩
    rw [← hanswer]

theorem nodup_positions_callsFor (wanted : String → Bool) :
    ((callsFor resolver wanted 0 names).map ResolverCall.position).Nodup := by
  unfold callsFor
  rw [List.map_map]
  have hall : (names.zipIdx.map Prod.snd).Nodup := by
    rw [List.zipIdx_map_snd]
    exact List.nodup_range'
  exact hall.sublist (List.filter_sublist.map _)

/-- A query calls the resolver for the positions that it needs and that were not needed before. -/
theorem calls_notedCells (p : String → Bool) (position : Nat) :
    (notedCells resolver p position (resolvedFor names resolver needed).cells).2 =
      callsFor resolver (fun n => p n && !needed n) position names := by
  induction names generalizing position with
  | nil => rfl
  | cons n rest ih =>
    have hcells : (resolvedFor (n :: rest) resolver needed).cells =
        ⟨n, if needed n then some (resolver n) else none⟩ ::
          (resolvedFor rest resolver needed).cells := rfl
    rw [hcells, notedCells, ih]
    unfold callsFor
    rw [List.zipIdx_cons, List.filter_cons]
    cases hp : p n <;> cases hneeded : needed n <;> simp [LazyCell.notedResolve, hp, hneeded]

theorem calls_notedAsk (q : TableQuery) :
    ((resolvedFor names resolver needed).notedAsk q).2 =
      callsFor resolver (fun n => q.needs n && !needed n) 0 names := by
  cases q with
  | find p => exact calls_notedCells p 0
  | contains name => simp [notedAsk, TableQuery.needs, callsFor]
  | preload => exact calls_notedCells (fun _ => true) 0

theorem length_callsFor (wanted : String → Bool) :
    (callsFor resolver wanted 0 names).length = names.countP wanted := by
  have hnames : names.countP wanted = names.zipIdx.countP fun e => wanted e.1 := by
    conv_lhs => rw [← List.zipIdx_map_fst 0 names, List.countP_map]
    rfl
  rw [hnames, callsFor, List.length_map, List.countP_eq_length_filter]

/-! ## Queries one after the other -/

/-- The calls of queries to a table in which `needed` is resolved: each is for the name at its
position, and they are for the positions that the queries need and that were not resolved, each
once. -/
structure CallsOf (names : List String) (resolver : Resolver) (needed : String → Bool)
    (queries : List TableQuery) (calls : List ResolverCall) : Prop where
  genuine : ∀ call ∈ calls, names[call.position]? = some call.name ∧
    call.answer = resolver call.name
  once : (calls.map ResolverCall.position).Nodup
  positions : ∀ i, i ∈ calls.map ResolverCall.position ↔
    ∃ n, names[i]? = some n ∧ needed n = false ∧ ∃ q ∈ queries, q.needs n = true

/-- A query makes its calls, and the queries behind it those that are left. -/
theorem CallsOf.cons {q : TableQuery} {queries : List TableQuery} {calls : List ResolverCall}
    (h : CallsOf names resolver (fun n => needed n || q.needs n) queries calls) :
    CallsOf names resolver needed (q :: queries)
      (callsFor resolver (fun n => q.needs n && !needed n) 0 names ++ calls) where
  genuine call hcall := by
    rcases List.mem_append.1 hcall with hfirst | hrest
    · obtain ⟨hname, -, hanswer⟩ := mem_callsFor.1 hfirst
      exact ⟨hname, hanswer⟩
    · exact h.genuine call hrest
  once := by
    rw [List.map_append, List.nodup_append]
    refine ⟨nodup_positions_callsFor _, h.once, ?_⟩
    -- the name at a position of the first query is needed by it, at one of the others it is not
    rintro i hi j hj rfl
    obtain ⟨call, hcall, rfl⟩ := List.mem_map.1 hi
    obtain ⟨hname, hwanted, -⟩ := mem_callsFor.1 hcall
    obtain ⟨n, hn, hleft, -⟩ := (h.positions _).1 hj
    cases hname.symm.trans hn
    rw [Bool.or_eq_false_iff] at hleft
    rw [hleft.2] at hwanted
    cases hwanted
  positions i := by
    rw [List.map_append, List.mem_append, h.positions]
    constructor
    · rintro (hfirst | ⟨n, hn, hleft, other, hother, hneeds⟩)
      · obtain ⟨call, hcall, rfl⟩ := List.mem_map.1 hfirst
        obtain ⟨hname, hwanted, -⟩ := mem_callsFor.1 hcall
        rw [Bool.and_eq_true, Bool.not_eq_true'] at hwanted
        exact ⟨call.name, hname, hwanted.2, q, List.mem_cons_self, hwanted.1⟩
      · rw [Bool.or_eq_false_iff] at hleft
        exact ⟨n, hn, hleft.1, other, List.mem_cons_of_mem q hother, hneeds⟩
    · rintro ⟨n, hn, hleft, other, hother, hneeds⟩
      by_cases hq : q.needs n = true
      · have hwanted : (q.needs n && !needed n) = true := by simp [hq, hleft]
        exact .inl (List.mem_map.2 ⟨⟨i, n, resolver n⟩, mem_callsFor.2 ⟨hn, hwanted, rfl⟩, rfl⟩)
      · rcases List.mem_cons.1 hother with rfl | hrest
        · exact absurd hneeds hq
        · have hnot : (needed n || q.needs n) = false := by simp [hleft, hq]
          exact .inr ⟨n, hn, hnot, other, hrest, hneeds⟩

theorem callsOf_notedAskAll (queries : List TableQuery) :
    CallsOf names resolver needed queries
      ((resolvedFor names resolver needed).notedAskAll queries).calls := by
  induction queries generalizing needed with
  | nil =>
    refine ⟨fun call hcall => absurd hcall List.not_mem_nil, .nil, fun i => ?_⟩
    simp [notedAskAll]
  | cons q rest ih =>
    rw [notedAskAll, calls_notedAsk, notedAsk_fst, ask_resolvedFor_snd]
    exact ih.cons

theorem askAll_resolvedFor (queries : List TableQuery) :
    (resolvedFor names resolver needed).askAll queries =
      queries.map fun q => q.answer names resolver := by
  induction queries generalizing needed with
  | nil => rfl
  | cons q rest ih =>
    rw [askAll, ask_resolvedFor_fst, ask_resolvedFor_snd, ih, List.map_cons]

/-- What is needed was needed before or is needed newly. -/
theorem countP_needed (q : TableQuery) :
    names.countP (fun n => needed n || q.needs n) =
      names.countP needed + names.countP fun n => q.needs n && !needed n := by
  induction names with
  | nil => rfl
  | cons n rest ih =>
    simp only [List.countP_cons, ih]
    cases needed n <;> cases q.needs n <;> simp <;> omega

/-- As many calls are made as positions get resolved. -/
theorem countP_add_length_calls (queries : List TableQuery) :
    names.countP needed +
        ((resolvedFor names resolver needed).notedAskAll queries).calls.length =
      ((resolvedFor names resolver needed).askedAll queries).resolvedCount := by
  induction queries generalizing needed with
  | nil => exact resolvedCount_resolvedFor.symm
  | cons q rest ih =>
    rw [notedAskAll, calls_notedAsk, notedAsk_fst, askedAll, List.foldl_cons,
      ask_resolvedFor_snd, List.length_append, length_callsFor, ← Nat.add_assoc, ← countP_needed]
    exact ih

end LazyTable

/-! ## What a run resolves -/

/-- How a lazy table of names answers queries. -/
structure TableRun.ResolvesOnce (run : TableRun) (names : List String) (resolver : Resolver)
    (queries : List TableQuery) : Prop where
  /-- The run is that of the table, with the calls noted: its answers, the table that it leaves, and
  the names that it asks for. -/
  answers : run.answers = (LazyTable.ofNames names resolver).askAll queries
  after : run.after = (LazyTable.ofNames names resolver).askedAll queries
  asks : run.calls.map ResolverCall.name = (LazyTable.ofNames names resolver).asksAll queries
  /-- Every query is answered from the names and the resolver, whatever came before it. -/
  answered : run.answers = queries.map fun q => q.answer names resolver
  /-- Every call is for the name at its position. -/
  genuine : ∀ call ∈ run.calls, names[call.position]? = some call.name ∧
    call.answer = resolver call.name
  /-- No position is asked for twice. -/
  once : (run.calls.map ResolverCall.position).Nodup
  /-- The positions that are asked for are those whose names a query needs: those that satisfy the
  predicate of some `find`, and all when there is a `preload`. -/
  positions : ∀ i, i ∈ run.calls.map ResolverCall.position ↔
    ∃ n, names[i]? = some n ∧ ∃ q ∈ queries, q.needs n = true
  /-- The table counts the positions that were asked for. -/
  count : run.after.resolvedCount = run.calls.length

/-- A lazy table resolves a position when a query first needs it, and never again. -/
theorem LazyTable.notedAskAll_resolvesOnce (names : List String) (resolver : Resolver)
    (queries : List TableQuery) :
    ((ofNames names resolver).notedAskAll queries).ResolvesOnce names resolver queries := by
  have hstart := ofNames_eq_resolvedFor names resolver
  have hcalls : CallsOf names resolver (fun _ => false) queries
      ((ofNames names resolver).notedAskAll queries).calls := callsOf_notedAskAll queries
  have hcount : names.countP (fun _ => false) +
        ((ofNames names resolver).notedAskAll queries).calls.length =
      ((ofNames names resolver).askedAll queries).resolvedCount := countP_add_length_calls queries
  constructor
  case answers => exact answers_notedAskAll _ queries
  case after => exact after_notedAskAll _ queries
  case asks => exact names_notedAskAll _ queries
  case answered => rw [answers_notedAskAll, hstart, askAll_resolvedFor]
  case genuine => exact hcalls.genuine
  case once => exact hcalls.once
  case positions =>
    intro i
    simpa using hcalls.positions i
  case count =>
    have hzero : names.countP (fun _ => false) = 0 := by simp
    rw [after_notedAskAll, ← hcount, hzero, Nat.zero_add]

example :
    ((LazyTable.ofNames ["a", "b", "a"] fun n => if n = "a" then some .factoryMethod else none
      ).notedAskAll [.find (· == "a"), .preload]).calls.map ResolverCall.position = [0, 2, 1] := by
  decide +kernel

end BuildAhead
