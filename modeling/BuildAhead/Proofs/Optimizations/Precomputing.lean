import BuildAhead.Proofs.Code.Splitting
import BuildAhead.Proofs.Generation.Units
import BuildAhead.Proofs.Optimizations.Naming
import BuildAhead.Proofs.Optimizations.Spellings
import BuildAhead.Proofs.Text.Case
import Mathlib.Data.List.Count

set_option autoImplicit false

/-!
# Optimizations: what becomes of the environment variables

The module that computes property names sorts the variables into three groups by the number of their
segments: those without any are left out in silence, those with more than the limit are reported,
one message each, and all others are in a table with their names. The generated loader, when it is
run, enters the table into a map in the order of the variables, through sub-loaders that keep within
the budget, and wraps the map.
-/

namespace BuildAhead.VariableNames

open Code Code.Exec

/-! ## Groups of vars -/

theorem limitOf_eq_ok_iff {s : Settings} {limit : Nat} :
    limitOf s = .ok limit ↔ s.int limitKey 16 = .ok (limit : Int) ∧ 1 ≤ limit ∧ limit ≤ 24 := by
  unfold limitOf
  cases hint : s.int limitKey (defaultLimit : Int) with
  | error e =>
    have hint' : s.int limitKey 16 = .error e := hint
    simp [hint', bind, Except.bind]
  | ok n =>
    have hint' : s.int limitKey 16 = .ok n := hint
    rw [hint', Except.ok.injEq]
    by_cases hrange : n < 1 ∨ (hardLimit : Int) < n
    · have hnot : ¬ (n = limit ∧ 1 ≤ limit ∧ limit ≤ 24) := by
        unfold hardLimit at hrange
        omega
      simp [hrange, hnot, throw, throwThe, MonadExceptOf.throw, bind, Except.bind]
    · have hwithin : n.toNat = limit ↔ n = limit ∧ 1 ≤ limit ∧ limit ≤ 24 := by
        unfold hardLimit at hrange
        omega
      simp [hrange, hwithin, pure, Except.pure, bind, Except.bind]

section

variable {letters : Text.CaseTable} {v : String} {limit : Nat} {names : List String}

theorem length_segmentsOf_lower (letters : Text.CaseTable) (v : String) :
    (segmentsOf (letters.lower v)).length = segmentCount v :=
  Text.length_words_lower letters v

theorem isNone_namesWith?_iff (hlimit : limit ≤ 24) :
    (namesWith? letters v limit).isNone = true ↔ limit < segmentCount v := by
  rw [← length_segmentsOf_lower letters]
  constructor
  · intro hnone
    by_contra hfew
    cases hsegments : segmentsOf (letters.lower v) with
    | nil =>
      rw [namesWith?_of_none limit hsegments] at hnone
      cases hnone
    | cons first rest =>
      rw [hsegments, List.length_cons] at hfew
      rw [namesWith?_of_few hsegments (by omega)] at hnone
      cases hnone
  · intro hmany
    rw [namesWith?_of_many (by omega)]
    rfl

/-- A variable has names when it has segments, and not too many. -/
theorem exists_namesWith?_iff (hlimit : limit ≤ 24) :
    (∃ names, namesWith? letters v limit = some names ∧ names ≠ []) ↔
      0 < segmentCount v ∧ segmentCount v ≤ limit := by
  rw [← length_segmentsOf_lower letters]
  cases hsegments : segmentsOf (letters.lower v) with
  | nil => simp [namesWith?_of_none limit hsegments]
  | cons first rest =>
    by_cases hmany : limit < (first :: rest).length
    · have hnone : namesWith? letters v limit = none :=
        namesWith?_of_many (by rw [hsegments]; omega)
      rw [hnone]
      simp only [List.length_cons] at hmany
      simp only [reduceCtorEq, false_and, exists_false, List.length_cons, false_iff]
      omega
    · rw [List.length_cons] at hmany
      refine iff_of_true ⟨_, namesWith?_of_few hsegments (by omega), ?_⟩ ?_
      · intro hnil
        have hcount := congrArg List.length hnil
        rw [List.length_map, (listsChoices_choicesOf _).count, List.length_nil] at hcount
        exact absurd hcount (Nat.two_pow_pos _).ne'
      · rw [List.length_cons]
        omega

/-- Of variables with what is known of their names, those that have names are kept. -/
theorem mem_filterMap_named {vars : List String}
    {keep : String × Option (List String) → Option (String × List String)}
    (hkeep : ∀ x found w ns, keep (x, found) = some (w, ns) ↔ x = w ∧ found = some ns ∧ ns ≠ []) :
    (v, names) ∈ (vars.map fun v => (v, namesWith? letters v limit)).filterMap keep ↔
      v ∈ vars ∧ namesWith? letters v limit = some names ∧ names ≠ [] := by
  rw [List.filterMap_map, List.mem_filterMap]
  simp only [Function.comp_apply, hkeep]
  constructor
  · rintro ⟨x, hx, rfl, hnames⟩
    exact ⟨hx, hnames⟩
  · rintro ⟨hv, hnames⟩
    exact ⟨v, hv, rfl, hnames⟩

/-- The table has an entry for each of the variables that have names. -/
theorem mem_table {vars : List String} :
    (v, names) ∈ (tableWith letters vars limit).1.toList ↔
      v ∈ vars ∧ namesWith? letters v limit = some names ∧ names ≠ [] := by
  have hentries : ∀ keep : String × Option (List String) → Option (String × List String),
      (∀ x found w ns, keep (x, found) = some (w, ns) ↔ x = w ∧ found = some ns ∧ ns ≠ []) →
      ((v, names) ∈ (Dict.ofList
        ((vars.map fun v => (v, namesWith? letters v limit)).filterMap keep)).toList ↔
          v ∈ vars ∧ namesWith? letters v limit = some names ∧ names ≠ []) := by
    intro keep hkeep
    rw [Dict.mem_toList, ← mem_filterMap_named hkeep]
    constructor
    · exact Dict.mem_of_get?_ofList
    · intro hmem
      refine Dict.get?_ofList_of_forall hmem fun other hother => ?_
      have hsame := ((mem_filterMap_named hkeep).1 hother).2.1
      rw [((mem_filterMap_named hkeep).1 hmem).2.1] at hsame
      exact (Option.some.inj hsame).symm
  refine hentries _ ?_
  intro x found w ns
  rcases found with - | - | ⟨n, rest⟩
  · simp
  · simp
  · have hne : n :: rest = ns → ns ≠ [] := fun heq => heq ▸ List.cons_ne_nil n rest
    simpa using fun _ heq => hne heq

theorem skipped_tableWith (letters : Text.CaseTable) (vars : List String) (limit : Nat) :
    (tableWith letters vars limit).2 =
      vars.filter fun v => (namesWith? letters v limit).isNone := by
  have hfilter : ∀ found : String → Option (List String),
      ((vars.map fun v => (v, found v)).filter fun e => e.2.isNone).map (·.1) =
        vars.filter fun v => (found v).isNone := by
    intro found
    simp [List.filter_map, Function.comp_def]
  exact hfilter fun v => namesWith? letters v limit

end

/-! ## Messages -/

theorem space_not_mem_digits (n : Nat) : ∀ c ∈ (toString n).toList, (c == ' ') = false := by
  intro c hc
  rw [Nat.toString_eq_repr, Nat.repr_eq_ofList_toDigits, String.toList_ofList] at hc
  have hdigit := Nat.isDigit_of_mem_toDigits (by decide) (by decide) hc
  refine beq_eq_false_iff_ne.2 ?_
  rintro rfl
  exact absurd hdigit (by decide)

/-- A message names one variable: the text in front of the last blank before the number has it. -/
theorem skippedMessage_injective (limit : Nat) : Function.Injective (skippedMessage limit) := by
  have hmessage : ∀ v, skippedMessage limit v =
      "Skipping environment variable " ++ v ++ ":" ++ " " ++ toString (segmentCount v) ++
        " segments exceed the limit of " ++ toString limit := by
    intro v
    have hcolon : ": " = ":" ++ " " := rfl
    unfold skippedMessage
    rw [hcolon, ← String.append_assoc]
  intro v w heq
  rw [hmessage, hmessage, String.append_left_inj, String.append_left_inj] at heq
  have hpieces := congrArg (Text.pieces (· == ' ')) heq
  have hblank : (" " : String).toList = [' '] := rfl
  rw [Text.pieces_append_last hblank rfl (space_not_mem_digits _),
    Text.pieces_append_last hblank rfl (space_not_mem_digits _)] at hpieces
  have hsame := congrArg (Text.joined " ") (List.append_inj_left' hpieces rfl)
  rw [Text.joined_pieces hblank, Text.joined_pieces hblank, String.append_left_inj,
    String.append_right_inj] at hsame
  exact hsame

/-- Where the variables of an environment are: in the table with their names, in one message each,
or nowhere. -/
structure Sorts (letters : Text.CaseTable) (limit : Nat) (vars : List String)
    (table : List (String × List String)) (messages : List String) : Prop where
  ascending : (table.map Prod.fst).Pairwise (· < ·)
  table_mem : ∀ e ∈ table, e.1 ∈ vars
  message_mem : ∀ m ∈ messages, ∃ v ∈ vars, m = skippedMessage limit v
  /-- without segments -/
  nowhere : ∀ v ∈ vars, segmentCount v = 0 →
    v ∉ table.map Prod.fst ∧ skippedMessage limit v ∉ messages
  /-- with too many segments -/
  reported : ∀ v ∈ vars, limit < segmentCount v →
    v ∉ table.map Prod.fst ∧ messages.count (skippedMessage limit v) = 1
  /-- all others -/
  entered : ∀ v ∈ vars, 0 < segmentCount v → segmentCount v ≤ limit →
    (∃ names, namesWith? letters v limit = some names ∧ (v, names) ∈ table) ∧
      skippedMessage limit v ∉ messages
  /-- no message is about two variables -/
  apart : Function.Injective (skippedMessage limit)

theorem sorts_tableWith {letters : Text.CaseTable} {vars : List String} {limit : Nat}
    (hnodup : vars.Nodup) (hlimit : limit ≤ 24) :
    Sorts letters limit vars (tableWith letters vars limit).1.toList
      ((tableWith letters vars limit).2.map (skippedMessage limit)) := by
  have hentry : ∀ v, v ∈ (tableWith letters vars limit).1.toList.map Prod.fst ↔
      v ∈ vars ∧ 0 < segmentCount v ∧ segmentCount v ≤ limit := by
    intro v
    rw [← exists_namesWith?_iff hlimit, List.mem_map]
    constructor
    · rintro ⟨⟨w, names⟩, hmem, rfl⟩
      obtain ⟨hw, hnames⟩ := mem_table.1 hmem
      exact ⟨hw, names, hnames⟩
    · rintro ⟨hv, names, hnames⟩
      exact ⟨(v, names), mem_table.2 ⟨hv, hnames⟩, rfl⟩
  have hmessage : ∀ v, skippedMessage limit v ∈
      (tableWith letters vars limit).2.map (skippedMessage limit) ↔
        v ∈ vars ∧ limit < segmentCount v := by
    intro v
    rw [List.mem_map_of_injective (skippedMessage_injective limit), skipped_tableWith,
      List.mem_filter, isNone_namesWith?_iff hlimit]
  refine ⟨(tableWith letters vars limit).1.keys_ascending, ?_, ?_, ?_, ?_, ?_,
    skippedMessage_injective limit⟩
  · rintro ⟨v, names⟩ he
    exact (mem_table.1 he).1
  · intro m hm
    obtain ⟨v, hv, rfl⟩ := List.mem_map.1 hm
    rw [skipped_tableWith] at hv
    exact ⟨v, (List.mem_filter.1 hv).1, rfl⟩
  · intro v _ hnone
    rw [hentry, hmessage]
    omega
  · intro v hv hmany
    refine ⟨by rw [hentry]; omega, ?_⟩
    rw [List.count_map_of_injective _ _ (skippedMessage_injective limit), skipped_tableWith]
    refine List.count_eq_one_of_mem (hnodup.filter _) (List.mem_filter.2 ⟨hv, ?_⟩)
    exact (isNone_namesWith?_iff hlimit).2 hmany
  · intro v hv hsome hfew
    obtain ⟨names, hnames, hne⟩ := (exists_namesWith?_iff hlimit).2 ⟨hsome, hfew⟩
    refine ⟨⟨names, hnames, mem_table.2 ⟨hv, hnames, hne⟩⟩, ?_⟩
    rw [hmessage]
    omega

/-! ## Running the loader -/

/-- The map of the loader, which is the first object that is made. -/
def variablesMap : Value := .object 0 "HashMap" []

/-- What the map has for a variable: its names. -/
def namesValue (names : List String) : Value := .list (names.map .text)

/-- The call that enters a variable. -/
def putEvent (e : String × List String) : Event :=
  .outside variablesMap "put" [.text e.1, namesValue e.2]

/-- The call that wraps the map. -/
def wrapEvent : Event := .outside (.typeRef Runtime.environmentProperties) "of" [variablesMap]

/-- All calls of a loader that is run: each sub-loader, with the variables that it enters, and the
wrapping of the map at the end. -/
def loadEvents (segments : List (List (String × List String))) : List Event :=
  .own "load" [] :: (segments.zipIdx.flatMap (fun s =>
    .own ("load" ++ toString s.2) [variablesMap] :: s.1.map putEvent) ++ [wrapEvent])

/-- Names between double quotes, with commas and blanks between them. -/
def quotedNames (names : List String) : String :=
  Text.joined ", " (names.map fun n => "\"" ++ n ++ "\"")

/-- What the statement for a variable is taken to cost. -/
def accountedSize (e : String × List String) : Nat :=
  37 + e.1.utf8ByteSize + (quotedNames e.2).utf8ByteSize + 2

/-- A unit enters a table, cut into these segments, when its method `load` is called: it has a
sub-loader for each segment, which is given the map and enters the variables of its segment, and
these are called in order. The map is wrapped once it is full. -/
structure LoadsNames (u : CodeUnit) (table : List (String × List String))
    (segments : List (List (String × List String))) : Prop where
  joined : segments.flatten = table
  fits : ∀ s ∈ segments, Fits 30000 accountedSize s
  methods : u.methods.map Method.name =
    "load" :: (List.range segments.length).map fun i => "load" ++ toString i
  distinct : (u.methods.map Method.name).Nodup
  runs : ∀ depth, ∃ trace,
    (u.invoke (depth + 2) "load" []).run {} =
      some (.answer (.typeRef Runtime.environmentProperties) "of" [variablesMap], trace) ∧
    trace.Fills 0 (table.map fun e => (e.1, namesValue e.2)) ∧
    trace.ownCalls =
      ("load", []) ::
        (List.range segments.length).map (fun i => ("load" ++ toString i, [variablesMap])) ∧
    trace.events = loadEvents segments

theorem quotedSize_eq (names : List String) :
    quotedSize names = (quotedNames names).utf8ByteSize := by
  unfold quotedSize quotedNames
  induction names with
  | nil => rfl
  | cons n rest ih =>
    have hquotes : ("\"" ++ n ++ "\"").utf8ByteSize = n.utf8ByteSize + 2 := by
      rw [String.utf8ByteSize_append, String.utf8ByteSize_append]
      show 1 + n.utf8ByteSize + 1 = n.utf8ByteSize + 2
      omega
    cases rest with
    | nil =>
      show n.utf8ByteSize + 2 + 0 + 2 * 0 = ("\"" ++ n ++ "\"").utf8ByteSize
      omega
    | cons m rest =>
      have hcomma : (", " : String).utf8ByteSize = 2 := rfl
      have hjoined : Text.joined ", " ((n :: m :: rest).map fun n => "\"" ++ n ++ "\"") =
          "\"" ++ n ++ "\"" ++ ", " ++
            Text.joined ", " ((m :: rest).map fun n => "\"" ++ n ++ "\"") := rfl
      have hsum : sumOf ((n :: m :: rest).map fun n => n.utf8ByteSize + 2) =
          n.utf8ByteSize + 2 + sumOf ((m :: rest).map fun n => n.utf8ByteSize + 2) := rfl
      rw [hjoined, hsum, String.utf8ByteSize_append, String.utf8ByteSize_append, hquotes, hcomma,
        ← ih]
      simp only [List.length_cons]
      omega

/-- The loader of a table. -/
def loaderOf (space : String) (table : Dict (List String)) : CodeUnit :=
  Generation.loaderUnit space loaderName Runtime.environmentProperties (loaderBody table)

/-- The segments into which the loader cuts its table. -/
def segmentsOfTable (table : Dict (List String)) : List (List (String × List String)) :=
  segments defaultMaxUnitSize entryCost table.toList

section

variable {space : String} {table : Dict (List String)}

theorem fits_segmentsOfTable : ∀ s ∈ segmentsOfTable table, Fits 30000 accountedSize s := by
  have hcost : entryCost = accountedSize := by
    funext e
    unfold entryCost accountedSize
    rw [quotedSize_eq]
  unfold segmentsOfTable
  rw [hcost]
  exact fits_segments 30000 accountedSize table.toList

theorem names_methods_loaderOf :
    (loaderOf space table).methods.map Method.name =
      "load" :: (List.range (segmentsOfTable table).length).map fun i => "load" ++ toString i := by
  have hhelpers : (loaderOf space table).methods.map Method.name =
      "load" :: (SubLoaders.ofSegments "load" [⟨"env", "Map"⟩]
        ((segmentsOfTable table).map fun s => s.map putEntry)).methods.map Method.name := rfl
  rw [hhelpers, SubLoaders.names_methods, List.length_map]

/-- The method `load` has the name of none of the sub-loaders, which all have a number. -/
theorem names_methods_loaderOf_nodup : ((loaderOf space table).methods.map Method.name).Nodup := by
  rw [names_methods_loaderOf, List.nodup_cons]
  constructor
  · intro hmem
    obtain ⟨i, -, heq⟩ := List.mem_map.1 hmem
    have hempty : toString i = "" := by
      have hchars := congrArg String.toList heq
      rw [String.toList_append, List.append_right_eq_self] at hchars
      exact String.toList_eq_nil_iff.1 hchars
    exact Nat.repr_ne_empty hempty
  · exact List.nodup_range.map fun _ _ h => SubLoaders.numbered_injective "load" h

variable {own : String → List Value → Exec Value} {scope : Scope}

theorem answers_evalAll_texts (texts : List String) :
    Answers (evalAll own scope (texts.map .text)) (texts.map .text) [] := by
  induction texts with
  | nil => exact answers_evalAll_nil
  | cons s rest ih => exact answers_evalAll_cons (answers_eval_text s) ih

theorem answers_putEntry (e : String × List String) :
    Answers (perform own [("env", variablesMap)] (putEntry e)) (none, [("env", variablesMap)])
      [putEvent e] := by
  have hmap : Answers (eval own [("env", variablesMap)] (.ident "env")) variablesMap [] :=
    answers_eval_ident rfl
  have hnames : Answers (eval own [("env", variablesMap)] (.list (e.2.map .text)))
      (namesValue e.2) [] := by
    rw [eval]
    exact (answers_evalAll_texts e.2).map Value.list
  exact answers_perform_eval (answers_eval_callOn hmap
    (answers_evalAll_cons (answers_eval_text e.1) (answers_evalAll_cons hnames
      answers_evalAll_nil)))

theorem answers_wrap :
    Answers
      (performAll own [("env", variablesMap)]
        [.ret (.callStatic Runtime.environmentProperties "of" [.ident "env"])])
      (some (.answer (.typeRef Runtime.environmentProperties) "of" [variablesMap]))
      [wrapEvent] := by
  have hmap : Answers (eval own [("env", variablesMap)] (.ident "env")) variablesMap [] :=
    answers_eval_ident rfl
  exact answers_performAll_ret (answers_eval_callOn (answers_eval_typeRef _)
    (answers_evalAll_cons hmap answers_evalAll_nil)) []

/-- The loader makes its map, has the sub-loaders enter the variables, and wraps the map. -/
theorem run_invoke_loaderOf (space : String) (table : Dict (List String)) (depth : Nat) :
    ((loaderOf space table).invoke (depth + 2) "load" []).run {} =
      some (.answer (.typeRef Runtime.environmentProperties) "of" [variablesMap],
        ⟨1, loadEvents (segmentsOfTable table)⟩) := by
  have hloads : Answers
      (performAll ((loaderOf space table).call [] (depth + 1)) [("env", variablesMap)]
        ((SubLoaders.ofSegments "load" [⟨"env", "Map"⟩]
          ((segmentsOfTable table).map fun s => s.map putEntry)).calls ++
            [.ret (.callStatic Runtime.environmentProperties "of" [.ident "env"])]))
      (some (.answer (.typeRef Runtime.environmentProperties) "of" [variablesMap]))
      ((segmentsOfTable table).zipIdx.flatMap (fun s =>
        .own ("load" ++ toString s.2) [variablesMap] :: s.1.map putEvent) ++ [wrapEvent]) := by
    have hpassed : Answers
        (evalAll ((loaderOf space table).call [] (depth + 1)) [("env", variablesMap)]
          (([⟨"env", "Map"⟩] : List Param).map fun p => .ident p.name)) [variablesMap] [] :=
      answers_evalAll_cons (answers_eval_ident rfl) answers_evalAll_nil
    exact CodeUnit.answers_subLoaders names_methods_loaderOf_nodup
      (fun m hm => List.mem_cons_of_mem _ hm) hpassed rfl answers_putEntry answers_wrap
  have hmethod : (loaderOf space table).method? "load" =
      some { name := "load", returns := some Runtime.environmentProperties,
             body := (loaderBody table).statements } := rfl
  have hmap : ∀ own, (perform own [] (.bind "env" (.construct "HashMap" []))).run
      ⟨0, [.own "load" []]⟩ =
        some ((none, [("env", variablesMap)]), ⟨1, [.own "load" []]⟩) := fun _ => rfl
  have hstatements : (loaderBody table).statements =
      .bind "env" (.construct "HashMap" []) ::
        ((SubLoaders.ofSegments "load" [⟨"env", "Map"⟩]
          ((segmentsOfTable table).map fun s => s.map putEntry)).calls ++
            [.ret (.callStatic Runtime.environmentProperties "of" [.ident "env"])]) := rfl
  have hbody : (performAll ((loaderOf space table).call [] (depth + 1)) []
      (loaderBody table).statements).run ⟨0, [.own "load" []]⟩ =
        some (some (.answer (.typeRef Runtime.environmentProperties) "of" [variablesMap]),
          ⟨1, loadEvents (segmentsOfTable table)⟩) := by
    rw [hstatements, run_performAll_cons (hmap _)]
    exact hloads _
  exact CodeUnit.run_invoke rfl rfl hmethod rfl hbody

theorem loadsNames_loaderOf (space : String) (table : Dict (List String)) :
    LoadsNames (loaderOf space table) table.toList (segmentsOfTable table) where
  joined := flatten_segments _ _ _
  fits := fits_segmentsOfTable
  methods := names_methods_loaderOf
  distinct := names_methods_loaderOf_nodup
  runs depth := by
    refine ⟨_, run_invoke_loaderOf space table depth, ?_, ?_, rfl⟩
    · unfold Trace.Fills Trace.callsOn loadEvents
      have hput : (fun e => Trace.callOn? 0 (putEvent e)) =
          some ∘ fun e => ("put", [.text e.1, namesValue e.2]) := rfl
      rw [List.filterMap_cons_none rfl, List.filterMap_append, CodeUnit.callsOn_subLoaders, hput,
        List.filterMap_eq_map, segmentsOfTable, flatten_segments, List.map_map]
      exact List.append_nil _
    · unfold Trace.ownCalls loadEvents
      have hcall : Trace.ownCall? (.own "load" []) = some ("load", []) := rfl
      rw [List.filterMap_cons_some hcall, List.filterMap_append,
        CodeUnit.ownCalls_subLoaders fun _ => rfl]
      exact congrArg _ (List.append_nil _)

end

/-! ## Running the module -/

/-- The context with a message for each variable that is left out. -/
def reported (letters : Text.CaseTable) (c : Context) (limit : Nat) : Context :=
  { c with
    diagnostics := c.diagnostics.addAll moduleId
      ((tableWith letters c.analyzer.snapshot.environmentVariables.keys limit).2.map
        (skippedMessage limit)) }

/-- Registers the loader for the variables of the environment that are in the table. -/
def registerLoader (letters : Text.CaseTable) (c : Context) (limit : Nat) :
    Generation Code.UnitName :=
  Generation.registerStaticOptimization loaderName Runtime.environmentProperties
    (loaderBody (tableWith letters c.analyzer.snapshot.environmentVariables.keys limit).1)

theorem runOn_module (letters : Text.CaseTable) (c : Context) :
    (moduleWith letters).generate.runOn c =
      match limitOf c.settings with
      | .error e => (.error e, c)
      | .ok limit =>
        let registered := (registerLoader letters c limit).runOn (reported letters c limit)
        (registered.1.map fun _ => (), registered.2) := by
  unfold moduleWith
  simp only [Generation.runOn_bind, Generation.runOn_get]
  cases limitOf c.settings with
  | error e => rfl
  | ok limit =>
    -- The limit was read and the messages are left; only the loader is still to be registered.
    exact Generation.runOn_discard (registerLoader letters c limit) (reported letters c limit)

/-- What a run of the module has done to a context: it read the limit, sorted the variables of the
environment, left messages about some of them, and added a unit that loads the names of others. -/
structure Precomputes (letters : Text.CaseTable) (c c' : Context) (limit : Nat)
    (table : List (String × List String)) (messages : List String) (u : CodeUnit)
    (segments : List (List (String × List String))) : Prop where
  configured : c.settings.int limitKey 16 = .ok (limit : Int)
  allowed : 1 ≤ limit ∧ limit ≤ 24
  sorts : Sorts letters limit c.analyzer.snapshot.environmentVariables.keys table messages
  diagnostics : ∀ category, c'.diagnostics.messages category =
    if category = moduleId then c.diagnostics.messages category ++ messages
    else c.diagnostics.messages category
  adds : c.AddsUnits c' [u]
  /-- the unit is the only one of its name, where the names of the units are what is recorded -/
  only : c.NamesRecorded → c'.unitsNamed u.qualifiedName = [u]
  named : u.unitName = ⟨c.space, loaderName⟩
  loads : LoadsNames u table segments

theorem precomputes_of_runOn {letters : Text.CaseTable} {c c' : Context}
    (hrun : (moduleWith letters).generate.runOn c = (.ok (), c')) :
    ∃ limit table messages u segments,
      Precomputes letters c c' limit table messages u segments := by
  rw [runOn_module] at hrun
  cases hlimit : limitOf c.settings with
  | error e =>
    rw [hlimit] at hrun
    cases hrun
  | ok limit =>
    rw [hlimit] at hrun
    obtain ⟨hconfigured, hleast, hmost⟩ := limitOf_eq_ok_iff.1 hlimit
    rcases hregister : (registerLoader letters c limit).runOn (reported letters c limit) with
      ⟨e | n, c''⟩
    · simp only [hregister] at hrun
      cases hrun
    · simp only [hregister] at hrun
      cases hrun
      obtain ⟨hadds, -⟩ := Generation.addsUnits_registerStaticOptimization hregister
      have hdiagnostics : c'.diagnostics = (reported letters c limit).diagnostics := by
        rw [registerLoader, Generation.runOn_registerStaticOptimization] at hregister
        simp only at hregister
        split at hregister
        · cases hregister
        · split at hregister <;> cases hregister
          rfl
      refine ⟨limit, _, _, _, _, hconfigured, ⟨hleast, hmost⟩, sorts_tableWith ?_ hmost, ?_, ?_,
        ?_, rfl, loadsNames_loaderOf c.space _⟩
      · exact nodup_of_ascending (Dict.keys_ascending _)
      · intro category
        rw [hdiagnostics, reported, Diagnostics.messages_addAll]
      · exact ⟨hadds.units, hadds.recorded, hadds.new, hadds.once⟩
      · intro hc
        exact hadds.unitsNamed_eq hc (List.mem_singleton_self _)

/-- The module succeeds when the configured limit is allowed, the context is open, and no unit has
the name of the loader. Then each variable is in the table of the loader, in a message, or has no
segments; and the loader, when it is run, enters the table. -/
theorem moduleWith_precomputes (letters : Text.CaseTable) (c : Context) :
    ((∃ c', (moduleWith letters).generate.runOn c = (.ok (), c')) ↔
      c.settings.Admits limitKey IsLimit ∧ c.finished = false ∧
        c.hasUnit (Names.qualify c.space loaderName) = false) ∧
    ∀ c', (moduleWith letters).generate.runOn c = (.ok (), c') →
      ∃ limit table messages u segments,
        Precomputes letters c c' limit table messages u segments := by
  refine ⟨?_, fun c' => precomputes_of_runOn⟩
  rw [runOn_module, ← exists_limitOf_iff]
  cases hlimit : limitOf c.settings with
  | error e => simp
  | ok limit =>
    have hunit : (reported letters c limit).hasUnit = c.hasUnit := rfl
    have hspace : (reported letters c limit).space = c.space := rfl
    have hfinished : (reported letters c limit).finished = c.finished := rfl
    have hqualified : ∀ body, (Generation.loaderUnit c.space loaderName
        Runtime.environmentProperties body).qualifiedName = Names.qualify c.space loaderName :=
      fun _ => rfl
    simp only [registerLoader, Generation.runOn_registerStaticOptimization, hunit, hspace,
      hfinished, hqualified]
    cases c.finished <;> cases c.hasUnit (Names.qualify c.space loaderName) <;>
      simp [Except.map]

/-- Three variables and a limit of two segments: one variable is in the table, one in a message, and
one is in neither. -/
theorem moduleWith_precomputes_three :
    let c : Context :=
      { space := "gen", profile := .jit, settings := .ofPairs [(limitKey, "2")]
        analyzer :=
          ⟨{ environmentVariables := .ofList [("A_B_C", ""), ("SERVER_PORT", "80"), ("__", "")] },
            requirementsMet⟩
        application := {} }
    ∃ c', module.generate.runOn c = (.ok (), c') ∧
      c'.diagnostics.messages moduleId =
        ["Skipping environment variable A_B_C: 3 segments exceed the limit of 2"] ∧
      ∃ limit table messages u segments,
        Precomputes .standard c c' limit table messages u segments := by
  intro c
  have hprecomputes := moduleWith_precomputes .standard c
  have hsucceeds : (module.generate.runOn c).1.isOk = true := by decide +kernel
  have hmessages : (module.generate.runOn c).2.diagnostics.messages moduleId =
      ["Skipping environment variable A_B_C: 3 segments exceed the limit of 2"] := by
    decide +kernel
  rcases hrun : module.generate.runOn c with ⟨e | done, c'⟩
  · rw [hrun] at hsucceeds
    cases hsucceeds
  · rw [hrun] at hmessages
    exact ⟨c', rfl, hmessages, hprecomputes.2 c' hrun⟩

end BuildAhead.VariableNames
