import BuildAhead.Logging.Setup
import BuildAhead.Proofs.Collection.Dict
import BuildAhead.Proofs.Collection.Steps
import BuildAhead.Proofs.Files.Tree
import BuildAhead.Proofs.Generation.Running
import BuildAhead.Proofs.Text.Pieces
import BuildAhead.Proofs.Text.Trimming

set_option autoImplicit false

/-!
# Logging: starting

The settings and the variables of the environment each say something about the log, and which of
them counts is another matter for the levels, for the format and for the output. What counts of each
is said first, without the order of the checks, and then that the log is refused for nothing else.
A file is opened behind all checks, for a log that goes to one, and keeps the text that it has.
-/

namespace BuildAhead

/-! ## What is in force -/

namespace Logging

/-- The variable lists this level for the target: one of its items begins with the target, and the
level stands behind the first equals sign. -/
def Listed (e : Environment) (target level : String) : Prop :=
  '=' ∉ target.toList ∧ ∃ value, e.get? "PREBAKE_LOG_MODULES" = some value ∧
    target ++ "=" ++ level ∈ Text.pieces (· == ',') value

/-- The level of a target is among those of the settings or of the variable, and all of them count:
the environment has no valid filter, and the log is not silent. -/
structure InForce (r : FilterReader) (s : LoggingSettings) (e : Environment)
    (target level : String) : Prop where
  given : s.modules.get? target = some level ∨ Listed e target level
  noFilter : ∀ text, e.get? "PREBAKE_LOG" = some text → r.filter? text = none
  audible : s.level ≠ "off"

/-- A target and its level, without the blanks around them, are read as a directive. -/
def IsDirective (r : FilterReader) (target level : String) : Prop :=
  ∃ d, r.directive (Text.trim target ++ "=" ++ Text.trim level) = .ok d

/-- The name of the format: that of the variable if it is one, or else that of the settings. -/
def formatInForce (s : LoggingSettings) (e : Environment) : String :=
  match e.get? "PREBAKE_LOG_FORMAT" with
  | some name => if name = "json" ∨ name = "text" then name else s.format
  | none => s.format

/-- The name of the output: that of the variable, whatever it is, or else that of the settings. -/
def outputInForce (s : LoggingSettings) (e : Environment) : String :=
  (e.get? "PREBAKE_LOG_OUTPUT").getD s.output

/-- Everything that is in force is valid. -/
structure ValidSetup (r : FilterReader) (s : LoggingSettings) (e : Environment) : Prop where
  levels : ∀ target level, InForce r s e target level → IsDirective r target level
  format : formatInForce s e = "json" ∨ formatInForce s e = "text"
  output : outputInForce s e = "stdout" ∨ outputInForce s e = "stderr" ∨ outputInForce s e = "file"

end Logging

/-! ## The names of formats and outputs -/

theorem LogFormat.exists_ofName?_iff {name : String} :
    (∃ f, LogFormat.ofName? name = some f) ↔ name = "json" ∨ name = "text" := by
  unfold LogFormat.ofName?
  by_cases hjson : name = "json"
  · simp [hjson]
  · by_cases htext : name = "text"
    · simp [htext]
    · simp [hjson, htext]

theorem LogOutput.exists_ofName?_iff {name : String} :
    (∃ o, LogOutput.ofName? name = some o) ↔ name = "stdout" ∨ name = "stderr" ∨ name = "file" := by
  unfold LogOutput.ofName?
  by_cases hstdout : name = "stdout"
  · simp [hstdout]
  · by_cases hstderr : name = "stderr"
    · simp [hstderr]
    · by_cases hfile : name = "file"
      · simp [hfile]
      · simp [hstdout, hstderr, hfile]

theorem LogOutput.ofName?_eq_file_iff {name : String} :
    LogOutput.ofName? name = some .file ↔ name = "file" := by
  unfold LogOutput.ofName?
  constructor
  · intro hname
    split at hname
    · cases hname
    · split at hname
      · cases hname
      · split at hname
        · assumption
        · cases hname
  · rintro rfl
    rfl

namespace Logging

variable {r : FilterReader} {s : LoggingSettings} {e : Environment}

/-! ## The levels -/

theorem exists_directiveOf_iff {m : String × String} :
    (∃ d, directiveOf r m = .ok d) ↔ IsDirective r m.1 m.2 := by
  unfold directiveOf IsDirective
  cases r.directive (Text.trim m.1 ++ "=" ++ Text.trim m.2) with
  | error reason => exact iff_of_false nofun nofun
  | ok d => exact iff_of_true ⟨d, rfl⟩ ⟨d, rfl⟩

theorem isDirective_trim {target level : String} :
    IsDirective r (Text.trim target) (Text.trim level) ↔ IsDirective r target level := by
  unfold IsDirective
  rw [Text.trim_trim, Text.trim_trim]

theorem moduleLevel?_eq_some_iff {item : String} {m : String × String} :
    LoggingSettings.moduleLevel? item = some m ↔ ∃ target level,
      (item = target ++ "=" ++ level ∧ '=' ∉ target.toList) ∧
        m = (Text.trim target, Text.trim level) := by
  have hequals : "=" = String.singleton '=' := rfl
  rw [LoggingSettings.moduleLevel?, Option.map_eq_some_iff, hequals]
  constructor
  · rintro ⟨⟨target, level⟩, hsplit, rfl⟩
    exact ⟨target, level, Text.splitFirst?_eq_some_iff.1 hsplit, rfl⟩
  · rintro ⟨target, level, hitem, rfl⟩
    exact ⟨(target, level), Text.splitFirst?_eq_some_iff.2 hitem, rfl⟩

/-- The levels that are checked: those of the settings, and those that are listed, without blanks
around them. -/
theorem mem_moduleLevels_iff {m : String × String} :
    m ∈ moduleLevels s e ↔ s.modules.get? m.1 = some m.2 ∨
      ∃ target level, Listed e target level ∧ m = (Text.trim target, Text.trim level) := by
  rw [moduleLevels, List.mem_append, Dict.mem_toList, List.mem_filterMap]
  refine or_congr_right ?_
  unfold modulesVariable Listed
  constructor
  · rintro ⟨item, hitem, hlevel⟩
    obtain ⟨target, level, ⟨rfl, htarget⟩, rfl⟩ := moduleLevel?_eq_some_iff.1 hlevel
    cases hvalue : e.get? "PREBAKE_LOG_MODULES" with
    | none =>
      -- without the variable there is one empty item, which has no equals sign
      rw [hvalue] at hitem
      have hempty : target ++ "=" ++ level = "" := List.mem_singleton.1 hitem
      have hchars := congrArg String.toList hempty
      simp [String.toList_append] at hchars
    | some value =>
      rw [hvalue] at hitem
      exact ⟨target, level, ⟨htarget, value, rfl, hitem⟩, rfl⟩
  · rintro ⟨target, level, ⟨htarget, value, hvalue, hitem⟩, rfl⟩
    refine ⟨_, ?_, moduleLevel?_eq_some_iff.2 ⟨target, level, ⟨rfl, htarget⟩, rfl⟩⟩
    rw [hvalue]
    exact hitem

theorem forall_moduleLevels_iff :
    (∀ m ∈ moduleLevels s e, IsDirective r m.1 m.2) ↔ ∀ target level,
      s.modules.get? target = some level ∨ Listed e target level → IsDirective r target level := by
  simp only [mem_moduleLevels_iff]
  constructor
  · rintro hall target level (hsetting | hlisted)
    · exact hall (target, level) (.inl hsetting)
    · have htrimmed := hall (Text.trim target, Text.trim level) (.inr ⟨target, level, hlisted, rfl⟩)
      rwa [isDirective_trim] at htrimmed
  · rintro hall m (hsetting | ⟨target, level, hlisted, rfl⟩)
    · exact hall m.1 m.2 (.inl hsetting)
    · rw [isDirective_trim]
      exact hall target level (.inr hlisted)

theorem environmentFilter?_eq_none_iff : environmentFilter? r e = none ↔
    ∀ text, e.get? "PREBAKE_LOG" = some text → r.filter? text = none := Option.bind_eq_none_iff

/-- There is a filter exactly when all levels in force are directives. -/
theorem exists_filterOf_iff : (∃ f, filterOf r s e = .ok f) ↔
    ∀ target level, InForce r s e target level → IsDirective r target level := by
  unfold filterOf
  cases henvironment : environmentFilter? r e with
  | some f =>
    refine iff_of_true ⟨f, rfl⟩ fun target level hforce => ?_
    rw [environmentFilter?_eq_none_iff.2 hforce.noFilter] at henvironment
    cases henvironment
  | none =>
    by_cases hsilent : s.level = silentLevel
    · simp only [if_pos hsilent]
      exact iff_of_true ⟨_, rfl⟩ fun target level hforce => absurd hsilent hforce.audible
    · have hfolded : (∃ f, (do
            let ds ← (moduleLevels s e).mapM (directiveOf r)
            return ds.foldl LogFilter.add (r.lenient s.level)) = Except.ok f) ↔
          ∃ ds, (moduleLevels s e).mapM (directiveOf r) = .ok ds := by
        constructor
        · rintro ⟨f, hf⟩
          obtain ⟨ds, hds, -⟩ := bind_eq_ok hf
          exact ⟨ds, hds⟩
        · rintro ⟨ds, hds⟩
          rw [hds]
          exact ⟨_, rfl⟩
      simp only [if_neg hsilent]
      rw [hfolded, exists_mapM_eq_ok_iff]
      simp only [exists_directiveOf_iff]
      rw [forall_moduleLevels_iff]
      exact ⟨fun hall target level hforce => hall target level hforce.given,
        fun hall target level hgiven => hall target level
          ⟨hgiven, environmentFilter?_eq_none_iff.1 henvironment, hsilent⟩⟩

theorem exists_reason_of_filterOf {error : BuildError} (h : filterOf r s e = .error error) :
    ∃ reason, error = .configuration reason := by
  unfold filterOf at h
  split at h
  · cases h
  · split at h
    · cases h
    · rcases bind_eq_error h with hdirectives | ⟨ds, -, h⟩
      · obtain ⟨m, -, hm⟩ := exists_of_mapM_eq_error hdirectives
        unfold directiveOf at hm
        cases hread : r.directive (Text.trim m.1 ++ "=" ++ Text.trim m.2) with
        | error reason =>
          rw [hread] at hm
          cases hm
          exact ⟨_, rfl⟩
        | ok d =>
          rw [hread] at hm
          cases hm
      · cases h

/-! ## The format and the output -/

theorem formatOf_eq : formatOf s e =
    match LogFormat.ofName? (formatInForce s e) with
    | some f => .ok f
    | none => .error (.configuration
        ("Invalid log format: " ++ s.format ++ " (must be 'json' or 'text')")) := by
  unfold formatOf formatInForce formatVariable
  cases e.get? "PREBAKE_LOG_FORMAT" with
  | none => rfl
  | some name =>
    simp only [Option.bind_some]
    by_cases hname : name = "json" ∨ name = "text"
    · obtain ⟨f, hf⟩ := LogFormat.exists_ofName?_iff.2 hname
      rw [if_pos hname, hf]
    · have hnone : LogFormat.ofName? name = none :=
        Option.eq_none_iff_forall_ne_some.2 fun f hf =>
          hname (LogFormat.exists_ofName?_iff.1 ⟨f, hf⟩)
      rw [if_neg hname]
      generalize LogFormat.ofName? name = found at hnone ⊢
      subst hnone
      rfl

theorem formatOf_eq_ok_iff {f : LogFormat} :
    formatOf s e = .ok f ↔ LogFormat.ofName? (formatInForce s e) = some f := by
  rw [formatOf_eq]
  cases LogFormat.ofName? (formatInForce s e) with
  | none => exact iff_of_false nofun nofun
  | some f' => simp

theorem outputOf_eq_ok_iff {o : LogOutput} :
    outputOf s e = .ok o ↔ LogOutput.ofName? (outputInForce s e) = some o := by
  have hname : (e.get? outputVariable).getD s.output = outputInForce s e := rfl
  unfold outputOf
  simp only [hname]
  cases LogOutput.ofName? (outputInForce s e) with
  | none => exact iff_of_false nofun nofun
  | some o' => simp

theorem exists_reason_of_formatOf {error : BuildError} (h : formatOf s e = .error error) :
    ∃ reason, error = .configuration reason := by
  rw [formatOf_eq] at h
  split at h
  · cases h
  · cases h
    exact ⟨_, rfl⟩

theorem exists_reason_of_outputOf {error : BuildError} (h : outputOf s e = .error error) :
    ∃ reason, error = .configuration reason := by
  unfold outputOf at h
  simp only at h
  split at h
  · cases h
  · cases h
    exact ⟨_, rfl⟩

/-! ## All three -/

theorem loggerOf_eq_ok_iff {logger : Logger} : loggerOf r s e = .ok logger ↔
    filterOf r s e = .ok logger.filter ∧ formatOf s e = .ok logger.format ∧
      outputOf s e = .ok logger.output ∧
        logger.color = (s.color && logger.output != .file) ∧ logger.file = s.file := by
  constructor
  · intro hlogger
    obtain ⟨filter, hfilter, hlogger⟩ := bind_eq_ok hlogger
    obtain ⟨format, hformat, hlogger⟩ := bind_eq_ok hlogger
    obtain ⟨output, houtput, hlogger⟩ := bind_eq_ok hlogger
    cases hlogger
    exact ⟨hfilter, hformat, houtput, rfl, rfl⟩
  · rintro ⟨hfilter, hformat, houtput, hcolor, hfile⟩
    rw [loggerOf, hfilter, hformat, houtput]
    obtain ⟨filter, format, output, color, file⟩ := logger
    simp only at hcolor hfile
    rw [hcolor, hfile]
    rfl

/-- There is a logger exactly when everything that is in force is valid. -/
theorem exists_loggerOf_iff : (∃ logger, loggerOf r s e = .ok logger) ↔ ValidSetup r s e := by
  constructor
  · rintro ⟨logger, hlogger⟩
    obtain ⟨hfilter, hformat, houtput, -, -⟩ := loggerOf_eq_ok_iff.1 hlogger
    exact ⟨exists_filterOf_iff.1 ⟨_, hfilter⟩,
      LogFormat.exists_ofName?_iff.1 ⟨_, formatOf_eq_ok_iff.1 hformat⟩,
      LogOutput.exists_ofName?_iff.1 ⟨_, outputOf_eq_ok_iff.1 houtput⟩⟩
  · intro hvalid
    obtain ⟨filter, hfilter⟩ := exists_filterOf_iff.2 hvalid.levels
    obtain ⟨format, hformat⟩ := LogFormat.exists_ofName?_iff.2 hvalid.format
    obtain ⟨output, houtput⟩ := LogOutput.exists_ofName?_iff.2 hvalid.output
    refine ⟨⟨filter, format, output, s.color && output != .file, s.file⟩, ?_⟩
    rw [loggerOf_eq_ok_iff]
    exact ⟨hfilter, formatOf_eq_ok_iff.2 hformat, outputOf_eq_ok_iff.2 houtput, rfl, rfl⟩

/-- What is wrong in a check is the configuration. -/
theorem exists_reason_of_loggerOf {error : BuildError} (h : loggerOf r s e = .error error) :
    ∃ reason, error = .configuration reason := by
  rcases bind_eq_error h with hfilter | ⟨filter, -, h⟩
  · exact exists_reason_of_filterOf hfilter
  · rcases bind_eq_error h with hformat | ⟨format, -, h⟩
    · exact exists_reason_of_formatOf hformat
    · rcases bind_eq_error h with houtput | ⟨output, -, h⟩
      · exact exists_reason_of_outputOf houtput
      · cases h

/-! ## The log file -/

section File

variable {t t' : Files.Tree} {path : Files.Path}

/-- The file can be opened: the folder above it is there or can be made, and then no folder is in
its place. -/
def CanOpen (t : Files.Tree) (path : Files.Path) : Prop :=
  ∃ made, makeFolderAbove path t = .ok made ∧ made.Writable path

/-- The place is the one of the file, or lies on the way to the folder above it. -/
def NeededFor (t : Files.Tree) (path : Files.Path) (place : Files.Place) : Prop :=
  place = t.placeOf path ∨ ∃ above, Files.Path.parent? path = some above ∧
    Files.Tree.OnTheWay (t.startOf above) (Files.Path.segments above) place

theorem run_fileStep (failure : String) (f : Files.Tree → Except Files.Fault Files.Tree) :
    (fileStep failure f).run.run t =
      match f t with
      | .ok t' => (.ok (), t')
      | .error fault => (.error (.configuration (failure ++ ": " ++ fault.message)), t) := by
  have hget : StateT.run (ExceptT.run (get : Writing Files.Tree)) t = (.ok t, t) := rfl
  unfold fileStep
  rw [run_bind, hget]
  simp only
  cases f t with
  | ok tree => rfl
  | error fault => rfl

theorem addsFolders_makeFolderAbove {made : Files.Tree} (h : makeFolderAbove path t = .ok made) :
    t.AddsFolders made := by
  unfold makeFolderAbove at h
  split at h
  · cases h
    exact .refl t
  · split at h
    · cases h
      exact .refl t
    · exact Files.Tree.addsFolders_makeFolders h

theorem openFile_eq_ok_iff : (openFile path).run.run t = (.ok (), t') ↔
    ∃ made, makeFolderAbove path t = .ok made ∧ made.append path "" = .ok t' := by
  unfold openFile
  rw [run_bind, run_fileStep]
  cases makeFolderAbove path t with
  | error fault => exact iff_of_false nofun nofun
  | ok made =>
    simp only [run_fileStep, Except.ok.injEq, exists_eq_left']
    cases made.append path "" with
    | error fault => exact iff_of_false nofun nofun
    | ok opened =>
      constructor
      · intro hrun
        cases hrun
        rfl
      · intro hopen
        cases hopen
        rfl

/-- Opening succeeds exactly where it can. -/
theorem exists_openFile_iff :
    (∃ t', (openFile path).run.run t = (.ok (), t')) ↔ CanOpen t path := by
  simp only [openFile_eq_ok_iff]
  constructor
  · rintro ⟨t', made, hmade, hopen⟩
    exact ⟨made, hmade, Files.Tree.writable_of_store hopen⟩
  · rintro ⟨made, hmade, hwritable⟩
    exact ⟨_, made, hmade, Files.Tree.store_of_writable hwritable _⟩

theorem onTheWay_of_makeFolderAbove {made : Files.Tree} (h : makeFolderAbove path t = .ok made)
    {q : Files.Place} (hnone : t.node? q = none) (hsome : made.node? q ≠ none) :
    ∃ above, Files.Path.parent? path = some above ∧
      Files.Tree.OnTheWay (t.startOf above) (Files.Path.segments above) q := by
  unfold makeFolderAbove at h
  split at h
  · cases h
    exact absurd hnone hsome
  · next above hparent =>
    split at h
    · cases h
      exact absurd hnone hsome
    · exact ⟨above, hparent, Files.Tree.onTheWay_of_makeFolders h hnone hsome⟩

/-- What there is only since a file was opened is the file, or a folder on the way to it. -/
theorem neededFor_of_openFile (hopen : (openFile path).run.run t = (.ok (), t')) {q : Files.Place}
    (hnone : t.node? q = none) (hsome : t'.node? q ≠ none) : NeededFor t path q := by
  obtain ⟨made, hmade, happend⟩ := openFile_eq_ok_iff.1 hopen
  have hwritable := Files.Tree.writable_of_store happend
  have hput := Files.Tree.store_of_writable hwritable fun old => old.getD "" ++ ""
  have ht' : t' = made.put (made.placeOf path) _ := Except.ok.inj (happend.symm.trans hput)
  have hplace := (addsFolders_makeFolderAbove hmade).keepsFolders.placeOf path
  by_cases hq : q = t.placeOf path
  · exact .inl hq
  · rw [ht', Files.Tree.node?_put made (Files.Tree.ne_nil_of_locate hwritable.located), hplace,
      if_neg hq] at hsome
    exact .inr (onTheWay_of_makeFolderAbove hmade hnone hsome)

/-- A file that is opened keeps its text, and is empty if there was none. -/
theorem writes_of_openFile (hopen : (openFile path).run.run t = (.ok (), t')) :
    t.Writes t' (t.placeOf path) ((t.text? (t.placeOf path)).getD "") := by
  obtain ⟨made, hmade, happend⟩ := openFile_eq_ok_iff.1 hopen
  have hadds := addsFolders_makeFolderAbove hmade
  have hwrites := (Files.Tree.writes_of_store happend).2
  rw [hadds.keepsFolders.placeOf path, hadds.text?, String.append_empty] at hwrites
  exact hadds.writes hwrites

/-- A file that is written again with its own text is not changed, nor is any other. -/
theorem text?_of_writes_kept {place : Files.Place}
    (h : t.Writes t' place ((t.text? place).getD "")) {q : Files.Place} {text : String}
    (htext : t.text? q = some text) : t'.text? q = some text := by
  by_cases hq : q = place
  · subst hq
    rw [h.text?_written, htext, Option.getD_some]
  · rw [h.text?_elsewhere hq, htext]

end File

/-! ## The whole start -/

section Start

variable {t : Files.Tree} {logger : Logger}
  {outcome : Except BuildError (Option Logger) × Files.Tree}

/-- What starting comes to, and the files afterwards. -/
def started (r : FilterReader) (settings : Option LoggingSettings) (e : Environment)
    (t : Files.Tree) : Except BuildError (Option Logger) × Files.Tree :=
  (startWith r settings e).run.run t

theorem started_of_disabled (h : s.enabled = false) : started r (some s) e t = (.ok none, t) := by
  unfold started startWith
  simp only [Option.getD_some, h, Bool.not_false, if_true]
  rfl

/-- A start is the three checks and, for a log that goes to a file, opening it. -/
theorem started_of_enabled (h : s.enabled = true) : started r (some s) e t =
    match loggerOf r s e with
    | .error error => (.error error, t)
    | .ok logger =>
      if logger.output = .file then
        match (openFile logger.file).run.run t with
        | (.ok (), t') => (.ok (some logger), t')
        | (.error error, t') => (.error error, t')
      else (.ok (some logger), t) := by
  unfold started startWith
  simp only [Option.getD_some, h, Bool.not_true, Bool.false_eq_true, if_false]
  rw [run_bind]
  cases loggerOf r s e with
  | error error => rfl
  | ok logger =>
    have hlift : (liftM (Except.ok logger : Except BuildError Logger) : Writing Logger).run.run t =
        (.ok logger, t) := rfl
    rw [hlift]
    simp only
    split
    · rw [run_bind]
      rcases (openFile logger.file).run.run t with ⟨error | ⟨⟩, t'⟩
      · rfl
      · rfl
    · rfl

/-- What a start that succeeds has done to the files. -/
def FilesAfter (s : LoggingSettings) (e : Environment) (t t' : Files.Tree) : Prop :=
  if outputInForce s e = "file" then (openFile s.file).run.run t = (.ok (), t') else t' = t

/-- The ways in which a start can go. -/
inductive Course (r : FilterReader) (s : LoggingSettings) (e : Environment) (t : Files.Tree) :
    Except BuildError (Option Logger) × Files.Tree → Prop where
  | off (h : s.enabled = false) : Course r s e t (.ok none, t)
  | refused (h : s.enabled = true) (hinvalid : ¬ ValidSetup r s e) (reason : String) :
    Course r s e t (.error (.configuration reason), t)
  | ready {logger : Logger} {t' : Files.Tree} (h : s.enabled = true) (hvalid : ValidSetup r s e)
    (hlogger : loggerOf r s e = .ok logger) (hafter : FilesAfter s e t t') :
    Course r s e t (.ok (some logger), t')

theorem output_eq_file_iff (hlogger : loggerOf r s e = .ok logger) :
    logger.output = .file ↔ outputInForce s e = "file" := by
  obtain ⟨-, -, houtput, -, -⟩ := loggerOf_eq_ok_iff.1 hlogger
  rw [← LogOutput.ofName?_eq_file_iff, outputOf_eq_ok_iff.1 houtput, Option.some.injEq]

/-- A start goes one of these ways, if the log file can be opened. -/
theorem course_started (hopen : CanOpen t s.file) : Course r s e t (started r (some s) e t) := by
  cases henabled : s.enabled with
  | false =>
    rw [started_of_disabled henabled]
    exact .off henabled
  | true =>
    rw [started_of_enabled henabled]
    cases hlogger : loggerOf r s e with
    | error error =>
      obtain ⟨reason, rfl⟩ := exists_reason_of_loggerOf hlogger
      refine .refused henabled (fun hvalid => ?_) reason
      obtain ⟨logger, hlogger'⟩ := exists_loggerOf_iff.2 hvalid
      rw [hlogger] at hlogger'
      cases hlogger'
    | ok logger =>
      have hvalid : ValidSetup r s e := exists_loggerOf_iff.1 ⟨logger, hlogger⟩
      obtain ⟨-, -, -, -, hfile⟩ := loggerOf_eq_ok_iff.1 hlogger
      obtain ⟨t', hrun⟩ := exists_openFile_iff.2 hopen
      simp only [output_eq_file_iff hlogger, hfile, hrun]
      split
      · next hgoes => exact .ready henabled hvalid hlogger (by rwa [FilesAfter, if_pos hgoes])
      · next hgoes => exact .ready henabled hvalid hlogger (by rw [FilesAfter, if_neg hgoes])

/-- What starting the log does. -/
structure Starts (r : FilterReader) (s : LoggingSettings) (e : Environment) (t : Files.Tree)
    (outcome : Except BuildError (Option Logger) × Files.Tree) : Prop where
  /-- A log that is switched off is none, whatever else is set. -/
  off : s.enabled = false → outcome = (.ok none, t)
  /-- A start fails exactly when something that is in force is invalid. -/
  fails : outcome.1.isOk = false ↔ s.enabled = true ∧ ¬ ValidSetup r s e
  /-- The failure is one of the configuration, and no file or folder has been made before it. -/
  clean : outcome.1.isOk = false → ∃ reason, outcome = (.error (.configuration reason), t)
  /-- Otherwise the log has the format and the output that are in force. -/
  ready : s.enabled = true → ValidSetup r s e → ∃ logger, outcome.1 = .ok (some logger) ∧
    LogFormat.ofName? (formatInForce s e) = some logger.format ∧
      LogOutput.ofName? (outputInForce s e) = some logger.output
  /-- A log that goes to a file has this file: with the text that it had, or empty if it is new. -/
  opened : s.enabled = true → ValidSetup r s e → outputInForce s e = "file" →
    t.Writes outcome.2 (t.placeOf s.file) ((t.text? (t.placeOf s.file)).getD "")
  /-- In all other cases no file or folder is made. -/
  untouched : ¬ (s.enabled = true ∧ ValidSetup r s e ∧ outputInForce s e = "file") → outcome.2 = t
  /-- Nothing is ever made but the log file and the folders that it needs. -/
  needed : ∀ q, t.node? q = none → outcome.2.node? q ≠ none → NeededFor t s.file q
  /-- A file that was there before has its text afterwards, the log file like any other. -/
  kept : ∀ place text, t.text? place = some text → outcome.2.text? place = some text

theorem Course.fails_iff (h : Course r s e t outcome) :
    outcome.1.isOk = false ↔ s.enabled = true ∧ ¬ ValidSetup r s e := by
  cases h with
  | off h => exact iff_of_false nofun fun hgiven => Bool.false_ne_true (h.symm.trans hgiven.1)
  | refused h hinvalid reason => exact iff_of_true rfl ⟨h, hinvalid⟩
  | ready h hvalid _ _ => exact iff_of_false nofun fun hgiven => hgiven.2 hvalid

theorem Course.eq_error (h : Course r s e t outcome) (hfails : outcome.1.isOk = false) :
    ∃ reason, outcome = (.error (.configuration reason), t) := by
  cases h with
  | off _ => cases hfails
  | refused _ _ reason => exact ⟨reason, rfl⟩
  | ready _ _ _ _ => cases hfails

/-- Behind a start that is valid there are a logger and files as they come from the checks. -/
theorem Course.exists_of_valid (h : Course r s e t outcome) (henabled : s.enabled = true)
    (hvalid : ValidSetup r s e) : ∃ logger, outcome.1 = .ok (some logger) ∧
      loggerOf r s e = .ok logger ∧ FilesAfter s e t outcome.2 := by
  cases h with
  | off h => exact absurd (h.symm.trans henabled) Bool.false_ne_true
  | refused _ hinvalid _ => exact absurd hvalid hinvalid
  | ready _ _ hlogger hafter => exact ⟨_, rfl, hlogger, hafter⟩

theorem Course.untouched (h : Course r s e t outcome)
    (hnot : ¬ (s.enabled = true ∧ ValidSetup r s e ∧ outputInForce s e = "file")) :
    outcome.2 = t := by
  cases h with
  | off _ => rfl
  | refused _ _ _ => rfl
  | ready henabled hvalid _ hafter =>
    have hgoes : outputInForce s e ≠ "file" := fun hfile => hnot ⟨henabled, hvalid, hfile⟩
    rwa [FilesAfter, if_neg hgoes] at hafter

theorem Course.run_openFile (h : Course r s e t outcome) (henabled : s.enabled = true)
    (hvalid : ValidSetup r s e) (hgoes : outputInForce s e = "file") :
    (openFile s.file).run.run t = (.ok (), outcome.2) := by
  obtain ⟨logger, -, -, hafter⟩ := h.exists_of_valid henabled hvalid
  rwa [FilesAfter, if_pos hgoes] at hafter

theorem Course.opened (h : Course r s e t outcome) (henabled : s.enabled = true)
    (hvalid : ValidSetup r s e) (hgoes : outputInForce s e = "file") :
    t.Writes outcome.2 (t.placeOf s.file) ((t.text? (t.placeOf s.file)).getD "") :=
  writes_of_openFile (h.run_openFile henabled hvalid hgoes)

theorem Course.needed (h : Course r s e t outcome) {q : Files.Place} (hnone : t.node? q = none)
    (hsome : outcome.2.node? q ≠ none) : NeededFor t s.file q := by
  by_cases hfile : s.enabled = true ∧ ValidSetup r s e ∧ outputInForce s e = "file"
  · obtain ⟨henabled, hvalid, hgoes⟩ := hfile
    exact neededFor_of_openFile (h.run_openFile henabled hvalid hgoes) hnone hsome
  · rw [h.untouched hfile] at hsome
    exact absurd hnone hsome

theorem Course.starts (h : Course r s e t outcome) : Starts r s e t outcome where
  off hdisabled := by
    cases h with
    | off _ => rfl
    | refused henabled _ _ => exact absurd (hdisabled.symm.trans henabled) Bool.false_ne_true
    | ready henabled _ _ _ => exact absurd (hdisabled.symm.trans henabled) Bool.false_ne_true
  fails := h.fails_iff
  clean := h.eq_error
  ready henabled hvalid := by
    obtain ⟨logger, hready, hlogger, -⟩ := h.exists_of_valid henabled hvalid
    obtain ⟨-, hformat, houtput, -, -⟩ := loggerOf_eq_ok_iff.1 hlogger
    exact ⟨logger, hready, formatOf_eq_ok_iff.1 hformat, outputOf_eq_ok_iff.1 houtput⟩
  opened := h.opened
  untouched := h.untouched
  needed _ := h.needed
  kept place text htext := by
    by_cases hfile : s.enabled = true ∧ ValidSetup r s e ∧ outputInForce s e = "file"
    · exact text?_of_writes_kept (h.opened hfile.1 hfile.2.1 hfile.2.2) htext
    · rw [h.untouched hfile]
      exact htext

/-- A log in a file, with a level of a single target. -/
def fileLog : LoggingSettings :=
  { output := "file", file := "logs/app.log", modules := .ofList [("app::store", "debug")] }

/-- A folder with a log that an earlier run has left. -/
def earlierLog : Files.Tree :=
  { nodes := [(["logs"], .folder), (["logs", "app.log"], .file "started\n")] }

end Start

end Logging

end BuildAhead
