import BuildAhead.Building.OutputFolder
import BuildAhead.Proofs.Collection.Dict
import BuildAhead.Proofs.Files.Writing
import BuildAhead.Proofs.Text.Case
import Mathlib.Data.Finset.Max
import Mathlib.Data.List.Perm.Basic
import Mathlib.Data.String.Basic

set_option autoImplicit false

/-!
# Building: log files

The messages of a category are written to a file that is named after the category in lower case.
Categories that are the same in lower case have one file, and what stands in it are the messages of
the last of them: each is written over the one before. So the log files hold as many lines as there
are messages exactly when no two categories are the same in lower case.
-/

namespace BuildAhead

/-! ## Categories with one file -/

namespace Diagnostics

/-- The last of the categories that are the same in lower case. -/
def IsLast (letters : Text.CaseTable) (d : Diagnostics) (category : String) : Prop :=
  ∀ other ∈ d.entries.keys, letters.lower other = letters.lower category → other ≤ category

instance (letters : Text.CaseTable) (d : Diagnostics) (category : String) :
    Decidable (d.IsLast letters category) :=
  inferInstanceAs (Decidable (∀ other ∈ d.entries.keys, _ → _))

/-- The messages of the categories that are the last in lower case. -/
def lasting (letters : Text.CaseTable) (d : Diagnostics) : List (String × List String) :=
  d.entries.toList.filter fun e => d.IsLast letters e.1

/-- No two categories are the same in lower case. -/
def Apart (letters : Text.CaseTable) (d : Diagnostics) : Prop :=
  (d.entries.keys.map letters.lower).Nodup

instance (letters : Text.CaseTable) (d : Diagnostics) : Decidable (d.Apart letters) :=
  inferInstanceAs (Decidable (List.Nodup _))

variable {letters : Text.CaseTable} {d : Diagnostics} {e : String × List String}

theorem mem_lasting : e ∈ d.lasting letters ↔ e ∈ d.entries.toList ∧ d.IsLast letters e.1 := by
  rw [lasting, List.mem_filter, decide_eq_true_iff]

theorem mem_keys_of_mem (he : e ∈ d.entries.toList) : e.1 ∈ d.entries.keys :=
  List.mem_map_of_mem he

/-- Among categories that are the same in lower case there is a last one. -/
theorem exists_mem_lasting (he : e ∈ d.entries.toList) :
    ∃ last ∈ d.lasting letters, letters.lower last.1 = letters.lower e.1 := by
  let same := (d.entries.toList.filter fun other =>
    letters.lower other.1 = letters.lower e.1).toFinset
  have hmem : ∀ {other}, other ∈ same ↔
      other ∈ d.entries.toList ∧ letters.lower other.1 = letters.lower e.1 := by
    intro other
    rw [List.mem_toFinset, List.mem_filter, decide_eq_true_iff]
  obtain ⟨last, hlast, hgreatest⟩ := same.exists_max_image Prod.fst ⟨e, hmem.2 ⟨he, rfl⟩⟩
  obtain ⟨hentry, hlower⟩ := hmem.1 hlast
  refine ⟨last, mem_lasting.2 ⟨hentry, fun category hcategory hsame => ?_⟩, hlower⟩
  obtain ⟨other, hother, rfl⟩ := List.mem_map.1 hcategory
  exact hgreatest other (hmem.2 ⟨hother, hsame.trans hlower⟩)

/-- Of the categories that are the same in lower case, only one is the last. -/
theorem eq_of_mem_lasting {e' : String × List String} (he : e ∈ d.lasting letters)
    (he' : e' ∈ d.lasting letters) (hlower : letters.lower e.1 = letters.lower e'.1) : e = e' := by
  obtain ⟨hentry, hlast⟩ := mem_lasting.1 he
  obtain ⟨hentry', hlast'⟩ := mem_lasting.1 he'
  have hkey : e.1 = e'.1 := le_antisymm (hlast' e.1 (mem_keys_of_mem hentry) hlower)
    (hlast e'.1 (mem_keys_of_mem hentry') hlower.symm)
  exact List.inj_on_of_nodup_map d.entries.keys_nodup hentry hentry' hkey

theorem nodup_lasting (letters : Text.CaseTable) (d : Diagnostics) : (d.lasting letters).Nodup :=
  d.entries.entries_nodup.filter _

/-- All categories are last when no two are the same in lower case. -/
theorem lasting_eq_toList_iff : d.lasting letters = d.entries.toList ↔ d.Apart letters := by
  rw [Apart, List.nodup_map_iff_inj_on d.entries.keys_nodup, lasting, List.filter_eq_self]
  constructor
  · intro hall c hc c' hc' hlower
    have hlast : ∀ {c : String}, c ∈ d.entries.keys → d.IsLast letters c := by
      intro c hc
      obtain ⟨e, he, rfl⟩ := List.mem_map.1 hc
      exact of_decide_eq_true (hall e he)
    exact le_antisymm (hlast hc' c hc hlower) (hlast hc c' hc' hlower.symm)
  · intro hinjective e he
    rw [decide_eq_true_iff]
    intro other hother hlower
    exact (hinjective other hother e.1 (mem_keys_of_mem he) hlower).le

/-! ## How many messages there are -/

/-- The number of messages of entries. -/
def total (entries : List (String × List String)) : Nat := sumOf (entries.map (·.2.length))

/-- Entries with messages are missed. -/
theorem filter_eq_self_of_total {keep : String × List String → Bool}
    {entries : List (String × List String)} (hne : ∀ e ∈ entries, e.2 ≠ [])
    (htotal : total (entries.filter keep) = total entries) : entries.filter keep = entries := by
  induction entries with
  | nil => rfl
  | cons e rest ih =>
    rw [total, total, List.map_cons, sumOf, List.filter_cons] at htotal
    rw [List.filter_cons]
    split
    · next hkeep =>
      rw [if_pos hkeep, List.map_cons, sumOf] at htotal
      rw [ih (fun e he => hne e (List.mem_cons_of_mem _ he)) (Nat.add_left_cancel htotal)]
    · next hkeep =>
      rw [if_neg hkeep] at htotal
      have hpositive : 0 < e.2.length := List.length_pos_iff.2 (hne e List.mem_cons_self)
      have hle := sumOf_filter_le (·.2.length) keep rest
      omega

/-- The last categories have all messages exactly when every category is a last one. -/
theorem total_lasting_eq_iff (hne : ∀ e ∈ d.entries.toList, e.2 ≠ []) :
    total (d.lasting letters) = total d.entries.toList ↔ d.Apart letters := by
  rw [← lasting_eq_toList_iff]
  exact ⟨filter_eq_self_of_total hne, congrArg total⟩

/-- The summary counts every message. -/
theorem sum_values_counts (o : GenerationOutput) (profile : Profile) (generatedAt : String) :
    sumOf (RunSummary.ofOutput o profile generatedAt).diagnostics.values =
      total o.diagnostics.entries.toList := by
  have hascending : o.diagnostics.counts.Pairwise KeyBefore :=
    List.pairwise_map.2 o.diagnostics.entries.ascending
  have hcounts : Dict.ofList o.diagnostics.counts = ⟨o.diagnostics.counts, hascending⟩ :=
    Dict.ofList_toList ⟨o.diagnostics.counts, hascending⟩
  have hvalues : (Dict.ofList o.diagnostics.counts).values =
      o.diagnostics.entries.toList.map (·.2.length) := by
    rw [hcounts]
    exact List.map_map
  exact congrArg sumOf hvalues

end Diagnostics

/-! ## Places of log files -/

namespace Files

/-- Whether a place is that of a log file. -/
def Place.isLog (place : Place) : Bool :=
  match place.getLast? with
  | some name => Text.endsWith name ".log"
  | none => false

/-- The log files below a place. -/
def Tree.logsBelow (t : Tree) (start : Place) : List (Place × String) :=
  (t.filesBelow start).filter fun file => Place.isLog file.1

theorem Place.isLog_append_singleton (above : Place) (name : String) :
    Place.isLog (above ++ [name]) = Text.endsWith name ".log" := by
  rw [Place.isLog, List.getLast?_append, List.getLast?_singleton, Option.some_or]

theorem Place.isLog_append {above q : Place} (hq : q ≠ []) :
    Place.isLog (above ++ q) = Place.isLog q := by
  rw [Place.isLog, Place.isLog, List.getLast?_append_of_ne_nil above hq]

/-- A path with another ending does not lead to a log file. -/
theorem Tree.isLog_placeOf {ending : String} (hslash : '/' ∉ ending.toList)
    (hlength : 2 < ending.toList.length)
    (hother : ¬ ending.toList <:+ (".log" : String).toList ∧
      ¬ (".log" : String).toList <:+ ending.toList)
    {p : Path} (hp : ending.toList <:+ p.toList) (t : Tree) : Place.isLog (t.placeOf p) = false := by
  obtain ⟨above, name, hplace, hsuffix⟩ := exists_placeOf_of_ending hslash hlength hp t
  rw [hplace, Place.isLog_append_singleton, Bool.eq_false_iff]
  intro hlog
  have hlog' : (".log" : String).toList <:+ name.toList := List.isSuffixOf_iff_suffix.1 hlog
  rcases List.suffix_or_suffix_of_suffix hsuffix hlog' with h | h
  · exact hother.1 h
  · exact hother.2 h

theorem Path.suffix_join (base p : Path) : p.toList <:+ (join base p).toList := by
  unfold join
  split
  · exact List.suffix_rfl
  · split
    · rw [String.toList_append]
      exact List.suffix_append _ _
    · rw [String.toList_append]
      exact List.suffix_append _ _

end Files

namespace OutputFolder

variable {letters : Text.CaseTable} {f : OutputFolder} {o : GenerationOutput} {s : RunSummary}
  {t t' : Files.Tree}

theorem isName_logName {category : String} (hc : '/' ∉ category.toList) :
    Files.Path.IsName (letters.lower category ++ ".log") := by
  have hslash : '/' ∉ (letters.lower category).toList := Text.IsMark.not_mem_lower (by decide) hc
  have hlength : 4 ≤ (letters.lower category ++ ".log").toList.length := by
    rw [String.toList_append, List.length_append]
    exact Nat.le_add_left _ _
  have hne : ∀ short : String, short.toList.length < 4 →
      letters.lower category ++ ".log" ≠ short := by
    intro short hshort heq
    rw [heq] at hlength
    omega
  refine ⟨hne "" (by decide), hne "." (by decide), hne ".." (by decide), ?_⟩
  rw [String.toList_append, List.mem_append, not_or]
  exact ⟨hslash, by decide⟩

theorem isName_logs : Files.Path.IsName "logs" := ⟨by decide, by decide, by decide, by decide⟩

/-- Where the messages of a category go to, seen from the output folder. -/
def logPlace (letters : Text.CaseTable) (category : String) : Files.Place :=
  ["logs", letters.lower category ++ ".log"]

theorem placeOf_logFile (f : OutputFolder) {category : String} (hc : '/' ∉ category.toList)
    (t : Files.Tree) :
    t.placeOf (f.logFile letters category) = t.placeOf f.root ++ logPlace letters category := by
  rw [logFile, Files.Tree.placeOf_join _ (isName_logName hc), logs,
    Files.Tree.placeOf_join _ isName_logs, List.append_assoc]
  rfl

theorem logPlace_inj {category other : String} :
    logPlace letters category = logPlace letters other ↔
      letters.lower category = letters.lower other := by
  constructor
  · intro heq
    have hname : letters.lower category ++ ".log" = letters.lower other ++ ".log" :=
      List.cons.inj (List.cons.inj heq).2 |>.1
    have hchars := congrArg String.toList hname
    rw [String.toList_append, String.toList_append, List.append_cancel_right_eq] at hchars
    exact String.toList_injective hchars
  · intro heq
    rw [logPlace, logPlace, heq]

theorem isLog_logPlace (letters : Text.CaseTable) (category : String) :
    Files.Place.isLog (logPlace letters category) = true := by
  have hsplit : logPlace letters category = ["logs"] ++ [letters.lower category ++ ".log"] := rfl
  rw [hsplit, Files.Place.isLog_append_singleton, Text.endsWith, String.toList_append,
    List.isSuffixOf_iff_suffix]
  exact List.suffix_append _ _

/-! ## What is written to a log file -/

/-- The files of the categories. -/
def logEntries (f : OutputFolder) (letters : Text.CaseTable) (d : Diagnostics) :
    List (Files.Path × String) :=
  d.entries.toList.map fun e => (f.logFile letters e.1, linesText e.2)

/-- What a delivery writes to a log file is written for a category. -/
theorem lastText?_files {q : Files.Place} (hq : Files.Place.isLog q = true) (t : Files.Tree) :
    Writing.lastText? t q (f.files letters o s) =
      Writing.lastText? t q (f.logEntries letters o.diagnostics) := by
  have hother : ∀ {files : List (Files.Path × String)},
      (∀ file ∈ files, Files.Place.isLog (t.placeOf file.1) = false) →
        Writing.lastText? t q files = none := by
    intro files hfiles
    refine Writing.lastText?_eq_none fun file hfile heq => ?_
    rw [← heq, hfiles file hfile] at hq
    cases hq
  have hunits : Writing.lastText? t q (o.units.map fun u => (f.unitFile u, u.toJson.pretty)) =
      none := by
    refine hother fun file hfile => ?_
    obtain ⟨u, -, rfl⟩ := List.mem_map.1 hfile
    have hending : (".json" : String).toList <:+ (f.unitFile u).toList := by
      refine List.IsSuffix.trans ?_ (Files.Path.suffix_join _ _)
      rw [String.toList_append]
      exact List.suffix_append _ _
    exact Files.Tree.isLog_placeOf (by decide) (by decide) (by decide) hending t
  have hrest : Writing.lastText? t q
      [(f.filterFile, linesText o.excludedResources.toList), (f.summaryFile, s.toJson.pretty)] =
        none := by
    refine hother ?_
    simp only [List.forall_mem_cons]
    have hfilter : (".txt" : String).toList <:+ f.filterFile.toList := by
      refine List.IsSuffix.trans ?_ (Files.Path.suffix_join _ _)
      decide
    have hsummary : (".json" : String).toList <:+ f.summaryFile.toList := by
      refine List.IsSuffix.trans ?_ (Files.Path.suffix_join _ _)
      decide
    refine ⟨Files.Tree.isLog_placeOf (by decide) (by decide) (by decide) hfilter t,
      Files.Tree.isLog_placeOf (by decide) (by decide) (by decide) hsummary t, ?_⟩
    exact fun file hfile => absurd hfile List.not_mem_nil
  rw [files, Writing.lastText?_append, Writing.lastText?_append, hunits, hrest, Option.none_or,
    Option.or_none]
  rfl

/-- To the file of a category the messages of the last category are written that is the same in
lower case. -/
theorem lastText?_of_mem_lasting
    (hnames : ∀ c ∈ o.diagnostics.entries.keys, '/' ∉ c.toList) {e : String × List String}
    (he : e ∈ o.diagnostics.lasting letters) (t : Files.Tree) :
    Writing.lastText? t (t.placeOf f.root ++ logPlace letters e.1)
      (f.logEntries letters o.diagnostics) = some (linesText e.2) := by
  obtain ⟨hentry, hlast⟩ := Diagnostics.mem_lasting.1 he
  obtain ⟨before, after, hsplit⟩ := List.append_of_mem hentry
  have hafter : Writing.lastText? t (t.placeOf f.root ++ logPlace letters e.1)
      (after.map fun e => (f.logFile letters e.1, linesText e.2)) = none := by
    refine Writing.lastText?_eq_none fun file hfile heq => ?_
    obtain ⟨later, hlater, rfl⟩ := List.mem_map.1 hfile
    have hmem : later ∈ o.diagnostics.entries.toList := by
      rw [hsplit]
      exact List.mem_append_right _ (List.mem_cons_of_mem _ hlater)
    have hkey := Diagnostics.mem_keys_of_mem hmem
    rw [placeOf_logFile f (hnames _ hkey), List.append_cancel_left_eq, logPlace_inj] at heq
    have hascending : o.diagnostics.entries.toList.Pairwise KeyBefore :=
      o.diagnostics.entries.ascending
    rw [hsplit, List.pairwise_append, List.pairwise_cons] at hascending
    have hbefore : e.1 < later.1 := hascending.2.1.1 later hlater
    exact absurd (hlast later.1 hkey heq) (not_le.2 hbefore)
  rw [logEntries, hsplit, List.map_append, List.map_cons, Writing.lastText?_append,
    Writing.lastText?, hafter, Option.none_or,
    if_pos (placeOf_logFile f (hnames _ (Diagnostics.mem_keys_of_mem hentry)) t), Option.some_or]

/-- What is written to a log file is written for a last category. -/
theorem exists_of_lastText?
    (hnames : ∀ c ∈ o.diagnostics.entries.keys, '/' ∉ c.toList) {q : Files.Place} {text : String}
    (hwritten : Writing.lastText? t q (f.logEntries letters o.diagnostics) = some text) :
    ∃ e ∈ o.diagnostics.lasting letters,
      q = t.placeOf f.root ++ logPlace letters e.1 ∧ text = linesText e.2 := by
  have hplace : ∃ e ∈ o.diagnostics.entries.toList, t.placeOf (f.logFile letters e.1) = q := by
    by_contra hnone
    have hunwritten : Writing.lastText? t q (f.logEntries letters o.diagnostics) = none := by
      refine Writing.lastText?_eq_none fun file hfile heq => hnone ?_
      obtain ⟨e, he, rfl⟩ := List.mem_map.1 hfile
      exact ⟨e, he, heq⟩
    rw [hunwritten] at hwritten
    cases hwritten
  obtain ⟨e, he, rfl⟩ := hplace
  obtain ⟨last, hlast, hlower⟩ := Diagnostics.exists_mem_lasting he
  have hsame : t.placeOf (f.logFile letters e.1) = t.placeOf f.root ++ logPlace letters last.1 := by
    rw [placeOf_logFile f (hnames _ (Diagnostics.mem_keys_of_mem he)), logPlace_inj.2 hlower]
  rw [hsame, lastText?_of_mem_lasting hnames hlast] at hwritten
  exact ⟨last, hlast, hsame, (Option.some.inj hwritten).symm⟩

/-! ## Lines -/

/-- The lines of a text in which every line is ended. -/
def endedLines (text : String) : List String := (Text.pieces (· == '\n') text).dropLast

/-- Messages without line feeds are the lines of their text. -/
theorem endedLines_linesText {messages : List String} (hne : messages ≠ [])
    (hmessages : ∀ m ∈ messages, '\n' ∉ m.toList) : endedLines (linesText messages) = messages := by
  have hfree : ∀ m ∈ messages, ∀ c ∈ m.toList, (c == '\n') = false := fun m hm c hc =>
    beq_eq_false_iff_ne.2 fun heq => hmessages m hm (heq ▸ hc)
  have hpieces : Text.pieces (· == '\n') (linesText messages) = messages ++ [""] := by
    have hlast : Text.pieces (· == '\n') (Text.joined "\n" messages ++ "\n" ++ "") =
        Text.pieces (· == '\n') (Text.joined "\n" messages) ++ [""] :=
      Text.pieces_append_last rfl (by decide) (by simp)
    rwa [String.append_empty, Text.pieces_joined rfl (by decide) hne hfree] at hlast
  rw [endedLines, hpieces, List.dropLast_concat]

/-! ## What a delivery leaves in the log files -/

/-- The number of lines in all log files below a place. -/
def logLines (t : Files.Tree) (start : Files.Place) : Nat :=
  sumOf ((t.logsBelow start).map fun file => (endedLines file.2).length)

/-- All messages are kept: the file of a category has them as lines, in their order, and there are no
more lines than messages. -/
structure KeepsMessages (f : OutputFolder) (letters : Text.CaseTable) (o : GenerationOutput)
    (s : RunSummary) (t t' : Files.Tree) : Prop where
  contained : ∀ e ∈ o.diagnostics.entries.toList,
    ∃ text, t'.read (f.logFile letters e.1) = .ok text ∧ e.2.Sublist (endedLines text)
  counted : logLines t' (t.placeOf f.root) = sumOf s.diagnostics.values

/-- What a delivery leaves in the log files below its folder. -/
structure LogsLeft (f : OutputFolder) (letters : Text.CaseTable) (o : GenerationOutput)
    (s : RunSummary) (t t' : Files.Tree) : Prop where
  /-- the file of a category holds the messages of the last category that is the same in lower
  case, one a line -/
  file : ∀ e ∈ o.diagnostics.entries.toList, ∃ last ∈ o.diagnostics.lasting letters,
    letters.lower last.1 = letters.lower e.1 ∧
      t'.read (f.logFile letters e.1) = .ok (linesText last.2) ∧
      endedLines (linesText last.2) = last.2
  /-- there are no other log files -/
  files : (t'.logsBelow (t.placeOf f.root)).Perm
    ((o.diagnostics.lasting letters).map fun e => (logPlace letters e.1, linesText e.2))
  /-- there are as many lines as the last categories have messages -/
  lines : logLines t' (t.placeOf f.root) = Diagnostics.total (o.diagnostics.lasting letters)
  /-- these are all messages exactly when no two categories are the same in lower case -/
  counted : logLines t' (t.placeOf f.root) = sumOf s.diagnostics.values ↔
    o.diagnostics.Apart letters
  kept : f.KeepsMessages letters o s t t' ↔ o.diagnostics.Apart letters

section Delivered

variable (hdelivered : (f.deliverWith letters o s).run.run t = (.ok (), t'))
  (hnames : ∀ c ∈ o.diagnostics.entries.keys, '/' ∉ c.toList)

include hdelivered hnames

theorem read_logFile {e last : String × List String} (he : e ∈ o.diagnostics.entries.toList)
    (hlast : last ∈ o.diagnostics.lasting letters)
    (hlower : letters.lower last.1 = letters.lower e.1) :
    t'.read (f.logFile letters e.1) = .ok (linesText last.2) := by
  have hplace : t.placeOf (f.logFile letters e.1) =
      t.placeOf f.root ++ logPlace letters last.1 := by
    rw [placeOf_logFile f (hnames _ (Diagnostics.mem_keys_of_mem he)), logPlace_inj.2 hlower]
  have hmem : (f.logFile letters e.1, linesText e.2) ∈ f.files letters o s :=
    List.mem_append_left _ (List.mem_append_right _ (List.mem_map_of_mem he))
  have hlog : Files.Place.isLog (t.placeOf f.root ++ logPlace letters last.1) = true := by
    have hne : logPlace letters last.1 ≠ [] := List.cons_ne_nil _ _
    rw [Files.Place.isLog_append hne, isLog_logPlace]
  refine Writing.read_of_forM hdelivered hmem ?_
  rw [hplace, lastText?_files hlog, lastText?_of_mem_lasting hnames hlast]

/-- In a folder that was empty, the log files are those of the last categories. -/
theorem logsBelow_perm (hempty : t.placesBelow (t.placeOf f.root) = []) :
    (t'.logsBelow (t.placeOf f.root)).Perm
      ((o.diagnostics.lasting letters).map fun e => (logPlace letters e.1, linesText e.2)) := by
  have hbelow : (t'.placesBelow (t.placeOf f.root)).Nodup := by
    refine Writing.nodup_placesBelow_forM hdelivered ?_
    rw [hempty]
    exact List.nodup_nil
  have hnodup : (t'.logsBelow (t.placeOf f.root)).Nodup := by
    refine List.pairwise_filter.2 ((Files.Tree.pairwise_filesBelow hbelow).imp ?_)
    rintro a b hab - hlog rfl
    refine hab (fun hnil => ?_) rfl
    rw [hnil] at hlog
    cases hlog
  have hnodup' : ((o.diagnostics.lasting letters).map fun e =>
      (logPlace letters e.1, linesText e.2)).Nodup := by
    refine (o.diagnostics.nodup_lasting letters).map_on fun e he e' he' heq => ?_
    exact Diagnostics.eq_of_mem_lasting he he' (logPlace_inj.1 (congrArg Prod.fst heq))
  refine (List.perm_ext_iff_of_nodup hnodup hnodup').2 ?_
  rintro ⟨q, text⟩
  rw [Files.Tree.logsBelow, List.mem_filter, List.mem_map]
  have htext : ∀ {q}, Files.Place.isLog q = true → ((q, text) ∈ t'.filesBelow (t.placeOf f.root) ↔
      Writing.lastText? t (t.placeOf f.root ++ q) (f.logEntries letters o.diagnostics) =
        some text) := by
    intro q hlog
    have hq : q ≠ [] := by
      rintro rfl
      cases hlog
    have hlog' : Files.Place.isLog (t.placeOf f.root ++ q) = true := by
      rw [Files.Place.isLog_append hq, hlog]
    rw [Files.Tree.mem_filesBelow_iff_text? hbelow hq, Writing.text?_of_forM hdelivered,
      lastText?_files hlog', Files.Tree.text?_of_placesBelow_eq_nil hempty hq, Option.or_none]
  constructor
  · rintro ⟨hfile, hlog⟩
    obtain ⟨e, he, hplace, rfl⟩ := exists_of_lastText? hnames ((htext hlog).1 hfile)
    have hq : q = logPlace letters e.1 := List.append_cancel_left hplace
    exact ⟨e, he, by rw [hq]⟩
  · rintro ⟨e, he, heq⟩
    cases heq
    have hlog := isLog_logPlace letters e.1
    exact ⟨(htext hlog).2 (lastText?_of_mem_lasting hnames he t), hlog⟩

end Delivered

/-- A delivery into an empty folder leaves in the log files the messages of the last categories. -/
theorem deliver_logsLeft {profile : Profile} {generatedAt : String}
    (hdelivered : (f.deliverWith letters o (.ofOutput o profile generatedAt)).run.run t =
      (.ok (), t'))
    (hempty : t.placesBelow (t.placeOf f.root) = [])
    (hnames : ∀ c ∈ o.diagnostics.entries.keys, '/' ∉ c.toList)
    (hmessages : ∀ ms ∈ o.diagnostics.entries.values, ms ≠ [] ∧ ∀ m ∈ ms, '\n' ∉ m.toList) :
    f.LogsLeft letters o (.ofOutput o profile generatedAt) t t' := by
  have hentries : ∀ e ∈ o.diagnostics.entries.toList,
      e.2 ≠ [] ∧ ∀ m ∈ e.2, '\n' ∉ m.toList :=
    fun e he => hmessages e.2 (List.mem_map_of_mem he)
  have hended : ∀ e ∈ o.diagnostics.entries.toList, endedLines (linesText e.2) = e.2 :=
    fun e he => endedLines_linesText (hentries e he).1 (hentries e he).2
  have hfiles := logsBelow_perm hdelivered hnames hempty
  have hlines : logLines t' (t.placeOf f.root) =
      Diagnostics.total (o.diagnostics.lasting letters) := by
    rw [logLines, sumOf_perm (hfiles.map _), List.map_map, Diagnostics.total]
    refine congrArg sumOf (List.map_congr_left fun e he => ?_)
    exact congrArg List.length (hended e (Diagnostics.mem_lasting.1 he).1)
  have hcounted : logLines t' (t.placeOf f.root) =
      sumOf (RunSummary.ofOutput o profile generatedAt).diagnostics.values ↔
        o.diagnostics.Apart letters := by
    rw [hlines, Diagnostics.sum_values_counts]
    exact Diagnostics.total_lasting_eq_iff fun e he => (hentries e he).1
  refine ⟨fun e he => ?_, hfiles, hlines, hcounted, fun hkept => hcounted.1 hkept.counted, ?_⟩
  · obtain ⟨last, hlast, hlower⟩ := Diagnostics.exists_mem_lasting he
    exact ⟨last, hlast, hlower, read_logFile hdelivered hnames he hlast hlower,
      hended last (Diagnostics.mem_lasting.1 hlast).1⟩
  · intro hapart
    refine ⟨fun e he => ?_, hcounted.2 hapart⟩
    have hlast : e ∈ o.diagnostics.lasting letters :=
      Diagnostics.lasting_eq_toList_iff.2 hapart ▸ he
    refine ⟨_, read_logFile hdelivered hnames he hlast rfl, ?_⟩
    rw [hended e he]

/-- Two categories that are the same in lower case, and one that is not. -/
def sampleOutput : GenerationOutput where
  space := "gen"
  diagnostics := ⟨.ofList [("A", ["x"]), ("B", ["z"]), ("a", ["y"])]⟩

/-- The delivery of the sample. -/
def deliverSample : Writing Unit :=
  (OutputFolder.mk "out").deliver sampleOutput (.ofOutput sampleOutput .jit "")

theorem deliverSample_eq_ok : deliverSample.run.run {} = (.ok (), (deliverSample.run.run {}).2) := by
  have hok : (deliverSample.run.run {}).1.isOk = true := by decide +kernel
  rcases hrun : deliverSample.run.run {} with ⟨e | ⟨⟩, t'⟩
  · rw [hrun] at hok
    cases hok
  · rfl

theorem deliver_logsLeft_sample :
    ∃ t', deliverSample.run.run {} = (.ok (), t') ∧
      (OutputFolder.mk "out").LogsLeft .standard sampleOutput (.ofOutput sampleOutput .jit "") {}
        t' :=
  ⟨_, deliverSample_eq_ok, deliver_logsLeft deliverSample_eq_ok (by decide +kernel)
    (by decide +kernel) (by decide +kernel)⟩

/-- The message of the first category is lost. -/
theorem message_overwritten_sample :
    ∃ t', deliverSample.run.run {} = (.ok (), t') ∧
      ¬ (OutputFolder.mk "out").KeepsMessages .standard sampleOutput
        (.ofOutput sampleOutput .jit "") {} t' := by
  refine ⟨_, deliverSample_eq_ok, fun hkept => ?_⟩
  obtain ⟨text, htext, hcontained⟩ := hkept.contained ("A", ["x"]) (by decide +kernel)
  have hpath : (OutputFolder.mk "out").logFile .standard "A" = "out/logs/a.log" := by
    decide +kernel
  have hread : ((deliverSample.run.run {}).2.read "out/logs/a.log").toOption = some "y\n" := by
    decide +kernel
  rw [hpath] at htext
  rw [htext, Except.toOption, Option.some.injEq] at hread
  subst hread
  revert hcontained
  decide +kernel

end OutputFolder

end BuildAhead
