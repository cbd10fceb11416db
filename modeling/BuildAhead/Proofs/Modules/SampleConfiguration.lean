import BuildAhead.Proofs.Modules.Scheduling
import BuildAhead.Proofs.Toml.Assignments

set_option autoImplicit false

/-!
# Modules: what a sample configuration assigns

The sample configuration of a profile switches every listed module on, and then goes through what
the modules mention: the features inside them, which it switches off, and their options. What was
mentioned before by the same name is left out. Features and options share their names in this, but
they do not share their keys, and the switches of the modules themselves are not looked at. So a key
is assigned twice where a feature is a listed module of its own, or an option is a switch.
-/

namespace BuildAhead

/-- What a module mentions: a feature inside it, or an option. -/
inductive Mention where
  | feature (name : String)
  | option (o : OptionSpec)
  deriving DecidableEq

namespace Mention

/-- The name by which it is known whether it was mentioned before. -/
def name : Mention → String
  | .feature name => name
  | .option o => o.key

/-- The key that it is configured with. -/
def key : Mention → String
  | .feature name => Names.switch name
  | .option o => o.key

/-- The value that a sample gives it. -/
def value (quote : String → String) : Mention → String
  | .feature _ => "false"
  | .option o => quote o.sample

/-- The assignment that is written for it. -/
def entry (quote : String → String) (m : Mention) : String × String := (m.key, m.value quote)

end Mention

namespace ModuleDescriptor

/-- What a module mentions, its features first. -/
def mentions (d : ModuleDescriptor) : List Mention :=
  d.subModules.map .feature ++ d.options.map .option

/-- The assignment of the module's own switch. -/
def flag (d : ModuleDescriptor) : String × String := (Names.switch d.id, "true")

/-- Its names and keys need no quotes, and its samples keep to one line. -/
structure IsPlain (d : ModuleDescriptor) : Prop where
  id : Toml.IsPlainKey d.id
  subModules : ∀ s ∈ d.subModules, Toml.IsPlainKey s
  keys : ∀ o ∈ d.options, Toml.IsPlainKey o.key
  samples : ∀ o ∈ d.options, '\n' ∉ o.sample.toList

instance (d : ModuleDescriptor) : Decidable d.IsPlain :=
  decidable_of_iff (Toml.IsPlainKey d.id ∧ (∀ s ∈ d.subModules, Toml.IsPlainKey s) ∧
      (∀ o ∈ d.options, Toml.IsPlainKey o.key) ∧ ∀ o ∈ d.options, '\n' ∉ o.sample.toList)
    ⟨fun ⟨hid, hsubs, hkeys, hsamples⟩ => ⟨hid, hsubs, hkeys, hsamples⟩,
      fun ⟨hid, hsubs, hkeys, hsamples⟩ => ⟨hid, hsubs, hkeys, hsamples⟩⟩

end ModuleDescriptor

/-! ## First mentions -/

/-- Modules mention this, and none of them mentioned anything by this name before. -/
def MentionedFirst (ds : List ModuleDescriptor) (m : Mention) : Prop :=
  ∃ before after, ds.flatMap ModuleDescriptor.mentions = before ++ m :: after ∧
    m.name ∉ before.map Mention.name

/-- What is mentioned for the first time, apart from what was seen before. -/
def newMentions (seen : List String) : List Mention → List Mention
  | [] => []
  | m :: rest =>
    if m.name ∈ seen then newMentions seen rest else m :: newMentions (m.name :: seen) rest

theorem newMentions_congr {seen seen' : List String} (h : ∀ n, n ∈ seen ↔ n ∈ seen')
    (ms : List Mention) : newMentions seen ms = newMentions seen' ms := by
  induction ms generalizing seen seen' with
  | nil => rfl
  | cons m rest ih =>
    have hcons : ∀ n, n ∈ m.name :: seen ↔ n ∈ m.name :: seen' := by
      intro n
      rw [List.mem_cons, List.mem_cons, h]
    rw [newMentions, newMentions, ih h, ih hcons]
    simp only [h]

theorem newMentions_append (seen : List String) (ms more : List Mention) :
    newMentions seen (ms ++ more) =
      newMentions seen ms ++ newMentions (ms.map Mention.name ++ seen) more := by
  induction ms generalizing seen with
  | nil => rfl
  | cons m rest ih =>
    rw [List.cons_append, newMentions, newMentions]
    split
    · next hseen =>
      rw [ih]
      refine congrArg _ (newMentions_congr (fun n => ?_) more)
      rw [List.map_cons, List.cons_append, List.mem_cons, List.mem_append]
      constructor
      · exact .inr
      · rintro (rfl | hn)
        · exact .inr hseen
        · exact hn
    · rw [ih, List.cons_append]
      refine congrArg _ (congrArg _ (newMentions_congr (fun n => ?_) more))
      simp [or_left_comm]

/-- Something is new when nothing before it, and nothing seen, has its name. -/
theorem mem_newMentions_iff {seen : List String} {ms : List Mention} {m : Mention} :
    m ∈ newMentions seen ms ↔ m.name ∉ seen ∧
      ∃ before after, ms = before ++ m :: after ∧ m.name ∉ before.map Mention.name := by
  induction ms generalizing seen with
  | nil => simp [newMentions]
  | cons first rest ih =>
    -- where the list is cut: in front of its first mention, or behind it
    have hcut : (∃ before after, first :: rest = before ++ m :: after ∧
          m.name ∉ before.map Mention.name) ↔
        m = first ∨ m.name ≠ first.name ∧ ∃ before after, rest = before ++ m :: after ∧
          m.name ∉ before.map Mention.name := by
      constructor
      · rintro ⟨before, after, heq, hbefore⟩
        cases before with
        | nil => exact .inl (List.cons.inj heq).1.symm
        | cons b before =>
          obtain ⟨rfl, hrest⟩ := List.cons.inj heq
          rw [List.map_cons, List.mem_cons, not_or] at hbefore
          exact .inr ⟨hbefore.1, before, after, hrest, hbefore.2⟩
      · rintro (rfl | ⟨hne, before, after, rfl, hbefore⟩)
        · exact ⟨[], rest, rfl, List.not_mem_nil⟩
        · refine ⟨first :: before, after, rfl, ?_⟩
          rw [List.map_cons, List.mem_cons, not_or]
          exact ⟨hne, hbefore⟩
    rw [newMentions, hcut]
    split
    · next hseen =>
      rw [ih]
      constructor
      · rintro ⟨hnew, hrest⟩
        exact ⟨hnew, .inr ⟨fun heq => hnew (heq ▸ hseen), hrest⟩⟩
      · rintro ⟨hnew, rfl | ⟨-, hrest⟩⟩
        · exact absurd hseen hnew
        · exact ⟨hnew, hrest⟩
    · next hseen =>
      rw [List.mem_cons, ih, List.mem_cons, not_or]
      constructor
      · rintro (rfl | ⟨⟨hne, hnew⟩, hrest⟩)
        · exact ⟨hseen, .inl rfl⟩
        · exact ⟨hnew, .inr ⟨hne, hrest⟩⟩
      · rintro ⟨hnew, rfl | ⟨hne, hrest⟩⟩
        · exact .inl rfl
        · exact .inr ⟨⟨hne, hnew⟩, hrest⟩

theorem names_newMentions_nodup (seen : List String) (ms : List Mention) :
    ((newMentions seen ms).map Mention.name).Nodup := by
  induction ms generalizing seen with
  | nil => exact List.nodup_nil
  | cons m rest ih =>
    rw [newMentions]
    split
    · exact ih seen
    · rw [List.map_cons, List.nodup_cons]
      refine ⟨?_, ih _⟩
      rw [List.mem_map]
      rintro ⟨other, hother, heq⟩
      exact (mem_newMentions_iff.1 hother).1 (heq ▸ List.mem_cons_self)

/-- Whatever is mentioned by a name that was not seen, something is new by that name. -/
theorem exists_newMention {seen : List String} {ms : List Mention} {m : Mention} (hm : m ∈ ms)
    (hseen : m.name ∉ seen) : ∃ first ∈ newMentions seen ms, first.name = m.name := by
  induction ms generalizing seen with
  | nil => cases hm
  | cons head rest ih =>
    rw [newMentions]
    split
    · next hhead =>
      rcases List.mem_cons.1 hm with rfl | hm
      · exact absurd hhead hseen
      · exact ih hm hseen
    · by_cases heq : m.name = head.name
      · exact ⟨head, List.mem_cons_self, heq.symm⟩
      rcases List.mem_cons.1 hm with rfl | hm
      · exact absurd rfl heq
      · obtain ⟨first, hfirst, hname⟩ := ih hm (List.not_mem_cons_of_ne_of_not_mem heq hseen)
        exact ⟨first, List.mem_cons_of_mem _ hfirst, hname⟩

theorem mem_of_mem_newMentions {seen : List String} {ms : List Mention} {m : Mention}
    (hm : m ∈ newMentions seen ms) : m ∈ ms := by
  obtain ⟨-, before, after, rfl, -⟩ := mem_newMentions_iff.1 hm
  exact List.mem_append_right _ List.mem_cons_self

theorem mem_newMentions_nil_iff {ds : List ModuleDescriptor} {m : Mention} :
    m ∈ newMentions [] (ds.flatMap ModuleDescriptor.mentions) ↔ MentionedFirst ds m := by
  rw [mem_newMentions_iff, MentionedFirst, and_iff_right List.not_mem_nil]

/-! ## Lines -/

/-- The lines of a text as comments. -/
def commentLines (text : String) : List String := (Text.lines text).map ("# " ++ ·)

/-- The lines that are written for a mention. -/
def Mention.lines (quote : String → String) : Mention → List String
  | .feature name => [Names.switch name ++ " = " ++ "false"]
  | .option o => commentLines o.description ++ [o.key ++ " = " ++ quote o.sample]

/-- The lines of a sample configuration of modules, apart from what was seen before. -/
def sampleLines (quote : String → String) (seen : List String) :
    List ModuleDescriptor → List String
  | [] => []
  | d :: rest =>
    commentLines d.description ++ [Names.switch d.id ++ " = " ++ "true"] ++
      (newMentions seen d.mentions).flatMap (Mention.lines quote) ++ [""] ++
      sampleLines quote (d.mentions.map Mention.name ++ seen) rest

/-- Lines, each with its line feed. -/
def ended (ls : List String) : String := String.join (ls.map (· ++ "\n"))

theorem ended_append (ls more : List String) : ended (ls ++ more) = ended ls ++ ended more := by
  rw [ended, List.map_append, String.join_append]
  rfl

theorem ended_singleton (l : String) : ended [l] = l ++ "\n" := by
  simp [ended]

theorem comment_eq_ended (text : String) : OptionSpec.comment text = ended (commentLines text) := by
  rw [OptionSpec.comment, ended, commentLines, List.map_map]
  rfl

namespace Registry

/-- What is written for mentions, and what was seen then. -/
structure Writes (quote : String → String) (seen : List String) (ms : List Mention)
    (result : String × List String) : Prop where
  text : result.1 = ended ((newMentions seen ms).flatMap (Mention.lines quote))
  seen : ∀ n, n ∈ result.2 ↔ n ∈ ms.map Mention.name ++ seen

namespace Writes

variable {quote : String → String} {seen after : List String} {ms : List Mention} {m : Mention}
  {text : String}

theorem nil : Writes quote seen [] ("", seen) where
  text := rfl
  seen _ := Iff.rfl

theorem skip (hseen : m.name ∈ seen) {result : String × List String}
    (h : Writes quote seen ms result) : Writes quote seen (m :: ms) result where
  text := by rw [h.text, newMentions, if_pos hseen]
  seen n := by
    rw [h.seen, List.map_cons, List.cons_append, List.mem_cons, List.mem_append]
    constructor
    · exact .inr
    · rintro (rfl | hn)
      · exact .inr hseen
      · exact hn

theorem write (hnew : m.name ∉ seen) (h : Writes quote (m.name :: seen) ms (text, after)) :
    Writes quote seen (m :: ms) (ended (m.lines quote) ++ text, after) where
  text := by
    rw [newMentions, if_neg hnew, List.flatMap_cons, ended_append]
    exact congrArg (ended (m.lines quote) ++ ·) h.text
  seen n := by
    rw [h.seen, List.map_cons]
    simp [or_left_comm]

theorem append {more : List Mention} {first second : String × List String}
    (h : Writes quote seen ms first) (hmore : Writes quote first.2 more second) :
    Writes quote seen (ms ++ more) (first.1 ++ second.1, second.2) where
  text := by
    rw [newMentions_append, List.flatMap_append, ended_append, ← h.text,
      newMentions_congr fun n => (h.seen n).symm]
    exact congrArg (first.1 ++ ·) hmore.text
  seen n := by
    rw [hmore.seen, List.mem_append, h.seen]
    simp [or_left_comm]

end Writes

theorem writes_subModuleLines (quote : String → String) (emitted subs : List String) :
    Writes quote emitted (subs.map .feature) (subModuleLines emitted subs) := by
  induction subs generalizing emitted with
  | nil => exact .nil
  | cons sub rest ih =>
    rw [subModuleLines, List.map_cons]
    split
    · next hseen => exact .skip (List.contains_iff_mem.1 hseen) (ih emitted)
    · next hnew =>
      have hline : Names.switch sub ++ " = false\n" =
          ended ((Mention.feature sub).lines quote) := by
        rw [Mention.lines, ended_singleton, String.append_assoc, String.append_assoc]
        rfl
      rw [hline]
      exact .write (fun hseen => hnew (List.contains_iff_mem.2 hseen)) (ih (sub :: emitted))

theorem writes_optionLines (quote : String → String) (emitted : List String)
    (options : List OptionSpec) :
    Writes quote emitted (options.map .option) (optionLines quote emitted options) := by
  induction options generalizing emitted with
  | nil => exact .nil
  | cons o rest ih =>
    rw [optionLines, List.map_cons]
    split
    · next hseen => exact .skip (List.contains_iff_mem.1 hseen) (ih emitted)
    · next hnew =>
      have hlines : o.assignmentWith quote ++ "\n" = ended ((Mention.option o).lines quote) := by
        rw [Mention.lines, ended_append, ended_singleton, ← comment_eq_ended,
          OptionSpec.assignmentWith]
        simp only [String.append_assoc]
      rw [hlines]
      exact .write (fun hseen => hnew (List.contains_iff_mem.2 hseen)) (ih (o.key :: emitted))

/-- The text of a sample configuration, line by line. -/
theorem sampleFrom_eq_ended {quote : String → String} {emitted seen : List String}
    (h : ∀ n, n ∈ emitted ↔ n ∈ seen) (ds : List ModuleDescriptor) :
    sampleFrom quote emitted ds = ended (sampleLines quote seen ds) := by
  induction ds generalizing emitted seen with
  | nil => rfl
  | cons d rest ih =>
    have hwritten := (writes_subModuleLines quote emitted d.subModules).append
      (writes_optionLines quote (subModuleLines emitted d.subModules).2 d.options)
    have hmentions := hwritten.text
    have hrest : sampleFrom quote
        (optionLines quote (subModuleLines emitted d.subModules).2 d.options).2 rest =
        ended (sampleLines quote (d.mentions.map Mention.name ++ seen) rest) := by
      refine ih fun n => ?_
      rw [hwritten.seen, List.mem_append, h, ← List.mem_append]
      rfl
    rw [newMentions_congr h] at hmentions
    rw [sampleFrom, sampleLines, ended_append, ended_append, ended_append, ended_append,
      ← comment_eq_ended, ended_singleton, ended_singleton, ModuleDescriptor.mentions, ← hmentions]
    dsimp only
    rw [hrest]
    simp only [String.append_assoc]
    rfl

end Registry

/-! ## Reading the lines -/

theorem newline_not_mem_commentLines {text l : String} (hl : l ∈ commentLines text) :
    '\n' ∉ l.toList := by
  obtain ⟨line, hline, rfl⟩ := List.mem_map.1 hl
  rw [String.toList_append, List.mem_append]
  rintro (h | h)
  · exact absurd h (by decide)
  · exact Text.newline_not_mem_of_mem_lines hline h

theorem filterMap_commentLines (text : String) :
    (commentLines text).filterMap Toml.assigned? = [] := by
  rw [List.filterMap_eq_nil_iff]
  intro l hl
  obtain ⟨line, -, rfl⟩ := List.mem_map.1 hl
  exact Toml.assigned?_comment line

theorem isPlainKey_switch {name : String} (h : Toml.IsPlainKey name) :
    Toml.IsPlainKey (Names.switch name) :=
  h.append (by decide)

/-- A switch is read from its line, with any value without blanks. -/
theorem assigned?_switch {name value : String} (h : Toml.IsPlainKey name)
    (hvalue : value.toList.all (fun c => !Text.isBlank c) = true) :
    Toml.assigned? (Names.switch name ++ " = " ++ value) = some (Names.switch name, value) := by
  have hsolid : ∀ c ∈ value.toList, Text.isBlank c = false := by simpa using hvalue
  exact Toml.assigned?_assignment (isPlainKey_switch h)
    (fun c hc => hsolid c (List.mem_of_mem_head? hc))
    (fun c hc => hsolid c (List.mem_of_mem_getLast? hc))

/-- A line that assigns a value on one line. -/
theorem newline_not_mem_assignment {key value : String} (hkey : Toml.IsPlainKey key)
    (hvalue : '\n' ∉ value.toList) : '\n' ∉ (key ++ " = " ++ value).toList := by
  rw [String.toList_append, String.toList_append, List.mem_append, List.mem_append]
  rintro ((h | h) | h)
  · exact hkey.not_mem (by decide) h
  · exact absurd h (by decide)
  · exact hvalue h

/-- The lines for a mention keep to one line each, and together they make its assignment. -/
theorem Mention.reads_lines {quote : String → String} (hquote : Toml.Encloses quote)
    {d : ModuleDescriptor} (hd : d.IsPlain) {m : Mention}
    (hm : m ∈ d.mentions) : (∀ l ∈ (m.lines quote), '\n' ∉ l.toList) ∧
      (m.lines quote).filterMap Toml.assigned? = [(m.entry quote)] := by
  rcases List.mem_append.1 hm with hm | hm
  · obtain ⟨sub, hsub, rfl⟩ := List.mem_map.1 hm
    have hplain := hd.subModules sub hsub
    refine ⟨?_, ?_⟩
    · intro l hl
      rw [List.mem_singleton.1 hl]
      exact newline_not_mem_assignment (isPlainKey_switch hplain) (by decide)
    · rw [lines, List.filterMap_cons_some (assigned?_switch hplain (by decide))]
      rfl
  · obtain ⟨o, ho, rfl⟩ := List.mem_map.1 hm
    have hplain := hd.keys o ho
    refine ⟨?_, ?_⟩
    · intro l hl
      rcases List.mem_append.1 hl with hl | hl
      · exact newline_not_mem_commentLines hl
      · rw [List.mem_singleton.1 hl]
        exact newline_not_mem_assignment hplain
          (Toml.newline_not_mem_quoted hquote (hd.samples o ho))
    · rw [lines, List.filterMap_append, filterMap_commentLines, List.nil_append,
        List.filterMap_cons_some (Toml.assigned?_quoted hquote hplain (hd.samples o ho))]
      rfl

theorem newline_not_mem_sampleLines {quote : String → String} (hquote : Toml.Encloses quote)
    {ds : List ModuleDescriptor} (hds : ∀ d ∈ ds, d.IsPlain) (seen : List String) {l : String}
    (hl : l ∈ sampleLines quote seen ds) : '\n' ∉ l.toList := by
  induction ds generalizing seen with
  | nil => cases hl
  | cons d rest ih =>
    have hd := hds d List.mem_cons_self
    simp only [sampleLines, List.mem_append, List.mem_singleton] at hl
    rcases hl with (((hl | rfl) | hl) | rfl) | hl
    · exact newline_not_mem_commentLines hl
    · exact newline_not_mem_assignment (isPlainKey_switch hd.id) (by decide)
    · obtain ⟨m, hm, hl⟩ := List.mem_flatMap.1 hl
      exact (Mention.reads_lines hquote hd (mem_of_mem_newMentions hm)).1 l hl
    · decide
    · exact ih (fun e he => hds e (List.mem_cons_of_mem d he)) _ hl

/-- The assignments of a sample configuration: the switches of the modules, and those of what is
mentioned for the first time. -/
theorem assigned_sampleLines_perm {quote : String → String} (hquote : Toml.Encloses quote)
    {ds : List ModuleDescriptor} (hds : ∀ d ∈ ds, d.IsPlain)
    (seen : List String) : ((sampleLines quote seen ds).filterMap Toml.assigned?).Perm
      (ds.map ModuleDescriptor.flag ++
        (newMentions seen (ds.flatMap ModuleDescriptor.mentions)).map (Mention.entry quote)) := by
  induction ds generalizing seen with
  | nil => exact .refl _
  | cons d rest ih =>
    have hd := hds d List.mem_cons_self
    have hswitch : Toml.assigned? (Names.switch d.id ++ " = " ++ "true") = some d.flag :=
      assigned?_switch hd.id (by decide)
    have hmentions : ∀ ms : List Mention, (∀ m ∈ ms, m ∈ d.mentions) →
        (ms.flatMap (Mention.lines quote)).filterMap Toml.assigned? =
          ms.map (Mention.entry quote) := by
      intro ms hms
      induction ms with
      | nil => rfl
      | cons m ms ihms =>
        rw [List.flatMap_cons, List.filterMap_append, List.map_cons,
          (Mention.reads_lines hquote hd (hms m List.mem_cons_self)).2,
          ihms fun other hother => hms other (List.mem_cons_of_mem m hother)]
        rfl
    have hhere : (sampleLines quote seen (d :: rest)).filterMap Toml.assigned? =
        d.flag :: ((newMentions seen d.mentions).map (Mention.entry quote) ++
          (sampleLines quote (d.mentions.map Mention.name ++ seen) rest).filterMap
            Toml.assigned?) := by
      rw [sampleLines, List.filterMap_append, List.filterMap_append, List.filterMap_append,
        List.filterMap_append, filterMap_commentLines, List.filterMap_cons_some hswitch,
        hmentions _ fun m hm => mem_of_mem_newMentions hm]
      simp [Toml.assigned?, Text.splitFirst?]
    rw [hhere, List.map_cons, List.flatMap_cons, newMentions_append, List.map_append,
      List.cons_append]
    refine .cons _ ?_
    have hrest := (ih (fun e he => hds e (List.mem_cons_of_mem d he))
      (d.mentions.map Mention.name ++ seen)).append_left
        ((newMentions seen d.mentions).map (Mention.entry quote))
    refine hrest.trans ?_
    rw [← List.append_assoc, ← List.append_assoc]
    exact List.perm_append_comm.append_right _

/-! ## Keys -/

/-- The switch of a listed module or of a feature of one. -/
def IsFlag (ds : List ModuleDescriptor) (key : String) : Prop :=
  ∃ d ∈ ds, key = Names.switch d.id ∨ ∃ s ∈ d.subModules, key = Names.switch s

instance (ds : List ModuleDescriptor) (key : String) : Decidable (IsFlag ds key) :=
  inferInstanceAs (Decidable (∃ d ∈ ds, _ ∨ ∃ s ∈ d.subModules, _))

/-- Nothing that is listed or mentioned has a name or a key of something else. -/
structure Apart (ds : List ModuleDescriptor) : Prop where
  features : ∀ d ∈ ds, ∀ s ∈ d.subModules, ∀ e ∈ ds, s ≠ e.id
  flags : ∀ d ∈ ds, ∀ o ∈ d.options, ¬ IsFlag ds o.key
  options : ∀ d ∈ ds, ∀ o ∈ d.options, ∀ e ∈ ds, o.key ∉ e.subModules

instance (ds : List ModuleDescriptor) : Decidable (Apart ds) :=
  decidable_of_iff ((∀ d ∈ ds, ∀ s ∈ d.subModules, ∀ e ∈ ds, s ≠ e.id) ∧
      (∀ d ∈ ds, ∀ o ∈ d.options, ¬ IsFlag ds o.key) ∧
      ∀ d ∈ ds, ∀ o ∈ d.options, ∀ e ∈ ds, o.key ∉ e.subModules)
    ⟨fun ⟨hfeatures, hflags, hoptions⟩ => ⟨hfeatures, hflags, hoptions⟩,
      fun ⟨hfeatures, hflags, hoptions⟩ => ⟨hfeatures, hflags, hoptions⟩⟩

/-- Each key is assigned once: the switch of each listed module is on, that of each feature that is
not listed is off, and there is each option that is no switch. -/
structure AssignsOnce (ds : List ModuleDescriptor) (assigned : List (String × String)) : Prop where
  nodup : (assigned.map Prod.fst).Nodup
  modules : ∀ d ∈ ds, (Names.switch d.id, "true") ∈ assigned
  features : ∀ d ∈ ds, ∀ s ∈ d.subModules, (∀ e ∈ ds, s ≠ e.id) →
    (Names.switch s, "false") ∈ assigned
  mem_keys_iff : ∀ key, key ∈ assigned.map Prod.fst ↔
    (∃ d ∈ ds, key = Names.switch d.id) ∨
    (∃ d ∈ ds, ∃ s ∈ d.subModules, (∀ e ∈ ds, s ≠ e.id) ∧ key = Names.switch s) ∨
    ∃ d ∈ ds, ∃ o ∈ d.options, ¬ IsFlag ds o.key ∧ key = o.key

/-- What the sample configuration of the listed modules assigns. -/
structure SampleAssigns (quote : String → String) (ds : List ModuleDescriptor)
    (assigned : List (String × String)) : Prop where
  mem_iff : ∀ key value, (key, value) ∈ assigned ↔
    (∃ d ∈ ds, key = Names.switch d.id ∧ value = "true") ∨
    ∃ m, MentionedFirst ds m ∧ key = m.key ∧ value = m.value quote
  /-- no key is assigned twice exactly when nothing that is written for a mention is a switch of
  something else -/
  nodup_iff : (assigned.map Prod.fst).Nodup ↔
    (∀ m, MentionedFirst ds m → ∀ d ∈ ds, m.key ≠ Names.switch d.id) ∧
    ∀ s o, MentionedFirst ds (.feature s) → MentionedFirst ds (.option o) →
      o.key ≠ Names.switch s
  once : Apart ds → AssignsOnce ds assigned

theorem switch_injective : Function.Injective Names.switch := by
  intro a b h
  have hchars := congrArg String.toList h
  rw [Names.switch, Names.switch, String.toList_append, String.toList_append] at hchars
  exact String.toList_injective (List.append_cancel_right hchars)

/-- Mentions of different names have different keys, but for an option that is the switch of a
feature. -/
theorem nodup_keys_iff {ms : List Mention} (h : (ms.map Mention.name).Nodup) :
    (ms.map Mention.key).Nodup ↔
      ∀ s o, Mention.feature s ∈ ms → Mention.option o ∈ ms → o.key ≠ Names.switch s := by
  constructor
  · intro hkeys s o hs ho heq
    cases List.inj_on_of_nodup_map hkeys hs ho heq.symm
  · intro hapart
    refine h.of_map.map_on fun a ha b hb heq => List.inj_on_of_nodup_map h ha hb ?_
    cases a with
    | feature s =>
      cases b with
      | feature t => exact switch_injective heq
      | option o => exact absurd heq.symm (hapart s o ha hb)
    | option o =>
      cases b with
      | feature s => exact absurd heq (hapart s o hb ha)
      | option p => exact heq

section Assigned

variable {quote : String → String} {ds : List ModuleDescriptor}
  {assigned : List (String × String)}

theorem mem_mentions_iff {m : Mention} : m ∈ ds.flatMap ModuleDescriptor.mentions ↔
    (∃ d ∈ ds, ∃ s ∈ d.subModules, m = .feature s) ∨ ∃ d ∈ ds, ∃ o ∈ d.options, m = .option o := by
  simp only [List.mem_flatMap, ModuleDescriptor.mentions, List.mem_append, List.mem_map]
  constructor
  · rintro ⟨d, hd, ⟨s, hs, rfl⟩ | ⟨o, ho, rfl⟩⟩
    · exact .inl ⟨d, hd, s, hs, rfl⟩
    · exact .inr ⟨d, hd, o, ho, rfl⟩
  · rintro (⟨d, hd, s, hs, rfl⟩ | ⟨d, hd, o, ho, rfl⟩)
    · exact ⟨d, hd, .inl ⟨s, hs, rfl⟩⟩
    · exact ⟨d, hd, .inr ⟨o, ho, rfl⟩⟩

theorem MentionedFirst.mem {m : Mention} (h : MentionedFirst ds m) :
    m ∈ ds.flatMap ModuleDescriptor.mentions :=
  mem_of_mem_newMentions (mem_newMentions_nil_iff.2 h)

/-- When everything is apart, each feature is mentioned for the first time somewhere. -/
theorem Apart.mentionedFirst_feature (h : Apart ds) {d : ModuleDescriptor} (hd : d ∈ ds)
    {s : String} (hs : s ∈ d.subModules) : MentionedFirst ds (.feature s) := by
  have hmem : Mention.feature s ∈ ds.flatMap ModuleDescriptor.mentions :=
    mem_mentions_iff.2 (.inl ⟨d, hd, s, hs, rfl⟩)
  obtain ⟨first, hfirst, hname⟩ := exists_newMention hmem List.not_mem_nil
  rcases mem_mentions_iff.1 (mem_of_mem_newMentions hfirst) with
    ⟨e, he, t, ht, rfl⟩ | ⟨e, he, o, ho, rfl⟩
  · obtain rfl : t = s := hname
    exact mem_newMentions_nil_iff.1 hfirst
  · obtain rfl : o.key = s := hname
    exact absurd hs (h.options e he o ho d hd)

/-- So is some option for each key of an option. -/
theorem Apart.exists_mentionedFirst_option (h : Apart ds) {d : ModuleDescriptor} (hd : d ∈ ds)
    {o : OptionSpec} (ho : o ∈ d.options) :
    ∃ p : OptionSpec, p.key = o.key ∧ MentionedFirst ds (.option p) := by
  have hmem : Mention.option o ∈ ds.flatMap ModuleDescriptor.mentions :=
    mem_mentions_iff.2 (.inr ⟨d, hd, o, ho, rfl⟩)
  obtain ⟨first, hfirst, hname⟩ := exists_newMention hmem List.not_mem_nil
  rcases mem_mentions_iff.1 (mem_of_mem_newMentions hfirst) with
    ⟨e, he, t, ht, rfl⟩ | ⟨e, he, p, hp, rfl⟩
  · obtain rfl : t = o.key := hname
    exact absurd ht (h.options d hd o ho e he)
  · exact ⟨p, hname, mem_newMentions_nil_iff.1 hfirst⟩

variable (hids : (ds.map ModuleDescriptor.id).Nodup)
  (hperm : assigned.Perm (ds.map ModuleDescriptor.flag ++
    (newMentions [] (ds.flatMap ModuleDescriptor.mentions)).map (Mention.entry quote)))

include hperm

theorem mem_assigned_iff (key value : String) : (key, value) ∈ assigned ↔
    (∃ d ∈ ds, key = Names.switch d.id ∧ value = "true") ∨
    ∃ m, MentionedFirst ds m ∧ key = m.key ∧ value = m.value quote := by
  rw [hperm.mem_iff, List.mem_append, List.mem_map, List.mem_map]
  simp only [mem_newMentions_nil_iff, ModuleDescriptor.flag, Mention.entry, Prod.mk.injEq,
    eq_comm (b := key), eq_comm (b := value)]

theorem mem_keys_assigned_iff (key : String) : key ∈ assigned.map Prod.fst ↔
    (∃ d ∈ ds, key = Names.switch d.id) ∨ ∃ m, MentionedFirst ds m ∧ key = m.key := by
  rw [List.mem_map]
  constructor
  · rintro ⟨⟨k, value⟩, hmem, rfl⟩
    rcases (mem_assigned_iff hperm k value).1 hmem with ⟨d, hd, hk, -⟩ | ⟨m, hm, hk, -⟩
    · exact .inl ⟨d, hd, hk⟩
    · exact .inr ⟨m, hm, hk⟩
  · rintro (⟨d, hd, rfl⟩ | ⟨m, hm, rfl⟩)
    · exact ⟨d.flag, (mem_assigned_iff hperm _ _).2 (.inl ⟨d, hd, rfl, rfl⟩), rfl⟩
    · exact ⟨(m.entry quote), (mem_assigned_iff hperm _ _).2 (.inr ⟨m, hm, rfl, rfl⟩), rfl⟩

include hids

theorem nodup_keys_assigned_iff : (assigned.map Prod.fst).Nodup ↔
    (∀ m, MentionedFirst ds m → ∀ d ∈ ds, m.key ≠ Names.switch d.id) ∧
    ∀ s o, MentionedFirst ds (.feature s) → MentionedFirst ds (.option o) →
      o.key ≠ Names.switch s := by
  have hkeys : (assigned.map Prod.fst).Perm (ds.map (fun d => Names.switch d.id) ++
      (newMentions [] (ds.flatMap ModuleDescriptor.mentions)).map Mention.key) := by
    have hmapped := hperm.map Prod.fst
    rw [List.map_append, List.map_map, List.map_map] at hmapped
    exact hmapped
  have hswitches : (ds.map fun d => Names.switch d.id).Nodup := by
    have hmapped := hids.map switch_injective
    rwa [List.map_map] at hmapped
  have hmentions := nodup_keys_iff
    (names_newMentions_nodup [] (ds.flatMap ModuleDescriptor.mentions))
  simp only [mem_newMentions_nil_iff] at hmentions
  rw [hkeys.nodup_iff, List.nodup_append, hmentions]
  constructor
  · rintro ⟨-, hoptions, hapart⟩
    refine ⟨fun m hm d hd heq => ?_, hoptions⟩
    exact hapart _ (List.mem_map_of_mem hd) _
      (List.mem_map_of_mem (mem_newMentions_nil_iff.2 hm)) heq.symm
  · rintro ⟨hapart, hoptions⟩
    refine ⟨hswitches, hoptions, ?_⟩
    rintro _ hswitch _ hkey rfl
    obtain ⟨d, hd, rfl⟩ := List.mem_map.1 hswitch
    obtain ⟨m, hm, heq⟩ := List.mem_map.1 hkey
    exact hapart m (mem_newMentions_nil_iff.1 hm) d hd heq

theorem assignsOnce (hapart : Apart ds) : AssignsOnce ds assigned where
  nodup := by
    rw [nodup_keys_assigned_iff hids hperm]
    refine ⟨fun m hm d hd heq => ?_, fun s o hs ho heq => ?_⟩
    · rcases mem_mentions_iff.1 hm.mem with ⟨e, he, s, hs, rfl⟩ | ⟨e, he, o, ho, rfl⟩
      · exact hapart.features e he s hs d hd (switch_injective heq)
      · exact hapart.flags e he o ho ⟨d, hd, .inl heq⟩
    · rcases mem_mentions_iff.1 hs.mem with ⟨d, hd, t, ht, hst⟩ | ⟨d, hd, p, hp, hsp⟩
      · cases hst
        rcases mem_mentions_iff.1 ho.mem with ⟨e, he, u, hu, hou⟩ | ⟨e, he, p, hp, hop⟩
        · cases hou
        · cases hop
          exact hapart.flags e he o hp ⟨d, hd, .inr ⟨s, ht, heq⟩⟩
      · cases hsp
  modules d hd := (mem_assigned_iff hperm _ _).2 (.inl ⟨d, hd, rfl, rfl⟩)
  features d hd s hs _ :=
    (mem_assigned_iff hperm _ _).2 (.inr ⟨_, hapart.mentionedFirst_feature hd hs, rfl, rfl⟩)
  mem_keys_iff key := by
    rw [mem_keys_assigned_iff hperm]
    refine or_congr_right ⟨?_, ?_⟩
    · rintro ⟨m, hm, rfl⟩
      rcases mem_mentions_iff.1 hm.mem with ⟨d, hd, s, hs, rfl⟩ | ⟨d, hd, o, ho, rfl⟩
      · exact .inl ⟨d, hd, s, hs, hapart.features d hd s hs, rfl⟩
      · exact .inr ⟨d, hd, o, ho, hapart.flags d hd o ho, rfl⟩
    · rintro (⟨d, hd, s, hs, -, rfl⟩ | ⟨d, hd, o, ho, -, rfl⟩)
      · exact ⟨_, hapart.mentionedFirst_feature hd hs, rfl⟩
      · obtain ⟨p, hkey, hp⟩ := hapart.exists_mentionedFirst_option hd ho
        exact ⟨_, hp, hkey.symm⟩

theorem sampleAssigns_of_perm : SampleAssigns quote ds assigned where
  mem_iff := mem_assigned_iff hperm
  nodup_iff := nodup_keys_assigned_iff hids hperm
  once := assignsOnce hids hperm

end Assigned

namespace Registry

/-- No module is listed twice. -/
theorem nodup_ids_of_list {ms : List Module} {r : Registry} (hr : registerAll {} ms = .ok r)
    {profile : Profile} {ds : List ModuleDescriptor} (hlist : r.list profile = .ok ds) :
    (ds.map ModuleDescriptor.id).Nodup := by
  have hheld := holds_empty.of_registerAll hr
  obtain ⟨run, hrun, rfl⟩ := list_eq_ok_iff.1 hlist
  obtain ⟨-, hleast⟩ := hheld.ordered_eq_ok_iff.1 hrun
  obtain ⟨hmem, -⟩ := hheld.runsInOrder_iff.1 hleast.inOrder
  rw [List.map_map]
  exact hleast.inOrder.once.map_on fun a ha b hb hid =>
    List.inj_on_of_nodup_map hheld.distinct (hmem a ha) (hmem b hb) hid

/-- The text of the sample configuration of listed modules. -/
theorem sampleConfiguration_of_list (quote : String → String) {r : Registry} {profile : Profile}
    {ds : List ModuleDescriptor} (hlist : r.list profile = .ok ds) :
    r.sampleConfigurationWith quote profile = .ok (sampleFrom quote [] ds) := by
  rw [sampleConfigurationWith, hlist]
  rfl

/-- Whenever modules can be listed there is a sample configuration, and it assigns the switches of
the modules and whatever they mention by a new name. -/
theorem sampleConfiguration_assigns {quote : String → String} (hquote : Toml.Encloses quote)
    {ms : List Module} {r : Registry} (hr : registerAll {} ms = .ok r) {profile : Profile}
    {ds : List ModuleDescriptor} (hlist : r.list profile = .ok ds)
    (hplain : ∀ d ∈ ds, d.IsPlain) :
    ∃ text, r.sampleConfigurationWith quote profile = .ok text ∧
      SampleAssigns quote ds (Toml.assignments text) := by
  refine ⟨sampleFrom quote [] ds, sampleConfiguration_of_list quote hlist, ?_⟩
  rw [sampleFrom_eq_ended (fun _ => Iff.rfl), ended,
    Toml.assignments_ended fun l hl => newline_not_mem_sampleLines hquote hplain [] hl]
  exact sampleAssigns_of_perm (nodup_ids_of_list hr hlist)
    (assigned_sampleLines_perm hquote hplain [])

theorem exists_registered_of_listed {ms : List Module} {profile : Profile}
    {ds : List ModuleDescriptor} (h : (registerAll {} ms).toOption.bind
      (fun r => (r.list profile).toOption) = some ds) :
    ∃ r, registerAll {} ms = .ok r ∧ r.list profile = .ok ds := by
  cases hr : registerAll {} ms with
  | error e =>
    rw [hr] at h
    cases h
  | ok r =>
    rw [hr] at h
    refine ⟨r, rfl, ?_⟩
    cases hlist : r.list profile with
    | error e =>
      rw [Except.toOption, Option.bind_some, hlist] at h
      cases h
    | ok listed =>
      rw [Except.toOption, Option.bind_some, hlist] at h
      cases h
      rfl

/-- A module with a feature and an option, and one that mentions both again. -/
theorem sampleConfiguration_assigns_two :
    let option : OptionSpec := ⟨"cache.size", "how many = 1", "a\"b"⟩
    let described (id : String) : ModuleDescriptor :=
      { id, description := "a = b", subModules := ["cache"], options := [option] }
    let ds := [described "a", described "b"]
    Toml.Encloses Toml.quoted ∧
    ∃ r, registerAll {} (ds.map fun d => ⟨d, pure ()⟩) = .ok r ∧ r.list .jit = .ok ds ∧
      (∀ d ∈ ds, d.IsPlain) ∧ Apart ds ∧
        ∃ text, r.sampleConfigurationWith Toml.quoted .jit = .ok text ∧
          SampleAssigns Toml.quoted ds (Toml.assignments text) := by
  intro option described ds
  obtain ⟨r, hr, hlist⟩ : ∃ r, registerAll {} (ds.map fun d => ⟨d, pure ()⟩) = .ok r ∧
      r.list .jit = .ok ds := exists_registered_of_listed (by decide +kernel)
  have hplain : ∀ d ∈ ds, d.IsPlain := by decide +kernel
  have hapart : Apart ds := by decide +kernel
  exact ⟨Toml.encloses_quoted, r, hr, hlist, hplain, hapart,
    sampleConfiguration_assigns Toml.encloses_quoted hr hlist hplain⟩

/-- A key is assigned twice when a feature is a listed module. -/
theorem listed_feature_assigned_twice :
    let ds : List ModuleDescriptor := [{ id := "a", subModules := ["b"] }, { id := "b" }]
    ∃ r text, registerAll {} (ds.map fun d => ⟨d, pure ()⟩) = .ok r ∧ r.list .jit = .ok ds ∧
      (∀ d ∈ ds, d.IsPlain) ∧ r.sampleConfiguration .jit = .ok text ∧
      Toml.assignments text =
        [("a.enabled", "true"), ("b.enabled", "false"), ("b.enabled", "true")] := by
  intro ds
  obtain ⟨r, hr, hlist⟩ : ∃ r, registerAll {} (ds.map fun d => ⟨d, pure ()⟩) = .ok r ∧
      r.list .jit = .ok ds := exists_registered_of_listed (by decide +kernel)
  have hplain : ∀ d ∈ ds, d.IsPlain := by decide +kernel
  exact ⟨r, sampleFrom Toml.quoted [] ds, hr, hlist, hplain,
    sampleConfiguration_of_list Toml.quoted hlist, by decide +kernel⟩

end Registry

end BuildAhead
