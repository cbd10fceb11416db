import BuildAhead.Files.Writing
import BuildAhead.Proofs.Files.Tree
import BuildAhead.Proofs.Generation.Running

set_option autoImplicit false

/-!
# Files: rows of files that are written

A row of files leaves at each place the text that is written to it last, and what was there before
when none is. Below a folder that was empty, the files are those of the row.
-/

namespace BuildAhead

namespace Files.Tree

variable {t t' : Tree} {p : Path} {start place : Place}

/-! ## The files below a place -/

/-- The places below a place at which something is noted. -/
def placesBelow (t : Tree) (start : Place) : List Place :=
  (t.nodes.map Prod.fst).filter fun p => start.isPrefixOf p && p != start

/-- There is no file below a place with nothing below it. -/
theorem text?_of_placesBelow_eq_nil (h : t.placesBelow start = []) {q : Place} (hq : q ≠ []) :
    t.text? (start ++ q) = none := by
  have hroot : start ++ q ≠ [] := fun heq => hq (List.append_eq_nil_iff.1 heq).2
  have hfind : t.nodes.find? (fun n => n.1 == start ++ q) = none := by
    refine List.find?_eq_none.2 fun n hn heq => ?_
    have hplace : n.1 = start ++ q := by simpa using heq
    have hbelow : n.1 ∈ t.placesBelow start := by
      refine List.mem_filter.2 ⟨List.mem_map_of_mem hn, ?_⟩
      rw [hplace, Bool.and_eq_true, List.isPrefixOf_iff_prefix, bne_iff_ne]
      exact ⟨List.prefix_append start q, by simpa using hq⟩
    rw [h] at hbelow
    exact absurd hbelow List.not_mem_nil
  unfold text? node?
  rw [if_neg hroot, hfind]
  rfl

theorem nodup_placesBelow_put (h : (t.placesBelow start).Nodup) (place : Place) (n : Node) :
    ((t.put place n).placesBelow start).Nodup := by
  have hrest : ((t.nodes.filter fun m => m.1 != place).map Prod.fst) =
      (t.nodes.map Prod.fst).filter (· != place) := by
    rw [List.filter_map]
    rfl
  unfold placesBelow put
  rw [List.map_cons, hrest]
  have hothers : (((t.nodes.map Prod.fst).filter (· != place)).filter fun p =>
      start.isPrefixOf p && p != start).Nodup :=
    h.sublist (List.filter_sublist.filter _)
  rw [List.filter_cons]
  split
  · refine List.nodup_cons.2 ⟨fun hmem => ?_, hothers⟩
    have hne := (List.mem_filter.1 (List.mem_filter.1 hmem).1).2
    simp at hne
  · exact hothers

theorem nodup_placesBelow_makeFolders (hmake : t.makeFolders p = .ok t')
    (h : (t.placesBelow start).Nodup) : (t'.placesBelow start).Nodup := by
  have hput : ∀ {made : Tree} {place : Place}, place ≠ [] → made.node? place = none →
      OnTheWay (t.startOf p) (Path.segments p) place → (made.placesBelow start).Nodup →
        ((made.put place .folder).placesBelow start).Nodup :=
    fun _ _ _ hbelow => nodup_placesBelow_put hbelow _ _
  exact makeFolders_preserves hput hmake h

theorem nodup_placesBelow_store {f : Option String → String} (hstore : t.store p f = .ok t')
    (h : (t.placesBelow start).Nodup) : (t'.placesBelow start).Nodup := by
  rw [store_of_writable (writable_of_store hstore)] at hstore
  cases hstore
  exact nodup_placesBelow_put h _ _

/-- Of two nodes below a place, each has a place of its own. -/
theorem pairwise_nodes (h : (t.placesBelow start).Nodup) :
    t.nodes.Pairwise fun m n => start <+: n.1 → n.1 ≠ start → m.1 ≠ n.1 := by
  have hpairs : t.nodes.Pairwise fun m n => (start.isPrefixOf m.1 && m.1 != start) = true →
      (start.isPrefixOf n.1 && n.1 != start) = true → m.1 ≠ n.1 :=
    List.pairwise_map.1 (List.pairwise_filter.1 h)
  refine hpairs.imp ?_
  intro m n hmn hbelow hne heq
  have hn : (start.isPrefixOf n.1 && n.1 != start) = true := by
    rw [Bool.and_eq_true, List.isPrefixOf_iff_prefix, bne_iff_ne]
    exact ⟨hbelow, hne⟩
  exact hmn (heq ▸ hn) hn heq

/-- What is listed for a node, when it is a file below the place. -/
def fileBelow? (start : Place) : Place × Node → Option (Place × String)
  | (_, .folder) => none
  | (p, .file text) => if start.isPrefixOf p then some (p.drop start.length, text) else none

theorem filesBelow_eq (t : Tree) (start : Place) :
    t.filesBelow start = t.nodes.filterMap (fileBelow? start) := by
  refine congrArg (List.filterMap · t.nodes) (funext fun n => ?_)
  obtain ⟨p, _ | text⟩ := n
  · rfl
  · rfl

theorem fileBelow?_eq_some {n : Place × Node} {file : Place × String} :
    fileBelow? start n = some file ↔ n = (start ++ file.1, .file file.2) := by
  constructor
  · intro hgiven
    obtain ⟨p, _ | text⟩ := n
    · cases hgiven
    · rw [fileBelow?] at hgiven
      split at hgiven
      · next hbelow =>
        obtain ⟨rest, rfl⟩ := List.isPrefixOf_iff_prefix.1 hbelow
        cases hgiven
        rw [List.drop_left]
      · cases hgiven
  · rintro rfl
    rw [fileBelow?, if_pos (List.isPrefixOf_iff_prefix.2 (List.prefix_append start file.1)),
      List.drop_left]

theorem mem_filesBelow {q : Place} {text : String} :
    (q, text) ∈ t.filesBelow start ↔ (start ++ q, .file text) ∈ t.nodes := by
  rw [filesBelow_eq, List.mem_filterMap]
  constructor
  · rintro ⟨n, hmem, hgiven⟩
    exact fileBelow?_eq_some.1 hgiven ▸ hmem
  · intro hmem
    exact ⟨_, hmem, fileBelow?_eq_some.2 rfl⟩

/-- The files that are listed are those that are found. -/
theorem mem_filesBelow_iff_text? (h : (t.placesBelow start).Nodup) {q : Place} (hq : q ≠ [])
    {text : String} : (q, text) ∈ t.filesBelow start ↔ t.text? (start ++ q) = some text := by
  have hne : start ++ q ≠ start := by simpa using hq
  have hroot : start ++ q ≠ [] := fun heq => hq (List.append_eq_nil_iff.1 heq).2
  have hfound : t.text? (start ++ q) = some text ↔
      t.nodes.find? (fun n => n.1 == start ++ q) = some (start ++ q, .file text) := by
    unfold text? node?
    rw [if_neg hroot]
    cases hfind : t.nodes.find? fun n => n.1 == start ++ q with
    | none => simp
    | some n =>
      obtain ⟨place, node⟩ := n
      have hplace : place = start ++ q := by simpa using List.find?_some hfind
      subst hplace
      cases node with
      | folder => simp
      | file s => simp
  rw [mem_filesBelow, hfound]
  constructor
  · intro hmem
    obtain ⟨before, after, hnodes⟩ := List.append_of_mem hmem
    refine List.find?_eq_some_iff_append.2 ⟨by simp, before, after, hnodes, fun n hn => ?_⟩
    have hpairs := pairwise_nodes h
    rw [hnodes, List.pairwise_append] at hpairs
    have hapart := hpairs.2.2 n hn _ List.mem_cons_self (List.prefix_append start q) hne
    simpa using hapart
  · intro hfind
    exact List.mem_of_find?_eq_some hfind

/-- No file below a place is listed twice. -/
theorem pairwise_filesBelow (h : (t.placesBelow start).Nodup) :
    (t.filesBelow start).Pairwise fun a b => b.1 ≠ [] → a.1 ≠ b.1 := by
  rw [filesBelow_eq, List.pairwise_filterMap]
  refine (pairwise_nodes h).imp ?_
  intro m n hmn a ha b hb hne heq
  have hm : m.1 = start ++ a.1 := congrArg Prod.fst (fileBelow?_eq_some.1 ha)
  have hn : n.1 = start ++ b.1 := congrArg Prod.fst (fileBelow?_eq_some.1 hb)
  refine hmn (hn ▸ List.prefix_append start b.1) ?_ ?_
  · rw [hn]
    simpa using hne
  · rw [hm, hn, heq]

end Files.Tree

namespace Writing

variable {t t' : Files.Tree} {start : Files.Place}

/-! ## One file -/

theorem step_eq_ok {path : Files.Path} {f : Files.Tree → Except Files.Fault Files.Tree}
    (hrun : (step path f).run.run t = (.ok (), t')) : f t = .ok t' := by
  have hget : StateT.run (ExceptT.run (get : Writing Files.Tree)) t = (.ok t, t) := rfl
  unfold step at hrun
  rw [run_bind, hget] at hrun
  simp only at hrun
  cases hf : f t with
  | ok tree =>
    rw [hf] at hrun
    cases hrun
    rfl
  | error fault =>
    rw [hf] at hrun
    cases hrun

/-- The steps of a file that is written. -/
theorem writeFile_eq_ok {path : Files.Path} {text : String}
    (hrun : (writeFile path text).run.run t = (.ok (), t')) : ∃ made,
      (made = t ∨ ∃ above, t.makeFolders above = .ok made) ∧ made.write path text = .ok t' := by
  unfold writeFile at hrun
  cases hparent : Files.Path.parent? path with
  | none =>
    rw [hparent] at hrun
    exact ⟨t, .inl rfl, step_eq_ok hrun⟩
  | some above =>
    rw [hparent] at hrun
    simp only at hrun
    rw [run_bind] at hrun
    rcases hmake : (step above fun tree => tree.makeFolders above).run.run t with ⟨e | ⟨⟩, made⟩
    · rw [hmake] at hrun
      cases hrun
    · rw [hmake] at hrun
      exact ⟨made, .inr ⟨above, step_eq_ok hmake⟩, step_eq_ok hrun⟩

theorem writes_of_writeFile {path : Files.Path} {text : String}
    (hrun : (writeFile path text).run.run t = (.ok (), t')) :
    t.Writes t' (t.placeOf path) text := by
  obtain ⟨made, hmade, hwrite⟩ := writeFile_eq_ok hrun
  have hadds : t.AddsFolders made := by
    rcases hmade with rfl | ⟨above, hmake⟩
    · exact .refl made
    · exact Files.Tree.addsFolders_makeFolders hmake
  have hwrites := (Files.Tree.writes_of_store hwrite).2
  rw [hadds.keepsFolders.placeOf path] at hwrites
  exact hadds.writes hwrites

theorem writable_of_writeFile {path : Files.Path} {text : String}
    (hrun : (writeFile path text).run.run t = (.ok (), t')) : t'.Writable path := by
  obtain ⟨made, -, hwrite⟩ := writeFile_eq_ok hrun
  obtain ⟨hwritable, hwrites⟩ := Files.Tree.writes_of_store hwrite
  refine hwritable.of_keepsFolders hwrites.keepsFolders ?_
  rw [hwrites.written]
  simp

theorem nodup_placesBelow_writeFile {path : Files.Path} {text : String}
    (hrun : (writeFile path text).run.run t = (.ok (), t')) (h : (t.placesBelow start).Nodup) :
    (t'.placesBelow start).Nodup := by
  obtain ⟨made, hmade, hwrite⟩ := writeFile_eq_ok hrun
  refine Files.Tree.nodup_placesBelow_store hwrite ?_
  rcases hmade with rfl | ⟨above, hmake⟩
  · exact h
  · exact Files.Tree.nodup_placesBelow_makeFolders hmake h

/-! ## A row of files -/

/-- The text that is written last to a place. -/
def lastText? (t : Files.Tree) (q : Files.Place) : List (Files.Path × String) → Option String
  | [] => none
  | file :: rest => (lastText? t q rest).or (if t.placeOf file.1 = q then some file.2 else none)

theorem lastText?_append (t : Files.Tree) (q : Files.Place)
    (first second : List (Files.Path × String)) :
    lastText? t q (first ++ second) = (lastText? t q second).or (lastText? t q first) := by
  induction first with
  | nil => exact Option.or_none.symm
  | cons file rest ih => rw [List.cons_append, lastText?, lastText?, ih, Option.or_assoc]

theorem lastText?_eq_of_keepsFolders (h : t.KeepsFolders t') (q : Files.Place)
    (files : List (Files.Path × String)) : lastText? t' q files = lastText? t q files := by
  induction files with
  | nil => rfl
  | cons file rest ih => rw [lastText?, lastText?, ih, h.placeOf]

/-- Nothing is written to a place for which no file is meant. -/
theorem lastText?_eq_none {q : Files.Place} {files : List (Files.Path × String)}
    (h : ∀ file ∈ files, t.placeOf file.1 ≠ q) : lastText? t q files = none := by
  induction files with
  | nil => rfl
  | cons file rest ih =>
    rw [lastText?, ih fun f hf => h f (List.mem_cons_of_mem _ hf),
      if_neg (h file List.mem_cons_self), Option.or_none]

theorem forM_cons_eq_ok {file : Files.Path × String} {rest : List (Files.Path × String)}
    (hrun : ((file :: rest).forM fun file => writeFile file.1 file.2).run.run t = (.ok (), t')) :
    ∃ t₁, (writeFile file.1 file.2).run.run t = (.ok (), t₁) ∧
      (rest.forM fun file => writeFile file.1 file.2).run.run t₁ = (.ok (), t') := by
  have hbind : ((file :: rest).forM fun file => writeFile file.1 file.2) =
      writeFile file.1 file.2 >>= fun _ => rest.forM fun file => writeFile file.1 file.2 := rfl
  rw [hbind, run_bind] at hrun
  rcases hfirst : (writeFile file.1 file.2).run.run t with ⟨e | ⟨⟩, t₁⟩
  · rw [hfirst] at hrun
    cases hrun
  · rw [hfirst] at hrun
    exact ⟨t₁, rfl, hrun⟩

/-- What a row of files that were all written has left. -/
theorem text?_of_forM {files : List (Files.Path × String)}
    (hrun : (files.forM fun file => writeFile file.1 file.2).run.run t = (.ok (), t'))
    (q : Files.Place) : t'.text? q = (lastText? t q files).or (t.text? q) := by
  induction files generalizing t with
  | nil =>
    cases hrun
    rfl
  | cons file rest ih =>
    obtain ⟨t₁, hfirst, hrest⟩ := forM_cons_eq_ok hrun
    have hwrites := writes_of_writeFile hfirst
    rw [ih hrest, lastText?_eq_of_keepsFolders hwrites.keepsFolders, lastText?, Option.or_assoc]
    congr 1
    split
    · next heq => rw [← heq, hwrites.text?_written, Option.some_or]
    · next hne => rw [hwrites.text?_elsewhere (Ne.symm hne), Option.none_or]

theorem nodup_placesBelow_forM {files : List (Files.Path × String)}
    (hrun : (files.forM fun file => writeFile file.1 file.2).run.run t = (.ok (), t'))
    (h : (t.placesBelow start).Nodup) : (t'.placesBelow start).Nodup := by
  induction files generalizing t with
  | nil =>
    cases hrun
    exact h
  | cons file rest ih =>
    obtain ⟨t₁, hfirst, hrest⟩ := forM_cons_eq_ok hrun
    exact ih hrest (nodup_placesBelow_writeFile hfirst h)

theorem keepsFolders_forM {files : List (Files.Path × String)}
    (hrun : (files.forM fun file => writeFile file.1 file.2).run.run t = (.ok (), t')) :
    t.KeepsFolders t' := by
  induction files generalizing t with
  | nil =>
    cases hrun
    exact .refl _
  | cons file rest ih =>
    obtain ⟨t₁, hfirst, hrest⟩ := forM_cons_eq_ok hrun
    exact (writes_of_writeFile hfirst).keepsFolders.trans (ih hrest)

/-- Every file of a row can be written again, and so be read. -/
theorem writable_of_forM {files : List (Files.Path × String)}
    (hrun : (files.forM fun file => writeFile file.1 file.2).run.run t = (.ok (), t'))
    {file : Files.Path × String} (hfile : file ∈ files) : t'.Writable file.1 := by
  induction files generalizing t with
  | nil => exact absurd hfile List.not_mem_nil
  | cons first rest ih =>
    obtain ⟨t₁, hfirst, hrest⟩ := forM_cons_eq_ok hrun
    rcases List.mem_cons.1 hfile with rfl | hmem
    · have hwrites := writes_of_writeFile hfirst
      refine (writable_of_writeFile hfirst).of_keepsFolders (keepsFolders_forM hrest) ?_
      refine Files.Tree.notFolder_of_text? ?_
      rw [text?_of_forM hrest, hwrites.keepsFolders.placeOf, hwrites.text?_written,
        Option.isSome_or, Option.isSome_some, Bool.or_true]
    · exact ih hrest hmem

/-- A file of a row holds the text that was written last to its place. -/
theorem read_of_forM {files : List (Files.Path × String)}
    (hrun : (files.forM fun file => writeFile file.1 file.2).run.run t = (.ok (), t'))
    {file : Files.Path × String} (hfile : file ∈ files) {text : String}
    (hlast : lastText? t (t.placeOf file.1) files = some text) : t'.read file.1 = .ok text := by
  refine Files.Tree.read_of_writable (writable_of_forM hrun hfile) ?_
  rw [(keepsFolders_forM hrun).placeOf, text?_of_forM hrun, hlast, Option.some_or]

end Writing

end BuildAhead
