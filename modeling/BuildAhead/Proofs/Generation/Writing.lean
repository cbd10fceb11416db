import BuildAhead.Generation.Context
import BuildAhead.Proofs.Files.Tree

set_option autoImplicit false

/-!
# Generation: what deferred writes leave

A write changes the file at its place alone. The first write of a build to a place finds no file
there, and later ones find what the earlier ones left, so what a place holds at the end is decided
by the writes to it in their order, whatever it held before.
-/

namespace BuildAhead

/-- The text of a file after an action; none when the action fails. -/
def FileAction.after (a : FileAction) (old : Option String) : Option String :=
  match a with
  | .append text => some (old.getD "" ++ text)
  | .replace text => some text
  | .fail _ => none

/-- The text of a file after actions in order. The first of them finds no file, unless the build has
touched it before. -/
def FileAction.afterAll (touched : Bool) (old : Option String) : List FileAction → Option String
  | [] => old
  | a :: rest => afterAll true (a.after (if touched then old else none)) rest

namespace PendingWrite

/-- The path that a write is for, below a folder. -/
def target (folder : Files.Path) (w : PendingWrite) : Files.Path := Files.Path.join folder w.path

variable {view : FinishView} {folder : Files.Path} {touched : List (Bool × List String)}
  {tree tree' : Files.Tree} {w : PendingWrite} {ws : List PendingWrite}

theorem addsFolders_makeParent {target : Files.Path} (hmake : makeParent tree target = .ok tree') :
    tree.AddsFolders tree' := by
  unfold makeParent at hmake
  split at hmake
  · cases hmake
    exact .refl tree
  · next above _ =>
    cases hfolders : tree.makeFolders above with
    | error fault =>
      rw [hfolders] at hmake
      cases hmake
    | ok made =>
      rw [hfolders] at hmake
      cases hmake
      exact Files.Tree.addsFolders_makeFolders hfolders

/-- An action that succeeds leaves what it makes of the old text. -/
theorem perform_eq_ok {target : Files.Path} {action : FileAction}
    (hperform : perform tree target action = .ok tree') :
    tree.Writable target ∧
      ∃ text, action.after (tree.text? (tree.placeOf target)) = some text ∧
        tree.Writes tree' (tree.placeOf target) text := by
  cases action with
  | append text =>
    have hstore : tree.store target (fun old => old.getD "" ++ text) = .ok tree' := hperform
    obtain ⟨hwritable, hwrites⟩ := Files.Tree.writes_of_store hstore
    exact ⟨hwritable, _, rfl, hwrites⟩
  | replace text =>
    have hstore : tree.store target (fun _ => text) = .ok tree' := hperform
    obtain ⟨hwritable, hwrites⟩ := Files.Tree.writes_of_store hstore
    exact ⟨hwritable, _, rfl, hwrites⟩
  | fail reason => cases hperform

/-- The steps of a write that succeeds. -/
theorem run_eq_ok_iff :
    run view folder touched tree w = (.ok (), tree') ↔ ∃ made cleared,
      makeParent tree (w.target folder) = .ok made ∧
      (if touched.contains (Files.Path.key (w.target folder)) then .ok made
        else made.removeIfPresent (w.target folder)) = .ok cleared ∧
      perform cleared (w.target folder) (w.action view) = .ok tree' := by
  unfold run target
  generalize Files.Path.join folder w.path = path
  constructor
  · intro hrun
    cases hmake : makeParent tree path with
    | error e =>
      simp only [hmake] at hrun
      cases hrun
    | ok made =>
      simp only [hmake] at hrun
      refine ⟨made, ?_⟩
      generalize (if touched.contains (Files.Path.key path) = true then Except.ok made
        else made.removeIfPresent path) = clearing at hrun ⊢
      cases clearing with
      | error fault => cases hrun
      | ok cleared =>
        simp only at hrun
        cases hperform : perform cleared path (w.action view) with
        | error fault =>
          rw [hperform] at hrun
          cases hrun
        | ok written =>
          rw [hperform] at hrun
          cases hrun
          exact ⟨cleared, rfl, rfl, hperform⟩
  · intro hgiven
    obtain ⟨made, cleared, hmake, hclear, hperform⟩ := hgiven
    simp only [hmake, hclear, hperform]

/-- Before a write, a file that an earlier build left is removed. -/
theorem writes_of_cleared {path : Files.Path} {cleared : Files.Tree} {action : FileAction}
    {isTouched : Bool}
    (hclear : (if isTouched then .ok tree else tree.removeIfPresent path) = .ok cleared)
    (hperform : perform cleared path action = .ok tree') :
    ∃ text, action.after (if isTouched then tree.text? (tree.placeOf path) else none) = some text ∧
      tree.Writes tree' (tree.placeOf path) text ∧ tree.Writable path := by
  obtain ⟨hwritable, text, htext, hwrites⟩ := perform_eq_ok hperform
  cases isTouched with
  | true =>
    cases hclear
    exact ⟨text, htext, hwrites, hwritable⟩
  | false =>
    have hremove : tree.removeIfPresent path = .ok cleared := hclear
    have hbefore := Files.Tree.writable_of_removeIfPresent hremove hwritable
    obtain ⟨removed, hremoved, hfolder, hnode⟩ := Files.Tree.removeIfPresent_of_writable hbefore
    cases hremove.symm.trans hremoved
    have hplace : cleared.placeOf path = tree.placeOf path := by
      unfold Files.Tree.placeOf Files.Tree.startOf
      rw [hfolder]
    have hnone : cleared.text? (tree.placeOf path) = none := by
      unfold Files.Tree.text?
      rw [hnode, if_pos rfl]
    rw [hplace] at htext hwrites
    rw [hnone] at htext
    refine ⟨text, htext, ⟨hwrites.workingFolder.trans hfolder, hbefore.notFolder,
      hwrites.written, ?_⟩, hbefore⟩
    intro q hq
    have hq' := hwrites.elsewhere q hq
    rwa [hnode, if_neg hq] at hq'

/-- A write that succeeds leaves at its place what its action makes of the text that this build has
left there. -/
theorem run_eq_ok (hrun : run view folder touched tree w = (.ok (), tree')) :
    ∃ text, (w.action view).after
        (if touched.contains (Files.Path.key (w.target folder)) then
          tree.text? (tree.placeOf (w.target folder)) else none) = some text ∧
      tree.Writes tree' (tree.placeOf (w.target folder)) text ∧
      tree'.Writable (w.target folder) := by
  obtain ⟨made, cleared, hmake, hclear, hperform⟩ := run_eq_ok_iff.1 hrun
  have hadds := addsFolders_makeParent hmake
  obtain ⟨text, htext, hwrites, hwritable⟩ := writes_of_cleared hclear hperform
  have hplace := hadds.keepsFolders.placeOf (w.target folder)
  rw [hplace] at htext hwrites
  rw [hadds.text?] at htext
  refine ⟨text, htext, hadds.writes hwrites, hwritable.of_keepsFolders hwrites.keepsFolders ?_⟩
  rw [hplace, hwrites.written]
  simp

/-- A write succeeds where a file can be written whose folder needs not be made. -/
theorem exists_run_eq_ok (hmake : makeParent tree (w.target folder) = .ok tree)
    (hwritable : tree.Writable (w.target folder))
    (hreason : ∀ reason, w.action view ≠ .fail reason) :
    ∃ tree', run view folder touched tree w = (.ok (), tree') := by
  have hperform : ∀ {t : Files.Tree}, t.Writable (w.target folder) →
      ∃ t', perform t (w.target folder) (w.action view) = .ok t' := by
    intro t ht
    cases haction : w.action view with
    | append text => exact ⟨_, Files.Tree.store_of_writable ht fun old => old.getD "" ++ text⟩
    | replace text => exact ⟨_, Files.Tree.store_of_writable ht fun _ => text⟩
    | fail reason => exact absurd haction (hreason reason)
  cases htouched : touched.contains (Files.Path.key (w.target folder)) with
  | true =>
    obtain ⟨tree', hdone⟩ := hperform hwritable
    refine ⟨tree', run_eq_ok_iff.2 ⟨tree, tree, hmake, ?_, hdone⟩⟩
    rw [htouched]
    rfl
  | false =>
    obtain ⟨cleared, hremoved, hwritable'⟩ := hwritable.exists_removeIfPresent
    obtain ⟨tree', hdone⟩ := hperform hwritable'
    refine ⟨tree', run_eq_ok_iff.2 ⟨tree, cleared, hmake, ?_, hdone⟩⟩
    rw [htouched]
    exact hremoved

/-! ## A run of writes -/

theorem runAll_cons_eq_ok_iff :
    runAll view folder touched tree (w :: ws) = (.ok (), tree') ↔ ∃ tree₁,
      run view folder touched tree w = (.ok (), tree₁) ∧
      runAll view folder (Files.Path.key (w.target folder) :: touched) tree₁ ws =
        (.ok (), tree') := by
  rw [runAll]
  cases hrun : run view folder touched tree w with
  | mk outcome tree₁ =>
    cases outcome with
    | error e =>
      constructor
      · intro hfailed
        cases hfailed
      · intro hgiven
        obtain ⟨tree₂, hstep, -⟩ := hgiven
        cases hstep
    | ok _ =>
      constructor
      · intro hrest
        exact ⟨tree₁, rfl, hrest⟩
      · intro hgiven
        obtain ⟨tree₂, hstep, hrest⟩ := hgiven
        cases hstep
        exact hrest

theorem keepsFolders_runAll (hrun : runAll view folder touched tree ws = (.ok (), tree')) :
    tree.KeepsFolders tree' := by
  induction ws generalizing touched tree with
  | nil =>
    cases hrun
    exact .refl _
  | cons w ws ih =>
    obtain ⟨tree₁, hfirst, hrest⟩ := runAll_cons_eq_ok_iff.1 hrun
    obtain ⟨text, -, hwrites, -⟩ := run_eq_ok hfirst
    exact hwrites.keepsFolders.trans (ih hrest)

/-- Where there was a file there is one after the writes. -/
theorem isSome_text?_runAll (hrun : runAll view folder touched tree ws = (.ok (), tree'))
    {q : Files.Place} (hq : (tree.text? q).isSome) : (tree'.text? q).isSome := by
  induction ws generalizing touched tree with
  | nil =>
    cases hrun
    exact hq
  | cons w ws ih =>
    obtain ⟨tree₁, hfirst, hrest⟩ := runAll_cons_eq_ok_iff.1 hrun
    obtain ⟨text, -, hwrites, -⟩ := run_eq_ok hfirst
    exact ih hrest (hwrites.isSome_text? hq)

/-- A place that no write is for keeps its file. -/
theorem text?_runAll_elsewhere (hrun : runAll view folder touched tree ws = (.ok (), tree'))
    {q : Files.Place} (hq : ∀ w ∈ ws, tree.placeOf (w.target folder) ≠ q) :
    tree'.text? q = tree.text? q := by
  induction ws generalizing touched tree with
  | nil =>
    cases hrun
    rfl
  | cons w ws ih =>
    obtain ⟨tree₁, hfirst, hrest⟩ := runAll_cons_eq_ok_iff.1 hrun
    obtain ⟨text, -, hwrites, -⟩ := run_eq_ok hfirst
    have hplaces : ∀ v ∈ ws, tree₁.placeOf (v.target folder) ≠ q := by
      intro v hv
      rw [hwrites.keepsFolders.placeOf]
      exact hq v (List.mem_cons_of_mem w hv)
    rw [ih hrest hplaces]
    exact hwrites.text?_elsewhere fun heq => hq w List.mem_cons_self heq.symm

/-- The actions of the writes to a path, in their order. -/
def actionsAt (view : FinishView) (folder path : Files.Path) (ws : List PendingWrite) :
    List FileAction :=
  (ws.filter fun w => Files.Path.key (w.target folder) == Files.Path.key path).map (·.action view)

/-- What a place holds after the writes is decided by the writes to it, when they all spell its path
in one way. -/
theorem text?_runAll (hrun : runAll view folder touched tree ws = (.ok (), tree'))
    {path : Files.Path}
    (hpath : ∀ w ∈ ws, tree.placeOf (w.target folder) = tree.placeOf path →
      Files.Path.key (w.target folder) = Files.Path.key path) :
    tree'.text? (tree.placeOf path) =
      FileAction.afterAll (touched.contains (Files.Path.key path)) (tree.text? (tree.placeOf path))
        (actionsAt view folder path ws) := by
  induction ws generalizing touched tree with
  | nil =>
    cases hrun
    rfl
  | cons w ws ih =>
    obtain ⟨tree₁, hfirst, hrest⟩ := runAll_cons_eq_ok_iff.1 hrun
    obtain ⟨text, htext, hwrites, -⟩ := run_eq_ok hfirst
    have hplaces := hwrites.keepsFolders.placeOf
    have hpath₁ : ∀ v ∈ ws, tree₁.placeOf (v.target folder) = tree₁.placeOf path →
        Files.Path.key (v.target folder) = Files.Path.key path := by
      intro v hv
      rw [hplaces, hplaces]
      exact hpath v (List.mem_cons_of_mem w hv)
    have hbehind := ih hrest hpath₁
    rw [hplaces] at hbehind
    rw [hbehind]
    by_cases hkey : Files.Path.key (w.target folder) = Files.Path.key path
    · have hplace := Files.Tree.placeOf_eq_of_key hkey tree
      have hactions : actionsAt view folder path (w :: ws) =
          w.action view :: actionsAt view folder path ws := by
        simp [actionsAt, hkey]
      rw [hkey, hplace] at htext
      rw [hactions, FileAction.afterAll, htext, ← hplace, hwrites.text?_written, hkey]
      simp
    · have hplace : tree.placeOf path ≠ tree.placeOf (w.target folder) := fun heq =>
        hkey (hpath w List.mem_cons_self heq.symm)
      have hactions : actionsAt view folder path (w :: ws) = actionsAt view folder path ws := by
        simp [actionsAt, hkey]
      have htouched : (Files.Path.key (w.target folder) :: touched).contains (Files.Path.key path) =
          touched.contains (Files.Path.key path) := by
        rw [List.contains_cons]
        have hne : (Files.Path.key path == Files.Path.key (w.target folder)) = false := by
          simpa using fun heq => hkey heq.symm
        rw [hne, Bool.false_or]
      rw [hactions, htouched, hwrites.text?_elsewhere hplace]

/-! ## Writes that have been made before -/

/-- A file stands at the path of a write, and the folder above it needs not be made. -/
structure Made (tree : Files.Tree) (folder : Files.Path) (w : PendingWrite) : Prop where
  writable : tree.Writable (w.target folder)
  file : (tree.text? (tree.placeOf (w.target folder))).isSome

theorem Made.of_keepsFolders (h : Made tree folder w) (hkeeps : tree.KeepsFolders tree')
    (hfile : (tree'.text? (tree.placeOf (w.target folder))).isSome) : Made tree' folder w := by
  refine ⟨h.writable.of_keepsFolders hkeeps (Files.Tree.notFolder_of_text? hfile), ?_⟩
  rwa [hkeeps.placeOf]

/-- After the writes all of them are made. -/
theorem made_runAll (hrun : runAll view folder touched tree ws = (.ok (), tree')) :
    ∀ w ∈ ws, Made tree' folder w := by
  induction ws generalizing touched tree with
  | nil =>
    intro w hw
    cases hw
  | cons v ws ih =>
    obtain ⟨tree₁, hfirst, hrest⟩ := runAll_cons_eq_ok_iff.1 hrun
    intro w hw
    rcases List.mem_cons.1 hw with rfl | hw
    · obtain ⟨text, -, hwrites, hwritable⟩ := run_eq_ok hfirst
      have hfile : (tree₁.text? (tree₁.placeOf (w.target folder))).isSome := by
        rw [hwrites.keepsFolders.placeOf, hwrites.text?_written]
        rfl
      exact Made.of_keepsFolders ⟨hwritable, hfile⟩ (keepsFolders_runAll hrest)
        (isSome_text?_runAll hrest hfile)
    · exact ih hrest w hw

/-- Writes that have been made before, and cannot fail by themselves, succeed. -/
theorem exists_runAll_of_made (hmade : ∀ w ∈ ws, Made tree folder w)
    (hmake : ∀ w ∈ ws, ∀ t : Files.Tree, t.Writable (w.target folder) →
      makeParent t (w.target folder) = .ok t)
    (hreason : ∀ w ∈ ws, ∀ reason, w.action view ≠ .fail reason) :
    ∃ tree', runAll view folder touched tree ws = (.ok (), tree') := by
  induction ws generalizing touched tree with
  | nil => exact ⟨tree, rfl⟩
  | cons w ws ih =>
    have hw := hmade w List.mem_cons_self
    obtain ⟨tree₁, hfirst⟩ := @exists_run_eq_ok view folder touched tree w
      (hmake w List.mem_cons_self tree hw.writable) hw.writable (hreason w List.mem_cons_self)
    obtain ⟨text, -, hwrites, -⟩ := run_eq_ok hfirst
    have hmade₁ : ∀ v ∈ ws, Made tree₁ folder v := by
      intro v hv
      have hv' := hmade v (List.mem_cons_of_mem w hv)
      exact hv'.of_keepsFolders hwrites.keepsFolders (hwrites.isSome_text? hv'.file)
    obtain ⟨tree', hrest⟩ := ih hmade₁ (fun v hv => hmake v (List.mem_cons_of_mem w hv))
      (fun v hv => hreason v (List.mem_cons_of_mem w hv))
    exact ⟨tree', runAll_cons_eq_ok_iff.2 ⟨tree₁, hfirst, hrest⟩⟩

/-- The folder of a path below folders exists already where the file can be written. -/
theorem makeParent_child {p : Files.Path} {last n : String} (hp : p ≠ "")
    (hlast : Files.Path.IsName last) (hn : Files.Path.IsName n)
    (hwritable : tree.Writable (Files.Path.child (Files.Path.child p last) n)) :
    makeParent tree (Files.Path.child (Files.Path.child p last) n) = .ok tree := by
  have hfolder := Files.Path.child_ne_empty p last
  obtain ⟨above, name, reached, hsegments, -, -, hwalk, -⟩ :=
    Files.Tree.locate_eq_ok_some_iff.1 hwritable.located
  rw [Files.Path.segments_child hfolder hn] at hsegments
  obtain ⟨rfl, -⟩ := List.append_inj' hsegments rfl
  have hstart : tree.startOf (Files.Path.child (Files.Path.child p last) n) =
      tree.startOf (Files.Path.child p last) := by
    unfold Files.Tree.startOf
    rw [Files.Path.isAbsolute_child hfolder]
  rw [hstart] at hwalk
  unfold makeParent
  rw [Files.Path.parent?_child hp hn hlast]
  simp only [Files.Tree.makeFolders_of_walk hwalk]
  rfl

end PendingWrite

end BuildAhead
