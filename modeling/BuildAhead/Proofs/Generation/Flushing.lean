import BuildAhead.Proofs.Generation.Writing

set_option autoImplicit false

/-!
# Generation: whose actions a flush carries out

The run of the deferred writes, written down once more so that a write is noted when its action is
carried out. A write can fail before that, when the folder above its file cannot be made or a file
of an earlier build cannot be removed. Actions are carried out in the order of the queue, each once,
and none behind the first write that fails. That an action is carried out shows in the files: its
text is at its place afterwards, or the write fails for the reason that the action gives.
-/

namespace BuildAhead

namespace PendingWrite

/-- `PendingWrite.run`, with the write noted when its action is carried out. -/
@[irreducible] def notedRun (view : FinishView) (folder : Files.Path)
    (touched : List (Bool × List String)) (tree : Files.Tree) (w : PendingWrite) :
    (Except BuildError Unit × Files.Tree) × List PendingWrite :=
  let target := Files.Path.join folder w.path
  match makeParent tree target with
  | .error e => ((.error e, tree), [])
  | .ok tree =>
    let cleared :=
      if touched.contains (Files.Path.key target) then .ok tree
      else tree.removeIfPresent target
    match cleared with
    | .error fault => ((.error (.resourceWrite target fault.message), tree), [])
    | .ok tree =>
      match perform tree target (w.action view) with
      | .error fault => ((.error (.resourceWrite target fault.message), tree), [w])
      | .ok tree => ((.ok (), tree), [w])

/-- `PendingWrite.runAll`, with the writes noted whose actions are carried out. -/
def notedRunAll (view : FinishView) (folder : Files.Path) (touched : List (Bool × List String))
    (tree : Files.Tree) :
    List PendingWrite → (Except BuildError Unit × Files.Tree) × List PendingWrite
  | [] => ((.ok (), tree), [])
  | w :: rest =>
    match notedRun view folder touched tree w with
    | ((.error e, tree), noted) => ((.error e, tree), noted)
    | ((.ok (), tree), noted) =>
      let (ended, later) :=
        notedRunAll view folder (Files.Path.key (Files.Path.join folder w.path) :: touched) tree
          rest
      (ended, noted ++ later)

section Notes

variable (view : FinishView) (folder : Files.Path) (touched : List (Bool × List String))
  (tree : Files.Tree) (w : PendingWrite) (ws : List PendingWrite)

theorem notedRun_fst :
    (notedRun view folder touched tree w).1 = run view folder touched tree w := by
  unfold notedRun run
  generalize Files.Path.join folder w.path = path
  cases hmake : makeParent tree path with
  | error e => simp only [hmake]
  | ok made =>
    simp only [hmake]
    generalize (if touched.contains (Files.Path.key path) = true then Except.ok made
      else made.removeIfPresent path) = clearing
    cases clearing with
    | error fault => rfl
    | ok cleared =>
      simp only
      cases hperform : perform cleared path (w.action view) <;> rfl

theorem notedRunAll_fst :
    (notedRunAll view folder touched tree ws).1 = runAll view folder touched tree ws := by
  induction ws generalizing touched tree with
  | nil => rfl
  | cons w rest ih =>
    rw [notedRunAll, runAll, ← notedRun_fst]
    rcases notedRun view folder touched tree w with ⟨⟨e | ⟨⟩, made⟩, noted⟩
    · rfl
    · exact ih _ made

end Notes

/-! ## One write -/

/-- The files that the action of a write finds: the folder above its own is made, and a file that an
earlier build left there is removed. -/
def Finds (folder : Files.Path) (touched : List (Bool × List String)) (tree : Files.Tree)
    (w : PendingWrite) (found : Files.Tree) : Prop :=
  ∃ made, makeParent tree (w.target folder) = .ok made ∧
    (if touched.contains (Files.Path.key (w.target folder)) then .ok made
      else made.removeIfPresent (w.target folder)) = .ok found

/-- How a write goes: the folder above its file cannot be made, a file that an earlier build left
cannot be removed, or its action is performed on the files that it finds. The list holds the write
when it came to its action. -/
inductive Goes (view : FinishView) (folder : Files.Path) (touched : List (Bool × List String))
    (tree : Files.Tree) (w : PendingWrite) :
    Except BuildError Unit × Files.Tree → List PendingWrite → Prop where
  | folderAbove {e : BuildError} (unmade : makeParent tree (w.target folder) = .error e) :
      Goes view folder touched tree w (.error e, tree) []
  | earlierFile {made : Files.Tree} {fault : Files.Fault}
      (above : makeParent tree (w.target folder) = .ok made)
      (untouched : touched.contains (Files.Path.key (w.target folder)) = false)
      (kept : made.removeIfPresent (w.target folder) = .error fault) :
      Goes view folder touched tree w
        (.error (.resourceWrite (w.target folder) fault.message), made) []
  | failed {found : Files.Tree} {fault : Files.Fault}
      (finds : Finds folder touched tree w found)
      (fails : perform found (w.target folder) (w.action view) = .error fault) :
      Goes view folder touched tree w
        (.error (.resourceWrite (w.target folder) fault.message), found) [w]
  | done {found written : Files.Tree} (finds : Finds folder touched tree w found)
      (performs : perform found (w.target folder) (w.action view) = .ok written) :
      Goes view folder touched tree w (.ok (), written) [w]

theorem goes_notedRun (view : FinishView) (folder : Files.Path)
    (touched : List (Bool × List String)) (tree : Files.Tree) (w : PendingWrite) :
    Goes view folder touched tree w (notedRun view folder touched tree w).1
      (notedRun view folder touched tree w).2 := by
  have htarget : Files.Path.join folder w.path = w.target folder := rfl
  unfold notedRun
  rw [htarget]
  cases hmake : makeParent tree (w.target folder) with
  | error e =>
    simp only [hmake]
    exact .folderAbove hmake
  | ok made =>
    simp only [hmake]
    cases hclear : (if touched.contains (Files.Path.key (w.target folder)) = true then
        Except.ok made else made.removeIfPresent (w.target folder)) with
    | error fault =>
      cases htouched : touched.contains (Files.Path.key (w.target folder)) with
      | true =>
        rw [htouched] at hclear
        cases hclear
      | false =>
        rw [htouched] at hclear
        exact .earlierFile hmake htouched hclear
    | ok found =>
      simp only
      cases hperform : perform found (w.target folder) (w.action view) with
      | error fault => exact .failed ⟨made, hmake, hclear⟩ hperform
      | ok written => exact .done ⟨made, hmake, hclear⟩ hperform

/-! ## What an action does to the files -/

/-- Writes that were carried out in order, with the files before and behind them. Each makes its
text of what this build has left at its place, and leaves everything else. -/
inductive CarriesOut (view : FinishView) (folder : Files.Path) :
    List (Bool × List String) → Files.Tree → List PendingWrite → Files.Tree → Prop where
  | nil {touched : List (Bool × List String)} {tree : Files.Tree} :
      CarriesOut view folder touched tree [] tree
  | cons {touched : List (Bool × List String)} {tree tree₁ tree' : Files.Tree} {w : PendingWrite}
      {ws : List PendingWrite} {text : String}
      (makes : (w.action view).after
        (if touched.contains (Files.Path.key (w.target folder)) then
          tree.text? (tree.placeOf (w.target folder)) else none) = some text)
      (writes : tree.Writes tree₁ (tree.placeOf (w.target folder)) text)
      (rest : CarriesOut view folder (Files.Path.key (w.target folder) :: touched) tree₁ ws tree') :
      CarriesOut view folder touched tree (w :: ws) tree'

/-- How a write fails: before its action, or with it. The list holds the write when its action was
carried out. -/
inductive FailsWith (view : FinishView) (folder : Files.Path) (touched : List (Bool × List String))
    (tree : Files.Tree) (w : PendingWrite) : BuildError → List PendingWrite → Prop where
  | folderAbove {e : BuildError} (unmade : makeParent tree (w.target folder) = .error e) :
      FailsWith view folder touched tree w e []
  | earlierFile {made : Files.Tree} {fault : Files.Fault}
      (above : makeParent tree (w.target folder) = .ok made)
      (untouched : touched.contains (Files.Path.key (w.target folder)) = false)
      (kept : made.removeIfPresent (w.target folder) = .error fault) :
      FailsWith view folder touched tree w (.resourceWrite (w.target folder) fault.message) []
  | byItself {found : Files.Tree} {reason : String} (finds : Finds folder touched tree w found)
      (gives : w.action view = .fail reason) :
      FailsWith view folder touched tree w (.resourceWrite (w.target folder) reason) [w]
  | notWritable {found : Files.Tree} {fault : Files.Fault}
      (finds : Finds folder touched tree w found)
      (tries : ∀ reason, w.action view ≠ .fail reason)
      (unwritable : ¬ found.Writable (w.target folder)) :
      FailsWith view folder touched tree w (.resourceWrite (w.target folder) fault.message) [w]

section Steps

variable {view : FinishView} {folder : Files.Path} {touched : List (Bool × List String)}
  {tree tree' : Files.Tree} {w : PendingWrite} {noted : List PendingWrite} {e : BuildError}

/-- The action of a write that succeeds was carried out. -/
theorem notedRun_eq_ok (h : notedRun view folder touched tree w = ((.ok (), tree'), noted)) :
    noted = [w] := by
  have hgoes := goes_notedRun view folder touched tree w
  rw [h] at hgoes
  cases hgoes with
  | done _ _ => rfl

/-- An action fails by its own reason, or because no file can be written at its path. -/
theorem failsWith_of_perform {found : Files.Tree} {fault : Files.Fault}
    (hfinds : Finds folder touched tree w found)
    (hperform : perform found (w.target folder) (w.action view) = .error fault) :
    FailsWith view folder touched tree w (.resourceWrite (w.target folder) fault.message) [w] := by
  have hstore : ∀ f, found.store (w.target folder) f = .error fault →
      ¬ found.Writable (w.target folder) := by
    intro f hfailed hwritable
    rw [Files.Tree.store_of_writable hwritable f] at hfailed
    cases hfailed
  cases haction : w.action view with
  | append text =>
    rw [haction] at hperform
    exact .notWritable hfinds (by simp [haction]) (hstore (fun old => old.getD "" ++ text) hperform)
  | replace text =>
    rw [haction] at hperform
    exact .notWritable hfinds (by simp [haction]) (hstore (fun _ => text) hperform)
  | fail reason =>
    rw [haction] at hperform
    cases hperform
    exact .byItself hfinds haction

/-- A file that an earlier build left is removed from its own place only. -/
theorem text?_of_cleared {path : Files.Path} {isTouched : Bool} {cleared : Files.Tree}
    (hclear : (if isTouched then .ok tree else tree.removeIfPresent path) = .ok cleared)
    {q : Files.Place} (hq : q ≠ tree.placeOf path) : cleared.text? q = tree.text? q := by
  cases isTouched with
  | true =>
    cases hclear
    rfl
  | false =>
    unfold Files.Tree.text?
    rw [Files.Tree.node?_of_removeIfPresent hclear hq]

/-- A write that fails does so before its action or with it, and other files are as they were. -/
theorem notedRun_eq_error (h : notedRun view folder touched tree w = ((.error e, tree'), noted)) :
    FailsWith view folder touched tree w e noted ∧
      ∀ q, q ≠ tree.placeOf (w.target folder) → tree'.text? q = tree.text? q := by
  have hgoes := goes_notedRun view folder touched tree w
  rw [h] at hgoes
  cases hgoes with
  | folderAbove unmade => exact ⟨.folderAbove unmade, fun q _ => rfl⟩
  | earlierFile above untouched kept =>
    exact ⟨.earlierFile above untouched kept, fun q _ => (addsFolders_makeParent above).text? q⟩
  | failed finds fails =>
    refine ⟨failsWith_of_perform finds fails, fun q hq => ?_⟩
    obtain ⟨made, hmake, hclear⟩ := finds
    have hadds := addsFolders_makeParent hmake
    have hplace := hadds.keepsFolders.placeOf (w.target folder)
    rw [text?_of_cleared hclear (hplace ▸ hq), hadds.text?]

end Steps

/-! ## A run of writes -/

/-- The paths that a build has written to after further writes. -/
def touchedAfter (folder : Files.Path) :
    List (Bool × List String) → List PendingWrite → List (Bool × List String)
  | touched, [] => touched
  | touched, w :: ws => touchedAfter folder (Files.Path.key (w.target folder) :: touched) ws

/-- How a run of queued writes ends, with the files that it leaves, and the writes whose actions it
carried out: the first write that fails is the last that was tried. -/
structure Stops (view : FinishView) (folder : Files.Path) (touched : List (Bool × List String))
    (tree : Files.Tree) (ws : List PendingWrite) (ended : Except BuildError Unit × Files.Tree)
    (invoked : List PendingWrite) : Prop where
  all : ended.1 = .ok () → invoked = ws ∧ CarriesOut view folder touched tree ws ended.2
  upTo : ∀ e, ended.1 = .error e → ∃ done w rest made tried, ws = done ++ w :: rest ∧
    invoked = done ++ tried ∧ CarriesOut view folder touched tree done made ∧
    FailsWith view folder (touchedAfter folder touched done) made w e tried ∧
    ∀ q, q ≠ made.placeOf (w.target folder) → ended.2.text? q = made.text? q

/-- Actions are carried out in the order of the queue, up to the first write that fails. -/
theorem stops_notedRunAll (view : FinishView) (folder : Files.Path)
    (touched : List (Bool × List String)) (tree : Files.Tree) (ws : List PendingWrite) :
    Stops view folder touched tree ws (notedRunAll view folder touched tree ws).1
      (notedRunAll view folder touched tree ws).2 := by
  induction ws generalizing touched tree with
  | nil =>
    refine ⟨fun _ => ⟨rfl, .nil⟩, ?_⟩
    intro e he
    cases he
  | cons w rest ih =>
    rw [notedRunAll]
    rcases hnoted : notedRun view folder touched tree w with ⟨⟨e | ⟨⟩, made⟩, noted⟩
    · obtain ⟨hfails, helsewhere⟩ := notedRun_eq_error hnoted
      refine ⟨fun h => (by cases h), ?_⟩
      intro e' he'
      cases he'
      exact ⟨[], w, rest, tree, noted, rfl, rfl, .nil, hfails, helsewhere⟩
    · have hrun : run view folder touched tree w = (.ok (), made) := by
        rw [← notedRun_fst, hnoted]
      obtain ⟨text, htext, hwrites, -⟩ := run_eq_ok hrun
      obtain rfl := notedRun_eq_ok hnoted
      obtain ⟨hall, hupTo⟩ := ih (Files.Path.key (w.target folder) :: touched) made
      refine ⟨?_, ?_⟩
      · intro hok
        obtain ⟨hinvoked, hcarries⟩ := hall hok
        exact ⟨congrArg (w :: ·) hinvoked, .cons htext hwrites hcarries⟩
      · intro e he
        obtain ⟨done, failing, later, made', tried, rfl, hinvoked, hcarries, hfails, helsewhere⟩ :=
          hupTo e he
        exact ⟨w :: done, failing, later, made', tried, rfl, congrArg (w :: ·) hinvoked,
          .cons htext hwrites hcarries, hfails, helsewhere⟩

/-- A write that fails is noted once or not at all. -/
theorem FailsWith.prefix_singleton {view : FinishView} {folder : Files.Path}
    {touched : List (Bool × List String)} {tree : Files.Tree} {w : PendingWrite} {e : BuildError}
    {tried : List PendingWrite} (h : FailsWith view folder touched tree w e tried) :
    tried <+: [w] := by
  cases h with
  | folderAbove _ | earlierFile _ _ _ => exact List.nil_prefix
  | byItself _ _ | notWritable _ _ _ => exact List.prefix_rfl

/-- What was carried out stands at the front of the queue. -/
theorem Stops.invoked_prefix {view : FinishView} {folder : Files.Path}
    {touched : List (Bool × List String)} {tree : Files.Tree} {ws invoked : List PendingWrite}
    {ended : Except BuildError Unit × Files.Tree}
    (h : Stops view folder touched tree ws ended invoked) : invoked <+: ws := by
  cases houtcome : ended.1 with
  | ok _ =>
    obtain ⟨rfl, -⟩ := h.all houtcome
    exact List.prefix_rfl
  | error e =>
    obtain ⟨done, w, rest, made, tried, rfl, rfl, -, hfails, -⟩ := h.upTo e houtcome
    exact (List.prefix_append_right_inj done).2
      (hfails.prefix_singleton.trans (List.prefix_append [w] rest))

end PendingWrite

/-- `Context.finish`, with the writes noted whose actions are carried out. -/
def Context.notedFinish (c : Context) (folder : Files.Path) (tree : Files.Tree) :
    (Except BuildError Unit × Context × Files.Tree) × List PendingWrite :=
  if c.finished then ((.error .alreadyFinished, c, tree), [])
  else
    let ((outcome, tree), invoked) := PendingWrite.notedRunAll c.view folder [] tree c.pending
    ((outcome, { c with pending := [], finished := true }, tree), invoked)

theorem Context.notedFinish_fst (c : Context) (folder : Files.Path) (tree : Files.Tree) :
    (c.notedFinish folder tree).1 = c.finish folder tree := by
  unfold Context.notedFinish Context.finish
  rw [← PendingWrite.notedRunAll_fst]
  split <;> rfl

end BuildAhead
