import BuildAhead.Proofs.Generation.Running
import BuildAhead.Proofs.Generation.Writing

set_option autoImplicit false

/-!
# Generation: service manifests

Calls for the manifests of services, in any order and for any services, and what the manifests hold
when the deferred writes have been run. Each manifest holds the lines of its own calls from the last
one that overwrote it on, whatever an earlier build left there; so the same calls, made for the same
folder by a later build, leave the same files.
-/

namespace BuildAhead

/-- A call that leaves a line in the manifest of a service. -/
inductive ManifestCall where
  /-- one more line -/
  | register (service name : String)
  /-- this line alone -/
  | overwrite (service name : String)
  deriving DecidableEq, Repr, Inhabited

namespace ManifestCall

def service : ManifestCall → String
  | register service _ => service
  | overwrite service _ => service

def name : ManifestCall → String
  | register _ name => name
  | overwrite _ name => name

def overwrites : ManifestCall → Bool
  | register _ _ => false
  | overwrite _ _ => true

/-- Makes a call on the context. -/
def perform : ManifestCall → Generation Unit
  | register service name => Generation.registerServiceImplementation service name
  | overwrite service name => Generation.writeServiceManifest service name

/-- Makes calls on the context, in their order. -/
def performAll : List ManifestCall → Generation Unit
  | [] => pure ()
  | call :: rest => do
    call.perform
    performAll rest

/-- The line that a call leaves. -/
def line (space : String) (call : ManifestCall) : String :=
  Generation.manifestLine space call.name

/-- The last call that overwrites and the calls behind it; all calls when none overwrites. -/
def fromLastOverwrite : List ManifestCall → List ManifestCall
  | [] => []
  | call :: rest => if rest.any overwrites then fromLastOverwrite rest else call :: rest

/-- What the manifest of a service holds behind calls: the lines of the calls for this service, from
the last one that overwrites on. -/
def manifestText (space service : String) (calls : List ManifestCall) : String :=
  String.join ((fromLastOverwrite (calls.filter (·.service == service))).map (line space))

/-- When no call behind the first overwrites, all calls count. -/
theorem fromLastOverwrite_of_tail {calls : List ManifestCall}
    (h : calls.tail.any overwrites = false) : fromLastOverwrite calls = calls := by
  cases calls with
  | nil => rfl
  | cons call rest =>
    rw [List.tail_cons] at h
    rw [fromLastOverwrite, h]
    rfl

example :
    manifestText "gen" "A" [.register "A" "X", .register "B" "W", .overwrite "A" "Y",
      .register "A" "Z"] = "gen.Y\ngen.Z\n" := by
  decide +kernel

/-- The path of the manifest of a service, below a folder. -/
def manifestPath (folder : Files.Path) (service : String) : Files.Path :=
  Files.Path.join folder (Names.serviceManifest service)

/-! ## The writes that calls leave behind -/

/-- What the write of a call does to its file. -/
def action (space : String) (call : ManifestCall) : FileAction :=
  if call.overwrites then .replace (call.line space) else .append (call.line space)

/-- The write that a call queues. -/
def write (space : String) (call : ManifestCall) : PendingWrite :=
  ⟨Names.serviceManifest call.service, fun _ => call.action space⟩

variable {c : Context} {calls : List ManifestCall} {space service : String}

theorem runOn_perform (hopen : c.finished = false) (call : ManifestCall) :
    call.perform.runOn c = (.ok (), { c with pending := c.pending ++ [call.write c.space] }) := by
  cases call with
  | register service name =>
    refine (Generation.runOn_registerServiceImplementation service name c).trans ?_
    rw [hopen]
    rfl
  | overwrite service name =>
    refine (Generation.runOn_writeServiceManifest service name c).trans ?_
    rw [hopen]
    rfl

/-- On an open context calls succeed, and each of them queues its write. -/
theorem runOn_performAll (hopen : c.finished = false) (calls : List ManifestCall) :
    (performAll calls).runOn c =
      (.ok (), { c with pending := c.pending ++ calls.map (write c.space) }) := by
  induction calls generalizing c with
  | nil => simp [performAll]
  | cons call rest ih =>
    rw [performAll, Generation.runOn_bind, runOn_perform hopen]
    refine (ih (c := { c with pending := c.pending ++ [call.write c.space] }) hopen).trans ?_
    simp

theorem exists_runOn_performAll (hopen : c.finished = false) (calls : List ManifestCall) :
    ∃ c₁, (performAll calls).runOn c = (.ok (), c₁) ∧ c₁.finished = false ∧
      c₁.pending = c.pending ++ calls.map (write c.space) :=
  ⟨_, runOn_performAll hopen calls, hopen, rfl⟩

/-! ## What the writes to one manifest leave -/

/-- Behind a text that this build has left, the lines of the calls follow, unless a call
overwrites. -/
theorem afterAll_of_touched (old : String) (calls : List ManifestCall) :
    FileAction.afterAll true (some old) (calls.map (action space)) =
      some (if calls.any overwrites then String.join ((fromLastOverwrite calls).map (line space))
        else old ++ String.join (calls.map (line space))) := by
  induction calls generalizing old with
  | nil => simp [FileAction.afterAll]
  | cons call rest ih =>
    have hafter : (call.action space).after (some old) =
        some (if call.overwrites then call.line space else old ++ call.line space) := by
      unfold action
      split <;> rfl
    rw [List.map_cons, FileAction.afterAll, if_pos rfl, hafter, ih]
    cases hrest : rest.any overwrites with
    | true => simp [fromLastOverwrite, hrest]
    | false =>
      cases hcall : call.overwrites with
      | true => simp [fromLastOverwrite, hrest, hcall, String.join_cons]
      | false => simp [hrest, hcall, String.join_cons, String.append_assoc]

/-- What an earlier build left does not show behind the calls of this one. -/
theorem afterAll_of_untouched (hcalls : calls ≠ []) (old : Option String) :
    FileAction.afterAll false old (calls.map (action space)) =
      some (String.join ((fromLastOverwrite calls).map (line space))) := by
  cases calls with
  | nil => exact absurd rfl hcalls
  | cons call rest =>
    have hafter : (call.action space).after none = some (call.line space) := by
      unfold action
      split
      · rfl
      · simp [FileAction.after]
    rw [List.map_cons, FileAction.afterAll, if_neg Bool.false_ne_true, hafter, afterAll_of_touched]
    cases hrest : rest.any overwrites with
    | true => simp [fromLastOverwrite, hrest]
    | false => simp [fromLastOverwrite, hrest, String.join_cons]

/-! ## The places of manifests -/

variable {folder : Files.Path} {tree tree' : Files.Tree} {view : FinishView}
  {earlier : List PendingWrite}

/-- The folder of the manifests. -/
theorem manifestPath_eq_child (folder : Files.Path) (service : String) :
    manifestPath folder service =
      Files.Path.child (Files.Path.child (Files.Path.join folder "META-INF") "services")
        service := by
  have hname : Names.serviceManifest service =
      Files.Path.child (Files.Path.child "META-INF" "services") service := by
    apply String.toList_injective
    unfold Names.serviceManifest Files.Path.child
    simp [String.toList_append]
  unfold manifestPath
  rw [hname, Files.Path.join_child (Files.Path.child_ne_empty _ _),
    Files.Path.join_child (by decide)]

/-- The manifests of different services lie at different places. -/
theorem service_eq_of_placeOf {other : String} (hservice : Files.Path.IsName service)
    (hother : Files.Path.IsName other)
    (hplace : tree.placeOf (manifestPath folder service) =
      tree.placeOf (manifestPath folder other)) : service = other := by
  have hfolder := Files.Path.child_ne_empty (Files.Path.join folder "META-INF") "services"
  rw [manifestPath_eq_child, manifestPath_eq_child, Files.Tree.placeOf_child hfolder hservice,
    Files.Tree.placeOf_child hfolder hother] at hplace
  simpa using hplace

/-- The calls for a service are those whose writes are for its manifest. -/
theorem actionsAt_map_write (hcalls : ∀ call ∈ calls, Files.Path.IsName call.service)
    (hservice : Files.Path.IsName service) :
    PendingWrite.actionsAt view folder (manifestPath folder service) (calls.map (write space)) =
      (calls.filter (·.service == service)).map (action space) := by
  unfold PendingWrite.actionsAt
  rw [List.filter_map, List.map_map]
  have hhits : ∀ call ∈ calls,
      (Files.Path.key ((call.write space).target folder) ==
        Files.Path.key (manifestPath folder service)) = (call.service == service) := by
    intro call hcall
    by_cases heq : call.service = service
    · subst heq
      simp [write, PendingWrite.target, manifestPath]
    · have hkey : Files.Path.key (manifestPath folder call.service) ≠
          Files.Path.key (manifestPath folder service) := fun hkey =>
        heq (service_eq_of_placeOf (hcalls call hcall) hservice
          (Files.Tree.placeOf_eq_of_key hkey (default : Files.Tree)))
      exact (beq_eq_false_iff_ne.2 hkey).trans (beq_eq_false_iff_ne.2 heq).symm
  exact congrArg (List.map (action space)) (List.filter_congr hhits)

/-- Writes of other paths than the manifest of a service do nothing there. -/
theorem actionsAt_eq_nil
    (helsewhere : ∀ w ∈ earlier,
      tree.placeOf (w.target folder) ≠ tree.placeOf (manifestPath folder service)) :
    PendingWrite.actionsAt view folder (manifestPath folder service) earlier = [] := by
  unfold PendingWrite.actionsAt
  rw [List.map_eq_nil_iff, List.filter_eq_nil_iff]
  intro w hw hkey
  exact helsewhere w hw (Files.Tree.placeOf_eq_of_key (eq_of_beq hkey) tree)

/-! ## The manifests behind a run -/

/-- The names are plain file names, and the writes queued before are for other files. -/
structure Suits (tree : Files.Tree) (folder : Files.Path) (earlier : List PendingWrite)
    (calls : List ManifestCall) : Prop where
  isName : ∀ call ∈ calls, Files.Path.IsName call.service
  elsewhere : ∀ w ∈ earlier, ∀ call ∈ calls,
    tree.placeOf (w.target folder) ≠ tree.placeOf (manifestPath folder call.service)

/-- Each called manifest holds the lines of its calls, and the files that no call and no earlier
write is for are as they were. -/
structure HoldsManifests (tree tree' : Files.Tree) (folder : Files.Path) (space : String)
    (earlier : List PendingWrite) (calls : List ManifestCall) : Prop where
  manifest : ∀ call ∈ calls, tree'.read (manifestPath folder call.service) =
    .ok (manifestText space call.service calls)
  others : ∀ place,
    (∀ w ∈ earlier, tree.placeOf (w.target folder) ≠ place) →
    (∀ call ∈ calls, tree.placeOf (manifestPath folder call.service) ≠ place) →
    tree'.text? place = tree.text? place

/-- A manifest that was called for holds the lines of its calls. -/
theorem text?_manifest (hsuits : Suits tree folder earlier calls)
    (hrun : PendingWrite.runAll view folder [] tree (earlier ++ calls.map (write space)) =
      (.ok (), tree')) {call : ManifestCall} (hcall : call ∈ calls) :
    tree'.text? (tree.placeOf (manifestPath folder call.service)) =
      some (manifestText space call.service calls) := by
  have hservice := hsuits.isName call hcall
  have hpath : ∀ w ∈ earlier ++ calls.map (write space),
      tree.placeOf (w.target folder) = tree.placeOf (manifestPath folder call.service) →
      Files.Path.key (w.target folder) = Files.Path.key (manifestPath folder call.service) := by
    intro w hw hplace
    rcases List.mem_append.1 hw with hearlier | hwrite
    · exact absurd hplace (hsuits.elsewhere w hearlier call hcall)
    · obtain ⟨other, hother, rfl⟩ := List.mem_map.1 hwrite
      have heq : other.service = call.service :=
        service_eq_of_placeOf (hsuits.isName other hother) hservice hplace
      unfold PendingWrite.target write manifestPath
      rw [heq]
  have hactions : PendingWrite.actionsAt view folder (manifestPath folder call.service)
      (earlier ++ calls.map (write space)) =
        (calls.filter (·.service == call.service)).map (action space) := by
    have hearlier : PendingWrite.actionsAt view folder (manifestPath folder call.service) earlier =
        [] := actionsAt_eq_nil fun w hw => hsuits.elsewhere w hw call hcall
    have hcalls : PendingWrite.actionsAt view folder (manifestPath folder call.service)
        (calls.map (write space)) =
          (calls.filter (·.service == call.service)).map (action space) :=
      actionsAt_map_write hsuits.isName hservice
    unfold PendingWrite.actionsAt at hearlier hcalls ⊢
    rw [List.filter_append, List.map_append, hearlier, hcalls, List.nil_append]
  have hne : calls.filter (·.service == call.service) ≠ [] := by
    intro hnil
    have hout := List.filter_eq_nil_iff.1 hnil call hcall
    simp at hout
  rw [PendingWrite.text?_runAll hrun hpath, hactions]
  exact afterAll_of_untouched hne _

theorem holdsManifests_of_runAll (hsuits : Suits tree folder earlier calls)
    (hrun : PendingWrite.runAll view folder [] tree (earlier ++ calls.map (write space)) =
      (.ok (), tree')) : HoldsManifests tree tree' folder space earlier calls := by
  refine ⟨?_, ?_⟩
  · intro call hcall
    have hmember : call.write space ∈ earlier ++ calls.map (write space) :=
      List.mem_append_right _ (List.mem_map_of_mem hcall)
    have hmade := PendingWrite.made_runAll hrun _ hmember
    refine Files.Tree.read_of_writable hmade.writable ?_
    have hplace := (PendingWrite.keepsFolders_runAll hrun).placeOf
      (manifestPath folder call.service)
    exact (congrArg tree'.text? hplace).trans (text?_manifest hsuits hrun hcall)
  · intro place hearlier hcalls
    refine PendingWrite.text?_runAll_elsewhere hrun ?_
    intro w hw
    rcases List.mem_append.1 hw with hw | hw
    · exact hearlier w hw
    · obtain ⟨call, hcall, rfl⟩ := List.mem_map.1 hw
      exact hcalls call hcall

/-- The writes of calls that have been run can be run again. -/
theorem exists_runAll_again (hsuits : Suits tree folder earlier calls)
    (hrun : PendingWrite.runAll view folder [] tree (earlier ++ calls.map (write space)) =
      (.ok (), tree')) (view' : FinishView) :
    ∃ tree'', PendingWrite.runAll view' folder [] tree' (calls.map (write space)) =
      (.ok (), tree'') := by
  refine PendingWrite.exists_runAll_of_made ?_ ?_ ?_
  · intro w hw
    exact PendingWrite.made_runAll hrun w (List.mem_append_right _ hw)
  · intro w hw t hwritable
    obtain ⟨call, hcall, rfl⟩ := List.mem_map.1 hw
    have htarget : (call.write space).target folder =
        Files.Path.child (Files.Path.child (Files.Path.join folder "META-INF") "services")
          call.service := manifestPath_eq_child folder call.service
    rw [htarget] at hwritable ⊢
    exact PendingWrite.makeParent_child (Files.Path.join_ne_empty (by decide))
      ⟨by decide, by decide, by decide, by decide⟩ (hsuits.isName call hcall) hwritable
  · intro w hw reason
    obtain ⟨call, hcall, rfl⟩ := List.mem_map.1 hw
    unfold write action
    split
    · simp
    · simp

/-- A second run of the calls leaves every file as the first one left it. -/
theorem text?_again {tree'' : Files.Tree} (hsuits : Suits tree folder earlier calls)
    (hrun : PendingWrite.runAll view folder [] tree (earlier ++ calls.map (write space)) =
      (.ok (), tree')) {view' : FinishView}
    (hagain : PendingWrite.runAll view' folder [] tree' (calls.map (write space)) = (.ok (), tree''))
    (place : Files.Place) : tree''.text? place = tree'.text? place := by
  have hplaces := (PendingWrite.keepsFolders_runAll hrun).placeOf
  have hsuits' : Suits tree' folder [] calls := ⟨hsuits.isName, by simp⟩
  by_cases hcalled : ∃ call ∈ calls, tree.placeOf (manifestPath folder call.service) = place
  · obtain ⟨call, hcall, rfl⟩ := hcalled
    have hsecond := text?_manifest hsuits' hagain hcall
    rw [hplaces] at hsecond
    rw [hsecond, text?_manifest hsuits hrun hcall]
  · refine (holdsManifests_of_runAll hsuits' hagain).others place (by simp) ?_
    intro call hcall heq
    rw [hplaces] at heq
    exact hcalled ⟨call, hcall, heq⟩

/-! ## The manifests behind a build -/

/-- The deferred writes of an open context succeed when their run does. -/
theorem exists_finish_eq_ok_iff (hopen : c.finished = false) :
    (∃ c₂, c.finish folder tree = (.ok (), c₂, tree')) ↔
      PendingWrite.runAll c.view folder [] tree c.pending = (.ok (), tree') := by
  unfold Context.finish
  rw [hopen, if_neg Bool.false_ne_true]
  cases PendingWrite.runAll c.view folder [] tree c.pending with
  | mk outcome written =>
    constructor
    · intro hgiven
      obtain ⟨c₂, hfinish⟩ := hgiven
      cases hfinish
      rfl
    · intro hrun
      cases hrun
      exact ⟨_, rfl⟩

/-- Calls on an open context succeed. Whenever the deferred writes succeed behind them, each called
manifest holds the lines of its calls from the last one that overwrites on, whatever it held before;
no other file changes; and the same calls on a new context leave every file as it is. -/
theorem finish_holdsManifests (hopen : c.finished = false)
    (hsuits : Suits tree folder c.pending calls) :
    ∃ c₁, (performAll calls).runOn c = (.ok (), c₁) ∧
      ∀ c₂ tree', c₁.finish folder tree = (.ok (), c₂, tree') →
        HoldsManifests tree tree' folder c.space c.pending calls ∧
        ∀ d : Context, d.finished = false → d.pending = [] → d.space = c.space →
          ∃ d₁ d₂ tree'', (performAll calls).runOn d = (.ok (), d₁) ∧
            d₁.finish folder tree' = (.ok (), d₂, tree'') ∧
            ∀ place, tree''.text? place = tree'.text? place := by
  obtain ⟨c₁, hcalls, hopen₁, hpending₁⟩ := exists_runOn_performAll hopen calls
  refine ⟨c₁, hcalls, ?_⟩
  intro c₂ tree' hfinish
  have hrun := (exists_finish_eq_ok_iff hopen₁).1 ⟨c₂, hfinish⟩
  rw [hpending₁] at hrun
  refine ⟨holdsManifests_of_runAll hsuits hrun, ?_⟩
  intro d hd hpending hspace
  obtain ⟨d₁, hcalls', hopen', hpending'⟩ := exists_runOn_performAll hd calls
  rw [hpending, hspace, List.nil_append] at hpending'
  obtain ⟨tree'', hagain⟩ := exists_runAll_again hsuits hrun d₁.view
  have htext := text?_again hsuits hrun hagain
  rw [← hpending'] at hagain
  obtain ⟨d₂, hfinish'⟩ := (exists_finish_eq_ok_iff hopen').2 hagain
  exact ⟨d₁, d₂, tree'', hcalls', hfinish', htext⟩

/-- Calls for two services in turns, above a manifest that an earlier build left. -/
theorem finish_holdsManifests_above_stale :
    let c : Context :=
      { space := "gen", profile := .jit, settings := .ofPairs []
        analyzer := ⟨{}, requirementsMet⟩, application := {} }
    let calls : List ManifestCall :=
      [.register "A" "X", .register "B" "W", .overwrite "A" "Y", .register "A" "Z"]
    let services : Files.Place := ["out", "META-INF", "services"]
    let tree : Files.Tree :=
      { nodes := [(["out"], .folder), (["out", "META-INF"], .folder), (services, .folder),
          (services ++ ["A"], .file "old.A\n"), (services ++ ["C"], .file "old.C\n")] }
    c.finished = false ∧ Suits tree "out" c.pending calls ∧
      ∃ c₁ c₂ tree', (performAll calls).runOn c = (.ok (), c₁) ∧
        c₁.finish "out" tree = (.ok (), c₂, tree') ∧
        tree'.read "out/META-INF/services/A" = .ok "gen.Y\ngen.Z\n" ∧
        tree'.read "out/META-INF/services/B" = .ok "gen.W\n" ∧
        tree'.text? (services ++ ["C"]) = some "old.C\n" ∧
        ∃ d₁ d₂ tree'', (performAll calls).runOn c = (.ok (), d₁) ∧
          d₁.finish "out" tree' = (.ok (), d₂, tree'') ∧
          ∀ place, tree''.text? place = tree'.text? place := by
  intro c calls services tree
  have hsuits : Suits tree "out" c.pending calls := by
    refine ⟨?_, by simp [c]⟩
    intro call hcall
    have hservice : call.service ∈ calls.map service := List.mem_map_of_mem hcall
    have hall : ∀ s ∈ calls.map service, s ≠ "" ∧ s ≠ "." ∧ s ≠ ".." ∧ '/' ∉ s.toList := by
      decide
    obtain ⟨hempty, hdot, hup, hslash⟩ := hall _ hservice
    exact ⟨hempty, hdot, hup, hslash⟩
  refine ⟨rfl, hsuits, ?_⟩
  obtain ⟨c₁, hcalls, hfinish⟩ := finish_holdsManifests rfl hsuits
  have hsucceeds : (((performAll calls).runOn c).2.finish "out" tree).1.isOk = true := by
    decide +kernel
  rw [hcalls] at hsucceeds
  cases hdone : c₁.finish "out" tree with
  | mk outcome rest =>
    obtain ⟨c₂, tree'⟩ := rest
    rw [hdone] at hsucceeds
    cases outcome with
    | error e => cases hsucceeds
    | ok _ =>
      obtain ⟨hholds, hagain⟩ := hfinish c₂ tree' hdone
      refine ⟨c₁, c₂, tree', hcalls, hdone, ?_, ?_, ?_, hagain c rfl rfl rfl⟩
      · exact (hholds.manifest (.overwrite "A" "Y") (by decide)).trans
          (congrArg Except.ok (by decide +kernel))
      · exact (hholds.manifest (.register "B" "W") (by decide)).trans
          (congrArg Except.ok (by decide +kernel))
      · exact (hholds.others (services ++ ["C"]) (by simp [c]) (by decide +kernel)).trans
          (by decide +kernel)

end ManifestCall

end BuildAhead
