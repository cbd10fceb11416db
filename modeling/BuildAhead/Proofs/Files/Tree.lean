import BuildAhead.Files.Tree
import BuildAhead.Proofs.Files.Path

set_option autoImplicit false

/-!
# Files: what operations on a tree change

A path leads to one place, whatever the tree holds. Writing a file changes what is at its place and
nothing else, and making folders adds folders where nothing was. Folders are never lost, so a path
that has led somewhere does so ever after.
-/

namespace BuildAhead.Files.Tree

variable {t t' : Tree} {p : Path} {place : Place}

/-! ## Nodes -/

/-- Removing the nodes at one place leaves those at another as they are. -/
theorem find?_filter_of_ne {q : Place} (hq : q ≠ place) (nodes : List (Place × Node)) :
    (nodes.filter fun m => m.1 != place).find? (fun m => m.1 == q) =
      nodes.find? fun m => m.1 == q := by
  rw [List.find?_filter]
  congr 1
  funext m
  by_cases hm : m.1 = q
  · simp [hm, hq]
  · simp [hm]

theorem node?_put (t : Tree) (hplace : place ≠ []) (n : Node) (q : Place) :
    (t.put place n).node? q = if q = place then some n else t.node? q := by
  unfold node? put
  by_cases hq : q = place
  · subst hq
    simp [hplace]
  · have hne : (place == q) = false := by simpa using fun heq => hq heq.symm
    simp only [hq, if_false, List.find?_cons, hne, find?_filter_of_ne hq]

theorem node?_drop (t : Tree) (hplace : place ≠ []) (q : Place) :
    (t.drop place).node? q = if q = place then none else t.node? q := by
  unfold node? drop
  by_cases hq : q = place
  · subst hq
    simp [hplace]
  · simp only [hq, if_false, find?_filter_of_ne hq]

/-- The text of the file at a place, if there is one. -/
def text? (t : Tree) (place : Place) : Option String :=
  match t.node? place with
  | some (.file text) => some text
  | _ => none

/-! ## Places -/

/-- The place to which segments lead from a place. -/
def settle (start : Place) : List String → Place
  | [] => start
  | s :: rest => if s = ".." then settle start.dropLast rest else settle (start ++ [s]) rest

/-- The place to which a path leads. -/
def placeOf (t : Tree) (p : Path) : Place := settle (t.startOf p) (Path.segments p)

theorem settle_append_name {s : String} (hs : s ≠ "..") (start : Place) (segments : List String) :
    settle start (segments ++ [s]) = settle start segments ++ [s] := by
  induction segments generalizing start with
  | nil => simp [settle, hs]
  | cons first rest ih =>
    rw [List.cons_append, settle, settle]
    split
    · exact ih _
    · exact ih _

theorem placeOf_child {q : Path} (hq : q ≠ "") {n : String} (hn : Path.IsName n) (t : Tree) :
    t.placeOf (Path.child q n) = t.placeOf q ++ [n] := by
  unfold placeOf startOf
  rw [Path.segments_child hq hn, Path.isAbsolute_child hq, settle_append_name hn.notUp]

theorem placeOf_join (base : Path) {n : String} (hn : Path.IsName n) (t : Tree) :
    t.placeOf (Path.join base n) = t.placeOf base ++ [n] := by
  unfold placeOf startOf
  rw [Path.segments_join base hn, Path.isAbsolute_join base hn, settle_append_name hn.notUp]

/-- A path with an ending leads to a name with this ending. -/
theorem exists_placeOf_of_ending {ending : String} (hslash : '/' ∉ ending.toList)
    (hlength : 2 < ending.toList.length) (hp : ending.toList <:+ p.toList) (t : Tree) :
    ∃ above name, t.placeOf p = above ++ [name] ∧ ending.toList <:+ name.toList := by
  obtain ⟨above, name, hsegments, hname, hsuffix⟩ :=
    Path.exists_segments_of_ending hslash hlength hp
  refine ⟨settle (t.startOf p) above, name, ?_, hsuffix⟩
  rw [placeOf, hsegments, settle_append_name hname]

/-- A name is walked through when it can be used and a folder has it. -/
theorem walk_cons_eq_ok_iff {s : String} (hs : s ≠ "..") {start : Place} {rest : List String} :
    t.walk start (s :: rest) = .ok place ↔
      checkName s = .ok () ∧ t.node? (start ++ [s]) = some .folder ∧
        t.walk (start ++ [s]) rest = .ok place := by
  rw [walk, if_neg hs]
  cases hcheck : checkName s with
  | error fault => simp [bind, Except.bind]
  | ok _ =>
    simp only [bind, Except.bind]
    cases hnode : t.node? (start ++ [s]) with
    | none => simp
    | some node => cases node <;> simp

theorem walk_up (t : Tree) (start : Place) (rest : List String) :
    t.walk start (".." :: rest) = t.walk start.dropLast rest := by
  rw [walk, if_pos rfl]

/-- Segments lead nowhere else, if they lead somewhere at all. -/
theorem eq_settle_of_walk {start : Place} {segments : List String}
    (hwalk : t.walk start segments = .ok place) : place = settle start segments := by
  induction segments generalizing start with
  | nil =>
    cases hwalk
    rfl
  | cons s rest ih =>
    rw [settle]
    by_cases hs : s = ".."
    · subst hs
      rw [walk_up] at hwalk
      rw [if_pos rfl]
      exact ih hwalk
    · rw [if_neg hs]
      exact ih ((walk_cons_eq_ok_iff hs).1 hwalk).2.2

theorem exists_walk_of_append {start : Place} {first second : List String}
    (hwalk : t.walk start (first ++ second) = .ok place) :
    ∃ middle, t.walk start first = .ok middle ∧ t.walk middle second = .ok place := by
  induction first generalizing start with
  | nil => exact ⟨start, rfl, hwalk⟩
  | cons s rest ih =>
    rw [List.cons_append] at hwalk
    by_cases hs : s = ".."
    · subst hs
      rw [walk_up] at hwalk ⊢
      exact ih hwalk
    · obtain ⟨hcheck, hnode, hrest⟩ := (walk_cons_eq_ok_iff hs).1 hwalk
      obtain ⟨middle, hfirst, hsecond⟩ := ih hrest
      exact ⟨middle, (walk_cons_eq_ok_iff hs).2 ⟨hcheck, hnode, hfirst⟩, hsecond⟩

/-- The name inside a folder is located when the segments of the folder can be walked. -/
theorem locate_eq_ok_some_iff :
    t.locate p = .ok (some place) ↔ ∃ above last folder,
      Path.segments p = above ++ [last] ∧ last ≠ ".." ∧ checkName last = .ok () ∧
        t.walk (t.startOf p) above = .ok folder ∧ place = folder ++ [last] := by
  unfold locate
  cases hback : (Path.segments p).reverse with
  | nil =>
    have hsegments : Path.segments p = [] := List.reverse_eq_nil_iff.1 hback
    simp [hsegments, pure, Except.pure]
  | cons last back =>
    have hsegments : Path.segments p = back.reverse ++ [last] := by
      rw [← List.reverse_reverse (Path.segments p), hback, List.reverse_cons]
    constructor
    · intro hlocate
      cases hwalk : t.walk (t.startOf p) back.reverse with
      | error fault =>
        simp only [hwalk, bind, Except.bind] at hlocate
        cases hlocate
      | ok folder =>
        simp only [hwalk, bind, Except.bind] at hlocate
        split at hlocate
        · cases hlocate
        · next hname =>
          cases hcheck : checkName last with
          | error fault =>
            rw [hcheck] at hlocate
            cases hlocate
          | ok _ =>
            rw [hcheck] at hlocate
            cases hlocate
            exact ⟨back.reverse, last, folder, hsegments, hname, hcheck, hwalk, rfl⟩
    · intro hgiven
      obtain ⟨above, last', folder, hparts, hname, hcheck, hwalk, rfl⟩ := hgiven
      rw [hsegments] at hparts
      obtain ⟨rfl, hlast⟩ := List.append_inj' hparts rfl
      cases hlast
      simp only [hwalk, bind, Except.bind, hname, if_false, hcheck]
      rfl

theorem eq_placeOf_of_locate (hlocate : t.locate p = .ok (some place)) : place = t.placeOf p := by
  obtain ⟨above, last, folder, hsegments, hname, -, hwalk, rfl⟩ := locate_eq_ok_some_iff.1 hlocate
  rw [placeOf, hsegments, settle_append_name hname, ← eq_settle_of_walk hwalk]

theorem ne_nil_of_locate (hlocate : t.locate p = .ok (some place)) : place ≠ [] := by
  obtain ⟨above, last, folder, -, -, -, -, rfl⟩ := locate_eq_ok_some_iff.1 hlocate
  simp

/-! ## Trees that keep their folders -/

/-- The folders of a tree are folders of another one too, which has the same working folder. -/
structure KeepsFolders (t t' : Tree) : Prop where
  workingFolder : t'.workingFolder = t.workingFolder
  kept : ∀ q, t.node? q = some .folder → t'.node? q = some .folder

namespace KeepsFolders

theorem refl (t : Tree) : t.KeepsFolders t := ⟨rfl, fun _ hq => hq⟩

theorem trans {t'' : Tree} (h : t.KeepsFolders t') (h' : t'.KeepsFolders t'') :
    t.KeepsFolders t'' :=
  ⟨h'.workingFolder.trans h.workingFolder, fun q hq => h'.kept q (h.kept q hq)⟩

theorem startOf (h : t.KeepsFolders t') (p : Path) : t'.startOf p = t.startOf p := by
  unfold Tree.startOf
  rw [h.workingFolder]

theorem placeOf (h : t.KeepsFolders t') (p : Path) : t'.placeOf p = t.placeOf p := by
  unfold Tree.placeOf
  rw [h.startOf]

theorem walk (h : t.KeepsFolders t') {start : Place} {segments : List String}
    (hwalk : t.walk start segments = .ok place) : t'.walk start segments = .ok place := by
  induction segments generalizing start with
  | nil => exact hwalk
  | cons s rest ih =>
    by_cases hs : s = ".."
    · subst hs
      rw [walk_up] at hwalk ⊢
      exact ih hwalk
    · obtain ⟨hcheck, hnode, hrest⟩ := (walk_cons_eq_ok_iff hs).1 hwalk
      exact (walk_cons_eq_ok_iff hs).2 ⟨hcheck, h.kept _ hnode, ih hrest⟩

theorem locate (h : t.KeepsFolders t') (hlocate : t.locate p = .ok (some place)) :
    t'.locate p = .ok (some place) := by
  obtain ⟨above, last, folder, hsegments, hname, hcheck, hwalk, hplace⟩ :=
    locate_eq_ok_some_iff.1 hlocate
  refine locate_eq_ok_some_iff.2 ⟨above, last, folder, hsegments, hname, hcheck, ?_, hplace⟩
  rw [h.startOf]
  exact h.walk hwalk

end KeepsFolders

/-! ## Files that are written -/

/-- A file can be written at a path: the folder above it exists, and there is no folder in its
place. -/
structure Writable (t : Tree) (p : Path) : Prop where
  nonempty : p ≠ ""
  located : t.locate p = .ok (some (t.placeOf p))
  notFolder : t.node? (t.placeOf p) ≠ some .folder
  namesFile : meansFolder p = false

theorem writable_of_locate (hp : p ≠ "") (hlocate : t.locate p = .ok (some place))
    (hnode : t.node? place ≠ some .folder) (hmeans : meansFolder p = false) : t.Writable p := by
  have hplace := eq_placeOf_of_locate hlocate
  rw [hplace] at hlocate hnode
  exact ⟨hp, hlocate, hnode, hmeans⟩

/-- A file can be stored where it can be written. -/
theorem store_of_writable (h : t.Writable p) (f : Option String → String) :
    t.store p f = .ok (t.put (t.placeOf p) (.file (f (t.text? (t.placeOf p))))) := by
  have hp : p.isEmpty = false := by simpa using h.nonempty
  unfold store text?
  simp only [hp, h.located, bind, Except.bind]
  cases hnode : t.node? (t.placeOf p) with
  | none =>
    simp only [h.namesFile]
    rfl
  | some node =>
    cases node with
    | folder => exact absurd hnode h.notFolder
    | file text =>
      simp only [h.namesFile]
      rfl

/-- A file that was stored could be written. -/
theorem writable_of_store {f : Option String → String} (hstore : t.store p f = .ok t') :
    t.Writable p := by
  unfold store at hstore
  by_cases hp : p = ""
  · subst hp
    cases hstore
  have hp' : p.isEmpty = false := by simpa using hp
  cases hlocate : t.locate p with
  | error fault =>
    simp only [hp', hlocate, bind, Except.bind] at hstore
    cases hstore
  | ok located =>
    simp only [hp', hlocate, bind, Except.bind] at hstore
    cases located with
    | none => cases hstore
    | some place =>
      cases hmeans : meansFolder p with
      | false =>
        refine writable_of_locate hp hlocate ?_ hmeans
        intro hnode
        simp only [hnode] at hstore
        cases hstore
      | true =>
        simp only [hmeans] at hstore
        split at hstore
        · cases hstore
        · split at hstore
          · cases hstore
          · cases hstore
          · cases hstore

/-- Removing what may be at a path where a file can be written leaves nothing there. -/
theorem removeIfPresent_of_writable (h : t.Writable p) :
    ∃ t', t.removeIfPresent p = .ok t' ∧ t'.workingFolder = t.workingFolder ∧
      ∀ q, t'.node? q = if q = t.placeOf p then none else t.node? q := by
  have hp : p.isEmpty = false := by simpa using h.nonempty
  unfold removeIfPresent remove
  simp only [hp, h.located, bind, Except.bind]
  cases hnode : t.node? (t.placeOf p) with
  | none =>
    refine ⟨t, rfl, rfl, ?_⟩
    intro q
    split
    · next hq => rw [hq, hnode]
    · rfl
  | some node =>
    cases node with
    | folder => exact absurd hnode h.notFolder
    | file text =>
      simp only [h.namesFile]
      exact ⟨t.drop (t.placeOf p), rfl, rfl, node?_drop t (ne_nil_of_locate h.located)⟩

/-- What was removed is a node at the place of the path. -/
theorem eq_drop_of_remove (hremove : t.remove p = .ok t') :
    ∃ place, t.locate p = .ok (some place) ∧ t' = t.drop place := by
  unfold remove at hremove
  by_cases hp : p = ""
  · subst hp
    cases hremove
  have hp' : p.isEmpty = false := by simpa using hp
  cases hlocate : t.locate p with
  | error fault =>
    simp only [hp', hlocate, bind, Except.bind] at hremove
    cases hremove
  | ok located =>
    simp only [hp', hlocate, bind, Except.bind] at hremove
    cases located with
    | none => cases hremove
    | some place =>
      refine ⟨place, rfl, ?_⟩
      cases hnode : t.node? place with
      | none =>
        simp only [hnode] at hremove
        cases hremove
      | some node =>
        cases node with
        | folder =>
          simp only [hnode] at hremove
          cases hremove
        | file text =>
          cases hmeans : meansFolder p with
          | true =>
            simp only [hnode, hmeans] at hremove
            cases hremove
          | false =>
            simp only [hnode, hmeans] at hremove
            cases hremove
            rfl

/-- When a file can be written behind its removal, it could be written before. -/
theorem writable_of_removeIfPresent (hremove : t.removeIfPresent p = .ok t')
    (hwritable : t'.Writable p) : t.Writable p := by
  unfold removeIfPresent at hremove
  cases houtcome : t.remove p with
  | error fault =>
    rw [houtcome] at hremove
    cases fault with
    | notFound =>
      cases hremove
      exact hwritable
    | _ => cases hremove
  | ok dropped =>
    unfold remove at houtcome
    have hp : p.isEmpty = false := by simpa using hwritable.nonempty
    cases hlocate : t.locate p with
    | error fault =>
      simp only [hp, hlocate, bind, Except.bind] at houtcome
      cases houtcome
    | ok located =>
      simp only [hp, hlocate, bind, Except.bind] at houtcome
      cases located with
      | none => cases houtcome
      | some place =>
        refine writable_of_locate hwritable.nonempty hlocate ?_ hwritable.namesFile
        intro hnode
        simp only [hnode] at houtcome
        cases houtcome

/-- Removing what may be at a path leaves everything else. -/
theorem node?_of_removeIfPresent (hremove : t.removeIfPresent p = .ok t') {q : Place}
    (hq : q ≠ t.placeOf p) : t'.node? q = t.node? q := by
  unfold removeIfPresent at hremove
  cases houtcome : t.remove p with
  | error fault =>
    rw [houtcome] at hremove
    cases fault with
    | notFound =>
      cases hremove
      rfl
    | _ => cases hremove
  | ok dropped =>
    rw [houtcome] at hremove
    cases hremove
    obtain ⟨place, hlocate, hdropped⟩ := eq_drop_of_remove houtcome
    rw [hdropped, node?_drop t (ne_nil_of_locate hlocate),
      if_neg fun heq => hq (heq.trans (eq_placeOf_of_locate hlocate))]

/-- A file can still be written where folders were kept and none has come into its place. -/
theorem Writable.of_keepsFolders (h : t.Writable p) (hkeeps : t.KeepsFolders t')
    (hnode : t'.node? (t.placeOf p) ≠ some .folder) : t'.Writable p := by
  refine ⟨h.nonempty, ?_, ?_, h.namesFile⟩
  · rw [hkeeps.placeOf]
    exact hkeeps.locate h.located
  · rw [hkeeps.placeOf]
    exact hnode

/-- A file can be written anew after what was in its place has been removed. -/
theorem Writable.exists_removeIfPresent (h : t.Writable p) :
    ∃ t', t.removeIfPresent p = .ok t' ∧ t'.Writable p := by
  obtain ⟨t', hremove, hworking, hnode⟩ := removeIfPresent_of_writable h
  have hkeeps : t.KeepsFolders t' := by
    refine ⟨hworking, ?_⟩
    intro q hq
    have hne : q ≠ t.placeOf p := fun heq => h.notFolder (heq ▸ hq)
    rw [hnode, if_neg hne]
    exact hq
  refine ⟨t', hremove, h.of_keepsFolders hkeeps ?_⟩
  rw [hnode, if_pos rfl]
  simp

/-- A file is read where it could be written. -/
theorem read_of_writable (h : t.Writable p) {text : String}
    (htext : t.text? (t.placeOf p) = some text) : t.read p = .ok text := by
  have hp : p.isEmpty = false := by simpa using h.nonempty
  have hnode : t.node? (t.placeOf p) = some (.file text) := by
    unfold text? at htext
    split at htext
    · next found hfound => rw [hfound, Option.some.inj htext]
    · cases htext
  unfold read nodeAt
  simp only [hp, h.located, bind, Except.bind, pure, Except.pure, Bool.false_eq_true, if_false,
    hnode, h.namesFile]

/-- Paths with one key lead to one place. -/
theorem placeOf_eq_of_key {q : Path} (hkey : Path.key p = Path.key q) (t : Tree) :
    t.placeOf p = t.placeOf q := by
  obtain ⟨habsolute, hsegments⟩ := Prod.mk.inj hkey
  unfold placeOf startOf
  rw [habsolute, hsegments]

theorem notFolder_of_text? (htext : (t.text? place).isSome) : t.node? place ≠ some .folder := by
  intro hnode
  unfold text? at htext
  rw [hnode] at htext
  cases htext

/-! ## Folders that are made -/

/-- A tree has got further folders, where nothing was. -/
structure AddsFolders (t t' : Tree) : Prop where
  workingFolder : t'.workingFolder = t.workingFolder
  node? : ∀ q, t'.node? q = t.node? q ∨ t.node? q = none ∧ t'.node? q = some .folder

namespace AddsFolders

theorem refl (t : Tree) : t.AddsFolders t := ⟨rfl, fun _ => .inl rfl⟩

theorem trans {t'' : Tree} (h : t.AddsFolders t') (h' : t'.AddsFolders t'') :
    t.AddsFolders t'' := by
  refine ⟨h'.workingFolder.trans h.workingFolder, ?_⟩
  intro q
  rcases h'.node? q with hq' | ⟨hnone, hfolder⟩
  · rw [hq']
    exact h.node? q
  · rcases h.node? q with hq | ⟨hnone', -⟩
    · exact .inr ⟨hq.symm.trans hnone, hfolder⟩
    · exact .inr ⟨hnone', hfolder⟩

theorem keepsFolders (h : t.AddsFolders t') : t.KeepsFolders t' := by
  refine ⟨h.workingFolder, ?_⟩
  intro q hq
  rcases h.node? q with heq | ⟨hnone, -⟩
  · exact heq.trans hq
  · rw [hq] at hnone
    cases hnone

theorem text? (h : t.AddsFolders t') (q : Place) : t'.text? q = t.text? q := by
  unfold Tree.text?
  rcases h.node? q with heq | ⟨hnone, hfolder⟩
  · rw [heq]
  · rw [hnone, hfolder]

end AddsFolders

theorem addsFolders_put (hplace : place ≠ []) (hnone : t.node? place = none) :
    t.AddsFolders (t.put place .folder) := by
  refine ⟨rfl, fun q => ?_⟩
  rw [node?_put t hplace]
  split
  · next hq => exact .inr ⟨hq ▸ hnone, rfl⟩
  · exact .inl rfl

/-- The place lies on the way that segments lead. -/
def OnTheWay (start : Place) (segments : List String) (place : Place) : Prop :=
  ∃ front, front <+: segments ∧ place = settle start front

/-- A folder is made where nothing was, at the end of its segments. -/
theorem eq_put_of_makeFolder {start : Place} {back : List String}
    (hmake : t.makeFolder start back = .ok t') :
    ∃ place, place ≠ [] ∧ t.node? place = none ∧ place = settle start back.reverse ∧
      t' = t.put place .folder := by
  cases back with
  | nil => cases hmake
  | cons last above =>
    rw [makeFolder] at hmake
    cases hwalk : t.walk start above.reverse with
    | error fault =>
      rw [hwalk] at hmake
      cases hmake
    | ok folder =>
      simp only [hwalk, bind, Except.bind] at hmake
      split at hmake
      · cases hmake
      · next hname =>
        cases hcheck : checkName last with
        | error fault =>
          rw [hcheck] at hmake
          cases hmake
        | ok _ =>
          simp only [hcheck] at hmake
          split at hmake
          · cases hmake
          · next hnone =>
            cases hmake
            refine ⟨folder ++ [last], by simp, hnone, ?_, rfl⟩
            rw [List.reverse_cons, settle_append_name hname, ← eq_settle_of_walk hwalk]

section Making

variable {P : Tree → Prop}

/-- What new folders on the way do not change holds when folders have been made. -/
theorem makeFoldersBack_preserves {start : Place} {back : List String}
    (hput : ∀ {t : Tree} {place : Place}, place ≠ [] → t.node? place = none →
      OnTheWay start back.reverse place → P t → P (t.put place .folder))
    (hmake : t.makeFoldersBack start back = .ok t') (h : P t) : P t' := by
  induction back generalizing t' with
  | nil =>
    cases hmake
    exact h
  | cons last above ih =>
    have hstep : ∀ {t t' : Tree}, t.makeFolder start (last :: above) = .ok t' → P t → P t' := by
      intro t t' hmake h
      obtain ⟨place, hplace, hnone, hend, rfl⟩ := eq_put_of_makeFolder hmake
      exact hput hplace hnone ⟨_, List.prefix_rfl, hend⟩ h
    have ih : ∀ {made : Tree}, t.makeFoldersBack start above = .ok made → P made := by
      intro made habove
      refine ih (fun hplace hnone hway h => hput hplace hnone ?_ h) habove
      obtain ⟨front, hfront, hend⟩ := hway
      refine ⟨front, hfront.trans ?_, hend⟩
      rw [List.reverse_cons]
      exact List.prefix_append _ _
    have hexisting : ∀ {made : Tree} {fault : Fault},
        (if made.isFolder start (last :: above) then .ok made else .error fault) =
          (.ok t' : Except Fault Tree) → made = t' := by
      intro made fault hgiven
      split at hgiven
      · exact Except.ok.inj hgiven
      · cases hgiven
    rw [makeFoldersBack] at hmake
    split at hmake
    · next made hfirst =>
      cases hmake
      exact hstep hfirst h
    · cases habove : t.makeFoldersBack start above with
      | error fault =>
        rw [habove] at hmake
        cases hmake
      | ok t₁ =>
        simp only [habove, bind, Except.bind] at hmake
        split at hmake
        · next made hsecond =>
          cases hmake
          exact hstep hsecond (ih habove)
        · rw [← hexisting hmake]
          exact ih habove
    · rw [← hexisting hmake]
      exact h

theorem makeFolders_preserves
    (hput : ∀ {made : Tree} {place : Place}, place ≠ [] → made.node? place = none →
      OnTheWay (t.startOf p) (Path.segments p) place → P made → P (made.put place .folder))
    (hmake : t.makeFolders p = .ok t') (h : P t) : P t' := by
  refine makeFoldersBack_preserves (fun hplace hnone hway h => hput hplace hnone ?_ h) hmake h
  rwa [List.reverse_reverse] at hway

end Making

/-- Making folders adds folders. -/
theorem addsFolders_makeFolders (hmake : t.makeFolders p = .ok t') : t.AddsFolders t' := by
  have hput : ∀ {made : Tree} {place : Place}, place ≠ [] → made.node? place = none →
      OnTheWay (t.startOf p) (Path.segments p) place → t.AddsFolders made →
        t.AddsFolders (made.put place .folder) :=
    fun hplace hnone _ h => h.trans (addsFolders_put hplace hnone)
  exact makeFolders_preserves hput hmake (.refl t)

/-- A folder that was made lies on the way. -/
theorem onTheWay_of_makeFolders (hmake : t.makeFolders p = .ok t') {q : Place}
    (hnone : t.node? q = none) (hsome : t'.node? q ≠ none) :
    OnTheWay (t.startOf p) (Path.segments p) q := by
  by_contra hnot
  have hput : ∀ {made : Tree} {place : Place}, place ≠ [] → made.node? place = none →
      OnTheWay (t.startOf p) (Path.segments p) place → made.node? q = none →
        (made.put place .folder).node? q = none := by
    intro made place hplace _ hway hq
    have hne : q ≠ place := fun heq => hnot (heq ▸ hway)
    rw [node?_put made hplace, if_neg hne, hq]
  exact hsome (makeFolders_preserves hput hmake hnone)

/-- A folder that exists cannot be made. -/
theorem makeFolder_of_walk {start : Place} {last : String} {above : List String}
    (hwalk : t.walk start (last :: above).reverse = .ok place) :
    t.makeFolder start (last :: above) = .error .exists := by
  rw [List.reverse_cons] at hwalk
  obtain ⟨folder, habove, hlast⟩ := exists_walk_of_append hwalk
  rw [makeFolder]
  simp only [habove, bind, Except.bind]
  by_cases hs : last = ".."
  · rw [if_pos hs]
    rfl
  · obtain ⟨hcheck, hnode, -⟩ := (walk_cons_eq_ok_iff hs).1 hlast
    rw [if_neg hs]
    simp only [hcheck, hnode]
    rfl

/-- Folders that exist are not made again. -/
theorem makeFolders_of_walk (hwalk : t.walk (t.startOf p) (Path.segments p) = .ok place) :
    t.makeFolders p = .ok t := by
  unfold makeFolders
  rw [← List.reverse_reverse (Path.segments p)] at hwalk
  generalize (Path.segments p).reverse = back at hwalk ⊢
  cases back with
  | nil => rfl
  | cons last above =>
    have hfolder : t.isFolder (t.startOf p) (last :: above) = true := by
      unfold isFolder
      rw [hwalk]
    rw [makeFoldersBack, makeFolder_of_walk hwalk]
    simp only [hfolder, if_true]

/-! ## One file that is written -/

/-- A tree has got this text at a place, in which there was no folder. Apart from that it has the
files that it had, and maybe further folders. -/
structure Writes (t t' : Tree) (place : Place) (text : String) : Prop where
  workingFolder : t'.workingFolder = t.workingFolder
  notFolder : t.node? place ≠ some .folder
  written : t'.node? place = some (.file text)
  elsewhere : ∀ q, q ≠ place →
    t'.node? q = t.node? q ∨ t.node? q = none ∧ t'.node? q = some .folder

namespace Writes

variable {text : String}

theorem keepsFolders (h : t.Writes t' place text) : t.KeepsFolders t' := by
  refine ⟨h.workingFolder, ?_⟩
  intro q hq
  have hne : q ≠ place := fun heq => h.notFolder (heq ▸ hq)
  rcases h.elsewhere q hne with heq | ⟨hnone, -⟩
  · exact heq.trans hq
  · rw [hq] at hnone
    cases hnone

theorem text?_written (h : t.Writes t' place text) : t'.text? place = some text := by
  unfold text?
  rw [h.written]

theorem text?_elsewhere (h : t.Writes t' place text) {q : Place} (hq : q ≠ place) :
    t'.text? q = t.text? q := by
  unfold text?
  rcases h.elsewhere q hq with heq | ⟨hnone, hfolder⟩
  · rw [heq]
  · rw [hnone, hfolder]

/-- Where there was a file there is one. -/
theorem isSome_text? (h : t.Writes t' place text) {q : Place} (hq : (t.text? q).isSome) :
    (t'.text? q).isSome := by
  by_cases heq : q = place
  · rw [heq, h.text?_written]
    rfl
  · rwa [h.text?_elsewhere heq]

end Writes

/-- A file that is written behind new folders. -/
theorem AddsFolders.writes {made : Tree} {text : String} (h : t.AddsFolders made)
    (hwrites : made.Writes t' place text) : t.Writes t' place text := by
  refine ⟨hwrites.workingFolder.trans h.workingFolder, ?_, hwrites.written, ?_⟩
  · intro hnode
    exact hwrites.notFolder (h.keepsFolders.kept _ hnode)
  · intro q hq
    rcases hwrites.elsewhere q hq with heq | ⟨hnone, hfolder⟩
    · rw [heq]
      exact h.node? q
    · rcases h.node? q with heq | ⟨hnone', -⟩
      · exact .inr ⟨heq.symm.trans hnone, hfolder⟩
      · exact .inr ⟨hnone', hfolder⟩

/-- A file that was stored holds what was made of its old text. -/
theorem writes_of_store {f : Option String → String} (hstore : t.store p f = .ok t') :
    t.Writable p ∧ t.Writes t' (t.placeOf p) (f (t.text? (t.placeOf p))) := by
  have hwritable := writable_of_store hstore
  rw [store_of_writable hwritable] at hstore
  cases hstore
  have hnode := node?_put t (ne_nil_of_locate hwritable.located)
  refine ⟨hwritable, rfl, hwritable.notFolder, ?_, ?_⟩
  · rw [hnode, if_pos rfl]
  · intro q hq
    rw [hnode, if_neg hq]
    exact .inl rfl

end BuildAhead.Files.Tree
