import BuildAhead.Proofs.Modules.Counting
import Mathlib.Data.List.Chain

set_option autoImplicit false

/-!
# Modules: the search for a cycle

`Ordering.search` goes through the dependencies of each name and comes back along its trail. Seen as
a run, each step changes the marks and a trail on which every name has the dependencies that are
ahead of it (`searchFrom`). While it runs, the names that it has left behind, in the order in which
it left them, respect the dependencies, and whatever a name on the trail depends on was left behind,
is ahead, or is the next name on the trail. So the search finds nothing exactly when there is no
cycle, and what it finds is one. It is total, so it comes to an end for all names and dependencies.
-/

namespace BuildAhead.Ordering

/-- Names of which each is in relation to the next one, and the last to the first, no name twice. -/
structure IsCycle (r : String → String → Prop) (names : List String) : Prop where
  nonempty : names ≠ []
  once : names.Nodup
  next : names.IsChain r
  back : r (names.getLast nonempty) (names.head nonempty)

theorem IsCycle.mono {r s : String → String → Prop} {names : List String} (h : IsCycle r names)
    (hrs : ∀ a b, r a b → s a b) : IsCycle s names where
  nonempty := h.nonempty
  once := h.once
  next := h.next.imp hrs
  back := hrs _ _ h.back

/-- Around a cycle, a name is related to itself. -/
theorem IsCycle.transGen {r : String → String → Prop} {names : List String} (h : IsCycle r names) :
    ∃ n, Relation.TransGen r n n :=
  ⟨_, .tail' (List.relationReflTransGen_of_exists_isChain names h.next h.nonempty) h.back⟩

/-! ## The search as a run -/

/-- A name on the trail of a search, with the dependencies that it has still to go to. -/
structure Stop where
  name : String
  ahead : List String
  deriving DecidableEq, Repr, Inhabited

/-- The stop at a name: its dependencies among the names, in ascending order. -/
def stopAt (deps : Dependencies) (names : List String) (name : String) : Stop :=
  ⟨name, sortedNames ((deps name).filter names.contains)⟩

theorem sumOf_filter_add_le (cost : String → Nat) {name : String} {names : List String}
    (h : name ∈ names) :
    sumOf ((names.filter (· != name)).map cost) + cost name ≤ sumOf (names.map cost) := by
  induction names with
  | nil => cases h
  | cons first rest ih =>
    rw [List.map_cons, sumOf]
    by_cases hfirst : first = name
    · have hle := sumOf_filter_le cost (· != name) rest
      simp only [hfirst, List.filter_cons, bne_self_eq_false, Bool.false_eq_true, if_false]
      omega
    · have hrest := ih ((List.mem_cons.1 h).resolve_left fun heq => hfirst heq.symm)
      simp only [List.filter_cons, bne_iff_ne, ne_eq, hfirst, not_false_eq_true, if_true,
        List.map_cons, sumOf]
      omega

/-- What going to a name adds to a search, which is one more than its stop has ahead. -/
def cost (deps : Dependencies) (names : List String) (name : String) : Nat :=
  (stopAt deps names name).ahead.length + 2

/-- How much of a search is ahead: the names without a mark, and what the trail has still to go
to. -/
def ahead (deps : Dependencies) (names : List String) (marks : Dict Mark) (trail : List Stop) :
    Nat :=
  sumOf ((unmarked names marks).map (cost deps names)) +
    sumOf (trail.map fun stop => stop.ahead.length + 1)

/-- Less is ahead when a name without a mark is put on the trail. -/
theorem ahead_push_lt (deps : Dependencies) {names : List String} {marks : Dict Mark}
    {name : String} (h : name ∈ unmarked names marks) (mark : Mark) (trail : List Stop) :
    ahead deps names (marks.insert name mark) (stopAt deps names name :: trail) <
      ahead deps names marks trail := by
  have hsaved := sumOf_filter_add_le (cost deps names) h
  unfold ahead
  rw [unmarked_insert, List.map_cons, sumOf]
  unfold cost at hsaved ⊢
  omega

/-- Less is ahead when a stop is left behind. -/
theorem ahead_pop_lt (deps : Dependencies) (names : List String) (marks : Dict Mark) (mark : Mark)
    (stop : Stop) (trail : List Stop) :
    ahead deps names (marks.insert stop.name mark) trail <
      ahead deps names marks (stop :: trail) := by
  have hle := sumOf_filter_le (cost deps names) (· != stop.name) (unmarked names marks)
  unfold ahead
  rw [unmarked_insert, List.map_cons, sumOf]
  omega

/-- Less is ahead when a stop has gone to one of its dependencies. -/
theorem ahead_goTo_lt (deps : Dependencies) (names : List String) (marks : Dict Mark)
    (name next : String) (further : List String) (trail : List Stop) :
    ahead deps names marks (⟨name, further⟩ :: trail) <
      ahead deps names marks (⟨name, next :: further⟩ :: trail) := by
  unfold ahead
  simp only [List.map_cons, sumOf, List.length_cons]
  omega

/-- The part of a trail, begun at its far end, from a name on. -/
def trailFrom (trail : List Stop) (name : String) : List String :=
  let names := (trail.map Stop.name).reverse
  names.drop ((names.findIdx? (· == name)).getD 0)

/-- Goes on from the stop that is first on the trail, or from the first name without a mark when the
trail is empty. A dependency that is on the trail ends the search: from it on, the trail is a
cycle. -/
def searchFrom (deps : Dependencies) (names : List String) (marks : Dict Mark) :
    List Stop → Option (List String)
  | [] =>
    match h : unmarked names marks with
    | [] => none
    | start :: _ =>
      have := ahead_push_lt deps (h ▸ List.mem_cons_self) .visiting []
      searchFrom deps names (marks.insert start .visiting) [stopAt deps names start]
  | ⟨name, []⟩ :: trail =>
    have := ahead_pop_lt deps names marks .done ⟨name, []⟩ trail
    searchFrom deps names (marks.insert name .done) trail
  | ⟨name, next :: further⟩ :: trail =>
    have hgone := ahead_goTo_lt deps names marks name next further trail
    if marks.get? next = some .visiting then some (trailFrom (⟨name, further⟩ :: trail) next)
    else if h : next ∈ unmarked names marks then
      have := Nat.lt_trans (ahead_push_lt deps h .visiting _) hgone
      searchFrom deps names (marks.insert next .visiting)
        (stopAt deps names next :: ⟨name, further⟩ :: trail)
    else searchFrom deps names marks (⟨name, further⟩ :: trail)
termination_by trail => ahead deps names marks trail

/-! ## Trails -/

/-- The stops of a trail. `above` is the name of the stop before the first one, which has gone there
from it. -/
def OnTrail (deps : Dependencies) (names finished : List String) (above : Option String) :
    List Stop → Prop
  | [] => True
  | stop :: rest =>
    stop.name ∈ names ∧ (∀ d ∈ above, d ∈ deps stop.name) ∧
      (∀ d ∈ stop.ahead, d ∈ names ∧ d ∈ deps stop.name) ∧
      (∀ d ∈ deps stop.name, d ∈ names → d ∈ stop.ahead ∨ d ∈ finished ∨ above = some d) ∧
      OnTrail deps names finished (some stop.name) rest

/-- How a search stands: what the marks say, and what was left behind so far. -/
structure Searching (deps : Dependencies) (names : List String) (marks : Dict Mark)
    (trail : List Stop) (finished : List String) : Prop where
  visiting_iff : ∀ n, marks.get? n = some .visiting ↔ n ∈ trail.map Stop.name
  done_iff : ∀ n, marks.get? n = some .done ↔ n ∈ finished
  once : (trail.map Stop.name).Nodup
  onTrail : OnTrail deps names finished none trail
  respects : Respects deps finished
  closed : ∀ n ∈ finished, ∀ d ∈ deps n, d ∈ names → d ∈ finished

section

variable {deps : Dependencies} {names finished : List String} {marks : Dict Mark}
  {trail : List Stop} {name next : String}

theorem mem_ahead_stopAt {d : String} :
    d ∈ (stopAt deps names name).ahead ↔ d ∈ names ∧ d ∈ deps name := by
  unfold stopAt sortedNames
  rw [List.mem_mergeSort, List.mem_filter, List.contains_iff_mem, and_comm]

theorem onTrail_isChain {above : Option String} (h : OnTrail deps names finished above trail) :
    (trail.map Stop.name).IsChain fun above below => DependsWithin deps names below above := by
  induction trail generalizing above with
  | nil => exact .nil
  | cons stop rest ih =>
    obtain ⟨hname, -, -, -, hrest⟩ := h
    have hchain := ih hrest
    cases rest with
    | nil => exact .singleton _
    | cons below rest =>
      obtain ⟨hbelow, hdep, -⟩ := hrest
      exact .cons_cons ⟨hbelow, hname, hdep stop.name rfl⟩ hchain

/-- A longer list of names left behind suits a trail too. -/
theorem OnTrail.mono {finished' : List String} {above : Option String}
    (h : OnTrail deps names finished above trail) (hsub : ∀ n ∈ finished, n ∈ finished') :
    OnTrail deps names finished' above trail := by
  induction trail generalizing above with
  | nil => trivial
  | cons stop rest ih =>
    obtain ⟨hname, habove, hahead, hdeps, hrest⟩ := h
    refine ⟨hname, habove, hahead, ?_, ih hrest⟩
    intro d hd hmem
    exact (hdeps d hd hmem).imp_right (Or.imp_left (hsub d))

/-- When the stop above was left behind, the trail begins one stop later. -/
theorem OnTrail.leave {above : String} (h : OnTrail deps names finished (some above) trail) :
    OnTrail deps names (finished ++ [above]) none trail := by
  cases trail with
  | nil => trivial
  | cons stop rest =>
    obtain ⟨hname, -, hahead, hdeps, hrest⟩ := h
    refine ⟨hname, by simp, hahead, ?_, hrest.mono fun n hn => List.mem_append_left _ hn⟩
    intro d hd hmem
    rcases hdeps d hd hmem with hd | hd | hd
    · exact .inl hd
    · exact .inr (.inl (List.mem_append_left _ hd))
    · cases hd
      exact .inr (.inl (List.mem_append_right _ List.mem_cons_self))

/-- A name behind those that respect the dependencies and do not depend on it. -/
theorem Respects.concat {order : List String} (h : Respects deps order)
    (hnone : ∀ n ∈ order ++ [name], name ∉ deps n) : Respects deps (order ++ [name]) := by
  intro i j hi hj hdep
  rw [List.length_append, List.length_singleton] at hi hj
  by_cases hlast : j = order.length
  · subst hlast
    rw [List.getElem_append_right (Nat.le_refl _)] at hdep
    exact absurd (by simpa using hdep) (hnone _ (List.getElem_mem _))
  · have hj : j < order.length := by omega
    rw [List.getElem_append_left hj] at hdep
    by_cases hlast : i = order.length
    · omega
    · have hi : i < order.length := by omega
      rw [List.getElem_append_left hi] at hdep
      exact h i j hi hj hdep

/-! ## The steps of a search -/

theorem searching_start (deps : Dependencies) (names : List String) :
    Searching deps names ∅ [] [] where
  visiting_iff n := by simp
  done_iff n := by simp
  once := List.nodup_nil
  onTrail := trivial
  respects := respects_nil deps
  closed n hn := by cases hn

/-- A name without a mark is put on the trail, which its first stop leaves for it. -/
theorem Searching.push {left : List Stop} (h : Searching deps names marks trail finished)
    (hnext : next ∈ unmarked names marks) (hleft : left.map Stop.name = trail.map Stop.name)
    (htrail : OnTrail deps names finished (some next) left) :
    Searching deps names (marks.insert next .visiting) (stopAt deps names next :: left)
      finished := by
  obtain ⟨hmem, hmark⟩ := mem_unmarked.1 hnext
  refine ⟨?_, ?_, ?_, ?_, h.respects, h.closed⟩
  · intro n
    rw [Dict.get?_insert, List.map_cons, List.mem_cons, hleft, ← h.visiting_iff]
    by_cases hn : n = next
    · simp [hn, stopAt]
    · simp [hn, stopAt]
  · intro n
    rw [Dict.get?_insert, ← h.done_iff]
    by_cases hn : n = next
    · simp [hn, hmark]
    · simp [hn]
  · rw [List.map_cons, hleft, List.nodup_cons, ← h.visiting_iff]
    exact ⟨by simp [stopAt, hmark], h.once⟩
  · refine ⟨hmem, by simp, fun d hd => mem_ahead_stopAt.1 hd, ?_, htrail⟩
    intro d hd hmem'
    exact .inl (mem_ahead_stopAt.2 ⟨hmem', hd⟩)

/-- A stop with nothing ahead is left behind: all that it depends on was. -/
theorem Searching.pop (h : Searching deps names marks (⟨name, []⟩ :: trail) finished) :
    Searching deps names (marks.insert name .done) trail (finished ++ [name]) := by
  obtain ⟨hname, -, -, hdeps, hrest⟩ := h.onTrail
  have hfinished : ∀ d ∈ deps name, d ∈ names → d ∈ finished := by
    intro d hd hmem
    rcases hdeps d hd hmem with hd | hd | hd
    · cases hd
    · exact hd
    · cases hd
  have hmark : marks.get? name = some .visiting := (h.visiting_iff name).2 List.mem_cons_self
  have hnew : name ∉ finished := by
    intro hin
    rw [(h.done_iff name).2 hin] at hmark
    cases hmark
  obtain ⟨hnotin, honce⟩ := List.nodup_cons.1 h.once
  refine ⟨?_, ?_, honce, hrest.leave, ?_, ?_⟩
  · intro n
    rw [Dict.get?_insert]
    by_cases hn : n = name
    · subst hn
      simpa using hnotin
    · rw [if_neg hn, h.visiting_iff, List.map_cons, List.mem_cons]
      simp [hn]
  · intro n
    rw [Dict.get?_insert, List.mem_append, List.mem_singleton, ← h.done_iff]
    by_cases hn : n = name
    · simp [hn]
    · simp [hn]
  · refine h.respects.concat ?_
    intro n hn hdep
    rcases List.mem_append.1 hn with hn | hn
    · exact hnew (h.closed n hn name hdep hname)
    · exact hnew (hfinished name (List.mem_singleton.1 hn ▸ hdep) hname)
  · intro n hn d hd hmem
    rcases List.mem_append.1 hn with hn | hn
    · exact List.mem_append_left _ (h.closed n hn d hd hmem)
    · exact List.mem_append_left _ (hfinished d (List.mem_singleton.1 hn ▸ hd) hmem)

/-- A dependency that was left behind is passed over. -/
theorem Searching.skip {further : List String}
    (h : Searching deps names marks (⟨name, next :: further⟩ :: trail) finished)
    (hvisiting : marks.get? next ≠ some .visiting) (hmarked : next ∉ unmarked names marks) :
    Searching deps names marks (⟨name, further⟩ :: trail) finished := by
  obtain ⟨hname, habove, hahead, hdeps, hrest⟩ := h.onTrail
  have hdone : next ∈ finished := by
    have hmem := (hahead next List.mem_cons_self).1
    rw [mem_unmarked] at hmarked
    rw [← h.done_iff]
    rcases hmark : marks.get? next with _ | _ | _
    · exact absurd ⟨hmem, hmark⟩ hmarked
    · exact absurd hmark hvisiting
    · rfl
  refine { h with onTrail := ⟨hname, habove, ?_, ?_, hrest⟩ }
  · exact fun d hd => hahead d (List.mem_cons_of_mem _ hd)
  · intro d hd hmem
    rcases hdeps d hd hmem with hd | hd | hd
    · rcases List.mem_cons.1 hd with rfl | hd
      · exact .inr (.inl hdone)
      · exact .inl hd
    · exact .inr (.inl hd)
    · exact .inr (.inr hd)

/-- From a stop that has gone to one dependency, with it above. -/
theorem Searching.goTo {further : List String}
    (h : Searching deps names marks (⟨name, next :: further⟩ :: trail) finished) :
    OnTrail deps names finished (some next) (⟨name, further⟩ :: trail) := by
  obtain ⟨hname, -, hahead, hdeps, hrest⟩ := h.onTrail
  refine ⟨hname, ?_, fun d hd => hahead d (List.mem_cons_of_mem _ hd), ?_, hrest⟩
  · intro d hd
    rw [← Option.some.inj hd]
    exact (hahead next List.mem_cons_self).2
  · intro d hd hmem
    rcases hdeps d hd hmem with hd | hd | hd
    · rcases List.mem_cons.1 hd with rfl | hd
      · exact .inr (.inr rfl)
      · exact .inl hd
    · exact .inr (.inl hd)
    · cases hd

/-! ## What a search finds -/

/-- From one of its names on, a trail is what stands above that name. -/
theorem trailFrom_eq {upper lower : List Stop} {stop : Stop}
    (honce : ((upper ++ stop :: lower).map Stop.name).Nodup) :
    trailFrom (upper ++ stop :: lower) stop.name = ((upper ++ [stop]).map Stop.name).reverse := by
  have hnames : ((upper ++ stop :: lower).map Stop.name).reverse =
      (lower.map Stop.name).reverse ++ ((upper ++ [stop]).map Stop.name).reverse := by
    simp
  have hfirst : ((upper ++ stop :: lower).map Stop.name).reverse.findIdx? (· == stop.name) =
      some lower.length := by
    rw [List.map_append, List.map_cons, List.nodup_middle, List.nodup_cons, List.mem_append,
      not_or] at honce
    rw [hnames, List.findIdx?_append, List.findIdx?_eq_none_iff.2]
    · rw [List.map_append, List.reverse_append]
      simp [List.findIdx?_cons]
    · intro n hn
      simp only [List.mem_reverse] at hn
      simp only [beq_eq_false_iff_ne]
      rintro rfl
      exact honce.1.2 hn
  unfold trailFrom
  simp only [hfirst, Option.getD_some]
  rw [hnames, List.drop_left']
  simp

/-- With an empty trail and no name without a mark, all names were left behind. -/
theorem Searching.finished_of_unmarked (h : Searching deps names marks [] finished)
    (hnone : unmarked names marks = []) {n : String} (hn : n ∈ names) : n ∈ finished := by
  rw [← h.done_iff]
  rcases hmark : marks.get? n with _ | _ | _
  · exact absurd (mem_unmarked.2 ⟨hn, hmark⟩) (hnone ▸ List.not_mem_nil)
  · exact absurd ((h.visiting_iff n).1 hmark) List.not_mem_nil
  · rfl

/-- A name of the trail that its first stop depends on closes a cycle. -/
theorem Searching.isCycle {further : List String}
    (h : Searching deps names marks (⟨name, next :: further⟩ :: trail) finished)
    (hvisiting : marks.get? next = some .visiting) :
    IsCycle (DependsWithin deps names) (trailFrom (⟨name, further⟩ :: trail) next) := by
  have hback : DependsWithin deps names name next :=
    ⟨h.onTrail.1, h.onTrail.2.2.1 next List.mem_cons_self⟩
  have hchain := onTrail_isChain h.onTrail
  have honce := h.once
  have hmem : next ∈ (Stop.mk name further :: trail).map Stop.name :=
    (h.visiting_iff next).1 hvisiting
  obtain ⟨stop, hstop, rfl⟩ := List.mem_map.1 hmem
  obtain ⟨upper, lower, hsplit⟩ := List.append_of_mem hstop
  have hnames : name :: trail.map Stop.name = (upper ++ stop :: lower).map Stop.name :=
    congrArg (List.map Stop.name) hsplit
  rw [List.map_cons, hnames] at hchain honce
  rw [hsplit, trailFrom_eq honce]
  have hhead : ((upper ++ [stop]).map Stop.name).head (by simp) = name := by
    cases upper with
    | nil => exact (List.cons.inj hnames).1.symm
    | cons top upper => exact (List.cons.inj hnames).1.symm
  rw [List.append_cons, List.map_append] at hchain honce
  refine ⟨by simp, List.nodup_reverse.2 honce.of_append_left, ?_, ?_⟩
  · exact List.isChain_reverse.2 hchain.left_of_append
  · rw [List.getLast_reverse, hhead]
    simpa using hback

/-- Goes on until it has found a cycle or has left all names behind. -/
theorem Searching.searchFrom_cases (h : Searching deps names marks trail finished) :
    (∃ found, searchFrom deps names marks trail = some found ∧
        IsCycle (DependsWithin deps names) found) ∨
      (searchFrom deps names marks trail = none ∧
        ∀ n, ¬ Relation.TransGen (DependsWithin deps names) n n) := by
  fun_induction searchFrom deps names marks trail generalizing finished with
  | case1 marks hnone =>
    refine .inr ⟨rfl, fun n hcycle => ?_⟩
    have hall : ∀ m ∈ names, m ∈ finished := fun m hm => h.finished_of_unmarked hnone hm
    refine Nat.lt_irrefl _ (h.respects.idxOf_lt (Relation.TransGen.mono ?_ n n hcycle))
    rintro a b ⟨ha, hb, hab⟩
    exact ⟨hall a ha, hall b hb, hab⟩
  | case2 marks start rest hstart hlt ih =>
    have hmem : start ∈ unmarked names marks := hstart ▸ List.mem_cons_self
    exact ih (h.push hmem rfl trivial)
  | case3 marks name trail hlt ih => exact ih h.pop
  | case4 marks name next further trail hgone hvisiting => exact .inl ⟨_, rfl, h.isCycle hvisiting⟩
  | case5 marks name next further trail hgone hvisiting hnext hlt ih =>
    exact ih (h.push hnext rfl h.goTo)
  | case6 marks name next further trail hgone hvisiting hnext ih =>
    exact ih (h.skip hvisiting hnext)

end

/-! ## The search as it visits the names -/

section

variable {deps : Dependencies} {names : NameSet} {marks : Dict Mark} {name : String}

/-- Goes on behind a visit, unless it has found a cycle. -/
def Visit.andThen (v : Visit marks) (next : Dict Mark → Option (List String)) :
    Option (List String) :=
  match v with
  | .error cycle => some cycle
  | .ok after => next after.1

section Steps

variable {trail : List String} {d : String} {rest : List String}
  (h : ∀ n ∈ d :: rest, n ∈ names.toList)

/-- A name on the trail ends the search. -/
theorem visitEach_of_visiting (hmark : marks.get? d = some .visiting) :
    visitEach deps names marks trail (d :: rest) h =
      .error (trail.drop ((trail.findIdx? (· == d)).getD 0)) := by
  rw [visitEach]
  split
  · rfl
  · next hdone => cases hmark.symm.trans hdone
  · next hnone => cases hmark.symm.trans hnone

/-- A name that was left behind is passed over. -/
theorem visitEach_of_done (hmark : marks.get? d = some .done) :
    visitEach deps names marks trail (d :: rest) h =
      visitEach deps names marks trail rest (List.forall_mem_cons.1 h).2 := by
  rw [visitEach]
  split
  · next hvisiting => cases hmark.symm.trans hvisiting
  · rfl
  · next hnone => cases hmark.symm.trans hnone

/-- A name without a mark is visited before the others. -/
theorem andThen_visitEach_of_unmarked (hd : d ∈ unmarked names.toList marks)
    (next : Dict Mark → Option (List String)) :
    (visitEach deps names marks trail (d :: rest) h).andThen next =
      (visit deps names marks trail d hd).andThen fun after =>
        (visitEach deps names after trail rest (List.forall_mem_cons.1 h).2).andThen next := by
  have hmark := (mem_unmarked.1 hd).2
  rw [visitEach]
  split
  · next hvisiting => cases hmark.symm.trans hvisiting
  · next hdone => cases hmark.symm.trans hdone
  · cases visit deps names marks trail d hd with
    | error cycle => rfl
    | ok after =>
      simp only [Visit.andThen]
      cases visitEach deps names after.1 trail rest (List.forall_mem_cons.1 h).2 with
      | error cycle => rfl
      | ok last => rfl

/-- While a name is visited, it is at the end of the trail. -/
theorem andThen_visit (hd : d ∈ unmarked names.toList marks)
    (next : Dict Mark → Option (List String)) :
    (visit deps names marks trail d hd).andThen next =
      (visitEach deps names (marks.insert d .visiting) (trail ++ [d]) (within deps names d)
        fun _ hn => mem_of_mem_within hn).andThen fun after => next (after.insert d .done) := by
  rw [visit]
  cases visitEach deps names (marks.insert d .visiting) (trail ++ [d]) (within deps names d)
      fun _ hn => mem_of_mem_within hn with
  | error cycle => rfl
  | ok after => rfl

end Steps

/-- The names of a trail, begun at its far end. -/
def trailNames (trail : List Stop) : List String := (trail.map Stop.name).reverse

theorem trailNames_cons (stop : Stop) (trail : List Stop) :
    trailNames (stop :: trail) = trailNames trail ++ [stop.name] := List.reverse_cons

mutual

/-- A visit does what the run does from the stop at its name until it has left it behind. -/
theorem searchFrom_visit (marks : Dict Mark) (trail : List Stop) (name : String)
    (h : name ∈ unmarked names.toList marks) :
    searchFrom deps names.toList (marks.insert name .visiting)
        (stopAt deps names.toList name :: trail) =
      (visit deps names marks (trailNames trail) name h).andThen fun after =>
        searchFrom deps names.toList after trail := by
  have hless := length_unmarked_insert_lt h .visiting
  have heach := searchFrom_visitEach (marks.insert name .visiting) trail name
    (within deps names name) fun _ hd => mem_of_mem_within hd
  rw [trailNames_cons] at heach
  rw [andThen_visit]
  refine heach.trans (congrArg _ (funext fun after => ?_))
  rw [searchFrom]
termination_by ((unmarked names.toList marks).length, 0)
decreasing_by exact Prod.Lex.left _ _ hless

/-- Visiting the names that are ahead of a stop does what the run does from there until nothing is
ahead of it. -/
theorem searchFrom_visitEach (marks : Dict Mark) (trail : List Stop) (name : String)
    (ds : List String) (h : ∀ d ∈ ds, d ∈ names.toList) :
    searchFrom deps names.toList marks (⟨name, ds⟩ :: trail) =
      (visitEach deps names marks (trailNames (⟨name, ds⟩ :: trail)) ds h).andThen fun after =>
        searchFrom deps names.toList after (⟨name, []⟩ :: trail) := by
  match ds, h with
  | [], h =>
    rw [visitEach]
    rfl
  | d :: rest, h =>
    have hrest := (List.forall_mem_cons.1 h).2
    rw [searchFrom]
    cases hmark : marks.get? d with
    | none =>
      have hd : d ∈ unmarked names.toList marks := mem_unmarked.2 ⟨h d List.mem_cons_self, hmark⟩
      rw [if_neg (by simp), dif_pos hd, searchFrom_visit marks (⟨name, rest⟩ :: trail) d hd,
        andThen_visitEach_of_unmarked h hd]
      show Visit.andThen (visit deps names marks (trailNames (⟨name, rest⟩ :: trail)) d hd) _ =
        Visit.andThen (visit deps names marks (trailNames (⟨name, rest⟩ :: trail)) d hd) _
      cases visit deps names marks (trailNames (⟨name, rest⟩ :: trail)) d hd with
      | error cycle => rfl
      | ok after =>
        have hle := after.2.length_unmarked_le names.toList
        exact searchFrom_visitEach after.1 trail name rest hrest
    | some mark =>
      cases mark with
      | visiting =>
        rw [if_pos rfl, visitEach_of_visiting h hmark]
        rfl
      | done =>
        have hnot : d ∉ unmarked names.toList marks := by
          rw [mem_unmarked, hmark]
          simp
        rw [if_neg (by simp), dif_neg hnot, visitEach_of_done h hmark]
        exact searchFrom_visitEach marks trail name rest hrest
termination_by ((unmarked names.toList marks).length, ds.length + 1)
decreasing_by
  · exact Prod.Lex.right _ (Nat.succ_pos _)
  · exact Prod.Lex.right' _ hle (Nat.lt_succ_self _)
  · exact Prod.Lex.right _ (Nat.lt_succ_self _)

end

/-! ## The whole search -/

/-- A later state of the marks leaves some of the names without a mark. -/
theorem Keeps.unmarked_eq {after : Dict Mark} (h : Keeps marks after) (l : List String) :
    unmarked l after = unmarked (unmarked l marks) after := by
  unfold unmarked
  rw [List.filter_filter]
  refine List.filter_congr fun n _ => ?_
  cases hmark : marks.contains n with
  | false => simp
  | true => simp [h n hmark]

theorem unmarked_cons_of_unmarked {start : String} (h : marks.get? start = none)
    (rest : List String) : unmarked (start :: rest) marks = start :: unmarked rest marks := by
  unfold unmarked
  rw [List.filter_cons_of_pos]
  simp [Dict.contains, h]

theorem unmarked_cons_of_marked {start : String} {mark : Mark} (h : marks.get? start = some mark)
    (rest : List String) : unmarked (start :: rest) marks = unmarked rest marks := by
  unfold unmarked
  rw [List.filter_cons_of_neg]
  simp [Dict.contains, h]

/-- From an empty trail the run begins at the first name without a mark. -/
theorem searchFrom_nil {start : String} {others : List String} (next : List String)
    (hnext : unmarked next marks = start :: others) :
    searchFrom deps next marks [] =
      searchFrom deps next (marks.insert start .visiting) [stopAt deps next start] := by
  rw [searchFrom]
  split
  · next hnone => cases hnext.symm.trans hnone
  · next hsome =>
    cases hnext.symm.trans hsome
    rfl

/-- Visiting the names one after the other does what the run does, as long as no name without a mark
is missing among those that are still to be visited. -/
theorem searchFrom_nil_eq_searchEach {starts : List String} (h : ∀ n ∈ starts, n ∈ names.toList)
    (hstarts : unmarked names.toList marks = unmarked starts marks) :
    searchFrom deps names.toList marks [] = searchEach deps names marks starts h := by
  induction starts generalizing marks with
  | nil =>
    rw [searchFrom, searchEach]
    split
    · rfl
    · next hsome => cases hsome.symm.trans hstarts
  | cons start rest ih =>
    have hrest := (List.forall_mem_cons.1 h).2
    rw [searchEach]
    split
    · next mark hmark =>
      exact ih hrest (hstarts.trans (unmarked_cons_of_marked hmark rest))
    · next hmark =>
      have hfirst := hstarts.trans (unmarked_cons_of_unmarked hmark rest)
      have hstart : start ∈ unmarked names.toList marks := hfirst ▸ List.mem_cons_self
      have hvisit : searchFrom deps names.toList marks [] =
          (visit deps names marks [] start hstart).andThen fun after =>
            searchFrom deps names.toList after [] :=
        (searchFrom_nil names.toList hfirst).trans (searchFrom_visit marks [] start hstart)
      show _ = Visit.andThen (visit deps names marks [] start hstart) fun after =>
        searchEach deps names after rest hrest
      rw [hvisit, andThen_visit, andThen_visit]
      cases visitEach deps names (marks.insert start .visiting) ([] ++ [start])
          (within deps names start) fun _ hn => mem_of_mem_within hn with
      | error cycle => rfl
      | ok after =>
        have hkeeps : Keeps marks (after.1.insert start .done) :=
          after.2.of_insert.insert start .done
        have hdone : (after.1.insert start .done).get? start = some .done := by
          rw [Dict.get?_insert, if_pos rfl]
        refine ih hrest ?_
        rw [hkeeps.unmarked_eq names.toList, hstarts, ← hkeeps.unmarked_eq,
          unmarked_cons_of_marked hdone]

/-- The search is the run from an empty trail. -/
theorem search_eq_searchFrom (deps : Dependencies) (names : NameSet) :
    search deps names = searchFrom deps names.toList ∅ [] :=
  (searchFrom_nil_eq_searchEach (fun _ hn => hn) rfl).symm

/-- The search finds a cycle, or nothing because there is none. -/
theorem search_cases (deps : Dependencies) (names : NameSet) :
    (∃ c, search deps names = some c ∧ IsCycle (DependsWithin deps names.toList) c) ∨
      (search deps names = none ∧
        ∀ n, ¬ Relation.TransGen (DependsWithin deps names.toList) n n) := by
  rw [search_eq_searchFrom]
  exact (searching_start deps names.toList).searchFrom_cases

/-- What the search finds is a cycle. -/
theorem isCycle_of_search {found : List String} (h : search deps names = some found) :
    IsCycle (DependsWithin deps names.toList) found := by
  rcases search_cases deps names with ⟨found', hfound, hcycle⟩ | ⟨hnone, -⟩
  · cases h.symm.trans hfound
    exact hcycle
  · cases h.symm.trans hnone

/-- The search finds nothing exactly when there is no cycle. -/
theorem search_eq_none_iff :
    search deps names = none ↔
      ∀ n, ¬ Relation.TransGen (DependsWithin deps names.toList) n n := by
  constructor
  · intro h
    rcases search_cases deps names with ⟨found, hfound, -⟩ | ⟨-, hacyclic⟩
    · cases h.symm.trans hfound
    · exact hacyclic
  · intro hacyclic
    cases h : search deps names with
    | none => rfl
    | some found =>
      obtain ⟨n, hn⟩ := (isCycle_of_search h).transGen
      exact absurd hn (hacyclic n)

/-- Each name that remains when no name is ready depends on one that remains. -/
theorem exists_dep_of_remaining {n : String} (hn : n ∈ (remaining deps names).toList) :
    ∃ d ∈ deps n, d ∈ (remaining deps names).toList := by
  rw [toList_remaining] at hn ⊢
  exact exists_dep_of_stuck deps names.toList n hn

/-- Names that are not sorted are reported with a cycle among those that remain. The search finds
one, since each of them depends on one of them. -/
theorem search_of_sort_eq_error {c : List String} (h : sort deps names = .error c) :
    search deps (remaining deps names) = some c ∧
      IsCycle (DependsWithin deps names.toList) c := by
  obtain ⟨hne, rfl⟩ := sort_eq_error_iff.1 h
  obtain ⟨n, hn⟩ := exists_cycle_of_stuck hne fun _ hn => exists_dep_of_remaining hn
  obtain ⟨found, hfound⟩ : ∃ found, search deps (remaining deps names) = some found := by
    rw [← Option.ne_none_iff_exists', ne_eq, search_eq_none_iff]
    exact fun hacyclic => hacyclic n hn
  have hcycle : cycle deps (remaining deps names) = found := by
    rw [cycle, hfound, Option.getD_some]
  have hsub : ∀ m ∈ (remaining deps names).toList, m ∈ names.toList := fun m hm =>
    List.mem_of_mem_filter hm
  rw [hcycle]
  refine ⟨hfound, (isCycle_of_search hfound).mono ?_⟩
  rintro a b ⟨ha, hb, hab⟩
  exact ⟨hsub a ha, hsub b hb, hab⟩

/-- The search comes to an end, with a cycle or because there is none. When names cannot be sorted,
each of those that remain depends on one that remains, and what is reported is the cycle that the
search finds among them. -/
structure SearchesCycle (deps : Dependencies) (names : NameSet) : Prop where
  ends : (∃ c, search deps names = some c ∧ IsCycle (DependsWithin deps names.toList) c) ∨
    (search deps names = none ∧ ∀ n, ¬ Relation.TransGen (DependsWithin deps names.toList) n n)
  remains : ∀ n ∈ (remaining deps names).toList,
    ∃ d ∈ deps n, d ∈ (remaining deps names).toList
  reports : ∀ c, sort deps names = .error c → search deps (remaining deps names) = some c

theorem searchesCycle (deps : Dependencies) (names : NameSet) : SearchesCycle deps names where
  ends := search_cases deps names
  remains _ hn := exists_dep_of_remaining hn
  reports _ hsort := (search_of_sort_eq_error hsort).1

end

end BuildAhead.Ordering
