import BuildAhead.Proofs.Modules.Ordering

set_option autoImplicit false

/-!
# Modules: counters in place of a look at all names

`Ordering.takeAll` does not look through the names that are left: it counts down. What carries the
count is one invariant: the counter of every name that is left is the number of its declared
dependencies that are left, each as often as it is declared, and the ready names are those whose
counter is zero. So the least ready name is the one that `Ordering.place` finds, and both leave the
same names behind.
-/

namespace BuildAhead.Ordering

/-- The dependencies of a name that are left, each as often as it is declared. -/
def waitsFor (deps : Dependencies) (left : List String) (name : String) : List String :=
  (deps name).filter left.contains

section

variable {deps : Dependencies} {names : NameSet} {left : List String} {name n d : String}

theorem isReady_iff_waitsFor_eq_nil : isReady deps left n = true ↔ waitsFor deps left n = [] := by
  unfold waitsFor
  rw [isReady_iff, List.filter_eq_nil_iff]
  simp

/-- A name waits for as much less as it declares the name that is taken. -/
theorem length_waitsFor (hleft : left.Nodup) (hname : name ∈ left) (n : String) :
    (waitsFor deps left n).length =
      (waitsFor deps (left.erase name) n).length + (deps n).count name := by
  have hcontains : ∀ d, (left.erase name).contains d = (left.contains d && d != name) := by
    intro d
    rw [Bool.eq_iff_iff, Bool.and_eq_true, List.contains_iff_mem, List.contains_iff_mem,
      hleft.mem_erase_iff, bne_iff_ne, and_comm]
  unfold waitsFor
  induction deps n with
  | nil => rfl
  | cons d rest ih =>
    rw [List.filter_cons, List.filter_cons, hcontains, List.count_cons]
    by_cases hd : d = name
    · subst hd
      have hmem : left.contains d = true := List.contains_iff_mem.2 hname
      simp only [hmem, if_true, bne_self_eq_false, Bool.and_false, Bool.false_eq_true, if_false,
        beq_self_eq_true, List.length_cons]
      omega
    · have hbne : (d != name) = true := bne_iff_ne.2 hd
      have hbeq : (d == name) = false := beq_eq_false_iff_ne.2 hd
      simp only [hbne, hbeq, Bool.and_true, Bool.false_eq_true, if_false, Nat.add_zero]
      split
      · rw [List.length_cons, List.length_cons, ih]
        omega
      · exact ih

/-! ## The counters before the first name is taken -/

/-- Of the pairs that begin with one name, those are counted that its dependencies give. -/
theorem countP_edges {p : String × String → Bool} (hn : n ∈ names.toList)
    (hp : ∀ e, p e = true → e.1 = n) :
    (edges deps names).countP p = (waitsFor deps names.toList n).countP fun d => p (n, d) := by
  have hall : ∀ l : List String, l.Nodup →
      (l.flatMap fun m => ((deps m).filter names.contains).map fun d => (m, d)).countP p =
        if n ∈ l then (waitsFor deps names.toList n).countP fun d => p (n, d) else 0 := by
    intro l hl
    induction l with
    | nil => rfl
    | cons m rest ih =>
      obtain ⟨hm, hrest⟩ := List.nodup_cons.1 hl
      rw [List.flatMap_cons, List.countP_append, ih hrest, List.countP_map]
      by_cases hmn : m = n
      · subst hmn
        rw [if_neg hm, if_pos List.mem_cons_self, Nat.add_zero]
        rfl
      · have hnone : ((deps m).filter names.contains).countP (p ∘ fun d => (m, d)) = 0 := by
          rw [List.countP_eq_zero]
          exact fun d _ hd => hmn (hp _ hd)
        have hiff : n ∈ m :: rest ↔ n ∈ rest := by simp [Ne.symm hmn]
        rw [hnone, Nat.zero_add, if_congr hiff rfl rfl]
  have hedges := hall names.toList (nodup_of_ascending names.ascending)
  rw [if_pos hn] at hedges
  exact hedges

/-- A name that has a counter waits for one more dependency with each of its pairs. -/
theorem get?_counts_foldl_add (es : List (String × String)) {w : Waits} {count : Nat}
    (h : w.counts.get? n = some count) :
    (es.foldl Waits.add w).counts.get? n = some (count + es.countP (·.1 == n)) := by
  induction es generalizing w count with
  | nil => exact h
  | cons e rest ih =>
    rw [List.foldl_cons, List.countP_cons]
    by_cases hn : n = e.1
    · have hadd : (w.add e).counts.get? n = some (count + 1) := by
        rw [Waits.add, Dict.get?_alter, if_pos hn, ← hn, h, Option.getD_some]
      rw [ih hadd, hn, beq_self_eq_true, if_pos rfl, Nat.add_assoc, Nat.add_comm 1]
    · have hadd : (w.add e).counts.get? n = some count := by
        rw [Waits.add, Dict.get?_alter, if_neg hn, h]
      rw [ih hadd, beq_eq_false_iff_ne.2 (Ne.symm hn), if_neg Bool.false_ne_true, Nat.add_zero]

/-- No other name than those of the pairs gets a counter. -/
theorem get?_counts_foldl_add_eq_none (es : List (String × String)) {w : Waits}
    (h : w.counts.get? n = none) (hes : n ∉ es.map (·.1)) :
    (es.foldl Waits.add w).counts.get? n = none := by
  induction es generalizing w with
  | nil => exact h
  | cons e rest ih =>
    rw [List.map_cons, List.mem_cons, not_or] at hes
    refine ih ?_ hes.2
    rw [Waits.add, Dict.get?_alter, if_neg hes.1, h]

theorem getD_dependents_foldl_add (es : List (String × String)) (w : Waits) :
    ((es.foldl Waits.add w).dependents.get? d).getD [] =
      (w.dependents.get? d).getD [] ++ (es.filter (·.2 == d)).map (·.1) := by
  induction es generalizing w with
  | nil => rw [List.foldl_nil, List.filter_nil, List.map_nil, List.append_nil]
  | cons e rest ih =>
    rw [List.foldl_cons, ih, Waits.add, Dict.get?_alter, List.filter_cons]
    by_cases hd : d = e.2
    · rw [if_pos hd, ← hd, beq_self_eq_true, if_pos rfl, Option.getD_some, List.map_cons,
        List.append_assoc, List.singleton_append]
    · rw [if_neg hd, beq_eq_false_iff_ne.2 (Ne.symm hd), if_neg Bool.false_ne_true]

/-- The counter of a name is the number of its dependencies among the names. -/
theorem get?_counts_waits (hn : n ∈ names.toList) :
    (waits deps names).counts.get? n = some (waitsFor deps names.toList n).length := by
  have hzero : (Dict.ofList (names.toList.map fun n => (n, 0))).get? n = some 0 := by
    refine Dict.get?_ofList_of_forall (List.mem_map.2 ⟨n, hn, rfl⟩) fun count hcount => ?_
    obtain ⟨m, -, heq⟩ := List.mem_map.1 hcount
    exact (Prod.mk.inj heq).2.symm
  have hcount : (edges deps names).countP (·.1 == n) = (waitsFor deps names.toList n).length := by
    rw [countP_edges hn fun e he => beq_iff_eq.1 he]
    simp
  rw [waits, get?_counts_foldl_add _ hzero, hcount, Nat.zero_add]

theorem get?_counts_waits_eq_none (hn : n ∉ names.toList) :
    (waits deps names).counts.get? n = none := by
  refine get?_counts_foldl_add_eq_none _ ?_ ?_
  · rw [Dict.get?_ofList_eq_lookup, Dict.lookup_eq_none_iff]
    simpa using hn
  · intro hmem
    obtain ⟨e, he, rfl⟩ := List.mem_map.1 hmem
    obtain ⟨m, hm, he⟩ := List.mem_flatMap.1 he
    obtain ⟨d, -, rfl⟩ := List.mem_map.1 he
    exact hn hm

/-- A name is entered among those that depend on another as often as it declares it. -/
theorem count_dependents (hn : n ∈ names.toList) (hd : d ∈ names.toList) :
    (((waits deps names).dependents.get? d).getD []).count n = (deps n).count d := by
  have hwaits : ((waits deps names).dependents.get? d).getD [] =
      ((edges deps names).filter (·.2 == d)).map (·.1) := by
    rw [waits, getD_dependents_foldl_add]
    rfl
  have hpairs : (edges deps names).countP (fun e => e.1 == n && e.2 == d) =
      (waitsFor deps names.toList n).countP fun m => n == n && m == d :=
    countP_edges hn fun e he => beq_iff_eq.1 (Bool.and_eq_true_iff.1 he).1
  rw [hwaits, List.count, List.countP_map, List.countP_filter]
  refine hpairs.trans ?_
  unfold waitsFor
  rw [List.countP_filter, List.count]
  refine List.countP_congr fun m _ => ?_
  simp only [beq_self_eq_true, Bool.true_and, Bool.and_eq_true, beq_iff_eq, List.contains_iff_mem,
    and_iff_left_iff_imp]
  rintro rfl
  exact hd

theorem mem_names_of_mem_dependents (hn : n ∈ ((waits deps names).dependents.get? d).getD []) :
    n ∈ names.toList := by
  rw [waits, getD_dependents_foldl_add] at hn
  obtain ⟨e, he, rfl⟩ := List.mem_map.1 hn
  obtain ⟨m, hm, he⟩ := List.mem_flatMap.1 (List.mem_filter.1 he).1
  obtain ⟨d, -, rfl⟩ := List.mem_map.1 he
  exact hm

/-! ## Releasing the names that depend on one -/

/-- The counters allow that these names are released, each as often as it is given. -/
def Frontier.Allows (f : Frontier) (cs : List String) : Prop :=
  ∀ m ∈ cs, ∃ count, f.counts.get? m = some count ∧ cs.count m ≤ count

/-- A release takes one from the counter of its name and from no other. -/
theorem get?_counts_release {f : Frontier} {c : String} {count : Nat}
    (hc : f.counts.get? c = some (count + 1)) (m : String) :
    (f.release c).counts.get? m = if m = c then some count else f.counts.get? m := by
  unfold Frontier.release
  rw [hc]
  cases count with
  | zero => exact Dict.get?_insert _ _ _ _
  | succ count => exact Dict.get?_insert _ _ _ _

/-- A name is ready after a release when it was ready before or has nothing more to wait for. -/
theorem mem_ready_release {f : Frontier} {c : String} {count : Nat}
    (hc : f.counts.get? c = some (count + 1)) (m : String) :
    m ∈ (f.release c).ready.toList ↔ m ∈ f.ready.toList ∨ (m = c ∧ count = 0) := by
  unfold Frontier.release
  rw [hc]
  cases count with
  | zero =>
    rw [NameSet.mem_insert, or_comm]
    simp
  | succ count => simp

theorem Frontier.Allows.exists_succ {f : Frontier} {c : String} {rest : List String}
    (h : f.Allows (c :: rest)) :
    ∃ count, f.counts.get? c = some (count + 1) ∧ rest.count c ≤ count := by
  obtain ⟨count, hcount, hle⟩ := h c List.mem_cons_self
  rw [List.count_cons_self] at hle
  obtain ⟨less, rfl⟩ := Nat.exists_eq_add_one.2 (Nat.lt_of_lt_of_le (Nat.succ_pos _) hle)
  exact ⟨less, hcount, Nat.le_of_succ_le_succ hle⟩

/-- After one release the others are still allowed. -/
theorem Frontier.Allows.tail {f : Frontier} {c : String} {rest : List String}
    (h : f.Allows (c :: rest)) : (f.release c).Allows rest := by
  obtain ⟨less, hc, hle⟩ := h.exists_succ
  intro m hm
  rw [get?_counts_release hc]
  by_cases hmc : m = c
  · rw [if_pos hmc]
    exact ⟨less, rfl, hmc ▸ hle⟩
  · rw [if_neg hmc]
    obtain ⟨count, hcount, hcle⟩ := h m (List.mem_cons_of_mem _ hm)
    rw [List.count_cons_of_ne (Ne.symm hmc)] at hcle
    exact ⟨count, hcount, hcle⟩

/-- Each counter goes down by the number of times that its name is released. -/
theorem get?_counts_foldl_release {cs : List String} {f : Frontier} (h : f.Allows cs)
    {m : String} {count : Nat} (hm : f.counts.get? m = some count) :
    (cs.foldl Frontier.release f).counts.get? m = some (count - cs.count m) := by
  induction cs generalizing f count with
  | nil => exact hm
  | cons c rest ih =>
    obtain ⟨less, hc, -⟩ := h.exists_succ
    by_cases hmc : m = c
    · subst hmc
      have hcount : count = less + 1 := Option.some.inj (hm.symm.trans hc)
      have hless : (f.release m).counts.get? m = some less := by
        rw [get?_counts_release hc, if_pos rfl]
      rw [List.foldl_cons, ih h.tail hless, List.count_cons_self, hcount, Nat.add_sub_add_right]
    · have hsame : (f.release c).counts.get? m = some count := by
        rw [get?_counts_release hc, if_neg hmc, hm]
      rw [List.foldl_cons, ih h.tail hsame, List.count_cons_of_ne (Ne.symm hmc)]

/-- The names that become ready are those that are released as often as they wait. -/
theorem mem_ready_foldl_release {cs : List String} {f : Frontier} (h : f.Allows cs) (m : String) :
    m ∈ (cs.foldl Frontier.release f).ready.toList ↔
      m ∈ f.ready.toList ∨ (m ∈ cs ∧ f.counts.get? m = some (cs.count m)) := by
  induction cs generalizing f with
  | nil => simp
  | cons c rest ih =>
    obtain ⟨less, hc, hle⟩ := h.exists_succ
    rw [List.foldl_cons, ih h.tail, mem_ready_release hc, get?_counts_release hc, or_assoc]
    refine or_congr_right ?_
    by_cases hmc : m = c
    · subst hmc
      rw [if_pos rfl, hc, List.count_cons_self]
      have hmem : m ∈ rest ↔ rest.count m ≠ 0 := by
        rw [← Nat.pos_iff_ne_zero, List.count_pos_iff]
      simp only [true_and, List.mem_cons_self, Option.some.injEq, hmem]
      omega
    · rw [if_neg hmc, List.count_cons_of_ne (Ne.symm hmc), List.mem_cons]
      simp [hmc]

/-! ## How the counters stand -/

/-- How the counters stand while the names of `left` are not taken. -/
structure Stands (deps : Dependencies) (names : NameSet) (left : List String) (f : Frontier) :
    Prop where
  sublist : left.Sublist names.toList
  counts : ∀ n ∈ left, f.counts.get? n = some (waitsFor deps left n).length
  ready : f.ready.toList = left.filter (isReady deps left)
  taken : ∀ n ∈ names.toList, n ∉ left → isReady deps left n = true

/-- Before the first name is taken, those are ready that wait for nothing. -/
theorem stands_frontier (deps : Dependencies) (names : NameSet) :
    Stands deps names names.toList (frontier (waits deps names).counts) where
  sublist := .refl _
  counts n hn := get?_counts_waits hn
  ready := by
    refine eq_of_ascending_of_mem_iff (NameSet.ascending _) (names.ascending.filter _) fun n => ?_
    rw [frontier, NameSet.mem_ofList, List.mem_filter, isReady_iff_waitsFor_eq_nil,
      ← List.length_eq_zero_iff, List.mem_map]
    constructor
    · rintro ⟨⟨key, count⟩, he, rfl⟩
      obtain ⟨he, hzero⟩ := List.mem_filter.1 he
      have hget : (waits deps names).counts.get? key = some count := Dict.mem_toList.1 he
      by_cases hn : key ∈ names.toList
      · rw [get?_counts_waits hn, Option.some.injEq] at hget
        exact ⟨hn, hget.trans (beq_iff_eq.1 hzero)⟩
      · rw [get?_counts_waits_eq_none hn] at hget
        cases hget
    · rintro ⟨hn, hzero⟩
      have hget : (waits deps names).counts.get? n = some (waitsFor deps names.toList n).length :=
        get?_counts_waits hn
      rw [hzero] at hget
      exact ⟨(n, 0), List.mem_filter.2 ⟨Dict.mem_toList.2 hget, rfl⟩, rfl⟩
  taken n hn hnot := absurd hn hnot

theorem isReady_erase (h : isReady deps left n = true) : isReady deps (left.erase name) n = true :=
  isReady_iff.2 fun d hd hmem => isReady_iff.1 h d hd (List.mem_of_mem_erase hmem)

/-- The least name that is ready is the one that a look through the names that are left finds. -/
theorem Stands.find?_eq {f : Frontier} (h : Stands deps names left f) :
    left.find? (isReady deps left) = f.ready.popFirst?.map (·.1) := by
  rw [← List.head?_filter, ← h.ready]
  cases hpop : f.ready.popFirst? with
  | none => rw [NameSet.toList_of_popFirst?_eq_none hpop]; rfl
  | some found => rw [NameSet.toList_of_popFirst? hpop]; rfl

/-- A name is ready behind another one when it waits for nothing but that one. -/
theorem isReady_erase_iff (hleft : left.Nodup) (hname : name ∈ left) (n : String) :
    isReady deps (left.erase name) n = true ↔
      (waitsFor deps left n).length = (deps n).count name := by
  rw [isReady_iff_waitsFor_eq_nil, ← List.length_eq_zero_iff, length_waitsFor hleft hname]
  omega

section Taking

variable {f : Frontier} {rest : NameSet} {cs : List String} (h : Stands deps names left f)

include h

theorem Stands.ascending : left.Pairwise (· < ·) := names.ascending.sublist h.sublist

theorem Stands.nodup : left.Nodup := nodup_of_ascending h.ascending

variable (hpop : f.ready.popFirst? = some (name, rest))

include hpop

/-- The ready names are the one that is taken next and the rest of them. -/
theorem Stands.filter_isReady : left.filter (isReady deps left) = name :: rest.toList := by
  rw [← h.ready, NameSet.toList_of_popFirst? hpop]

theorem Stands.taken_isReady : name ∈ left ∧ isReady deps left name = true :=
  List.mem_filter.1 (h.filter_isReady hpop ▸ List.mem_cons_self)

theorem Stands.mem_rest {m : String} :
    m ∈ rest.toList ↔ m ≠ name ∧ m ∈ left ∧ isReady deps left m = true := by
  have hready := h.filter_isReady hpop
  have hnot : name ∉ rest.toList := (List.nodup_cons.1 (hready ▸ h.nodup.filter _)).1
  rw [← List.mem_filter, hready, List.mem_cons]
  constructor
  · exact fun hm => ⟨fun heq => hnot (heq ▸ hm), .inr hm⟩
  · exact fun hm => hm.2.resolve_left hm.1

variable (hcs : ∀ m ∈ names.toList, cs.count m = (deps m).count name)
  (hnames : ∀ m ∈ cs, m ∈ names.toList)

include hcs hnames

/-- A name that was taken before is not released: when it was taken, nothing that it depends on was
left. -/
theorem Stands.mem_left_of_mem {m : String} (hm : m ∈ cs) : m ∈ left ∧ name ∈ deps m := by
  have hmem := hnames m hm
  have hdep : name ∈ deps m := by
    rw [← List.count_pos_iff, ← hcs m hmem]
    exact List.count_pos_iff.2 hm
  refine ⟨?_, hdep⟩
  by_contra hnot
  exact isReady_iff.1 (h.taken m hmem hnot) name hdep (h.taken_isReady hpop).1

/-- No name is released more often than it waits. -/
theorem Stands.allows : Frontier.Allows { f with ready := rest } cs := by
  intro m hm
  have hleft := (h.mem_left_of_mem hpop hcs hnames hm).1
  refine ⟨_, h.counts m hleft, ?_⟩
  rw [hcs m (hnames m hm), length_waitsFor h.nodup (h.taken_isReady hpop).1 m]
  exact Nat.le_add_left _ _

/-- The counters go down to what is waited for without the name that is taken. -/
theorem Stands.get?_counts_take {m : String} (hm : m ∈ left) :
    (cs.foldl Frontier.release { f with ready := rest }).counts.get? m =
      some (waitsFor deps (left.erase name) m).length := by
  rw [get?_counts_foldl_release (h.allows hpop hcs hnames) (h.counts m hm),
    hcs m (h.sublist.subset hm), length_waitsFor h.nodup (h.taken_isReady hpop).1 m,
    Nat.add_sub_cancel]

/-- The names that become ready are those that waited for the name that is taken alone. -/
theorem Stands.mem_ready_take {m : String} :
    m ∈ (cs.foldl Frontier.release { f with ready := rest }).ready.toList ↔
      (m ≠ name ∧ m ∈ left) ∧ isReady deps (left.erase name) m = true := by
  obtain ⟨hname, hnameReady⟩ := h.taken_isReady hpop
  rw [mem_ready_foldl_release (h.allows hpop hcs hnames), h.mem_rest hpop]
  constructor
  · rintro (⟨hne, hm, hready⟩ | ⟨hm, hcount⟩)
    · exact ⟨⟨hne, hm⟩, isReady_erase hready⟩
    · obtain ⟨hleft, hdep⟩ := h.mem_left_of_mem hpop hcs hnames hm
      refine ⟨⟨?_, hleft⟩, (isReady_erase_iff h.nodup hname m).2 ?_⟩
      · rintro rfl
        exact isReady_iff.1 hnameReady m hdep hname
      · rw [← hcs m (hnames m hm)]
        exact Option.some.inj ((h.counts m hleft).symm.trans hcount)
  · rintro ⟨⟨hne, hm⟩, hready⟩
    by_cases hbefore : isReady deps left m = true
    · exact .inl ⟨hne, hm, hbefore⟩
    · have hcount : (waitsFor deps left m).length = cs.count m := by
        rw [hcs m (h.sublist.subset hm)]
        exact (isReady_erase_iff h.nodup hname m).1 hready
      rw [isReady_iff_waitsFor_eq_nil, ← List.length_eq_zero_iff, hcount] at hbefore
      refine .inr ⟨List.count_pos_iff.1 (Nat.pos_of_ne_zero hbefore), ?_⟩
      rw [← hcount]
      exact h.counts m hm

/-- Taking the least ready name and releasing those that depend on it keeps what the counters
say. -/
theorem Stands.take :
    Stands deps names (left.erase name) (cs.foldl .release { f with ready := rest }) where
  sublist := List.erase_sublist.trans h.sublist
  counts n hn := h.get?_counts_take hpop hcs hnames (List.mem_of_mem_erase hn)
  ready := by
    refine eq_of_ascending_of_mem_iff (NameSet.ascending _)
      ((h.ascending.sublist List.erase_sublist).filter _) fun m => ?_
    rw [h.mem_ready_take hpop hcs hnames, List.mem_filter, h.nodup.mem_erase_iff]
  taken n hn hnot := by
    by_cases hleft : n ∈ left
    · have heq : n = name := by
        by_contra hne
        exact hnot (h.nodup.mem_erase_iff.2 ⟨hne, hleft⟩)
      exact isReady_erase (heq ▸ (h.taken_isReady hpop).2)
    · exact isReady_erase (h.taken n hn hleft)

end Taking

/-- From where the counters stand, the names are taken in the order in which they are placed. -/
theorem Stands.take_eq {f : Frontier} (h : Stands deps names left f) :
    Ordering.take (waits deps names).dependents f = (place deps left).1 := by
  fun_induction place deps left generalizing f with
  | case1 left hnone =>
    rw [h.find?_eq, Option.map_eq_none_iff] at hnone
    unfold Ordering.take
    split
    · rfl
    · next hpop => cases hnone.symm.trans hpop
  | case2 left name hsome hlt order stuck heq ih =>
    rw [h.find?_eq] at hsome
    obtain ⟨⟨name', rest⟩, hpop, rfl⟩ := Option.map_eq_some_iff.1 hsome
    have hname : name' ∈ names.toList := h.sublist.subset (List.mem_of_find?_eq_some
      (h.find?_eq.trans hsome))
    have hnext := ih (h.take hpop (fun m hm => count_dependents hm hname)
      fun m hm => mem_names_of_mem_dependents hm)
    unfold Ordering.take
    split
    · next hpop' => cases hpop.symm.trans hpop'
    · next name'' rest'' hpop' =>
      cases hpop.symm.trans hpop'
      rw [heq] at hnext
      exact congrArg (name' :: ·) hnext

/-- Counting down takes the names in the order in which they are placed. -/
theorem takeAll_eq (deps : Dependencies) (names : NameSet) :
    takeAll deps names = (place deps names.toList).1 := (stands_frontier deps names).take_eq

end

/-! ## Sorting -/

/-- The names that cannot be placed are left in their order. -/
theorem place_snd_sublist (deps : Dependencies) (left : List String) :
    (place deps left).2.Sublist left := by
  fun_induction place deps left with
  | case1 left hnone => exact .refl _
  | case2 left name hsome hlt order stuck heq ih =>
    rw [heq] at ih
    exact ih.trans List.erase_sublist

/-- The names that remain are those that cannot be placed. -/
theorem toList_remaining (deps : Dependencies) (names : NameSet) :
    (remaining deps names).toList = (place deps names.toList).2 := by
  have hperm := place_perm deps names.toList
  have hnodup := hperm.nodup_iff.2 (nodup_of_ascending names.ascending)
  have hapart := List.disjoint_of_nodup_append hnodup
  refine eq_of_ascending_of_mem_iff (NameSet.ascending _)
    (names.ascending.sublist (place_snd_sublist deps names.toList)) fun n => ?_
  have hmem : n ∈ names.toList ↔
      n ∈ (place deps names.toList).1 ∨ n ∈ (place deps names.toList).2 :=
    hperm.mem_iff.symm.trans List.mem_append
  show n ∈ names.toList.filter _ ↔ _
  rw [List.mem_filter, takeAll_eq, hmem]
  simp only [Bool.not_eq_true', ← Bool.not_eq_true, List.contains_iff_mem]
  constructor
  · rintro ⟨hn | hn, hnot⟩
    · exact absurd hn hnot
    · exact hn
  · exact fun hn => ⟨.inr hn, fun htaken => hapart htaken hn⟩

/-- Fewer names are taken than there are exactly when some cannot be placed. -/
theorem length_takeAll_lt_iff {deps : Dependencies} {names : NameSet} :
    (takeAll deps names).length < names.size ↔ (remaining deps names).toList ≠ [] := by
  have hlength := (place_perm deps names.toList).length_eq
  rw [List.length_append] at hlength
  rw [takeAll_eq, toList_remaining, ← List.length_pos_iff, NameSet.size]
  omega

theorem sort_eq_ok_iff {deps : Dependencies} {names : NameSet} {order : List String} :
    sort deps names = .ok order ↔
      (place deps names.toList).2 = [] ∧ order = (place deps names.toList).1 := by
  unfold sort
  rw [if_congr length_takeAll_lt_iff rfl rfl, toList_remaining, takeAll_eq]
  by_cases hstuck : (place deps names.toList).2 = []
  · rw [if_neg (not_not_intro hstuck), Except.ok.injEq, and_iff_right hstuck, eq_comm]
  · rw [if_pos hstuck]
    simp [hstuck]

theorem sort_eq_error_iff {deps : Dependencies} {names : NameSet} {c : List String} :
    sort deps names = .error c ↔
      (remaining deps names).toList ≠ [] ∧ c = cycle deps (remaining deps names) := by
  unfold sort
  rw [if_congr length_takeAll_lt_iff rfl rfl]
  by_cases hremaining : (remaining deps names).toList = []
  · rw [if_neg (not_not_intro hremaining)]
    simp [hremaining]
  · rw [if_pos hremaining, Except.error.injEq, and_iff_right hremaining, eq_comm]

/-- Names without a cycle among them are sorted into their least arrangement. -/
theorem sort_of_acyclic {deps : Dependencies} {names : NameSet}
    (h : ∀ n, ¬ Relation.TransGen (DependsWithin deps names.toList) n n) :
    ∃ order, sort deps names = .ok order ∧ LeastArrangement deps names.toList order := by
  have hstuck : (place deps names.toList).2 = [] := place_snd_eq_nil_iff.2 h
  have hperm := place_perm deps names.toList
  rw [hstuck, List.append_nil] at hperm
  refine ⟨(place deps names.toList).1, sort_eq_ok_iff.2 ⟨hstuck, rfl⟩, ?_⟩
  refine ⟨⟨hperm, place_respects deps names.toList⟩, ?_⟩
  intro other hother
  exact (place_least names.ascending hother).2

/-- Names with a cycle among them are not sorted. -/
theorem acyclic_of_sort {deps : Dependencies} {names : NameSet} {order : List String}
    (h : sort deps names = .ok order) :
    ∀ n, ¬ Relation.TransGen (DependsWithin deps names.toList) n n :=
  place_snd_eq_nil_iff.1 (sort_eq_ok_iff.1 h).1

end BuildAhead.Ordering
