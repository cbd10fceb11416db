import BuildAhead.Code.Literal
import BuildAhead.Proofs.Code.Meaning
import BuildAhead.Proofs.Code.Splitting

set_option autoImplicit false

/-!
# Code: what literals give back

The expressions of a run of JSON values, all made with one store of helpers, evaluate to what the
values stand for, in every unit that has the helpers. Two facts carry this. A store only grows, by
helpers whose names are numbered between its old and its new numbers, so no later value touches an
earlier helper; and the calls in a new expression and in the new helpers are, each once, the names
of the new helpers.
-/

namespace BuildAhead.Code

/-! ## The calls in code -/

namespace Expr

mutual

/-- The unit's own methods that an expression calls, once for each place. -/
def callees : Expr → List String
  | .call none method args => method :: calleesOfAll args
  | .call (some target) _ args => callees target ++ calleesOfAll args
  | .construct _ args => calleesOfAll args
  | .list items => calleesOfAll items
  | .map entries => calleesOfEntries entries
  | _ => []

def calleesOfAll : List Expr → List String
  | [] => []
  | e :: rest => callees e ++ calleesOfAll rest

def calleesOfEntries : List (Expr × Expr) → List String
  | [] => []
  | (k, v) :: rest => callees k ++ callees v ++ calleesOfEntries rest

end

end Expr

namespace Stmt

mutual

/-- The unit's own methods that a statement calls, once for each place. -/
def callees : Stmt → List String
  | .eval e => e.callees
  | .bind _ value => value.callees
  | .ret value => value.callees
  | .cond condition body => condition.callees ++ calleesOfAll body

def calleesOfAll : List Stmt → List String
  | [] => []
  | s :: rest => callees s ++ calleesOfAll rest

end

end Stmt

/-- The unit's own methods that a method calls, once for each place. -/
def Method.callees (m : Method) : List String := Stmt.calleesOfAll m.body

namespace Literals

/-! ## What is added to a store -/

/-- A name that is numbered from the one store on, before the other one. -/
def Between (g g' : Literals) (name : String) : Prop :=
  (∃ i, g.nextList ≤ i ∧ i < g'.nextList ∧ name = "list" ++ toString i) ∨
    (∃ i, g.nextMap ≤ i ∧ i < g'.nextMap ∧ name = "map" ++ toString i)

/-- A store has grown by helpers with new names. Of these, some are called by new code outside the
store, the others by one another, and there is one call of each. -/
structure Adds (g g' : Literals) (callees : List String) (new : List Method) : Prop where
  helpers : g'.helpers = g.helpers ++ new
  nextList : g.nextList ≤ g'.nextList
  nextMap : g.nextMap ≤ g'.nextMap
  between : ∀ m ∈ new, Between g g' m.name
  distinct : (new.map Method.name).Nodup
  calls : (callees ++ new.flatMap Method.callees).Perm (new.map Method.name)

section

variable {g g' g'' : Literals} {callees callees' : List String} {new new' : List Method}
  {name : String}

theorem list_ne_map (i j : Nat) : "list" ++ toString i ≠ "map" ++ toString j := by
  intro h
  have hlist := congrArg String.toList h
  rw [String.toList_append, String.toList_append] at hlist
  exact absurd (List.cons.inj hlist).1 (by decide)

/-- No name is numbered on both sides of a store. -/
theorem Between.not_between (h : Between g g' name) : ¬ Between g' g'' name := by
  rintro (⟨j, hle, -, heq⟩ | ⟨j, hle, -, heq⟩)
  · rcases h with ⟨i, -, hlt, rfl⟩ | ⟨i, -, hlt, rfl⟩
    · have := SubLoaders.numbered_injective "list" heq
      omega
    · exact list_ne_map j i heq.symm
  · rcases h with ⟨i, -, hlt, rfl⟩ | ⟨i, -, hlt, rfl⟩
    · exact list_ne_map i j heq
    · have := SubLoaders.numbered_injective "map" heq
      omega

theorem Between.mono_right (h : Between g g' name) (hlist : g'.nextList ≤ g''.nextList)
    (hmap : g'.nextMap ≤ g''.nextMap) : Between g g'' name := by
  rcases h with ⟨i, hle, hlt, rfl⟩ | ⟨i, hle, hlt, rfl⟩
  · exact .inl ⟨i, hle, Nat.lt_of_lt_of_le hlt hlist, rfl⟩
  · exact .inr ⟨i, hle, Nat.lt_of_lt_of_le hlt hmap, rfl⟩

theorem Between.mono_left (h : Between g' g'' name) (hlist : g.nextList ≤ g'.nextList)
    (hmap : g.nextMap ≤ g'.nextMap) : Between g g'' name := by
  rcases h with ⟨i, hle, hlt, rfl⟩ | ⟨i, hle, hlt, rfl⟩
  · exact .inl ⟨i, Nat.le_trans hlist hle, hlt, rfl⟩
  · exact .inr ⟨i, Nat.le_trans hmap hle, hlt, rfl⟩

theorem adds_refl (g : Literals) : Adds g g [] [] where
  helpers := (List.append_nil _).symm
  nextList := Nat.le_refl _
  nextMap := Nat.le_refl _
  between _ hm := absurd hm List.not_mem_nil
  distinct := List.nodup_nil
  calls := .refl _

/-- What is added in two steps: the second one leaves the helpers of the first one alone. -/
theorem Adds.append (h : Adds g g' callees new) (h' : Adds g' g'' callees' new') :
    Adds g g'' (callees ++ callees') (new ++ new') where
  helpers := by rw [h'.helpers, h.helpers, List.append_assoc]
  nextList := Nat.le_trans h.nextList h'.nextList
  nextMap := Nat.le_trans h.nextMap h'.nextMap
  between := by
    intro m hm
    rcases List.mem_append.1 hm with hm | hm
    · exact (h.between m hm).mono_right h'.nextList h'.nextMap
    · exact (h'.between m hm).mono_left h.nextList h.nextMap
  distinct := by
    rw [List.map_append]
    refine List.nodup_append.2 ⟨h.distinct, h'.distinct, ?_⟩
    intro a ha b hb hab
    obtain ⟨m, hm, rfl⟩ := List.mem_map.1 ha
    obtain ⟨m', hm', rfl⟩ := List.mem_map.1 hb
    exact (h.between m hm).not_between (hab ▸ h'.between m' hm')
  calls := by
    rw [List.flatMap_append, List.map_append]
    refine List.Perm.trans ?_ (h.calls.append h'.calls)
    simp only [List.append_assoc]
    refine List.Perm.append_left _ ?_
    rw [← List.append_assoc, ← List.append_assoc]
    exact List.Perm.append_right _ List.perm_append_comm

/-- A helper for what was added has the calls that were outside, and is called itself. -/
theorem Adds.wrap {start : Literals} (h : Adds start g' callees new)
    (hhelpers : start.helpers = g.helpers) (hlist : g.nextList ≤ start.nextList)
    (hmap : g.nextMap ≤ start.nextMap) (hname : Between g start name) {value : Expr}
    (hvalue : value.callees = callees) (result : String) :
    Adds g (g'.record (helper name result value)) [name] (new ++ [helper name result value]) where
  helpers := by
    show g'.helpers ++ _ = _
    rw [h.helpers, hhelpers, List.append_assoc]
  nextList := Nat.le_trans hlist h.nextList
  nextMap := Nat.le_trans hmap h.nextMap
  between := by
    intro m hm
    rcases List.mem_append.1 hm with hm | hm
    · exact (h.between m hm).mono_left hlist hmap
    · obtain rfl := List.mem_singleton.1 hm
      exact hname.mono_right h.nextList h.nextMap
  distinct := by
    rw [List.map_append]
    refine List.nodup_append.2 ⟨h.distinct, List.nodup_singleton _, ?_⟩
    intro a ha b hb hab
    obtain ⟨m, hm, rfl⟩ := List.mem_map.1 ha
    obtain rfl := List.mem_singleton.1 hb
    exact hname.not_between (hab ▸ h.between m hm)
  calls := by
    have hcallees : (helper name result value).callees = callees := by
      simp [Method.callees, helper, Stmt.calleesOfAll, Stmt.callees, hvalue]
    rw [List.flatMap_append, List.map_append, List.flatMap_singleton, hcallees]
    refine List.Perm.trans List.perm_append_comm (List.Perm.append_right _ ?_)
    exact List.perm_append_comm.trans h.calls

end

mutual

/-- The expression of a value adds helpers for the lists and maps in the value. -/
theorem adds_valueOf : ∀ (v : Json) (g : Literals),
    ∃ new, Adds g (g.valueOf v).2 (g.valueOf v).1.callees new
  | .null, g => ⟨[], adds_refl g⟩
  | .bool _, g => ⟨[], adds_refl g⟩
  | .int n, g => by
    refine ⟨[], ?_⟩
    rw [valueOf]
    split
    · exact adds_refl g
    · exact adds_refl g
  | .double _, g => ⟨[], adds_refl g⟩
  | .text _, g => ⟨[], adds_refl g⟩
  | .array items, g => by
    obtain ⟨new, h⟩ := adds_itemsOf items { g with nextList := g.nextList + 1 }
    have hname : Between g { g with nextList := g.nextList + 1 } ("list" ++ toString g.nextList) :=
      .inl ⟨g.nextList, Nat.le_refl _, Nat.lt_succ_self _, rfl⟩
    exact ⟨_, h.wrap (g := g) rfl (Nat.le_succ _) (Nat.le_refl _) hname rfl "List"⟩
  | .object members, g => by
    obtain ⟨new, h⟩ := adds_membersOf members { g with nextMap := g.nextMap + 1 }
    have hname : Between g { g with nextMap := g.nextMap + 1 } ("map" ++ toString g.nextMap) :=
      .inr ⟨g.nextMap, Nat.le_refl _, Nat.lt_succ_self _, rfl⟩
    exact ⟨_, h.wrap (g := g) rfl (Nat.le_refl _) (Nat.le_succ _) hname rfl "Map"⟩

theorem adds_itemsOf : ∀ (items : List Json) (g : Literals),
    ∃ new, Adds g (g.itemsOf items).2 (Expr.calleesOfAll (g.itemsOf items).1) new
  | [], g => ⟨[], adds_refl g⟩
  | v :: rest, g => by
    obtain ⟨new, h⟩ := adds_valueOf v g
    obtain ⟨new', h'⟩ := adds_itemsOf rest (g.valueOf v).2
    exact ⟨_, h.append h'⟩

theorem adds_membersOf : ∀ (members : List (String × Json)) (g : Literals),
    ∃ new, Adds g (g.membersOf members).2 (Expr.calleesOfEntries (g.membersOf members).1) new
  | [], g => ⟨[], adds_refl g⟩
  | (_, v) :: rest, g => by
    obtain ⟨new, h⟩ := adds_valueOf v g
    obtain ⟨new', h'⟩ := adds_membersOf rest (g.valueOf v).2
    exact ⟨_, h.append h'⟩

end

/-! ## Running the code -/

open Exec

/-- Whatever can be read by name, a run in the unit ends and answers this, as soon as enough of the
unit's own calls may be open. -/
def Settles {α : Type} (u : CodeUnit) (run : (String → List Value → Exec Value) → Scope → Exec α)
    (a : α) : Prop :=
  ∃ bound, ∀ depth, bound ≤ depth → ∀ fields scope, ∃ events,
    Answers (run (u.call fields depth) scope) a events

/-- An expression evaluates to a value in the unit. -/
def Gives (u : CodeUnit) (e : Expr) (value : Value) : Prop :=
  Settles u (fun own scope => eval own scope e) value

section

variable {u : CodeUnit}

theorem settles_pure {α : Type} (a : α) : Settles u (fun _ _ => pure a) a :=
  ⟨0, fun _ _ _ _ => ⟨[], answers_pure a⟩⟩

theorem Settles.bind {α β : Type} {x : (String → List Value → Exec Value) → Scope → Exec α}
    {f : (String → List Value → Exec Value) → Scope → α → Exec β} {a : α} {b : β}
    (hx : Settles u x a) (hf : Settles u (fun own scope => f own scope a) b) :
    Settles u (fun own scope => x own scope >>= f own scope) b := by
  obtain ⟨boundx, hx⟩ := hx
  obtain ⟨boundf, hf⟩ := hf
  refine ⟨max boundx boundf, fun depth hdepth fields scope => ?_⟩
  obtain ⟨first, hfirst⟩ := hx depth (Nat.le_trans (Nat.le_max_left _ _) hdepth) fields scope
  obtain ⟨second, hsecond⟩ := hf depth (Nat.le_trans (Nat.le_max_right _ _) hdepth) fields scope
  exact ⟨_, hfirst.bind hsecond⟩

/-- An expression that is a value gives this value. -/
theorem Gives.of_eval {e : Expr} {w : Value} (h : ∀ own scope, eval own scope e = pure w) :
    Gives u e w := by
  unfold Gives
  simp only [h]
  exact settles_pure w

/-- A call of a helper gives what its expression gives. -/
theorem Gives.callOwn {name result : String} {value : Expr} {w : Value}
    (hfound : u.method? name = some (helper name result value)) (h : Gives u value w) :
    Gives u (.callOwn name []) w := by
  obtain ⟨bound, h⟩ := h
  refine ⟨bound + 1, fun depth hdepth fields scope => ?_⟩
  obtain ⟨depth, rfl⟩ : ∃ d, depth = d + 1 := ⟨depth - 1, by omega⟩
  obtain ⟨events, hvalue⟩ := h depth (Nat.le_of_succ_le_succ hdepth) fields fields
  exact ⟨_, answers_eval_callOwn answers_evalAll_nil
    (CodeUnit.answers_call hfound rfl (answers_performAll_ret hvalue []))⟩

/-- Helpers of an earlier store are helpers of the later one. -/
theorem Adds.found {g g' : Literals} {callees : List String} {new : List Method}
    (h : Adds g g' callees new) (hfound : ∀ m ∈ g'.helpers, u.method? m.name = some m) :
    ∀ m ∈ g.helpers, u.method? m.name = some m := by
  intro m hm
  exact hfound m (h.helpers ▸ List.mem_append_left _ hm)

end

mutual

/-- In a unit that has the helpers, the expression of a value gives that value. -/
theorem gives_valueOf {u : CodeUnit} : ∀ (v : Json) (g : Literals),
    (∀ m ∈ (g.valueOf v).2.helpers, u.method? m.name = some m) →
    (∀ n ∈ v.ints, Json.inInt64 n = true) → Gives u (g.valueOf v).1 v.denote
  | .null, _, _, _ => .of_eval fun _ _ => rfl
  | .bool _, _, _, _ => .of_eval fun _ _ => rfl
  | .int n, _, _, hfits => by
    have hfit : Json.inInt64 n = true := hfits n List.mem_cons_self
    rw [valueOf, if_pos hfit]
    exact .of_eval fun _ _ => rfl
  | .double _, _, _, _ => .of_eval fun _ _ => rfl
  | .text _, _, _, _ => .of_eval fun _ _ => rfl
  | .array items, g, hfound, hfits => by
    let start : Literals := { g with nextList := g.nextList + 1 }
    have hitems : Settles u (fun own scope => evalAll own scope (start.itemsOf items).1)
        (Json.denoteItems items) :=
      settles_itemsOf items start (fun m hm => hfound m (List.mem_append_left _ hm)) hfits
    refine Gives.callOwn (hfound _ (List.mem_append_right _ List.mem_cons_self)) ?_
    unfold Gives
    simp only [eval]
    exact hitems.bind (settles_pure _)
  | .object members, g, hfound, hfits => by
    let start : Literals := { g with nextMap := g.nextMap + 1 }
    have hmembers : Settles u (fun own scope => evalEntries own scope (start.membersOf members).1)
        (Json.denoteMembers members) :=
      settles_membersOf members start (fun m hm => hfound m (List.mem_append_left _ hm)) hfits
    refine Gives.callOwn (hfound _ (List.mem_append_right _ List.mem_cons_self)) ?_
    unfold Gives
    simp only [eval]
    exact hmembers.bind (settles_pure _)

theorem settles_itemsOf {u : CodeUnit} : ∀ (items : List Json) (g : Literals),
    (∀ m ∈ (g.itemsOf items).2.helpers, u.method? m.name = some m) →
    (∀ n ∈ Json.intsOfItems items, Json.inInt64 n = true) →
    Settles u (fun own scope => evalAll own scope (g.itemsOf items).1) (Json.denoteItems items)
  | [], _, _, _ => by
    simp only [itemsOf, evalAll]
    exact settles_pure _
  | v :: rest, g, hfound, hfits => by
    obtain ⟨new, hadds⟩ := adds_itemsOf rest (g.valueOf v).2
    have hvalue := gives_valueOf v g (hadds.found hfound)
      fun n hn => hfits n (List.mem_append_left _ hn)
    have hrest := settles_itemsOf rest (g.valueOf v).2 hfound
      fun n hn => hfits n (List.mem_append_right _ hn)
    simp only [itemsOf, evalAll]
    exact Settles.bind hvalue (hrest.bind (settles_pure _))

theorem settles_membersOf {u : CodeUnit} : ∀ (members : List (String × Json)) (g : Literals),
    (∀ m ∈ (g.membersOf members).2.helpers, u.method? m.name = some m) →
    (∀ n ∈ Json.intsOfMembers members, Json.inInt64 n = true) →
    Settles u (fun own scope => evalEntries own scope (g.membersOf members).1)
      (Json.denoteMembers members)
  | [], _, _, _ => by
    simp only [membersOf, evalEntries]
    exact settles_pure _
  | (k, v) :: rest, g, hfound, hfits => by
    obtain ⟨new, hadds⟩ := adds_membersOf rest (g.valueOf v).2
    have hvalue := gives_valueOf v g (hadds.found hfound)
      fun n hn => hfits n (List.mem_append_left _ hn)
    have hrest := settles_membersOf rest (g.valueOf v).2 hfound
      fun n hn => hfits n (List.mem_append_right _ hn)
    simp only [membersOf, evalEntries, eval]
    exact (settles_pure _).bind (Settles.bind hvalue (hrest.bind (settles_pure _)))

end

/-! ## A run of values -/

/-- What is made into code: a value, or a map in place. -/
inductive Given where
  | value (v : Json)
  | map (members : List (String × Json))

/-- The value that is given. -/
def Given.json : Given → Json
  | .value v => v
  | .map members => .object members

/-- The code for what is given. -/
def make (g : Literals) : Given → Expr × Literals
  | .value v => g.value v
  | .map members => g.map members

/-- The code for each of a run of values, all made with one store. -/
def makeAll (g : Literals) : List Given → List Expr × Literals
  | [] => ([], g)
  | first :: rest =>
    let (e, g) := g.make first
    let (es, g) := g.makeAll rest
    (e :: es, g)

theorem adds_make (q : Given) (g : Literals) :
    ∃ new, Adds g (g.make q).2 (g.make q).1.callees new := by
  cases q with
  | value v => exact adds_valueOf v.canonical g
  | map members => exact adds_membersOf (Json.canonicalMembers members []) g

theorem adds_makeAll (given : List Given) (g : Literals) :
    ∃ new, Adds g (g.makeAll given).2 ((g.makeAll given).1.flatMap Expr.callees) new := by
  induction given generalizing g with
  | nil => exact ⟨[], adds_refl g⟩
  | cons q rest ih =>
    obtain ⟨new, h⟩ := adds_make q g
    obtain ⟨new', h'⟩ := ih (g.make q).2
    exact ⟨_, h.append h'⟩

/-- The code for what is given gives what this stands for. -/
theorem gives_make {u : CodeUnit} {q : Given} {g : Literals}
    (hfound : ∀ m ∈ (g.make q).2.helpers, u.method? m.name = some m)
    (hfits : ∀ n ∈ q.json.ints, Json.inInt64 n = true) :
    ∃ w, q.json.StandsFor w ∧ Gives u (g.make q).1 w := by
  refine ⟨q.json.canonical.denote, Json.standsFor_canonical q.json, ?_⟩
  cases q with
  | value v =>
    exact gives_valueOf v.canonical g hfound
      fun n hn => hfits n (Json.mem_ints_canonical v n hn)
  | map members =>
    have hentries := settles_membersOf (Json.canonicalMembers members []) g hfound
      fun n hn => hfits n (Json.mem_ints_canonical (.object members) n hn)
    unfold Gives
    simp only [make, map, eval]
    exact hentries.bind (settles_pure _)

/-- The code for a run of values, with the helpers at its end: no two helpers have one name, each is
called from one place, and in every unit that has the helpers, each expression gives the value that
it was made for. -/
structure GivesBack (given : List Given) (es : List Expr) (helpers : List Method) : Prop where
  distinct : (helpers.map Method.name).Nodup
  called : (es.flatMap Expr.callees ++ helpers.flatMap Method.callees).Perm
    (helpers.map Method.name)
  gives : ∀ u : CodeUnit, (u.methods.map Method.name).Nodup → (∀ m ∈ helpers, m ∈ u.methods) →
    List.Forall₂ (fun q e => ∃ w, q.json.StandsFor w ∧ Gives u e w) given es

theorem gives_makeAll {u : CodeUnit} {given : List Given} {g : Literals}
    (hfound : ∀ m ∈ (g.makeAll given).2.helpers, u.method? m.name = some m)
    (hfits : ∀ q ∈ given, ∀ n ∈ q.json.ints, Json.inInt64 n = true) :
    List.Forall₂ (fun q e => ∃ w, q.json.StandsFor w ∧ Gives u e w) given (g.makeAll given).1 := by
  induction given generalizing g with
  | nil => exact .nil
  | cons q rest ih =>
    obtain ⟨new, hadds⟩ := adds_makeAll rest (g.make q).2
    refine .cons (gives_make (hadds.found hfound) (hfits q List.mem_cons_self)) ?_
    exact ih hfound fun q hq => hfits q (List.mem_cons_of_mem _ hq)

/-- Values whose integers fit are given back. -/
theorem makeAll_givesBack {given : List Given}
    (hfits : ∀ q ∈ given, ∀ n ∈ q.json.ints, Json.inInt64 n = true) :
    GivesBack given (makeAll {} given).1 (makeAll {} given).2.helpers := by
  obtain ⟨new, hadds⟩ := adds_makeAll given {}
  have hnew : (makeAll {} given).2.helpers = new := hadds.helpers
  refine ⟨?_, ?_, ?_⟩
  · rw [hnew]
    exact hadds.distinct
  · rw [hnew]
    exact hadds.calls
  · intro u hnodup hmethods
    exact gives_makeAll (fun m hm => CodeUnit.method?_of_mem hnodup (hmethods m hm)) hfits

/-- Two values made with one store: a map with a map and a list in it, and a list whose helper gets
the next number. -/
theorem makeAll_givesBack_of_two :
    let given : List Given :=
      [.map [("hosts", .array [.text "a"]), ("cache", .object [("url", .null), ("size", .int 5)])],
        .value (.array [.int (-1), .double ⟨0⟩])]
    (∀ q ∈ given, ∀ n ∈ q.json.ints, Json.inInt64 n = true) ∧
      GivesBack given (makeAll {} given).1 (makeAll {} given).2.helpers ∧
      (makeAll {} given).2.helpers.map Method.name = ["map0", "list0", "list1"] := by
  intro given
  have hfits : ∀ q ∈ given, ∀ n ∈ q.json.ints, Json.inInt64 n = true := by decide
  exact ⟨hfits, makeAll_givesBack hfits, by decide⟩

end Literals

end BuildAhead.Code
