import Mathlib.Data.List.Nodup
import Std.Data.String.ToNat
import BuildAhead.Code.Splitting
import BuildAhead.Number.Sum
import BuildAhead.Proofs.Code.Execution

set_option autoImplicit false

/-!
# Code: segments and sub-loaders

Cutting a list into segments loses nothing and keeps the order, and a segment of more than one item
stays within the budget; no other way to cut the list needs fewer segments. The sub-loaders of a
unit have names of their own, so each call of a sub-loader runs the segment that it was made for, and
all the calls together run the segments one after the other.
-/

namespace BuildAhead.Code

/-! ## Segments -/

theorem flatten_segmentsFrom {α : Type} (max : Nat) (cost : α → Nat) (size : Nat)
    (segment l : List α) :
    (segmentsFrom max cost size segment l).flatten = segment.reverse ++ l := by
  induction l generalizing size segment with
  | nil => simp [segmentsFrom]
  | cons a rest ih =>
    rw [segmentsFrom]
    split
    · rw [ih, List.reverse_cons, List.append_assoc, List.singleton_append]
    · rw [List.flatten_cons, ih, List.reverse_singleton, List.singleton_append]

/-- The segments of a list, put together again, are the list. -/
theorem flatten_segments {α : Type} (max : Nat) (cost : α → Nat) (l : List α) :
    (segments max cost l).flatten = l := by
  cases l with
  | nil => rfl
  | cons a rest => exact flatten_segmentsFrom max cost (cost a) [a] rest

/-- A segment is not empty, and costs no more than the budget unless it has one item alone. -/
structure Fits {α : Type} (max : Nat) (cost : α → Nat) (segment : List α) : Prop where
  nonempty : segment ≠ []
  within : sumOf (segment.map cost) ≤ max ∨ segment.length = 1

theorem fits_singleton {α : Type} (max : Nat) (cost : α → Nat) (a : α) : Fits max cost [a] where
  nonempty := by simp
  within := .inr rfl

theorem Fits.reverse {α : Type} {max : Nat} {cost : α → Nat} {segment : List α}
    (h : Fits max cost segment) : Fits max cost segment.reverse where
  nonempty := by simpa using h.nonempty
  within := by
    have hsum : sumOf (segment.reverse.map cost) = sumOf (segment.map cost) := by
      have hreverse : ∀ costs : List Nat, sumOf costs.reverse = sumOf costs := by
        intro costs
        induction costs with
        | nil => rfl
        | cons n rest ih =>
          rw [List.reverse_cons, sumOf_append, ih, sumOf, sumOf, sumOf]
          omega
      rw [List.map_reverse, hreverse]
    rw [hsum, List.length_reverse]
    exact h.within

/-- The segment in progress fits, so every segment that is cut off fits. -/
theorem fits_segmentsFrom {α : Type} {max : Nat} {cost : α → Nat} {segment : List α}
    (h : Fits max cost segment) (l : List α) :
    ∀ s ∈ segmentsFrom max cost (sumOf (segment.map cost)) segment l, Fits max cost s := by
  induction l generalizing segment with
  | nil =>
    intro s hs
    rw [segmentsFrom] at hs
    rw [List.mem_singleton.1 hs]
    exact h.reverse
  | cons a rest ih =>
    have hjoined : sumOf ((a :: segment).map cost) = sumOf (segment.map cost) + cost a := by
      rw [List.map_cons, sumOf, Nat.add_comm]
    rw [segmentsFrom]
    split
    · next hle =>
      rw [← hjoined] at hle ⊢
      exact ih ⟨by simp, .inl hle⟩
    · intro s hs
      rcases List.mem_cons.1 hs with rfl | hs
      · exact h.reverse
      · exact ih (fits_singleton max cost a) s hs

/-- Every segment of a list fits. -/
theorem fits_segments {α : Type} (max : Nat) (cost : α → Nat) (l : List α) :
    ∀ s ∈ segments max cost l, Fits max cost s := by
  cases l with
  | nil =>
    intro s hs
    cases hs
  | cons a rest => exact fits_segmentsFrom (fits_singleton max cost a) rest

/-! ## The least number of segments -/

theorem le_sumOf_map {α : Type} {cost : α → Nat} {a : α} {segment : List α} (ha : a ∈ segment) :
    cost a ≤ sumOf (segment.map cost) := by
  induction segment with
  | nil => cases ha
  | cons b rest ih =>
    rw [List.map_cons, sumOf]
    rcases List.mem_cons.1 ha with rfl | ha
    · exact Nat.le_add_right _ _
    · exact Nat.le_trans (ih ha) (Nat.le_add_left _ _)

/-- An item that alone costs more than the budget has no other item in its segment. -/
theorem Fits.eq_singleton {α : Type} {max : Nat} {cost : α → Nat} {segment : List α}
    (h : Fits max cost segment) {a : α} (ha : a ∈ segment) (hcost : max < cost a) :
    segment = [a] := by
  rcases h.within with hsum | hone
  · have hle : cost a ≤ sumOf (segment.map cost) := le_sumOf_map ha
    omega
  · obtain ⟨b, rfl⟩ := List.length_eq_one_iff.1 hone
    rw [List.mem_singleton.1 ha]

/-- Items that still fit join the segment in progress. -/
theorem segmentsFrom_append {α : Type} {max : Nat} {cost : α → Nat} {size : Nat} {added : List α}
    (hfit : size + sumOf (added.map cost) ≤ max) (segment l : List α) :
    segmentsFrom max cost size segment (added ++ l) =
      segmentsFrom max cost (size + sumOf (added.map cost)) (added.reverse ++ segment) l := by
  induction added generalizing size segment with
  | nil => rfl
  | cons a rest ih =>
    rw [List.map_cons, sumOf, ← Nat.add_assoc] at hfit ⊢
    have hjoins : size + cost a ≤ max := Nat.le_trans (Nat.le_add_right _ _) hfit
    rw [List.cons_append, segmentsFrom, if_pos hjoins, ih hfit, List.reverse_cons,
      List.append_assoc, List.singleton_append]

/-- What the segment in progress costs makes a difference of one segment at most, and a smaller cost
never leads to more segments. -/
theorem length_segmentsFrom_le {α : Type} (max : Nat) (cost : α → Nat) (l : List α)
    (size size' : Nat) (segment segment' : List α) :
    (segmentsFrom max cost size segment l).length ≤
        (segmentsFrom max cost size' segment' l).length + 1 ∧
      (size ≤ size' → (segmentsFrom max cost size segment l).length ≤
        (segmentsFrom max cost size' segment' l).length) := by
  -- where the greater cost begins a new segment and the smaller does not, the smaller one is behind
  -- with its items but not with its segments: so both statements are needed for the rest
  induction l generalizing size size' segment segment' with
  | nil => simp [segmentsFrom]
  | cons a rest ih =>
    have hboth := ih (size + cost a) (size' + cost a) (a :: segment) (a :: segment')
    have hleft := ih (size + cost a) (cost a) (a :: segment) [a]
    have hright := ih (cost a) (size' + cost a) [a] (a :: segment')
    rw [segmentsFrom, segmentsFrom]
    by_cases hjoins : size + cost a ≤ max
    · by_cases hjoins' : size' + cost a ≤ max
      · rw [if_pos hjoins, if_pos hjoins']
        exact ⟨hboth.1, fun hle => hboth.2 (Nat.add_le_add_right hle _)⟩
      · rw [if_pos hjoins, if_neg hjoins', List.length_cons]
        exact ⟨Nat.le_succ_of_le hleft.1, fun _ => hleft.1⟩
    · by_cases hjoins' : size' + cost a ≤ max
      · rw [if_neg hjoins, if_pos hjoins', List.length_cons]
        exact ⟨Nat.succ_le_succ (hright.2 (Nat.le_add_left _ _)), fun hle => by omega⟩
      · rw [if_neg hjoins, if_neg hjoins', List.length_cons, List.length_cons]
        have hnew := (ih (cost a) (cost a) [a] [a]).2 (Nat.le_refl _)
        exact ⟨by omega, fun _ => by omega⟩

/-- A segment in progress adds one segment at most to those of the list behind it. -/
theorem length_segmentsFrom_le_segments {α : Type} (max : Nat) (cost : α → Nat) (size : Nat)
    (segment l : List α) :
    (segmentsFrom max cost size segment l).length ≤ (segments max cost l).length + 1 := by
  cases l with
  | nil => exact Nat.le_refl 1
  | cons a rest =>
    rw [segmentsFrom, segments]
    split
    · exact (length_segmentsFrom_le max cost rest _ _ _ _).1
    · exact Nat.le_refl _

/-- A fitting segment in front of a list adds one segment at most. -/
theorem Fits.length_segments_append_le {α : Type} {max : Nat} {cost : α → Nat} {first : List α}
    (h : Fits max cost first) (l : List α) :
    (segments max cost (first ++ l)).length ≤ (segments max cost l).length + 1 := by
  cases first with
  | nil => exact absurd rfl h.nonempty
  | cons a rest =>
    rw [List.cons_append, segments]
    rcases h.within with hsum | hone
    · rw [List.map_cons, sumOf] at hsum
      rw [segmentsFrom_append hsum]
      exact length_segmentsFrom_le_segments max cost _ _ l
    · rw [List.length_cons, Nat.add_eq_right, List.length_eq_zero_iff] at hone
      rw [hone]
      exact length_segmentsFrom_le_segments max cost _ _ l

/-- No cut of a list into fitting segments has fewer of them. -/
theorem length_segments_flatten_le {α : Type} {max : Nat} {cost : α → Nat} {cut : List (List α)}
    (hcut : ∀ s ∈ cut, Fits max cost s) :
    (segments max cost cut.flatten).length ≤ cut.length := by
  induction cut with
  | nil => exact Nat.le_refl 0
  | cons s rest ih =>
    have hrest := ih fun t ht => hcut t (List.mem_cons_of_mem s ht)
    have hfirst := (hcut s List.mem_cons_self).length_segments_append_le rest.flatten
    rw [List.flatten_cons, List.length_cons]
    exact Nat.le_trans hfirst (Nat.succ_le_succ hrest)

/-- A cut of a list into consecutive segments that fit, of which there are as few as there can be. An
item that costs more than the budget stands alone. -/
structure LeastCut {α : Type} (max : Nat) (cost : α → Nat) (l : List α) (cut : List (List α)) :
    Prop where
  joined : cut.flatten = l
  fits : ∀ s ∈ cut, Fits max cost s
  alone : ∀ s ∈ cut, ∀ a ∈ s, max < cost a → s = [a]
  least : ∀ other : List (List α), other.flatten = l → (∀ s ∈ other, Fits max cost s) →
    cut.length ≤ other.length

/-- Joining each item to the segment before it as long as it fits leads to the fewest segments. -/
theorem segments_leastCut {α : Type} (max : Nat) (cost : α → Nat) (l : List α) :
    LeastCut max cost l (segments max cost l) where
  joined := flatten_segments max cost l
  fits := fits_segments max cost l
  alone s hs _ ha hcost := (fits_segments max cost l s hs).eq_singleton ha hcost
  least := by
    rintro other rfl hother
    exact length_segments_flatten_le hother

/-! ## Names of sub-loaders -/

namespace SubLoaders

theorem numbered_injective (base : String) {i j : Nat}
    (h : base ++ toString i = base ++ toString j) : i = j := by
  have hrepr : (toString i).toList = (toString j).toList := by
    have hlist := congrArg String.toList h
    rwa [String.toList_append, String.toList_append, List.append_cancel_left_eq] at hlist
  exact Nat.repr_injective (String.toList_injective hrepr)

variable {base : String} {params : List Param} {bodies : List (List Stmt)}

theorem names_methods :
    (ofSegments base params bodies).methods.map Method.name =
      (List.range bodies.length).map fun i => base ++ toString i := by
  unfold ofSegments
  rw [List.map_map, List.range_eq_range', ← List.zipIdx_map_snd 0 bodies, List.map_map]
  rfl

/-- No two sub-loaders have one name. -/
theorem names_nodup : ((ofSegments base params bodies).methods.map Method.name).Nodup := by
  rw [names_methods]
  exact List.Nodup.map (fun _ _ h => numbered_injective base h) List.nodup_range

theorem mem_methods {body : List Stmt} {i : Nat} (h : (body, i) ∈ bodies.zipIdx) :
    methodOf base params i body ∈ (ofSegments base params bodies).methods :=
  List.mem_map.2 ⟨(body, i), h, rfl⟩

end SubLoaders

end BuildAhead.Code

namespace BuildAhead.CodeUnit

open Code Code.Exec

/-- In a unit whose methods have different names, each name finds its method. -/
theorem method?_of_mem {u : CodeUnit} (hnodup : (u.methods.map Method.name).Nodup) {m : Method}
    (hm : m ∈ u.methods) : u.method? m.name = some m := by
  unfold method?
  generalize u.methods = methods at hnodup hm
  induction methods with
  | nil => cases hm
  | cons first rest ih =>
    rw [List.map_cons, List.nodup_cons] at hnodup
    rcases List.mem_cons.1 hm with rfl | hm
    · rw [List.find?_cons_of_pos (by simp)]
    · have hne : first.name ≠ m.name := fun heq =>
        hnodup.1 (heq ▸ List.mem_map_of_mem hm)
      rw [List.find?_cons_of_neg (by simpa using hne), ih hnodup.2 hm]

/-- The calls of the sub-loaders run the segments in order, each with the parameters that were
passed on. -/
theorem answers_subLoaders {u : CodeUnit} {fields : Scope} {depth : Nat} {base : String}
    {params : List Param} {scope : Scope} {values : List Value} {α : Type}
    {segments : List (List α)} {statement : α → Stmt} {event : α → Event}
    (hnodup : (u.methods.map Method.name).Nodup)
    (hmethods : ∀ m ∈ (SubLoaders.ofSegments base params
      (segments.map fun s => s.map statement)).methods, m ∈ u.methods)
    (hvalues : Answers (evalAll (u.call fields (depth + 1)) scope
      (params.map fun p => .ident p.name)) values [])
    (hlength : params.length = values.length)
    (hstatement : ∀ a, Answers
      (perform (u.call fields depth) ((params.map (·.name)).zip values ++ fields) (statement a))
      (none, (params.map (·.name)).zip values ++ fields) [event a])
    {rest : List Stmt} {result : Option Value} {further : List Event}
    (hrest : Answers (performAll (u.call fields (depth + 1)) scope rest) result further) :
    Answers
      (performAll (u.call fields (depth + 1)) scope
        ((SubLoaders.ofSegments base params (segments.map fun s => s.map statement)).calls ++ rest))
      result
      (segments.zipIdx.flatMap (fun s =>
        .own (base ++ toString s.2) values :: s.1.map event) ++ further) := by
  have hcalls : (SubLoaders.ofSegments base params
      (segments.map fun s => s.map statement)).calls =
        segments.zipIdx.map fun s => SubLoaders.callOf base params s.2 := by
    simp only [SubLoaders.ofSegments, List.zipIdx_map, List.map_map]
    rfl
  rw [hcalls]
  refine answers_performAll_map ?_ hrest
  intro s hs
  have hmem : SubLoaders.methodOf base params s.2 (s.1.map statement) ∈ u.methods := by
    refine hmethods _ (SubLoaders.mem_methods ?_)
    rw [List.zipIdx_map]
    exact List.mem_map.2 ⟨s, hs, rfl⟩
  have hbody := answers_performAll_map (fun a (_ : a ∈ s.1) => hstatement a)
    answers_performAll_nil
  rw [List.append_nil, List.append_nil, ← List.map_eq_flatMap] at hbody
  exact answers_perform_eval (answers_eval_callOwn hvalues
    (answers_call (method?_of_mem hnodup hmem) hlength hbody))

/-! ## The calls of sub-loaders -/

section

variable {base : String} {values : List Value} {α : Type} {event : α → Event}

/-- What sub-loaders do to an object, the items of all segments do to it in their order. -/
theorem callsOn_subLoaders (number : Nat) (segments : List (List α)) :
    (segments.zipIdx.flatMap fun s =>
      .own (base ++ toString s.2) values :: s.1.map event).filterMap (Trace.callOn? number) =
      segments.flatten.filterMap fun a => Trace.callOn? number (event a) := by
  have hsegments : segments.flatten = (segments.zipIdx.map Prod.fst).flatten := by
    rw [List.zipIdx_map_fst]
  rw [hsegments]
  generalize segments.zipIdx = numbered
  induction numbered with
  | nil => rfl
  | cons s rest ih =>
    rw [List.flatMap_cons, List.filterMap_append, ih, List.filterMap_cons_none rfl,
      List.filterMap_map, List.map_cons, List.flatten_cons, List.filterMap_append]
    rfl

/-- Each sub-loader is called once, in the order of the numbers, when the items call none. -/
theorem ownCalls_subLoaders (hevent : ∀ a, Trace.ownCall? (event a) = none)
    (segments : List (List α)) :
    (segments.zipIdx.flatMap fun s =>
      .own (base ++ toString s.2) values :: s.1.map event).filterMap Trace.ownCall? =
      (List.range segments.length).map fun i => (base ++ toString i, values) := by
  have hitems : ∀ items : List α, (items.map event).filterMap Trace.ownCall? = [] := by
    intro items
    rw [List.filterMap_map, List.filterMap_eq_nil_iff]
    exact fun a _ => hevent a
  rw [List.range_eq_range', ← List.zipIdx_map_snd 0 segments, List.map_map]
  generalize segments.zipIdx = numbered
  induction numbered with
  | nil => rfl
  | cons s rest ih =>
    have hcall : Trace.ownCall? (.own (base ++ toString s.2) values) =
        some (base ++ toString s.2, values) := rfl
    rw [List.flatMap_cons, List.filterMap_append, ih, List.map_cons,
      List.filterMap_cons_some hcall, hitems]
    rfl

end

end BuildAhead.CodeUnit
