import BuildAhead.Proofs.Code.Literals

set_option autoImplicit false

/-!
# Code: the calls of a run

The unit's own methods that a run has called when it ends. Code that names none of them calls none,
whatever it does with other types, so a method whose code is of this kind is called and calls no
further one.
-/

namespace BuildAhead

namespace Code

namespace Exec

/-- When the run ends, it has made these calls of the unit's own methods. -/
def CallsOwn {α : Type} (x : Exec α) (calls : List (String × List Value)) : Prop :=
  ∀ t a t', x.run t = some (a, t') → t'.ownCalls = t.ownCalls ++ calls

section

variable {α β : Type} {calls first second : List (String × List Value)}

theorem callsOwn_pure (a : α) : CallsOwn (pure a) [] := by
  rintro t _ _ ⟨⟩
  exact (List.append_nil _).symm

theorem callsOwn_failure : CallsOwn (failure : Exec α) calls := by
  rintro t a t' h
  cases h

theorem CallsOwn.bind {x : Exec α} {f : α → Exec β} (hx : CallsOwn x first)
    (hf : ∀ a, CallsOwn (f a) second) : CallsOwn (x >>= f) (first ++ second) := by
  intro t b t' h
  rw [StateT.run_bind] at h
  obtain ⟨⟨a, t₁⟩, hrun, hrest⟩ := Option.bind_eq_some_iff.1 h
  rw [hf a t₁ b t' hrest, hx t a t₁ hrun, List.append_assoc]

/-- What goes before makes no such call. -/
theorem CallsOwn.after {x : Exec α} {f : α → Exec β} (hx : CallsOwn x [])
    (hf : ∀ a, CallsOwn (f a) calls) : CallsOwn (x >>= f) calls :=
  hx.bind hf

theorem callsOwn_note (e : Event) : CallsOwn (note e) (Trace.ownCall? e).toList := by
  rintro t _ _ ⟨⟩
  simp only [Trace.ownCalls, Trace.add, List.filterMap_append]
  cases e <;> rfl

theorem callsOwn_make (typeName : String) (args : List Value) :
    CallsOwn (make typeName args) [] := by
  rintro t _ _ ⟨⟩
  exact (List.append_nil _).symm

theorem callsOwn_read (scope : Scope) (name : String) : CallsOwn (read scope name) [] := by
  unfold read
  cases Dict.lookup name scope with
  | none => exact callsOwn_failure
  | some value => exact callsOwn_pure value

end

end Exec

open Exec

variable {own : String → List Value → Exec Value}

mutual

/-- An expression that calls no method of the unit. -/
theorem callsOwn_eval (scope : Scope) :
    ∀ e : Expr, e.callees = [] → CallsOwn (eval own scope e) []
  | .null, _ => callsOwn_pure _
  | .bool _, _ => callsOwn_pure _
  | .int _, _ => callsOwn_pure _
  | .double _, _ => callsOwn_pure _
  | .text _, _ => callsOwn_pure _
  | .typeRef _, _ => callsOwn_pure _
  | .ident name, _ => callsOwn_read scope name
  | .call none _ _, h => absurd h (List.cons_ne_nil _ _)
  | .call (some target) method args, h => by
    obtain ⟨htarget, hargs⟩ := List.append_eq_nil_iff.1 h
    rw [eval]
    refine (callsOwn_eval scope target htarget).after fun object => ?_
    refine (callsOwn_evalAll scope args hargs).after fun values => ?_
    exact (callsOwn_note (.outside object method values)).after fun _ => callsOwn_pure _
  | .construct typeName args, h => by
    rw [eval]
    exact (callsOwn_evalAll scope args h).after fun values => callsOwn_make typeName values
  | .methodRef _ _, _ => callsOwn_pure _
  | .list items, h => by
    rw [eval]
    exact (callsOwn_evalAll scope items h).after fun _ => callsOwn_pure _
  | .map entries, h => by
    rw [eval]
    exact (callsOwn_evalEntries scope entries h).after fun _ => callsOwn_pure _

theorem callsOwn_evalAll (scope : Scope) :
    ∀ es : List Expr, Expr.calleesOfAll es = [] → CallsOwn (evalAll own scope es) []
  | [], _ => callsOwn_pure _
  | e :: rest, h => by
    obtain ⟨he, hrest⟩ := List.append_eq_nil_iff.1 h
    rw [evalAll]
    refine (callsOwn_eval scope e he).after fun _ => ?_
    exact (callsOwn_evalAll scope rest hrest).after fun _ => callsOwn_pure _

theorem callsOwn_evalEntries (scope : Scope) : ∀ entries : List (Expr × Expr),
    Expr.calleesOfEntries entries = [] → CallsOwn (evalEntries own scope entries) []
  | [], _ => callsOwn_pure _
  | (k, v) :: rest, h => by
    obtain ⟨hentry, hrest⟩ := List.append_eq_nil_iff.1 h
    obtain ⟨hk, hv⟩ := List.append_eq_nil_iff.1 hentry
    rw [evalEntries]
    refine (callsOwn_eval scope k hk).after fun _ => ?_
    refine (callsOwn_eval scope v hv).after fun _ => ?_
    exact (callsOwn_evalEntries scope rest hrest).after fun _ => callsOwn_pure _

end

mutual

/-- A statement that calls no method of the unit. -/
theorem callsOwn_perform (scope : Scope) :
    ∀ s : Stmt, s.callees = [] → CallsOwn (perform own scope s) []
  | .eval e, h => by
    rw [perform]
    exact (callsOwn_eval scope e h).after fun _ => callsOwn_pure _
  | .bind _ e, h => by
    rw [perform]
    exact (callsOwn_eval scope e h).after fun _ => callsOwn_pure _
  | .ret e, h => by
    rw [perform]
    exact (callsOwn_eval scope e h).after fun _ => callsOwn_pure _
  | .cond condition body, h => by
    obtain ⟨hcondition, hbody⟩ := List.append_eq_nil_iff.1 h
    rw [perform]
    refine (callsOwn_eval scope condition hcondition).after fun value => ?_
    split
    · exact (callsOwn_performAll scope body hbody).after fun _ => callsOwn_pure _
    · exact callsOwn_pure _
    · exact callsOwn_failure

theorem callsOwn_performAll (scope : Scope) :
    ∀ ss : List Stmt, Stmt.calleesOfAll ss = [] → CallsOwn (performAll own scope ss) []
  | [], _ => callsOwn_pure _
  | s :: rest, h => by
    obtain ⟨hs, hrest⟩ := List.append_eq_nil_iff.1 h
    rw [performAll]
    refine (callsOwn_perform scope s hs).after fun result => ?_
    split
    · exact callsOwn_pure _
    · next scope' => exact callsOwn_performAll scope' rest hrest

end

end Code

namespace CodeUnit

open Code Code.Exec

/-- A method that calls no other one is the only one that is called with it. -/
theorem callsOwn_call {u : CodeUnit} {fields : Scope} {depth : Nat} {m : Method} {name : String}
    {args : List Value} (hmethod : u.method? name = some m) (hcallees : m.callees = []) :
    CallsOwn (u.call fields depth name args) [(name, args)] := by
  cases depth with
  | zero =>
    rw [call]
    exact callsOwn_failure
  | succ depth =>
    rw [call, hmethod]
    dsimp only
    split
    · refine (callsOwn_note (.own name args)).bind fun _ => ?_
      exact (callsOwn_performAll _ m.body hcallees).after fun _ => callsOwn_pure _
    · exact callsOwn_failure

end CodeUnit

end BuildAhead
