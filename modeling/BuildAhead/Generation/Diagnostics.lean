import BuildAhead.Collection.Dict

set_option autoImplicit false

/-!
# Generation: diagnostics

What a build has to say about what it left out, in categories. Messages are only ever added, each
behind the others of its category. Checks that run side by side add to one log: the messages of each
come in its own order, and which of two checks comes first is up to the scheduling.
-/

namespace BuildAhead

/-! ## Checks that run side by side -/

/-- A list takes the elements of several lists, those of each in their order. -/
inductive Interleaves {α : Type} : List (List α) → List α → Prop where
  | done {ls : List (List α)} (spent : ∀ l ∈ ls, l = []) : Interleaves ls []
  | next {before after : List (List α)} {a : α} {l out : List α}
      (rest : Interleaves (before ++ l :: after) out) :
      Interleaves (before ++ (a :: l) :: after) (a :: out)

namespace Interleaves

variable {α : Type} {ls : List (List α)} {out : List α}

theorem perm (h : Interleaves ls out) : out.Perm ls.flatten := by
  induction h with
  | done spent => rw [List.flatten_eq_nil_iff.2 spent]
  | @next before after a l out _ ih =>
    rw [List.flatten_append, List.flatten_cons] at ih ⊢
    exact (ih.cons a).trans List.perm_middle.symm

theorem mem_iff (h : Interleaves ls out) {a : α} : a ∈ out ↔ ∃ l ∈ ls, a ∈ l := by
  rw [h.perm.mem_iff, List.mem_flatten]

/-- A list that is spent takes no part. -/
theorem nil_cons (h : Interleaves ls out) : Interleaves ([] :: ls) out := by
  induction h with
  | done spent => exact .done (List.forall_mem_cons.2 ⟨rfl, spent⟩)
  | @next before after a l out _ ih =>
    rw [← List.cons_append] at ih ⊢
    exact .next ih

/-- The lists one after the other. -/
theorem flatten (ls : List (List α)) : Interleaves ls ls.flatten := by
  induction ls with
  | nil => exact .done (List.forall_mem_nil _)
  | cons l rest ih =>
    induction l with
    | nil => exact ih.nil_cons
    | cons a l hl => exact @next α [] rest a l _ hl

theorem singleton (l : List α) : Interleaves [l] l := by
  have hflatten := flatten [l]
  rwa [List.flatten_singleton] at hflatten

end Interleaves

/-- In which order messages of checks that run side by side come to the log. One run can differ from
another one in that, and one group of checks from the next: groups are told apart by the number of
messages before them. -/
structure Schedule where
  order : Nat → List (List String) → List String
  interleaves : ∀ n messages, Interleaves messages (order n messages)

/-- Each check comes to its end before the next one begins. -/
def Schedule.inOrder : Schedule := ⟨fun _ messages => messages.flatten, fun _ => .flatten⟩

instance : Inhabited Schedule := ⟨.inOrder⟩

/-! ## Messages -/

/-- The messages of each category, in the order in which they came. -/
structure Diagnostics where
  entries : Dict (List String) := ∅
  deriving DecidableEq, Repr, Inhabited

namespace Diagnostics

/-- The diagnostics with one more message. -/
def add (d : Diagnostics) (category message : String) : Diagnostics :=
  ⟨d.entries.alter category fun old => old.getD [] ++ [message]⟩

/-- The diagnostics with further messages of one category, in order. -/
def addAll (d : Diagnostics) (category : String) (messages : List String) : Diagnostics :=
  messages.foldl (fun d m => d.add category m) d

/-- The messages of a category. -/
def messages (d : Diagnostics) (category : String) : List String :=
  (d.entries.get? category).getD []

/-- The diagnostics with the messages of checks that run side by side, as they are scheduled. -/
def addInterleaved (d : Diagnostics) (schedule : Schedule) (category : String)
    (messages : List (List String)) : Diagnostics :=
  d.addAll category (schedule.order (d.messages category).length messages)

/-- The number of messages of each category. -/
def counts (d : Diagnostics) : List (String × Nat) :=
  d.entries.toList.map fun e => (e.1, e.2.length)

/-- Whether there is no message. -/
def isEmpty (d : Diagnostics) : Bool := d.entries.isEmpty

/-- A message is found in its category, behind the earlier ones, and nowhere else. -/
theorem messages_add (d : Diagnostics) (category message c : String) :
    (d.add category message).messages c =
      if c = category then d.messages category ++ [message] else d.messages c := by
  simp only [messages, add, Dict.get?_alter]
  split <;> simp

theorem messages_addAll (d : Diagnostics) (category c : String) (messages : List String) :
    (d.addAll category messages).messages c =
      if c = category then d.messages c ++ messages else d.messages c := by
  unfold addAll
  induction messages generalizing d with
  | nil => simp
  | cons message rest ih =>
    rw [List.foldl_cons, ih, messages_add]
    split
    · next heq => simp [heq]
    · rfl

/-- However messages are interleaved, each of them is found in its category. -/
theorem mem_messages_addInterleaved {d : Diagnostics} {schedule : Schedule}
    {category c message : String} {messages : List (List String)} :
    message ∈ (d.addInterleaved schedule category messages).messages c ↔
      message ∈ d.messages c ∨ c = category ∧ ∃ l ∈ messages, message ∈ l := by
  rw [addInterleaved, messages_addAll]
  split
  · next heq =>
    rw [List.mem_append, (schedule.interleaves _ messages).mem_iff]
    simp [heq]
  · next hne => simp [hne]

end Diagnostics

end BuildAhead
