set_option autoImplicit false

/-!
# Number: sums and powers

The sum of a list of natural numbers, and the powers of two and ten, each as one function.
-/

namespace BuildAhead

/-- The sum of natural numbers. -/
def sumOf : List Nat → Nat
  | [] => 0
  | n :: rest => n + sumOf rest

/-- A power of two. -/
def twoTo (n : Nat) : Nat := Nat.pow 2 n

/-- A power of ten. -/
def tenTo (n : Nat) : Nat := Nat.pow 10 n

theorem sumOf_append (a b : List Nat) : sumOf (a ++ b) = sumOf a + sumOf b := by
  induction a with
  | nil => simp [sumOf]
  | cons n a ih => simp only [List.cons_append, sumOf, ih]; omega

theorem sumOf_perm {a b : List Nat} (h : a.Perm b) : sumOf a = sumOf b := by
  induction h with
  | nil => rfl
  | cons n _ ih => rw [sumOf, sumOf, ih]
  | swap m n l => exact Nat.add_left_comm n m (sumOf l)
  | trans _ _ ih ih' => exact ih.trans ih'

theorem sumOf_filter_le {α : Type} (cost : α → Nat) (p : α → Bool) (names : List α) :
    sumOf ((names.filter p).map cost) ≤ sumOf (names.map cost) := by
  induction names with
  | nil => exact Nat.le_refl _
  | cons first rest ih =>
    rw [List.filter_cons, List.map_cons, sumOf]
    split
    · rw [List.map_cons, sumOf]
      exact Nat.add_le_add_left ih _
    · exact Nat.le_trans ih (Nat.le_add_left _ _)

example : sumOf [1, 2, 3] = 6 ∧ twoTo 10 = 1024 ∧ tenTo 3 = 1000 := by decide

end BuildAhead
