import MiniLisp.Expr

/-!
# Occurrences

An expression occurs in itself and in every list that holds an expression it occurs in. How many
lists lie around what occurs in an expression is bounded by its nesting.
-/

namespace MiniLisp.Expr

/-- What holds of atoms, and of lists if it holds of their items, holds of all expressions. -/
@[elab_as_elim]
theorem items_induction {motive : Expr → Prop} (int : ∀ n, motive (int n))
    (float : ∀ x, motive (float x)) (symbol : ∀ name, motive (symbol name))
    (list : ∀ items, (∀ e ∈ items, motive e) → motive (list items)) (e : Expr) : motive e := by
  refine @Expr.rec motive (fun items => ∀ e ∈ items, motive e) int float symbol list ?_ ?_ e
  · exact fun _ he => by cases he
  · intro head rest hhead hrest e he
    rcases List.mem_cons.mp he with rfl | he
    · exact hhead
    · exact hrest e he

/-- The first expression occurs in the second. -/
inductive Within : Expr → Expr → Prop where
  | self (e : Expr) : Within e e
  | item {e item : Expr} {items : List Expr} (h : item ∈ items) (hw : Within e item) :
      Within e (.list items)

mutual

/-- How many lists lie at most around a part of the expression. -/
def nesting : Expr → Nat
  | list items => nestingAll items + 1
  | _ => 0

def nestingAll : List Expr → Nat
  | [] => 0
  | e :: rest => max (nesting e) (nestingAll rest)

end

theorem nesting_le_nestingAll {e : Expr} {items : List Expr} (h : e ∈ items) :
    e.nesting ≤ nestingAll items := by
  induction items with
  | nil => cases h
  | cons item rest ih =>
    rcases List.mem_cons.mp h with rfl | h
    · exact Nat.le_max_left _ _
    · exact Nat.le_trans (ih h) (Nat.le_max_right _ _)

theorem nestingAll_le {items : List Expr} {n : Nat} (h : ∀ e ∈ items, e.nesting ≤ n) :
    nestingAll items ≤ n := by
  induction items with
  | nil => exact Nat.zero_le n
  | cons e rest ih =>
    rw [List.forall_mem_cons] at h
    exact Nat.max_le.mpr ⟨h.1, ih h.2⟩

/-- The parts of a list are nested less deep than the list. -/
theorem nesting_lt_of_mem {e : Expr} {items : List Expr} (h : e ∈ items) :
    e.nesting < (list items).nesting :=
  Nat.lt_succ_of_le (nesting_le_nestingAll h)

end MiniLisp.Expr
