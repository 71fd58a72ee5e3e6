import MiniLisp.Value

/-!
# Drafts

A draft is a value whose new lists have no identity yet. Builtin procedures and quotation produce
drafts, so that they need not know which identities are in use; `Draft.finish` hands them out.
-/

namespace MiniLisp

inductive Draft where
  | value (v : Value)
  | list (items : List Draft)

/-- What a builtin procedure answers: a draft of its result, and the text it printed. -/
structure Reply where
  draft : Draft
  printed : String

namespace Draft

@[elab_as_elim]
theorem items_induction {motive : Draft → Prop} (value : ∀ v, motive (.value v))
    (list : ∀ items, (∀ d ∈ items, motive d) → motive (.list items)) (d : Draft) : motive d := by
  refine @Draft.rec motive (fun items => ∀ d ∈ items, motive d) value list ?_ ?_ d
  · exact fun _ hd => by cases hd
  · intro head rest hhead hrest d hd
    rcases List.mem_cons.mp hd with rfl | hd
    · exact hhead
    · exact hrest d hd

/-- A new list of values that exist already. -/
def ofList (items : List Value) : Draft := list (items.map value)

mutual

/-- Gives every new list the next free identity, the outer list before the lists inside it. -/
def finish (fresh : Nat) : Draft → Value × Nat
  | value v => (v, fresh)
  | list items =>
    let (vs, next) := finishAll (fresh + 1) items
    (.list fresh vs, next)

def finishAll (fresh : Nat) : List Draft → List Value × Nat
  | [] => ([], fresh)
  | d :: rest =>
    let (v, next) := finish fresh d
    let (vs, last) := finishAll next rest
    (v :: vs, last)

end

mutual

/-- Quotation: the expression as data. -/
def ofExpr : Expr → Draft
  | .int n => value (.int n)
  | .float x => value (.float x)
  | .symbol name => value (.symbol name)
  | .list items => list (ofExprs items)

def ofExprs : List Expr → List Draft
  | [] => []
  | e :: rest => ofExpr e :: ofExprs rest

end

@[simp] theorem ofExprs_eq_map (items : List Expr) : ofExprs items = items.map ofExpr := by
  induction items with
  | nil => rfl
  | cons e rest ih => simp [ofExprs, ih]

end Draft

end MiniLisp
