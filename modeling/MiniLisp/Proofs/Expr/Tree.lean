import MiniLisp.Expr.Parse

/-!
# Trees of words

What the reader sees before it knows what the words stand for. A tree is written with a pair of
parentheses around every list; no tree begins with another one (`tokens_append_inj`), so that a
sequence of tokens is written by at most one tree.
-/

namespace MiniLisp

inductive Tree where
  | word (text : String)
  | list (items : List Tree)

namespace Tree

mutual

/-- The expression whose words are the words of the tree. -/
def expr : Tree → Expr
  | word text => .ofWord text
  | list items => .list (exprs items)

def exprs : List Tree → List Expr
  | [] => []
  | t :: rest => expr t :: exprs rest

end

mutual

def tokens : Tree → List Token
  | word text => [.word text]
  | list items => .opening :: tokensAll items ++ [.closing]

def tokensAll : List Tree → List Token
  | [] => []
  | t :: rest => tokens t ++ tokensAll rest

end

@[simp] theorem exprs_eq_map (items : List Tree) : exprs items = items.map expr := by
  induction items with
  | nil => rfl
  | cons t rest ih => simp [exprs, ih]

@[simp] theorem tokensAll_append (items others : List Tree) :
    tokensAll (items ++ others) = tokensAll items ++ tokensAll others := by
  induction items with
  | nil => rfl
  | cons t rest ih => simp [tokensAll, ih]

mutual

/-- Every parenthesis of a tree has its counterpart. -/
theorem count_tokens : ∀ t : Tree, t.tokens.count .opening = t.tokens.count .closing
  | word text => by simp [tokens]
  | list items => by
    have := count_tokensAll items
    simp only [tokens, List.cons_append, List.count_cons, List.count_append, List.count_nil]
    simp
    omega

theorem count_tokensAll : ∀ items : List Tree,
    (tokensAll items).count .opening = (tokensAll items).count .closing
  | [] => rfl
  | t :: rest => by
    have := count_tokens t
    have := count_tokensAll rest
    simp only [tokensAll, List.count_append]
    omega

end

/-- A tree does not begin with a closing parenthesis. -/
theorem tokens_ne_closing (t : Tree) {rest others : List Token} :
    t.tokens ++ rest ≠ .closing :: others := by
  cases t <;> simp [tokens]

mutual

theorem tokens_append_inj : ∀ (t u : Tree) {rest others : List Token},
    t.tokens ++ rest = u.tokens ++ others → t = u ∧ rest = others
  | word a, word b, _, _, h => by simpa [tokens] using h
  | word a, list us, _, _, h => by simp [tokens] at h
  | list ts, word b, _, _, h => by simp [tokens] at h
  | list ts, list us, rest, others, h => by
    have hitems : tokensAll ts ++ .closing :: rest = tokensAll us ++ .closing :: others := by
      simpa [tokens] using h
    obtain ⟨rfl, rfl⟩ := tokensAll_append_inj ts us hitems
    exact ⟨rfl, rfl⟩

/-- The items of a list end where the list is closed. -/
theorem tokensAll_append_inj : ∀ (ts us : List Tree) {rest others : List Token},
    tokensAll ts ++ .closing :: rest = tokensAll us ++ .closing :: others →
      ts = us ∧ rest = others
  | [], [], _, _, h => by simpa [tokensAll] using h
  | [], u :: us, _, _, h => by
    rw [tokensAll, tokensAll, List.nil_append, List.append_assoc] at h
    exact absurd h.symm (tokens_ne_closing u)
  | t :: ts, [], _, _, h => by
    rw [tokensAll, tokensAll, List.nil_append, List.append_assoc] at h
    exact absurd h (tokens_ne_closing t)
  | t :: ts, u :: us, _, _, h => by
    rw [tokensAll, tokensAll, List.append_assoc, List.append_assoc] at h
    obtain ⟨rfl, hitems⟩ := tokens_append_inj t u h
    obtain ⟨rfl, rfl⟩ := tokensAll_append_inj ts us hitems
    exact ⟨rfl, rfl⟩

end

theorem tokens_injective : Function.Injective tokens := by
  intro t u h
  have h' : t.tokens ++ [] = u.tokens ++ [] := by rw [h]
  exact (tokens_append_inj t u h').1

end Tree

end MiniLisp
