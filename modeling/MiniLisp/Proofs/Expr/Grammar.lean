import MiniLisp.Proofs.Expr.Occurrence
import MiniLisp.Proofs.Expr.Tree
import Mathlib.Order.Bounds.Basic

/-!
# What the reader accepts

The reader answers by the balance of parentheses alone. The expression ends at the first token that
balances the parentheses before it, and the reading fails at the first token that would start an
expression too deep. `ofTokens_iff` says which of the two comes first and what is answered. So
nothing is read that is nested deeper than the limit (`nesting_le_of_parse`).
-/

namespace MiniLisp

namespace Expr

/-- How many of the lists opened before the token number `i` are still open there. -/
def balance (ts : List Token) (i : Nat) : Int :=
  (ts.take i).count .opening - (ts.take i).count .closing

/-- The parentheses up to the token number `k` are balanced. -/
def ClosedAt (ts : List Token) (k : Nat) : Prop := k < ts.length ∧ balance ts (k + 1) = 0

/-- The token number `p` starts an expression inside too many lists. -/
def TooDeepAt (ts : List Token) (p : Nat) : Prop :=
  ∃ t, ts[p]? = some t ∧ t ≠ .closing ∧ (nestingLimit : Int) ≤ balance ts p

/-- What reading the tokens `ts` answers. -/
inductive Verdict (ts : List Token) (strict : Bool) : Except ParseError Expr → Prop where
  | nothing (h : ts = []) : Verdict ts strict (.error ⟨.unexpectedEnd, none⟩)
  | closing (h : ts[0]? = some .closing) :
      Verdict ts strict (.error ⟨.unexpectedClosing, some (.closing, 0)⟩)
  | tooDeep {t : Token} {p : Nat} (h : ts[0]? ≠ some .closing)
      (hp : IsLeast {p | TooDeepAt ts p} p) (ht : ts[p]? = some t)
      (hk : ∀ k, ClosedAt ts k → p < k) :
      Verdict ts strict (.error ⟨.tooDeeplyNested, some (t, p)⟩)
  | unclosed (hne : ts ≠ []) (h : ts[0]? ≠ some .closing) (hp : ∀ p, ¬ TooDeepAt ts p)
      (hk : ∀ k, ¬ ClosedAt ts k) : Verdict ts strict (.error ⟨.unexpectedEnd, none⟩)
  | tree {t : Tree} {k : Nat} (h : ts[0]? ≠ some .closing) (hk : IsLeast {k | ClosedAt ts k} k)
      (hp : ∀ p, TooDeepAt ts p → k ≤ p) (ht : t.tokens = ts.take (k + 1))
      (hunique : ∀ u : Tree, u.tokens = ts.take (k + 1) → u = t)
      (hs : strict = false ∨ k + 1 = ts.length) : Verdict ts strict (.ok t.expr)
  | trailing {t : Token} {k : Nat} (h : ts[0]? ≠ some .closing)
      (hk : IsLeast {k | ClosedAt ts k} k) (hp : ∀ p, TooDeepAt ts p → k ≤ p)
      (ht : ts[k + 1]? = some t) (hs : strict = true) :
      Verdict ts strict (.error ⟨.trailingContent, some (t, k + 1)⟩)

/-- What a token adds to the number of open lists. -/
def change : Token → Int
  | .opening => 1
  | .closing => -1
  | .word _ => 0

theorem count_sub_count (t : Token) :
    (([t].count .opening : Nat) : Int) - ([t].count .closing : Nat) = change t := by
  cases t <;> rfl

theorem change_nonneg {t : Token} (h : t ≠ .closing) : 0 ≤ change t := by
  cases t with
  | opening => exact Int.one_nonneg
  | closing => exact absurd rfl h
  | word text => exact Int.le_refl 0

/-- The tokens read when the lists `stack` are open, innermost first, whose items so far stand in
reverse order. -/
def unfinished : List (List Tree) → List Token
  | [] => []
  | items :: outer => unfinished outer ++ .opening :: Tree.tokensAll items.reverse

theorem count_unfinished (stack : List (List Tree)) :
    (unfinished stack).count .opening = (unfinished stack).count .closing + stack.length := by
  induction stack with
  | nil => rfl
  | cons items outer ih =>
    have := Tree.count_tokensAll items.reverse
    simp only [unfinished, List.count_append, List.count_cons, List.length_cons]
    simp
    omega

theorem succ_le_of_first {P : Nat → Prop} {i k : Nat} (h : ∀ k, P k → i ≤ k) (hi : ¬ P i)
    (hk : P k) : i + 1 ≤ k := by
  have hle := h k hk
  have hne : i ≠ k := fun he => hi (he ▸ hk)
  omega

/-- What holds while the reader has `stack` open in front of the token number `i`, with the tokens
`rest` to come: nothing before has decided the answer. -/
structure Reading (ts : List Token) (stack : List (List Tree)) (i : Nat) (rest : List Token) :
    Prop where
  read : ts.take i = unfinished stack
  left : ts.drop i = rest
  bound : i ≤ ts.length
  opened : ∀ k, ClosedAt ts k → i ≤ k
  shallow : ∀ p, TooDeepAt ts p → i ≤ p

namespace Reading

variable {ts rest : List Token} {stack : List (List Tree)} {i : Nat} {t : Token}

theorem balance_eq (h : Reading ts stack i rest) : balance ts i = stack.length := by
  have := count_unfinished stack
  simp only [balance, h.read]
  omega

theorem getElem?_eq (h : Reading ts stack i (t :: rest)) : ts[i]? = some t := by
  have := h.left
  rw [← List.head?_drop, this, List.head?_cons]

theorem lt_length (h : Reading ts stack i (t :: rest)) : i < ts.length :=
  (List.getElem?_eq_some_iff.mp h.getElem?_eq).1

theorem take_succ (h : Reading ts stack i (t :: rest)) :
    ts.take (i + 1) = unfinished stack ++ [t] := by
  rw [List.take_add_one, h.read, h.getElem?_eq, Option.toList_some]

theorem drop_succ (h : Reading ts stack i (t :: rest)) : ts.drop (i + 1) = rest := by
  rw [← List.tail_drop, h.left, List.tail_cons]

theorem closedAt_iff (h : Reading ts stack i (t :: rest)) :
    ClosedAt ts i ↔ (stack.length : Int) + change t = 0 := by
  have hcount := count_unfinished stack
  have hchange := count_sub_count t
  simp only [ClosedAt, balance, h.take_succ, List.count_append, h.lt_length, true_and]
  omega

theorem not_closedAt (h : Reading ts stack i (t :: rest)) (ht : 0 < stack.length + change t) :
    ¬ ClosedAt ts i := fun hk => by
  have := h.closedAt_iff.mp hk
  omega

theorem tooDeepAt_iff (h : Reading ts stack i (t :: rest)) :
    TooDeepAt ts i ↔ t ≠ .closing ∧ nestingLimit ≤ stack.length := by
  simp [TooDeepAt, h.getElem?_eq, h.balance_eq]

/-- Outside of all lists nothing was read. -/
theorem eq_zero (h : Reading ts [] i (t :: rest)) : i = 0 := by
  rcases List.take_eq_nil_iff.mp h.read with hi | hts
  · exact hi
  · have := h.lt_length
    simp [hts] at this

/-- A token that does not decide the answer. -/
theorem step (h : Reading ts stack i (t :: rest)) {next : List (List Tree)}
    (hnext : unfinished next = unfinished stack ++ [t]) (hk : ¬ ClosedAt ts i)
    (hp : ¬ TooDeepAt ts i) : Reading ts next (i + 1) rest where
  read := by rw [h.take_succ, hnext]
  left := h.drop_succ
  bound := h.lt_length
  opened _ hc := succ_le_of_first h.opened hk hc
  shallow _ hd := succ_le_of_first h.shallow hp hd

section Endings

variable {strict : Bool} (hhead : ts[0]? ≠ some .closing)
include hhead

theorem verdict_of_tooDeep (h : Reading ts stack i (t :: rest)) (hp : TooDeepAt ts i) :
    Verdict ts strict (.error ⟨.tooDeeplyNested, some (t, i)⟩) := by
  have hk : ¬ ClosedAt ts i := by
    obtain ⟨ht, hd⟩ := h.tooDeepAt_iff.mp hp
    have hlength : 0 < stack.length := Nat.lt_of_lt_of_le (by decide) hd
    have hchange := change_nonneg ht
    exact h.not_closedAt (by omega)
  exact .tooDeep hhead ⟨hp, h.shallow⟩ h.getElem?_eq fun k hc => succ_le_of_first h.opened hk hc

theorem verdict_of_tree (h : Reading ts stack i (t :: rest)) (hk : ClosedAt ts i) {u : Tree}
    (hu : u.tokens = unfinished stack ++ [t]) :
    Verdict ts strict (conclude strict (.ok (u.expr, i + 1, rest))) := by
  have hleast : IsLeast {k | ClosedAt ts k} i := ⟨hk, h.opened⟩
  have htokens : u.tokens = ts.take (i + 1) := by rw [hu, h.take_succ]
  have hunique (v : Tree) (hv : v.tokens = ts.take (i + 1)) : v = u :=
    Tree.tokens_injective (hv.trans htokens.symm)
  have htree (hs : strict = false ∨ i + 1 = ts.length) : Verdict ts strict (.ok u.expr) :=
    .tree hhead hleast h.shallow htokens hunique hs
  have hdrop := h.drop_succ
  cases rest with
  | nil =>
    have hle := List.drop_eq_nil_iff.mp hdrop
    have hlt := h.lt_length
    exact htree (.inr (by omega))
  | cons extra rest =>
    cases strict with
    | false => exact htree (.inl rfl)
    | true =>
      have hextra : ts[i + 1]? = some extra := by
        rw [← List.head?_drop, hdrop, List.head?_cons]
      exact .trailing hhead hleast h.shallow hextra rfl

theorem verdict_of_nil (hne : ts ≠ []) (h : Reading ts stack i []) :
    Verdict ts strict (.error ⟨.unexpectedEnd, none⟩) := by
  have hlength : ts.length ≤ i := List.drop_eq_nil_iff.mp h.left
  refine .unclosed hne hhead (fun p hp => ?_) fun k hk => ?_
  · have hle := h.shallow p hp
    obtain ⟨t, ht, -⟩ := hp
    have hlt := (List.getElem?_eq_some_iff.mp ht).1
    omega
  · have hle := h.opened k hk
    have hlt := hk.1
    omega

end Endings

end Reading

/-- The lists of expressions that the reader keeps for the open lists `stack`. -/
def pending (stack : List (List Tree)) : List (List Expr) :=
  stack.map fun items => items.map Tree.expr

section Moves

variable (rest : List Token) {stack : List (List Tree)} (i : Nat)

theorem parse_tooDeep {t : Token} (ht : t ≠ .closing) (hd : nestingLimit ≤ stack.length) :
    parseTokens (pending stack) i (t :: rest) = .error ⟨.tooDeeplyNested, some (t, i)⟩ := by
  cases t with
  | closing => exact absurd rfl ht
  | opening => simp [pending, parseTokens, hd]
  | word text => simp [pending, parseTokens, hd]

theorem parse_opening (hd : ¬ nestingLimit ≤ stack.length) :
    parseTokens (pending stack) i (.opening :: rest) =
      parseTokens (pending ([] :: stack)) (i + 1) rest := by
  simp [pending, parseTokens, hd]

theorem parse_inner_word {items : List Tree} (hd : ¬ nestingLimit ≤ (items :: stack).length)
    (text : String) : parseTokens (pending (items :: stack)) i (.word text :: rest) =
      parseTokens (pending ((.word text :: items) :: stack)) (i + 1) rest := by
  simp only [List.length_cons] at hd
  simp [pending, parseTokens, Tree.expr, hd]

theorem parse_inner_closing (items outer : List Tree) :
    parseTokens (pending (items :: outer :: stack)) i (.closing :: rest) =
      parseTokens (pending ((.list items.reverse :: outer) :: stack)) (i + 1) rest := by
  simp [pending, parseTokens, Tree.expr]

theorem parse_last_word (text : String) :
    parseTokens (pending []) i (.word text :: rest) =
      .ok ((Tree.word text).expr, i + 1, rest) := by
  simp [pending, parseTokens, Tree.expr, nestingLimit]

theorem parse_last_closing (items : List Tree) :
    parseTokens (pending [items]) i (.closing :: rest) =
      .ok ((Tree.list items.reverse).expr, i + 1, rest) := by
  simp [pending, parseTokens, Tree.expr]

end Moves

/-- The reader goes on from a reading to the verdict. -/
theorem verdict_of_reading {ts : List Token} (strict : Bool) (hne : ts ≠ [])
    (hhead : ts[0]? ≠ some .closing) {rest : List Token} {stack : List (List Tree)} {i : Nat}
    (h : Reading ts stack i rest) :
    Verdict ts strict (conclude strict (parseTokens (pending stack) i rest)) := by
  induction rest generalizing stack i with
  | nil => exact h.verdict_of_nil hhead hne
  | cons t rest ih =>
    by_cases hp : TooDeepAt ts i
    · obtain ⟨ht, hd⟩ := h.tooDeepAt_iff.mp hp
      rw [parse_tooDeep rest i ht hd]
      exact h.verdict_of_tooDeep hhead hp
    have hdeep (ht : t ≠ .closing) : ¬ nestingLimit ≤ stack.length := fun hd =>
      hp (h.tooDeepAt_iff.mpr ⟨ht, hd⟩)
    cases t with
    | opening =>
      have hk : ¬ ClosedAt ts i := h.not_closedAt (by simp [change])
      rw [parse_opening rest i (hdeep nofun)]
      exact ih (h.step (by simp [Tree.tokensAll, unfinished]) hk hp)
    | closing =>
      match stack with
      | [] => exact absurd (h.eq_zero ▸ h.getElem?_eq) hhead
      | [items] =>
        have hk : ClosedAt ts i := h.closedAt_iff.mpr (by simp [change])
        rw [parse_last_closing]
        exact h.verdict_of_tree hhead hk (by simp [Tree.tokens, unfinished])
      | items :: outer :: others =>
        have hk : ¬ ClosedAt ts i :=
          h.not_closedAt (by simp only [List.length_cons, change]; omega)
        rw [parse_inner_closing]
        exact ih (h.step (by simp [Tree.tokensAll, Tree.tokens, unfinished]) hk hp)
    | word text =>
      cases stack with
      | nil =>
        have hk : ClosedAt ts i := h.closedAt_iff.mpr (by simp [change])
        rw [parse_last_word]
        exact h.verdict_of_tree hhead hk (by simp [Tree.tokens, unfinished])
      | cons items outer =>
        have hk : ¬ ClosedAt ts i := h.not_closedAt (by simp [change])
        rw [parse_inner_word rest i (hdeep nofun)]
        exact ih (h.step (by simp [Tree.tokensAll, Tree.tokens, unfinished]) hk hp)

theorem reading_start {ts : List Token} : Reading ts [] 0 ts :=
  ⟨rfl, rfl, Nat.zero_le _, fun _ _ => Nat.zero_le _, fun _ _ => Nat.zero_le _⟩

theorem verdict_ofTokens (ts : List Token) (strict : Bool) :
    Verdict ts strict (ofTokens ts strict) := by
  match ts with
  | [] => exact .nothing rfl
  | .closing :: rest => exact .closing rfl
  | .opening :: rest => exact verdict_of_reading strict (by simp) (by simp) reading_start
  | .word text :: rest => exact verdict_of_reading strict (by simp) (by simp) reading_start

/-- The conditions of the verdict exclude each other. -/
theorem Verdict.unique {ts : List Token} {strict : Bool} {r r' : Except ParseError Expr}
    (h : Verdict ts strict r) (h' : Verdict ts strict r') : r = r' := by
  cases h with
  | nothing h =>
    subst h
    cases h' with
    | nothing => rfl
    | closing h' => cases h'
    | tooDeep _ _ ht' => cases ht'
    | unclosed hne' => exact absurd rfl hne'
    | tree _ hk' | trailing _ hk' => exact absurd hk'.1.1 (Nat.not_lt_zero _)
  | closing h =>
    cases h' with
    | nothing h' => rw [h'] at h; cases h
    | closing => rfl
    | tooDeep h' | unclosed _ h' | tree h' | trailing h' => exact absurd h h'
  | tooDeep h hp ht hk =>
    cases h' with
    | nothing h' => rw [h'] at ht; cases ht
    | closing h' => exact absurd h' h
    | tooDeep _ hp' ht' =>
      obtain rfl := hp.unique hp'
      cases ht.symm.trans ht'
      rfl
    | unclosed _ _ hp' => exact absurd hp.1 (hp' _)
    | tree _ hk' hp' | trailing _ hk' hp' => exact absurd (hk _ hk'.1) (Nat.not_lt.mpr (hp' _ hp.1))
  | unclosed hne h hp hk =>
    cases h' with
    | nothing | unclosed => rfl
    | closing h' => exact absurd h' h
    | tooDeep _ hp' => exact absurd hp'.1 (hp _)
    | tree _ hk' | trailing _ hk' => exact absurd hk'.1 (hk _)
  | tree h hk hp ht hunique hs =>
    cases h' with
    | nothing h' => rw [h'] at hk; exact absurd hk.1.1 (Nat.not_lt_zero _)
    | closing h' => exact absurd h' h
    | tooDeep _ hp' _ hk' => exact absurd (hk' _ hk.1) (Nat.not_lt.mpr (hp _ hp'.1))
    | unclosed _ _ _ hk' => exact absurd hk.1 (hk' _)
    | tree _ hk' _ ht' =>
      obtain rfl := hk.unique hk'
      rw [hunique _ ht']
    | trailing _ hk' _ ht' hs' =>
      obtain rfl := hk.unique hk'
      have hlt := (List.getElem?_eq_some_iff.mp ht').1
      rcases hs with hs | hs
      · rw [hs] at hs'
        cases hs'
      · omega
  | trailing h hk hp ht hs =>
    cases h' with
    | nothing h' => rw [h'] at hk; exact absurd hk.1.1 (Nat.not_lt_zero _)
    | closing h' => exact absurd h' h
    | tooDeep _ hp' _ hk' => exact absurd (hk' _ hk.1) (Nat.not_lt.mpr (hp _ hp'.1))
    | unclosed _ _ _ hk' => exact absurd hk.1 (hk' _)
    | tree _ hk' _ _ _ hs' =>
      obtain rfl := hk.unique hk'
      have hlt := (List.getElem?_eq_some_iff.mp ht).1
      rcases hs' with hs' | hs'
      · rw [hs] at hs'
        cases hs'
      · omega
    | trailing _ hk' _ ht' =>
      obtain rfl := hk.unique hk'
      cases ht.symm.trans ht'
      rfl

/-- The reader accepts exactly what its grammar says, and says of everything else why not. -/
theorem ofTokens_iff (ts : List Token) (strict : Bool) (r : Except ParseError Expr) :
    ofTokens ts strict = r ↔ Verdict ts strict r := by
  refine ⟨fun h => ?_, fun h => ?_⟩
  · rw [← h]
    exact verdict_ofTokens ts strict
  · exact (verdict_ofTokens ts strict).unique h

section Nesting

/-- What has been read fits into the lists that are open around it, innermost first. -/
inductive Fits : List (List Expr) → Prop where
  | nil : Fits []
  | cons {items : List Expr} {outer : List (List Expr)} (hlimit : outer.length < nestingLimit)
      (hitems : ∀ e ∈ items, outer.length + 1 + e.nesting ≤ nestingLimit) (houter : Fits outer) :
      Fits (items :: outer)

namespace Fits

variable {e : Expr} {items : List Expr} {outer : List (List Expr)}

theorem opening (h : Fits outer) (hlimit : ¬ nestingLimit ≤ outer.length) : Fits ([] :: outer) :=
  .cons (Nat.lt_of_not_le hlimit) nofun h

theorem item (h : Fits (items :: outer)) (he : outer.length + 1 + e.nesting ≤ nestingLimit) :
    Fits ((e :: items) :: outer) := by
  cases h with
  | cons hlimit hitems houter => exact .cons hlimit (List.forall_mem_cons.mpr ⟨he, hitems⟩) houter

/-- A list that is closed fits into the lists around it. -/
theorem closing (h : Fits (items :: outer)) :
    outer.length + (list items.reverse).nesting ≤ nestingLimit := by
  cases h with
  | cons hlimit hitems houter =>
    have hall : nestingAll items.reverse ≤ nestingLimit - (outer.length + 1) := by
      refine nestingAll_le fun e he => ?_
      have := hitems e (List.mem_reverse.mp he)
      omega
    rw [nesting]
    omega

end Fits

theorem nesting_ofWord (word : String) : (ofWord word).nesting = 0 := by
  unfold ofWord
  split
  · rfl
  · split
    · rfl
    · rfl

theorem nesting_le_of_parseTokens {outer : List (List Expr)} {i j : Nat} {ts rest : List Token}
    {e : Expr} (h : Fits outer) (he : parseTokens outer i ts = .ok (e, j, rest)) :
    e.nesting ≤ nestingLimit := by
  fun_induction parseTokens outer i ts with
  | case1 => cases he
  | case2 => cases he
  | case3 i ts items =>
    cases he
    have := h.closing
    rwa [List.length_nil, Nat.zero_add] at this
  | case4 i ts items outer others ih =>
    have hlist := h.closing
    cases h with
    | cons _ _ houter => exact ih (houter.item hlist) he
  | case5 => cases he
  | case6 outer i ts hlimit ih => exact ih (h.opening hlimit) he
  | case7 => cases he
  | case8 i text ts hlimit =>
    cases he
    rw [nesting_ofWord]
    exact Nat.zero_le _
  | case9 i text ts items outer hlimit ih =>
    refine ih (h.item ?_) he
    rw [nesting_ofWord]
    exact Nat.le_of_not_le hlimit

theorem eq_ok_of_conclude {strict : Bool} {r : Except ParseError Parsed} {e : Expr}
    (h : conclude strict r = .ok e) : ∃ i rest, r = .ok (e, i, rest) := by
  unfold conclude at h
  split at h
  · cases h
  · split at h
    · cases h
    · cases h
      exact ⟨_, _, rfl⟩
  · cases h
    exact ⟨_, _, rfl⟩

/-- Expressions that are read are nested no deeper than the limit. -/
theorem nesting_le_of_parse {source : String} {strict : Bool} {e : Expr}
    (h : parse source strict = .ok e) : e.nesting ≤ nestingLimit := by
  obtain ⟨i, rest, hread⟩ := eq_ok_of_conclude h
  exact nesting_le_of_parseTokens .nil hread

end Nesting

example : ofTokens (List.replicate 128 .opening) false = .error ⟨.unexpectedEnd, none⟩ := rfl

example : ofTokens (List.replicate 128 .opening ++ [.word "x"]) false =
    .error ⟨.tooDeeplyNested, some (.word "x", 128)⟩ := rfl

end Expr

end MiniLisp
