import MiniLisp.Eval.Outcome
import MiniLisp.Proofs.Decimal.Numeral
import MiniLisp.Proofs.Expr.Grammar
import MiniLisp.Proofs.Expr.Occurrence
import MiniLisp.Proofs.Expr.Scan

/-!
# Reading what was written

An expression that was read is written with the tree that it was read from, word by word spelled
anew (`text_map_respell`). New spellings change neither where lists begin and end nor how deep they
nest (`ofTokens_map`), and they stand for the same atoms (`ofWord_respell`). So the text of an
expression reads as that expression.
-/

namespace MiniLisp

/-- A token with its word spelled in another way. -/
def Token.map (f : String → String) : Token → Token
  | word text => word (f text)
  | t => t

namespace Token

variable (f : String → String)

theorem map_eq_closing_iff {t : Token} : t.map f = .closing ↔ t = .closing := by
  cases t <;> simp [Token.map]

theorem count_map_opening (ts : List Token) :
    (ts.map (Token.map f)).count .opening = ts.count .opening := by
  induction ts with
  | nil => rfl
  | cons t ts ih => cases t <;> simp [Token.map, ih]

theorem count_map_closing (ts : List Token) :
    (ts.map (Token.map f)).count .closing = ts.count .closing := by
  induction ts with
  | nil => rfl
  | cons t ts ih => cases t <;> simp [Token.map, ih]

end Token

namespace Tree

mutual

/-- A tree with its words spelled in another way. -/
def map (f : String → String) : Tree → Tree
  | word text => word (f text)
  | list items => list (mapAll f items)

def mapAll (f : String → String) : List Tree → List Tree
  | [] => []
  | t :: rest => map f t :: mapAll f rest

end

variable (f : String → String)

mutual

theorem tokens_map : ∀ t : Tree, (t.map f).tokens = t.tokens.map (Token.map f)
  | word text => rfl
  | list items => by simp [map, tokens, tokensAll_mapAll items, Token.map]

theorem tokensAll_mapAll : ∀ items : List Tree,
    tokensAll (mapAll f items) = (tokensAll items).map (Token.map f)
  | [] => rfl
  | t :: rest => by simp [mapAll, tokensAll, tokens_map t, tokensAll_mapAll rest]

end

mutual

/-- Words that stand for the same atoms make the same expression. -/
theorem expr_map : ∀ t : Tree, (∀ w, .word w ∈ t.tokens → Expr.ofWord (f w) = Expr.ofWord w) →
    (t.map f).expr = t.expr
  | word text, h => h text (by simp [tokens])
  | list items, h => by
    have hitems := exprs_mapAll items fun w hw => h w (by simp [tokens, hw])
    simp only [map, expr, hitems]

theorem exprs_mapAll : ∀ items : List Tree,
    (∀ w, .word w ∈ tokensAll items → Expr.ofWord (f w) = Expr.ofWord w) →
    exprs (mapAll f items) = exprs items
  | [], _ => rfl
  | t :: rest, h => by
    have hfirst := expr_map t fun w hw => h w (List.mem_append_left _ hw)
    have hrest := exprs_mapAll rest fun w hw => h w (List.mem_append_right _ hw)
    simp only [mapAll, exprs, hfirst, hrest]

end

mutual

/-- The atoms of an expression that was read are the words that it was read from. -/
theorem within_ofWord : ∀ (t : Tree) {w : String}, .word w ∈ t.tokens →
    Expr.Within (Expr.ofWord w) t.expr
  | word text, w, h => by
    have hw : w = text := by simpa [tokens] using h
    rw [hw]
    exact .self _
  | list items, w, h => by
    obtain ⟨e, he, hw⟩ := within_ofWord_all items (by simpa [tokens] using h)
    exact .item he hw

theorem within_ofWord_all : ∀ (items : List Tree) {w : String}, .word w ∈ tokensAll items →
    ∃ e ∈ exprs items, Expr.Within (Expr.ofWord w) e
  | t :: rest, w, h => by
    rcases List.mem_append.mp h with h | h
    · exact ⟨t.expr, .head _, within_ofWord t h⟩
    · obtain ⟨e, he, hw⟩ := within_ofWord_all rest h
      exact ⟨e, .tail _ he, hw⟩

end

end Tree

namespace Expr

/-- A float that its text reads back as. -/
def ReadsBack (x : Float) : Prop :=
  Decimal.float? (Decimal.Layout.value.text x).toList = some x

/-- How a word is spelled that is written for the atom it stands for. -/
def respell (word : String) : String := (ofWord word).text

/-- A word is an integer, a float or a symbol. -/
theorem ofWord_cases (w : String) : (∃ n, ofWord w = .int n) ∨ (∃ x, ofWord w = .float x) ∨
    ofWord w = .symbol w := by
  unfold ofWord
  cases Decimal.int? w.toList with
  | some n => exact .inl ⟨n, rfl⟩
  | none =>
    cases Decimal.float? w.toList with
    | some x => exact .inr (.inl ⟨x, rfl⟩)
    | none => exact .inr (.inr rfl)

theorem isLetter_of_isNumeral {c : Char} (h : Decimal.IsNumeral c) : IsLetter c := by
  rcases h with h | h
  · have hrange : 48 ≤ c.toNat ∧ c.toNat ≤ 57 := by
      simpa [Char.isDigit, UInt32.le_iff_toNat_le] using h
    refine ⟨?_, ?_, ?_⟩
    · simp [isBlank]
      omega
    · rintro rfl
      exact absurd hrange (by decide)
    · rintro rfl
      exact absurd hrange (by decide)
  · have hmarks : ['-', '.', 'e', 'i', 'n', 'f', 'a'].all
        (fun c => decide (isBlank c = false ∧ c ≠ '(' ∧ c ≠ ')')) = true := by decide
    obtain ⟨hblank, hopening, hclosing⟩ := of_decide_eq_true (List.all_eq_true.mp hmarks c h)
    exact ⟨hblank, hopening, hclosing⟩

theorem isWord_respell {w : String} (h : IsWord w) : IsWord (respell w) := by
  unfold respell
  rcases ofWord_cases w with ⟨n, hw⟩ | ⟨x, hw⟩ | hw
  · rw [hw]
    exact ⟨Decimal.toString_ne_nil _,
      fun c hc => isLetter_of_isNumeral (Decimal.isNumeral_of_mem_toString hc)⟩
  · rw [hw]
    exact ⟨Decimal.text_ne_nil x,
      fun c hc => isLetter_of_isNumeral (Decimal.isNumeral_of_mem_text hc)⟩
  · rw [hw]
    exact h

/-- The new spelling of a word stands for the same atom. -/
theorem ofWord_respell {w : String} (h : ∀ x, ofWord w = .float x → ReadsBack x) :
    ofWord (respell w) = ofWord w := by
  unfold respell
  rcases ofWord_cases w with ⟨n, hw⟩ | ⟨x, hw⟩ | hw
  · rw [hw]
    simp only [ofWord, text, Decimal.int?_toString]
  · have hx : Decimal.float? (Decimal.Layout.value.text x).toList = some x := h x hw
    rw [hw]
    simp only [ofWord, text, Decimal.int?_text, hx]
  · rw [hw]
    exact hw

mutual

/-- An expression that was read is written with its words spelled anew. -/
theorem text_map_respell : ∀ t : Tree, (t.map respell).text = t.expr.text
  | .word w => rfl
  | .list items => by
    simp only [Tree.map, Tree.text, Tree.expr, text, texts_map_respell items]

theorem texts_map_respell : ∀ items : List Tree,
    Tree.texts (Tree.mapAll respell items) = texts (Tree.exprs items)
  | [] => rfl
  | t :: rest => by
    simp only [Tree.mapAll, Tree.texts, Tree.exprs, texts, text_map_respell t,
      texts_map_respell rest]

end

section Positions

variable (f : String → String) (ts : List Token)

theorem balance_map (i : Nat) : balance (ts.map (Token.map f)) i = balance ts i := by
  simp only [balance, ← List.map_take, Token.count_map_opening, Token.count_map_closing]

theorem closedAt_map_iff (k : Nat) : ClosedAt (ts.map (Token.map f)) k ↔ ClosedAt ts k := by
  simp only [ClosedAt, balance_map, List.length_map]

theorem tooDeepAt_of_map {p : Nat} (h : TooDeepAt (ts.map (Token.map f)) p) : TooDeepAt ts p := by
  obtain ⟨t, ht, hne, hdeep⟩ := h
  rw [List.getElem?_map, Option.map_eq_some_iff] at ht
  obtain ⟨u, hu, rfl⟩ := ht
  rw [balance_map] at hdeep
  exact ⟨u, hu, fun he => hne ((Token.map_eq_closing_iff f).mpr he), hdeep⟩

variable {ts}

theorem balance_take {n i : Nat} (h : i ≤ n) : balance (ts.take n) i = balance ts i := by
  simp only [balance, List.take_take, Nat.min_eq_left h]

theorem closedAt_of_take {n k : Nat} (h : ClosedAt (ts.take n) k) : ClosedAt ts k := by
  obtain ⟨hlength, hbalance⟩ := h
  rw [List.length_take] at hlength
  rw [balance_take (by omega)] at hbalance
  exact ⟨by omega, hbalance⟩

theorem tooDeepAt_of_take {n p : Nat} (h : TooDeepAt (ts.take n) p) : TooDeepAt ts p := by
  obtain ⟨t, ht, hne, hdeep⟩ := h
  have hlt : p < (ts.take n).length := (List.getElem?_eq_some_iff.mp ht).1
  rw [List.length_take] at hlt
  rw [List.getElem?_take_of_lt (by omega)] at ht
  rw [balance_take (by omega)] at hdeep
  exact ⟨t, ht, hne, hdeep⟩

end Positions

/-- An expression that was read has a tree among the tokens, and with any other words that tree is
read too. -/
theorem ofTokens_map {ts : List Token} {strict : Bool} {e : Expr} (h : ofTokens ts strict = .ok e) :
    ∃ t : Tree, t.expr = e ∧ (∀ w, .word w ∈ t.tokens → .word w ∈ ts) ∧
      ∀ f, ofTokens (t.map f).tokens true = .ok (t.map f).expr := by
  have hverdict := verdict_ofTokens ts strict
  rw [h] at hverdict
  cases hverdict with
  | @tree t k _ hk hp ht =>
    refine ⟨t, rfl, fun w hw => ?_, fun f => ?_⟩
    · rw [ht] at hw
      exact List.mem_of_mem_take hw
    · have htokens : (t.map f).tokens = (ts.take (k + 1)).map (Token.map f) := by
        rw [Tree.tokens_map, ht]
      have hlength : (t.map f).tokens.length = k + 1 := by
        rw [htokens, List.length_map, List.length_take]
        exact Nat.min_eq_left hk.1.1
      have hhead : (t.map f).tokens[0]? ≠ some .closing := by
        intro hclosing
        rw [← List.head?_eq_getElem?] at hclosing
        obtain ⟨others, hothers⟩ := List.head?_eq_some_iff.mp hclosing
        rw [← List.append_nil (t.map f).tokens] at hothers
        exact Tree.tokens_ne_closing (t.map f) hothers
      have hclosed : ClosedAt (t.map f).tokens k := by
        rw [htokens, closedAt_map_iff]
        refine ⟨?_, ?_⟩
        · rw [List.length_take, Nat.min_eq_left hk.1.1]
          exact Nat.lt_succ_self k
        · rw [balance_take (Nat.le_refl _)]
          exact hk.1.2
      have hleast : IsLeast {k | ClosedAt (t.map f).tokens k} k := by
        refine ⟨hclosed, fun j hj => ?_⟩
        have hj : ClosedAt (t.map f).tokens j := hj
        rw [htokens, closedAt_map_iff] at hj
        exact hk.2 (closedAt_of_take hj)
      have hdeep (p : Nat) (hd : TooDeepAt (t.map f).tokens p) : k ≤ p := by
        rw [htokens] at hd
        exact hp p (tooDeepAt_of_take (tooDeepAt_of_map f _ hd))
      have hwhole : (t.map f).tokens.take (k + 1) = (t.map f).tokens :=
        List.take_of_length_le (Nat.le_of_eq hlength)
      refine (verdict_ofTokens _ true).unique (.tree hhead hleast hdeep hwhole.symm ?_ ?_)
      · intro u hu
        rw [hwhole] at hu
        exact Tree.tokens_injective hu
      · exact .inr hlength.symm

mutual

/-- Quoting an expression keeps its text. -/
theorem text_finish_ofExpr : ∀ (e : Expr) (fresh : Nat),
    ((Draft.ofExpr e).finish fresh).1.text = e.text
  | int n, _ => rfl
  | float x, _ => by rw [Draft.ofExpr, Draft.finish, Value.text_float, text]
  | symbol name, _ => rfl
  | list items, fresh => by
    have hitems := map_text_finishAll_ofExprs items (fresh + 1)
    rw [Draft.ofExpr, Draft.finish, Value.text_list, hitems, text, texts_eq_map]

theorem map_text_finishAll_ofExprs : ∀ (items : List Expr) (fresh : Nat),
    (Draft.finishAll fresh (Draft.ofExprs items)).1.map Value.text = items.map text
  | [], _ => rfl
  | e :: rest, fresh => by
    have hfirst := text_finish_ofExpr e fresh
    have hrest := map_text_finishAll_ofExprs rest ((Draft.ofExpr e).finish fresh).2
    rw [Draft.ofExprs, Draft.finishAll, List.map_cons, List.map_cons, hfirst, hrest]

end

/-- An expression that was read and its quoted value have one text, which reads as that expression
and nothing after it. Of floats it is taken for granted that their texts read back. -/
theorem parse_text {source : String} {strict : Bool} {e : Expr} (h : parse source strict = .ok e)
    (hfloats : ∀ x, Within (.float x) e → ReadsBack x) :
    (∀ s : State, (s.make (.ofExpr e)).1.text = e.text) ∧ parse e.text true = .ok e := by
  have hquoted (s : State) : (s.make (.ofExpr e)).1.text = e.text := by
    have hmake : (s.make (.ofExpr e)).1 = ((Draft.ofExpr e).finish s.fresh).1 := rfl
    rw [hmake, text_finish_ofExpr]
  refine ⟨hquoted, ?_⟩
  obtain ⟨t, rfl, hwords, hread⟩ := ofTokens_map h
  have hword (w : String) (hw : .word w ∈ t.tokens) : IsWord w :=
    Token.isWord_of_mem_scan (hwords w hw)
  have hspelled (w : String) (hw : .word w ∈ (t.map respell).tokens) : IsWord w := by
    rw [Tree.tokens_map, List.mem_map] at hw
    obtain ⟨u, hu, he⟩ := hw
    cases u with
    | word v =>
      cases he
      exact isWord_respell (hword v hu)
    | _ => cases he
  have hexpr : (t.map respell).expr = t.expr := by
    refine Tree.expr_map respell t fun w hw => ofWord_respell fun x hx => hfloats x ?_
    rw [← hx]
    exact Tree.within_ofWord t hw
  calc parse t.expr.text true
      = ofTokens (Token.scan (t.map respell).text) true := by rw [parse, text_map_respell]
    _ = ofTokens (t.map respell).tokens true := by rw [Tree.scan_text hspelled]
    _ = .ok t.expr := by rw [hread respell, hexpr]

theorem parse_text_spelled_anew :
    let e : Expr := .list [.symbol "f", .int 5, .float 1000, .float (0 / 0)]
    parse "(f +5 1e3 NaN)" false = .ok e ∧ (∀ x, Within (.float x) e → ReadsBack x) ∧
      parse e.text true = .ok e := by
  intro e
  have hscan : Token.scan "(f +5 1e3 NaN)" =
      [.opening, .word "f", .word "+5", .word "1e3", .word "NaN", .closing] := by decide +kernel
  have hf : ofWord "f" = .symbol "f" := rfl
  have h5 : ofWord "+5" = .int 5 := rfl
  have hthousand : ofWord "1e3" = .float 1000 := by
    have hfloat : Decimal.float? "1e3".toList = some 1000 := by decide +kernel
    simp only [ofWord, hfloat]
    rfl
  have hnan : ofWord "NaN" = .float (0 / 0) := by
    have hfloat : Decimal.float? "NaN".toList = some (0 / 0) := by decide +kernel
    simp only [ofWord, hfloat]
    rfl
  have hread : parse "(f +5 1e3 NaN)" false = .ok e := by
    rw [parse, hscan]
    simp [ofTokens, parseTokens, conclude, nestingLimit, hf, h5, hthousand, hnan, e]
  have hfloats : ∀ x, Within (.float x) e → ReadsBack x := by
    intro x hx
    dsimp only [e] at hx
    cases hx with
    | item hmem hx =>
      simp only [List.mem_cons, List.not_mem_nil, or_false] at hmem
      rcases hmem with rfl | rfl | rfl | rfl
      · cases hx
      · cases hx
      · cases hx
        exact (by decide +kernel :
          Decimal.float? (Decimal.Layout.value.text 1000).toList = some 1000)
      · cases hx
        exact (by decide +kernel :
          Decimal.float? (Decimal.Layout.value.text (0 / 0)).toList = some (0 / 0))
  exact ⟨hread, hfloats, (parse_text hread hfloats).2⟩

end Expr

end MiniLisp
