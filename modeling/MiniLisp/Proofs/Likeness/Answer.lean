import MiniLisp.Proofs.Likeness.Value

/-!
# Alike answers

Procedures that do not call others see their arguments as values that are alike in the two runs.
They answer alike if what they hand over is alike: every typed procedure does whose function does
on arguments that were converted (`answers_fixed`, `answers_variadic`).
-/

namespace MiniLisp

variable {L : Likeness} {st st' : Stage} {α β γ δ : Type}

namespace Likeness.Agrees

variable {V : α → β → Prop} {V' : γ → δ → Prop} {r : Except Error α} {r' : Except Error β}

theorem bind (h : L.Agrees V r r') {k : α → Except Error γ} {k' : β → Except Error δ}
    (hk : ∀ a b, V a b → L.Agrees V' (k a) (k' b)) : L.Agrees V' (r >>= k) (r' >>= k') := by
  cases h with
  | error he => exact .error he
  | ok h => exact hk _ _ h

theorem map (h : L.Agrees V r r') {g : α → γ} {g' : β → δ} (hg : ∀ a b, V a b → V' (g a) (g' b)) :
    L.Agrees V' (r.map g) (r'.map g') := by
  cases h with
  | error he => exact .error he
  | ok h => exact .ok (hg _ _ h)

theorem mapM {k : α → Except Error γ} {k' : β → Except Error δ} {as : List α} {bs : List β}
    (h : List.Forall₂ (fun a b => L.Agrees V' (k a) (k' b)) as bs) :
    L.Agrees (List.Forall₂ V') (as.mapM k) (bs.mapM k') := by
  induction h with
  | nil => exact .ok .nil
  | cons hhead _ ih =>
    rw [List.mapM_cons, List.mapM_cons]
    exact hhead.bind fun c d hcd => ih.bind fun cs ds hrest => .ok (.cons hcd hrest)

end Likeness.Agrees

section Drafts

inductive Draft.Alike (L : Likeness) (st : Stage) : Draft → Draft → Prop where
  | value {v w : Value} (h : v.Alike L st w) : Alike L st (.value v) (.value w)
  | list {ds es : List Draft} (hlength : ds.length = es.length)
      (hitems : ∀ {d e : Draft}, (d, e) ∈ ds.zip es → Alike L st d e) :
      Alike L st (.list ds) (.list es)

structure Reply.Alike (L : Likeness) (st : Stage) (a b : Reply) : Prop where
  draft : a.draft.Alike L st b.draft
  printed : a.printed = b.printed

/-- The two functions answer alike to arguments that are alike. -/
def Likeness.Answers (L : Likeness) (run run' : HostFunction) : Prop :=
  ∀ (st : Stage) (vs ws : List Value), Value.AllAlike L st vs ws →
    L.Agrees (Reply.Alike L st) (run vs) (run' ws)

namespace Draft

theorem alike_list_iff {ds es : List Draft} :
    Alike L st (.list ds) (.list es) ↔ List.Forall₂ (Alike L st) ds es := by
  rw [List.forall₂_iff_zip]
  constructor
  · intro h
    cases h with
    | list hlength hitems => exact ⟨hlength, hitems⟩
  · rintro ⟨hlength, hitems⟩
    exact .list hlength hitems

theorem Alike.ofList {vs ws : List Value} (h : Value.AllAlike L st vs ws) :
    Alike L st (.ofList vs) (.ofList ws) := by
  refine alike_list_iff.mpr ?_
  rw [List.forall₂_map_left_iff, List.forall₂_map_right_iff]
  exact h.imp fun _ _ h => .value h

/-- Quoted code is alike in both runs. -/
theorem alike_ofExpr {e : Expr} (h : L.code e) : Alike L st (ofExpr e) (ofExpr e) := by
  induction e using Expr.items_induction with
  | int n => exact .value (.int n)
  | float x => exact .value (.float x)
  | symbol name => exact .value (.symbol (L.text_of_code h))
  | list items ih =>
    rw [ofExpr, ofExprs_eq_map]
    refine alike_list_iff.mpr (List.forall₂_same.mpr fun d hd => ?_)
    obtain ⟨e, he, rfl⟩ := List.mem_map.mp hd
    exact ih e he (L.code_item h he)

/-- What two runs that have counted equally far make of drafts that are alike. -/
structure Finished (L : Likeness) (frames n : Nat) (a b : Value × Nat) : Prop where
  value : a.1.Alike L ⟨frames, a.2⟩ b.1
  inStep : L.id.InStep a.2 b.2
  grown : n ≤ a.2

structure FinishedAll (L : Likeness) (frames n : Nat) (a b : List Value × Nat) : Prop where
  values : Value.AllAlike L ⟨frames, a.2⟩ a.1 b.1
  inStep : L.id.InStep a.2 b.2
  grown : n ≤ a.2

theorem finishAll_of_zip {ds es : List Draft} {frames start n m : Nat} (hn : L.id.InStep n m)
    (hlength : ds.length = es.length)
    (h : ∀ {d e : Draft}, (d, e) ∈ ds.zip es → ∀ {n m : Nat}, L.id.InStep n m → start ≤ n →
      Finished L frames n (finish n d) (finish m e)) (hstart : start ≤ n) :
    FinishedAll L frames n (finishAll n ds) (finishAll m es) := by
  induction ds generalizing es n m with
  | nil => cases es with
    | nil => exact ⟨.nil, hn, Nat.le_refl n⟩
    | cons => cases hlength
  | cons d ds ih => cases es with
    | nil => cases hlength
    | cons e es =>
      have hfirst := h (.head _) hn hstart
      have hrest := ih hfirst.inStep (Nat.succ.inj hlength) (fun hmem => h (.tail _ hmem))
        (Nat.le_trans hstart hfirst.grown)
      have hvalue : (finish n d).1.Alike L ⟨frames, (finishAll (finish n d).2 ds).2⟩
          (finish m e).1 := hfirst.value.mono ⟨Nat.le_refl frames, hrest.grown⟩
      exact ⟨.cons hvalue hrest.values, hrest.inStep, Nat.le_trans hfirst.grown hrest.grown⟩

theorem Alike.finish {d e : Draft} (h : Alike L st d e) {n m : Nat} (hn : L.id.InStep n m)
    (hst : st.ids ≤ n) : Finished L st.frames n (finish n d) (finish m e) := by
  induction h generalizing n m with
  | value h => exact ⟨h.mono ⟨Nat.le_refl _, hst⟩, hn, Nat.le_refl n⟩
  | list hlength _ ih =>
    have hall := finishAll_of_zip (hn.add 1) hlength ih (Nat.le_succ_of_le hst)
    exact ⟨.listOf (hn.upto.mono hall.grown) hall.values, hall.inStep,
      Nat.le_of_succ_le hall.grown⟩

end Draft

end Drafts

section Conversions

variable {v w : Value} {vs ws : List Value}

theorem Value.text_typeName (L : Likeness) (v : Value) : L.text v.typeName := by
  have hline : '\n' ∉ v.typeName.toList := by cases v <;> simp [Value.typeName]
  exact L.text_of_line hline

/-- A value that does not fit is the same error in both runs. -/
theorem Value.Alike.agrees_mismatch (h : Value.Alike L st v w) (wanted : Wanted)
    (V : α → β → Prop) :
    L.Agrees V (.error (v.mismatch wanted)) (.error (w.mismatch wanted)) := by
  rw [Value.mismatch, Value.mismatch, h.shown_eq]
  refine .error (L.error_of_type ?_)
  have hwanted : L.text wanted.text := L.text_of_line (by cases wanted <;> decide)
  have hparts := L.text_append (L.text_append (L.text_append (L.text_append
    (L.text_append (L.text_of_line (by decide : '\n' ∉ "expected ".toList)) hwanted)
    (L.text_of_line (by decide : '\n' ∉ ", got ".toList))) (w.text_typeName L))
    (L.text_of_line (by decide : '\n' ∉ ": ".toList))) (h.text_eq ▸ h.text)
  exact hparts

theorem Value.Alike.toNumber (h : Value.Alike L st v w) :
    L.Agrees Eq v.toNumber w.toNumber := by
  unfold Value.toNumber
  rw [h.number?_eq]
  cases w.number? with
  | some n => exact .ok rfl
  | none => exact h.agrees_mismatch .number Eq

theorem numbersOf_alike (h : Value.AllAlike L st vs ws) :
    L.Agrees Eq (numbersOf vs) (numbersOf ws) := by
  rw [numbersOf_eq_mapM, numbersOf_eq_mapM]
  have hall : L.Agrees (List.Forall₂ Eq) (vs.mapM Value.toNumber) (ws.mapM Value.toNumber) :=
    .mapM (h.imp fun _ _ h => h.toNumber)
  exact hall.imp fun _ _ h => List.forall₂_eq_eq_eq ▸ h

/-- Numbers are the same in both runs, values and lists of values are alike. -/
def Param.Alike (L : Likeness) (st : Stage) : (p : Param) → p.Carrier → p.Carrier → Prop
  | .value => Value.Alike L st
  | .number => Eq
  | .integer => Eq
  | .real => Eq
  | .list => Value.AllAlike L st
  | .numbers => Eq

def Rest.Alike (L : Likeness) (st : Stage) : (r : Rest) → r.Carrier → r.Carrier → Prop
  | .values => Value.AllAlike L st
  | .numbers => Eq

theorem Value.Alike.convert (h : Value.Alike L st v w) (p : Param) :
    L.Agrees (p.Alike L st) (p.convert v) (p.convert w) := by
  cases p with
  | value => exact .ok h
  | number => exact h.toNumber
  | integer =>
    have hother := h.agrees_mismatch .integer (Param.integer.Alike L st)
    cases h with
    | int n => exact .ok rfl
    | _ => exact hother
  | real => exact h.toNumber.map fun a b hab => congrArg Number.toReal hab
  | list =>
    have hother := h.agrees_mismatch .list (Param.list.Alike L st)
    cases h with
    | list hid hlength hitems =>
      exact .ok (Value.alike_list_iff.mp (.list hid hlength hitems)).2
    | _ => exact hother
  | numbers =>
    have hother := h.agrees_mismatch .list (Param.numbers.Alike L st)
    cases h with
    | list hid hlength hitems =>
      exact numbersOf_alike (Value.alike_list_iff.mp (.list hid hlength hitems)).2
    | _ => exact hother

theorem Rest.convert_alike (r : Rest) (h : Value.AllAlike L st vs ws) :
    L.Agrees (r.Alike L st) (r.convert vs) (r.convert ws) := by
  cases r with
  | values => exact .ok h
  | numbers => exact numbersOf_alike h

end Conversions

section Procedures

/-- Functions that take typed arguments that are alike to results that belong together. -/
def Function.Alike (L : Likeness) (st : Stage) (R : α → β → Prop) :
    (ps : List Param) → Function ps α → Function ps β → Prop
  | [], a, b => R a b
  | p :: ps, f, g => ∀ a b, p.Alike L st a b → Function.Alike L st R ps (f a) (g b)

theorem Function.feed_alike {R : α → β → Prop} {ps : List Param} {f : Function ps α}
    {g : Function ps β} (h : Function.Alike L st R ps f g) {vs ws : List Value}
    (hvs : Value.AllAlike L st vs ws) :
    L.Agrees (fun x y => R x.1 y.1 ∧ Value.AllAlike L st x.2 y.2) (feed ps f vs)
      (feed ps g ws) := by
  induction ps generalizing vs ws with
  | nil => exact .ok ⟨h, hvs⟩
  | cons p ps ih => cases hvs with
    | nil => exact .error (L.error_of_silent trivial)
    | @cons v w vs ws hv hvs =>
      have hconvert := hv.convert p
      simp only [feed]
      generalize p.convert v = r at hconvert ⊢
      generalize p.convert w = r' at hconvert ⊢
      cases hconvert with
      | error he => exact .error he
      | ok hab => exact ih (h _ _ hab) hvs

variable [Answer α]

/-- Answers that are alike in both runs. -/
def Answer.Alike (L : Likeness) (st : Stage) (a b : α) : Prop :=
  L.Agrees (Reply.Alike L st) (Answer.reply a) (Answer.reply b)

theorem answers_fixed {ps : List Param} {f : Function ps α}
    (h : ∀ st : Stage, Function.Alike L st (Answer.Alike L st) ps f f) :
    L.Answers (Entry.fixed ps f).run (Entry.fixed ps f).run := by
  intro st vs ws hvs
  have hfeed := Function.feed_alike (h st) hvs
  simp only [Entry.fixed, hvs.length_eq]
  split
  · generalize Function.feed ps f vs = r at hfeed ⊢
    generalize Function.feed ps f ws = r' at hfeed ⊢
    cases hfeed with
    | error he => exact .error he
    | ok hab => exact hab.1
  · exact .error (L.error_of_silent trivial)

theorem answers_variadic {arity : Arity} {ps : List Param} {rest : Rest}
    {f : Function ps (rest.Carrier → α)}
    (h : ∀ st : Stage, Function.Alike L st
      (fun g g' => ∀ a b, rest.Alike L st a b → Answer.Alike L st (g a) (g' b)) ps f f) :
    L.Answers (Entry.variadic arity ps rest f).run (Entry.variadic arity ps rest f).run := by
  intro st vs ws hvs
  have hfeed := Function.feed_alike (h st) hvs
  simp only [Entry.variadic, hvs.length_eq]
  split
  · exact .error (L.error_of_silent trivial)
  · generalize Function.feed ps f vs = r at hfeed ⊢
    generalize Function.feed ps f ws = r' at hfeed ⊢
    cases hfeed with
    | error he => exact .error he
    | @ok x y hab =>
      have hrest := rest.convert_alike hab.2
      simp only
      generalize rest.convert x.2 = q at hrest ⊢
      generalize rest.convert y.2 = q' at hrest ⊢
      cases hrest with
      | error he => exact .error he
      | ok hcd => exact hab.1 _ _ hcd

end Procedures

end MiniLisp
