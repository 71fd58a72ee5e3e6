import MiniLisp.Builtin.Registry
import MiniLisp.Proofs.Decimal.Numeral
import MiniLisp.Proofs.Expr.Occurrence
import MiniLisp.Proofs.Likeness.Pairing
import Mathlib.Data.List.Forall2

/-!
# Alike values

Two runs go the same way on values that are alike: the same but for the numbers of frames and
identities, which a pairing relates. A likeness also says which code and texts are looked at, and
which errors may come of them, so that an invariant of a single run is a likeness of the run with
itself.
-/

namespace MiniLisp

/-- Errors that do not say what was being evaluated. -/
def Error.Silent : Error → Prop
  | .type _ _ => False
  | .eval _ _ => False
  | _ => True

structure Likeness where
  frame : Pairing
  id : Pairing
  host : Nat → Nat → Prop
  /-- The names whose bindings are compared; closures bind no others to their arguments. -/
  name : String → Prop
  code : Expr → Prop
  text : String → Prop
  error : Error → Prop
  code_item {items : List Expr} {e : Expr} : code (.list items) → e ∈ items → code e
  name_of_code {x : String} : code (.symbol x) → name x
  text_of_code {x : String} : code (.symbol x) → text x
  text_append {a b : String} : text a → text b → text (a ++ b)
  text_of_line {a : String} : '\n' ∉ a.toList → text a
  error_of_silent {e : Error} : e.Silent → error e
  error_of_type {cause : TypeCause} : text cause.message → error (.type cause none)
  error_of_eval {cause : EvalCause} : text cause.message → error (.eval cause none)

/-- The likeness that looks at code alone. -/
def Likeness.ofCode (frame id : Pairing) (host : Nat → Nat → Prop) (code : Expr → Prop)
    (code_item : ∀ {items : List Expr} {e : Expr}, code (.list items) → e ∈ items → code e) :
    Likeness where
  frame
  id
  host
  name _ := True
  code
  text _ := True
  error _ := True
  code_item
  name_of_code _ := trivial
  text_of_code _ := trivial
  text_append _ _ := trivial
  text_of_line _ := trivial
  error_of_silent _ := trivial
  error_of_type _ := trivial
  error_of_eval _ := trivial

variable {L L' : Likeness} {st st' : Stage}

/-- What belongs together under `L` at the stage `st` does under `L'` at the stage `st'`. -/
structure Likeness.Grows (L : Likeness) (st : Stage) (L' : Likeness) (st' : Stage) : Prop where
  frame {f g : FrameId} : L.frame.Upto st.frames f g → L'.frame.Upto st'.frames f g
  id {i j : Nat} : L.id.Upto st.ids i j → L'.id.Upto st'.ids i j
  host {i j : Nat} : L.host i j → L'.host i j
  name {x : String} : L.name x → L'.name x
  code {e : Expr} : L.code e → L'.code e
  text {a : String} : L.text a → L'.text a

/-- What two runs end in: the same error, or results that belong together. -/
inductive Likeness.Agrees (L : Likeness) {α β : Type} (V : α → β → Prop) :
    Except Error α → Except Error β → Prop where
  | error {e : Error} (h : L.error e) : Agrees L V (.error e) (.error e)
  | ok {a : α} {b : β} (h : V a b) : Agrees L V (.ok a) (.ok b)

theorem Likeness.Agrees.imp {α β : Type} {V V' : α → β → Prop} {r : Except Error α}
    {r' : Except Error β} (h : L.Agrees V r r') (hV : ∀ a b, V a b → V' a b) :
    L.Agrees V' r r' := by
  cases h with
  | error he => exact .error he
  | ok h => exact .ok (hV _ _ h)

inductive Operation.Alike (L : Likeness) : Operation → Operation → Prop where
  | primitive (p : Primitive) : Alike L (.primitive p) (.primitive p)
  | host {i j : Nat} (h : L.host i j) : Alike L (.host i) (.host j)
  | higher (h : Higher) : Alike L (.higher h) (.higher h)

theorem Operation.Alike.grow {o o' : Operation} (h : o.Alike L o') (hgrows : L.Grows st L' st') :
    o.Alike L' o' := by
  cases h with
  | primitive p => exact .primitive p
  | host h => exact .host (hgrows.host h)
  | higher h => exact .higher h

inductive Value.Alike (L : Likeness) (st : Stage) : Value → Value → Prop where
  | int (n : Int64) : Alike L st (.int n) (.int n)
  | float (x : Float) : Alike L st (.float x) (.float x)
  | symbol {name : String} (h : L.text name) : Alike L st (.symbol name) (.symbol name)
  | bool (b : Bool) : Alike L st (.bool b) (.bool b)
  | list {i j : Nat} {vs ws : List Value} (hid : L.id.Upto st.ids i j)
      (hlength : vs.length = ws.length)
      (hitems : ∀ {v w : Value}, (v, w) ∈ vs.zip ws → Alike L st v w) :
      Alike L st (.list i vs) (.list j ws)
  | builtin {id : String} {arity : Arity} {o o' : Operation} (hid : L.text id)
      (ho : o.Alike L o') : Alike L st (.builtin ⟨id, arity, o⟩) (.builtin ⟨id, arity, o'⟩)
  | closure {i j : Nat} {params : List String} {body : Expr} {f g : FrameId}
      (hid : L.id.Upto st.ids i j) (hparams : ∀ x ∈ params, L.name x) (hbody : L.code body)
      (hframe : L.frame.Upto st.frames f g) :
      Alike L st (.closure ⟨i, params, body, f⟩) (.closure ⟨j, params, body, g⟩)
  | unspecified : Alike L st .unspecified .unspecified

/-- Lists of values that are alike one by one. -/
abbrev Value.AllAlike (L : Likeness) (st : Stage) : List Value → List Value → Prop :=
  List.Forall₂ (Value.Alike L st)

namespace Value

variable {v w v' w' : Value} {vs ws vs' ws' : List Value}

theorem alike_list_iff {i j : Nat} :
    Alike L st (.list i vs) (.list j ws) ↔ L.id.Upto st.ids i j ∧ AllAlike L st vs ws := by
  rw [AllAlike, List.forall₂_iff_zip]
  constructor
  · intro h
    cases h with
    | list hid hlength hitems => exact ⟨hid, hlength, hitems⟩
  · rintro ⟨hid, hlength, hitems⟩
    exact .list hid hlength hitems

theorem Alike.grow (h : Alike L st v w) (hgrows : L.Grows st L' st') : Alike L' st' v w := by
  induction h with
  | int n => exact .int n
  | float x => exact .float x
  | symbol h => exact .symbol (hgrows.text h)
  | bool b => exact .bool b
  | list hid hlength _ ih => exact .list (hgrows.id hid) hlength ih
  | builtin hid ho => exact .builtin (hgrows.text hid) (ho.grow hgrows)
  | closure hid hparams hbody hframe =>
    exact .closure (hgrows.id hid) (fun x hx => hgrows.name (hparams x hx)) (hgrows.code hbody)
      (hgrows.frame hframe)
  | unspecified => exact .unspecified

theorem Alike.mono (h : Alike L st v w) (hst : st ≤ st') : Alike L st' v w :=
  h.grow ⟨fun hf => hf.mono hst.1, fun hid => hid.mono hst.2, id, id, id, id⟩

theorem AllAlike.mono (h : AllAlike L st vs ws) (hst : st ≤ st') : AllAlike L st' vs ws :=
  h.imp fun _ _ h => h.mono hst

theorem Alike.typeName_eq (h : Alike L st v w) : v.typeName = w.typeName := by
  cases h <;> rfl

theorem Alike.number?_eq (h : Alike L st v w) : v.number? = w.number? := by
  cases h <;> rfl

theorem Alike.isProcedure_eq (h : Alike L st v w) : v.isProcedure = w.isProcedure := by
  cases h <;> rfl

theorem Alike.isNil_eq (h : Alike L st v w) : v.isNil = w.isNil := by
  cases h with
  | @list i j vs ws hid hlength hitems => cases vs <;> cases ws <;> first | rfl | cases hlength
  | _ => rfl

theorem Alike.isTruthy_eq (h : Alike L st v w) : v.isTruthy = w.isTruthy := by
  have hnil := h.isNil_eq
  cases h with
  | list => simpa [isTruthy] using hnil
  | _ => rfl

/-- Two lists of values that are alike are alike, if made at the same time. -/
theorem Alike.listOf {i j : Nat} (hid : L.id.Upto st.ids i j) (h : AllAlike L st vs ws) :
    Alike L st (.list i vs) (.list j ws) :=
  alike_list_iff.mpr ⟨hid, h⟩

end Value

namespace Likeness

theorem text_toString (L : Likeness) (n : Int) : L.text (toString n) :=
  L.text_of_line fun h => absurd (Decimal.isNumeral_of_mem_toString h) (by decide)

theorem text_ofFloat (L : Likeness) (x : Float) : L.text (Decimal.Layout.value.text x) :=
  L.text_of_line fun h => absurd (Decimal.isNumeral_of_mem_text h) (by decide)

theorem text_intercalate (L : Likeness) {parts : List String} (h : ∀ a ∈ parts, L.text a) :
    L.text (" ".intercalate parts) := by
  induction parts with
  | nil => exact L.text_of_line (by decide)
  | cons a rest ih =>
    have hrest := ih fun b hb => h b (.tail _ hb)
    cases rest with
    | nil => simpa using h a (.head _)
    | cons b rest =>
      have hspace : L.text " " := L.text_of_line (by decide)
      have hall := L.text_append (h a (.head _)) (L.text_append hspace hrest)
      simpa [String.append_assoc] using hall

theorem text_parenthesized (L : Likeness) {parts : List String} (h : ∀ a ∈ parts, L.text a) :
    L.text ("(" ++ " ".intercalate parts ++ ")") := by
  have hopening : L.text "(" := L.text_of_line (by decide)
  have hclosing : L.text ")" := L.text_of_line (by decide)
  exact L.text_append (L.text_append hopening (L.text_intercalate h)) hclosing

/-- Code is written in texts that may be looked at. -/
theorem text_ofCode (L : Likeness) {e : Expr} (h : L.code e) : L.text e.text := by
  induction e using Expr.items_induction with
  | int n => exact L.text_toString n.toInt
  | float x => exact L.text_ofFloat x
  | symbol name => exact L.text_of_code h
  | list items ih =>
    rw [Expr.text, Expr.texts_eq_map]
    refine L.text_parenthesized fun a ha => ?_
    obtain ⟨e, he, rfl⟩ := List.mem_map.mp ha
    exact ih e he (L.code_item h he)

end Likeness

namespace Value

variable {v w v' w' : Value} {vs ws vs' ws' : List Value}

theorem exists_mem_zip {α β : Type} {as : List α} {bs : List β} (hlength : as.length = bs.length)
    {a : α} (ha : a ∈ as) : ∃ b, (a, b) ∈ as.zip bs := by
  obtain ⟨k, hk, rfl⟩ := List.getElem_of_mem ha
  have hzip : k < (as.zip bs).length := by
    rw [List.length_zip]
    omega
  have hmem : (as.zip bs)[k] ∈ as.zip bs := List.getElem_mem hzip
  rw [List.getElem_zip] at hmem
  exact ⟨_, hmem⟩

theorem map_eq_of_zip {β : Type} {g k : Value → β} (hlength : vs.length = ws.length)
    (h : ∀ {v w : Value}, (v, w) ∈ vs.zip ws → g v = k w) : vs.map g = ws.map k := by
  induction vs generalizing ws with
  | nil => cases ws with
    | nil => rfl
    | cons => cases hlength
  | cons v vs ih => cases ws with
    | nil => cases hlength
    | cons w ws =>
      have hrest := ih (Nat.succ.inj hlength) fun hmem => h (.tail _ hmem)
      rw [List.map_cons, List.map_cons, h (.head _), hrest]

theorem Alike.text_eq (h : Alike L st v w) : v.text = w.text := by
  induction h with
  | list hid hlength _ ih => rw [text_list, text_list, map_eq_of_zip hlength ih]
  | builtin => rw [text_builtin, text_builtin]
  | _ => rfl

theorem Alike.shown_eq (h : Alike L st v w) : v.shown = w.shown := by
  rw [shown, shown, h.typeName_eq, h.text_eq]

/-- Values are written in texts that may be looked at. -/
theorem Alike.text (h : Alike L st v w) : L.text v.text := by
  induction h with
  | int n => exact L.text_toString n.toInt
  | float x => exact L.text_ofFloat x
  | symbol h => exact h
  | bool b => cases b <;> exact L.text_of_line (by decide)
  | @list i j vs ws hid hlength hitems ih =>
    rw [text_list]
    refine L.text_parenthesized fun a ha => ?_
    obtain ⟨v, hv, rfl⟩ := List.mem_map.mp ha
    obtain ⟨w, hmem⟩ := exists_mem_zip hlength hv
    exact ih hmem
  | builtin hid =>
    have hfront : L.text "#<builtin-function:" := L.text_of_line (by decide)
    have hback : L.text ">" := L.text_of_line (by decide)
    exact L.text_append (L.text_append hfront hid) hback
  | closure =>
    have hline : L.text "#<procedure>" := L.text_of_line (by decide)
    exact hline
  | unspecified => exact L.text_of_line (by decide)

theorem equalAll_eq_of_zip (hlength : vs.length = ws.length)
    (h : ∀ {v w : Value}, (v, w) ∈ vs.zip ws →
      ∀ {v' w' : Value}, Alike L st v' w' → equal v v' = equal w w')
    (h' : AllAlike L st vs' ws') : equalAll vs vs' = equalAll ws ws' := by
  induction vs generalizing ws vs' ws' with
  | nil => cases ws with
    | nil => cases h' <;> rfl
    | cons => cases hlength
  | cons v vs ih => cases ws with
    | nil => cases hlength
    | cons w ws => cases h' with
      | nil => rfl
      | cons hhead htail =>
        have hrest := ih (Nat.succ.inj hlength) (fun hmem => h (.tail _ hmem)) htail
        simp only [equalAll]
        rw [h (.head _) hhead, hrest]

theorem beq_eq_of_unique {p : Pairing} {n i j i' j' : Nat} (h : p.Upto n i j)
    (h' : p.Upto n i' j') : (i == i') = (j == j') := by
  rw [Bool.eq_iff_iff, beq_iff_eq, beq_iff_eq]
  exact h.unique h'

theorem Alike.equal_eq (h : Alike L st v w) (h' : Alike L st v' w') :
    v.equal v' = w.equal w' := by
  induction h generalizing v' w' with
  | list hid hlength _ ih =>
    cases h' with
    | list hid' hlength' hitems' =>
      have h' := alike_list_iff.mp (.list hid' hlength' hitems')
      simp only [equal]
      exact equalAll_eq_of_zip hlength ih h'.2
    | _ => rfl
  | closure hid =>
    cases h' with
    | closure hid' => exact beq_eq_of_unique hid hid'
    | _ => rfl
  | _ => cases h' <;> rfl

theorem Alike.identical_eq (h : Alike L st v w) (h' : Alike L st v' w') :
    v.identical v' = w.identical w' := by
  have hnil := h.isNil_eq
  have hnil' := h'.isNil_eq
  cases h with
  | @list i j vs ws hid =>
    cases h' with
    | @list i' j' vs' ws' hid' =>
      have hempty (n : Nat) (us : List Value) : (Value.list n us).isNil = us.isEmpty := by
        cases us <;> rfl
      rw [hempty, hempty] at hnil hnil'
      simp only [identical, hnil, hnil', beq_eq_of_unique hid hid']
    | _ => rfl
  | closure hid =>
    cases h' with
    | closure hid' => exact beq_eq_of_unique hid hid'
    | _ => rfl
  | _ => cases h' <;> rfl

end Value

end MiniLisp
