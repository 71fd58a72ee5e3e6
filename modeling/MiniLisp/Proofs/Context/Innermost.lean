import MiniLisp.Proofs.Context.OneLine

/-!
# Naming the innermost form

A reference evaluator (`Call.runIn`) that knows the innermost list form being evaluated: it hands
that form down and names it in errors where they are raised, and it does nothing to errors on their
way up. Evaluation names forms in errors on their way up, unless their messages hold the mark of a
context. Where all texts keep to one line, both come to the same (`Call.run_eq_runIn`).
-/

namespace MiniLisp

/-- Names the innermost form in a type or evaluation error that is raised in it. -/
def Error.raisedIn : Option Expr → Error → Error
  | some form, .type cause _ => .type cause (some form.text)
  | some form, .eval cause _ => .eval cause (some form.text)
  | _, e => e

namespace Call

section Reference

variable {α : Type}

/-- How calls run, given the innermost list form being evaluated, if there is one. -/
abbrev InnerRunner := Option Expr → Runner

def raise (inner : Option Expr) (e : Error) : Eval α := .fail (e.raisedIn inner)

/-- Takes over what a builtin procedure answers; errors of its own are raised here. -/
def acceptIn (inner : Option Expr) (r : Except Error Reply) : Eval Value :=
  .accept (r.mapError (Error.raisedIn inner))

/-- A list form is the innermost one for its parts. Nothing in `form` itself raises an error that
names a form. -/
def exprIn (recur : InnerRunner) (f : FrameId) (depth : Nat) : Expr → Eval Value
  | .int n => pure (.int n)
  | .float x => pure (.float x)
  | .symbol name => .lookup f name
  | .list items =>
    match Form.ofList items with
    | .error e => raise (some (.list items)) e
    | .ok whole => form (recur (some (.list items))) f depth whole

def applyToIn (recur : InnerRunner) (inner : Option Expr) (args : List Value) (depth : Nat) :
    Value → Eval Value
  | .builtin b =>
    if b.arity.accepts args.length then
      match b.operation with
      | .primitive p => acceptIn inner (p.entry.run args)
      | .host index => do
        let run ← Eval.host index
        acceptIn inner (run args)
      | .higher h => recur inner (.higher h args (depth + 1))
    else raise inner (.arity b.arity args.length none)
  | .closure c =>
    if c.params.length = args.length then do
      let f ← Eval.enter c.frame (c.params.zip args)
      recur inner (.eval c.body f (depth + 1))
    else raise inner (.arity (.exactly c.params.length) args.length none)
  | v => raise inner (.type (.notProcedure v.shown) none)

def higherBodyIn (recur : InnerRunner) (inner : Option Expr) (depth : Nat) :
    Higher → List Value → Eval Value
  | .apply, [p, .list _ items] => recur inner (.apply p items depth)
  | .apply, [_, v] => raise inner (.type (.applyArguments v.typeName) none)
  | .apply, args => raise inner (.arity (.exactly 2) args.length none)
  | .map, [] => raise inner (.arity (.atLeast 2) 0 none)
  | .map, p :: vs =>
    if p.isProcedure then
      match listsOf vs with
      | .error e => raise inner e
      | .ok lists => do
        let results ← mapOver (recur inner) depth p lists
        .make (.ofList results)
    else raise inner (.type (.mapProcedure p.typeName) none)

def bodyIn (recur : InnerRunner) (inner : Option Expr) : Call → Eval Value
  | .eval e f depth =>
    if evalLimit ≤ depth then raise inner (.eval .depthLimit none)
    else exprIn recur f depth e
  | .apply p args depth => applyToIn recur inner args depth p
  | .higher h args depth => higherBodyIn recur inner depth h args

/-- Runs a call as `run` does, in the innermost list form `inner`. -/
def runIn : Nat → InnerRunner
  | 0, _, _ => fun _ => none
  | fuel + 1, inner, c => bodyIn (runIn fuel) inner c

end Reference

end Call

section Naming

variable {α β : Type}

/-- Names the form in an error on its way up, as evaluation does. -/
def Error.named : Option Expr → Error → Error
  | none, e => e
  | some form, e => e.withContext form.text

def Eval.naming (inner : Option Expr) (m : Eval α) : Eval α := fun s =>
  (m s).map fun r => (r.1.mapError (Error.named inner), r.2)

namespace Error

theorem Unmarked.raisedIn_eq {e : Error} (h : e.Unmarked) (inner : Option Expr) :
    e.raisedIn inner = e.named inner := by
  cases inner with
  | none => cases e <;> rfl
  | some form =>
    cases e with
    | type cause context => exact (if_neg (ne_true_of_eq_false h)).symm
    | eval cause context => exact (if_neg (ne_true_of_eq_false h)).symm
    | _ => rfl

theorem Silent.named_eq {e : Error} (h : e.Silent) (inner : Option Expr) : e.named inner = e := by
  cases inner with
  | none => rfl
  | some form =>
    cases e with
    | type => exact h.elim
    | eval => exact h.elim
    | _ => rfl

/-- Once an error names a form it keeps it. -/
theorem named_named (inner : Option Expr) (form : Expr) (e : Error) :
    (e.named (some form)).named inner = e.named (some form) := by
  cases inner with
  | none => rfl
  | some outer =>
    cases e with
    | type cause context =>
      have hform : marked cause.message (some form.text) = true := rfl
      by_cases h : marked cause.message context = true
      · simp only [named, withContext, if_pos h]
      · simp only [named, withContext, if_neg h, if_pos hform]
    | eval cause context =>
      have hform : marked cause.message (some form.text) = true := rfl
      by_cases h : marked cause.message context = true
      · simp only [named, withContext, if_pos h]
      · simp only [named, withContext, if_neg h, if_pos hform]
    | _ => rfl

end Error

namespace Eval

theorem naming_none (m : Eval α) : naming none m = m := by
  funext s
  unfold naming
  rcases m s with _ | ⟨e | a, t⟩ <;> rfl

theorem inForm_eq_naming (form : Expr) (m : Eval α) : inForm form m = naming (some form) m := by
  funext s
  unfold inForm naming
  rcases m s with _ | ⟨e | a, t⟩ <;> rfl

theorem naming_inForm (inner : Option Expr) (form : Expr) (m : Eval α) :
    naming inner (inForm form m) = inForm form m := by
  funext s
  rw [inForm_eq_naming]
  unfold naming
  rcases m s with _ | ⟨e | a, t⟩
  · rfl
  · simp [Except.mapError, Error.named_named]
  · rfl

end Eval

end Naming

section Names

/-- The likeness of runs of one line that allows the errors that may come up. -/
abbrev Likeness.leaving (start : Stage) : Likeness := .oneLine start Error.Neat fun h => h.neat

abbrev Watch.leaving (start : Stage) : Watch (.leaving start) :=
  .nothing _ fun hform he => he.withContext (Likeness.text_ofCode _ hform)

variable {α β : Type} {start st : Stage} {inner : Option Expr} {m m' : Eval α}

/-- `m'` names the innermost form where errors are raised as `m` does if it is named in the errors
that come out of `m`, in all states of the stage `st` or a later one that keep to one line. -/
def Names (start st : Stage) (inner : Option Expr) (m m' : Eval α) : Prop :=
  ∀ s, st ≤ s.stage → (Likeness.leaving start).States s s → (∀ run ∈ s.hosts, Tidy run) →
    m' s = m.naming inner s

namespace Names

theorem mono (h : Names start st inner m m') {st' : Stage} (hst : st ≤ st') :
    Names start st' inner m m' :=
  fun s hs => h s (hst.trans hs)

/-- Computations that raise no errors of the kinds that name forms. -/
theorem of_silent (h : ∀ s e t, m s = some (.error e, t) → e.Silent) :
    Names start st inner m m := by
  intro s _ _ _
  have hsilent := h s
  unfold Eval.naming
  generalize m s = o at hsilent ⊢
  rcases o with _ | ⟨e | a, t⟩
  · rfl
  · simp [Except.mapError, (hsilent e t rfl).named_eq inner]
  · rfl

theorem fail {e : Error} (h : e.Unmarked) :
    Names start st inner (Eval.fail e : Eval α) (Call.raise inner e) := by
  intro s _ _ _
  simp [Call.raise, Eval.naming, Except.mapError, h.raisedIn_eq inner]

theorem accept {r : Except Error Reply} (h : ∀ e, r = .error e → e.Unmarked) :
    Names start st inner (Eval.accept r) (Call.acceptIn inner r) := by
  intro s _ _ _
  cases r with
  | error e => simp [Call.acceptIn, Eval.accept, State.accept, Eval.naming, Except.mapError,
      (h e rfl).raisedIn_eq inner]
  | ok reply => rfl

theorem bind {V : Stage → α → α → Prop} (hm : Names start st inner m m')
    (hends : (Watch.leaving start).Relates st V m m) {k k' : α → Eval β}
    (hk : ∀ st' a, st ≤ st' → V st' a a → Names start st' inner (k a) (k' a)) :
    Names start st inner (m >>= k) (m' >>= k') := by
  intro s hst hstates hhosts
  have hm := hm s hst hstates hhosts
  have hends := hends s s hst hstates trivial
  rw [Eval.bind_apply, hm]
  unfold Eval.naming
  rw [Eval.bind_apply]
  generalize m s = o at hends ⊢
  rcases o with _ | ⟨e | a, t⟩
  · rfl
  · rfl
  · cases hends with
    | some hends =>
      obtain ⟨hgrown, ⟨hsame, -⟩, hstates', -, hagrees⟩ := hends
      cases hagrees with
      | ok ha => exact hk t.stage a (hst.trans hgrown) ha t (le_refl _) hstates' (hsame ▸ hhosts)

theorem mapM {γ : Type} {k k' : γ → Eval α} {V : Stage → α → α → Prop}
    (hV : ∀ {st st' a b}, V st a b → st ≤ st' → V st' a b) {xs : List γ}
    (hk : ∀ x ∈ xs, Names start st inner (k x) (k' x))
    (hends : ∀ x ∈ xs, (Watch.leaving start).Relates st V (k x) (k x)) :
    Names start st inner (xs.mapM k) (xs.mapM k') := by
  induction xs generalizing st with
  | nil => exact of_silent fun s e t h => by cases h
  | cons x xs ih =>
    rw [List.mapM_cons, List.mapM_cons]
    refine (hk x (.head _)).bind (hends x (.head _)) fun st₁ a hst₁ ha => ?_
    have hrest : Names start st₁ inner (xs.mapM k) (xs.mapM k') :=
      ih (fun y hy => (hk y (.tail _ hy)).mono hst₁) fun y hy => (hends y (.tail _ hy)).mono hst₁
    have hrests : (Watch.leaving start).Relates st₁ (fun st => List.Forall₂ (V st)) (xs.mapM k)
        (xs.mapM k) :=
      Watch.Relates.mapM hV fun y hy => (hends y (.tail _ hy)).mono hst₁
    exact hrest.bind hrests fun st₂ as hst₂ has => of_silent fun s e t h => by cases h

end Names

end Names

namespace Call

open Names (of_silent)

variable {start st : Stage} {inner : Option Expr} {recur : Runner} {recurIn : InnerRunner}
  {f : FrameId} {depth : Nat}

/-- The second way to run calls names forms where errors are raised as the first one does on their
way up, for calls that keep to one line. -/
structure Mirrors (start : Stage) (recur : Runner) (recurIn : InnerRunner) : Prop where
  runs : (Watch.leaving start).Runs recur recur
  names {st : Stage} {c : Call} (inner : Option Expr) (hc : c.Alike (Watch.leaving start) st c) :
    Names start st inner (recur c) (recurIn inner c)

theorem Mirrors.bind {α : Type} (h : Mirrors start recur recurIn) {c : Call}
    (hc : c.Alike (Watch.leaving start) st c) {k k' : Value → Eval α}
    (hk : ∀ st' v, st ≤ st' → v.Alike (.leaving start) st' v →
      Names start st' inner (k v) (k' v)) :
    Names start st inner (recur c >>= k) (recurIn inner c >>= k') :=
  (h.names inner hc).bind (h.runs _ _ _ hc) hk

theorem form_names (h : Mirrors start recur recurIn)
    (hf : (Likeness.leaving start).frame.Upto st.frames f f) {items : List Expr} {x : Form}
    (hx : x.Shape items) (hcode : (Expr.list items).OneLine) :
    Names start st inner (form recur f depth x) (form (recurIn inner) f depth x) := by
  have hpart {e : Expr} (he : e ∈ x.parts) {st' : Stage} (hst : st ≤ st') :
      (Call.eval e f (depth + 1)).Alike (Watch.leaving start) st' (.eval e f (depth + 1)) :=
    .eval ((Likeness.leaving start).code_item hcode (hx.mem_of_mem_parts he)) (hf.mono hst.1)
      trivial
  cases hx with
  | quote datum => exact of_silent fun s e t h => by cases h
  | cond test yes no =>
    refine h.bind (hpart (.head _) (le_refl _)) fun st' v hst _ => ?_
    by_cases hv : v.isTruthy = true
    · simp only [hv]
      exact h.names _ (hpart (.tail _ (.head _)) hst)
    · simp only [hv]
      exact h.names _ (hpart (.tail _ (.tail _ (.head _))) hst)
  | define name value =>
    refine h.bind (hpart (.head _) (le_refl _)) fun st' v hst _ => ?_
    exact of_silent fun s e t h => by cases h
  | assign name value =>
    refine h.bind (hpart (.head _) (le_refl _)) fun st' v hst _ => of_silent fun s e t h => ?_
    rw [Eval.bind_apply, Eval.assign, State.assign] at h
    cases howner : s.owner? f name with
    | none =>
      rw [howner] at h
      cases h
      exact trivial
    | some g =>
      rw [howner] at h
      cases h
  | lambda => exact of_silent fun s e t h => by cases h
  | call operands =>
    refine h.bind (hpart (.head _) (le_refl _)) fun st₁ p hst₁ hp => ?_
    have hoperand {e : Expr} (he : e ∈ operands) := hpart (.tail _ he) hst₁
    have hargs : Names start st₁ inner (args recur f (depth + 1) operands)
        (args (recurIn inner) f (depth + 1) operands) :=
      Names.mapM (fun h hst => h.mono hst) (fun e he => h.names _ (hoperand he))
        fun e he => h.runs _ _ _ (hoperand he)
    refine hargs.bind (Watch.Relates.mapM (fun h hst => h.mono hst)
      fun e he => h.runs _ _ _ (hoperand he)) fun st₂ vs hst₂ hvs => ?_
    exact h.names _ (.apply (hp.mono hst₂) hvs)

theorem expr_names (h : Mirrors start recur recurIn)
    (hf : (Likeness.leaving start).frame.Upto st.frames f f) {e : Expr} (hcode : e.OneLine) :
    Names start st inner (expr recur f depth e) (exprIn recurIn f depth e) := by
  cases e with
  | int n => exact of_silent fun s e t h => by cases h
  | float x => exact of_silent fun s e t h => by cases h
  | symbol name =>
    refine of_silent fun s e t h => ?_
    rw [expr, Eval.lookup] at h
    cases hv : s.lookup f name with
    | none =>
      rw [hv] at h
      cases h
      exact trivial
    | some v =>
      rw [hv] at h
      cases h
  | list items =>
    have hinside : Names start st (some (.list items))
        (match Form.ofList items with
          | .error e => .fail e
          | .ok whole => form recur f depth whole)
        (exprIn recurIn f depth (.list items)) := by
      simp only [exprIn]
      cases hx : Form.ofList items with
      | error err =>
        have hitems (e : Expr) (he : e ∈ items) : Likeness.raising.code e :=
          Likeness.raising.code_item hcode he
        exact .fail (error_of_ofList hitems hx)
      | ok x => exact form_names h hf (Form.shape_of_ofList hx) hcode
    intro s hst hstates hhosts
    rw [hinside s hst hstates hhosts, ← Eval.inForm_eq_naming]
    -- The form stays the one that is named: those around it change nothing.
    exact (congrFun (Eval.naming_inForm inner (.list items) _) s).symm

theorem host_names (index : Nat) {vs : List Value} (hvs : ∀ v ∈ vs, v.OneLine) :
    Names start st inner (Eval.host index >>= fun run => .accept (run vs))
      (Eval.host index >>= fun run => acceptIn inner (run vs)) := by
  intro s hst hstates hhosts
  cases hrun : s.hosts[index]? with
  | none =>
    have hmissing : (Error.internal .hostMissing).Silent := trivial
    simp [Eval.naming, Eval.bind_apply, Eval.host, hrun, Except.mapError, hmissing.named_eq inner]
  | some run =>
    have htidy := hhosts run (Array.mem_of_getElem? hrun)
    have haccept : Names start st inner (.accept (run vs)) (acceptIn inner (run vs)) :=
      Names.accept fun e he => htidy.error hvs he
    have hsame := haccept s hst hstates hhosts
    unfold Eval.naming at hsame ⊢
    simpa [Eval.bind_apply, Eval.host, hrun] using hsame

theorem applyTo_names (h : Mirrors start recur recurIn) {p : Value}
    (hp : p.Alike (.leaving start) st p) {vs : List Value}
    (hvs : Value.AllAlike (.leaving start) st vs vs) :
    Names start st inner (applyTo recur vs depth p) (applyToIn recurIn inner vs depth p) := by
  have hargs := Value.oneLine_of_allAlike hvs
  have hplain : Names start st inner (Eval.fail (.type (.notProcedure p.shown) none) : Eval Value)
      (Call.raise inner (.type (.notProcedure p.shown) none)) := by
    have hfront : Likeness.raising.text "Cannot apply non-procedure: " :=
      Likeness.raising.text_of_line (by decide)
    have hmessage := Likeness.raising.text_append hfront (Value.oneLine_of_alike hp).text
    exact .fail (Error.marked_eq_false hmessage)
  cases p with
  | builtin b =>
    simp only [applyTo, applyToIn]
    split
    · cases b.operation with
      | primitive p =>
        exact .accept fun e he => unmarked_of_agrees
          (p.answers .raising ⟨0, 0⟩ _ _ (Value.allAlike_of_oneLine hargs)) he
      | host index => exact host_names index hargs
      | higher => exact h.names _ (.higher hvs)
    · exact .fail trivial
  | closure c =>
    simp only [applyTo, applyToIn]
    split
    · cases hp with
      | closure _ _ hbody hframe =>
        refine Names.bind (of_silent fun s e t h => by cases h)
          (Watch.Relates.enter hframe (fun _ _ => trivial) (forall₂_zip _ hvs))
          fun st' g hst hg => ?_
        exact h.names _ (.eval hbody hg.1 trivial)
    · exact .fail trivial
  | _ => exact hplain

theorem silent_of_row {lists : List (Array Value)} {i : Nat} {e : Error}
    (h : row lists i = .error e) : e.Silent := by
  unfold row at h
  split at h
  · cases h
  · cases h
    exact trivial

theorem mapOver_names (h : Mirrors start recur recurIn)
    {p : Value}
    (hp : p.Alike (.leaving start) st p) {lists : List (List Value)}
    (hlists : List.Forall₂ (Value.AllAlike (.leaving start) st) lists lists) :
    Names start st inner (mapOver recur depth p lists) (mapOver (recurIn inner) depth p lists) := by
  refine Names.mapM (V := Value.Alike (.leaving start)) (fun h hst => h.mono hst)
    (fun i _ => ?_) fun i _ => ?_
  · have hrow := agrees_row hlists i
    cases hargs : row (lists.map List.toArray) i with
    | error e =>
      refine of_silent fun s e' t h => ?_
      cases h
      exact silent_of_row hargs
    | ok vs =>
      rw [hargs] at hrow
      cases hrow with
      | ok hvs => exact h.names _ (.apply hp hvs)
  · have hrow := agrees_row hlists i
    cases hargs : row (lists.map List.toArray) i with
    | error e =>
      rw [hargs] at hrow
      cases hrow with
      | error he => exact .fail he
    | ok vs =>
      rw [hargs] at hrow
      cases hrow with
      | ok hvs => exact h.runs _ _ _ (.apply hp hvs)

theorem map_names (h : Mirrors start recur recurIn)
    {p : Value} (hp : p.Alike (.leaving start) st p) {vs : List Value}
    (hvs : Value.AllAlike (.leaving start) st vs vs) :
    Names start st inner (higherBody recur depth .map (p :: vs))
      (higherBodyIn recurIn inner depth .map (p :: vs)) := by
  simp only [higherBody, higherBodyIn]
  split
  · have hargs : Value.AllAlike .raising ⟨0, 0⟩ vs vs :=
      Value.allAlike_of_oneLine (Value.oneLine_of_allAlike hvs)
    have hraising := agrees_listsOf hargs
    have hleaving := agrees_listsOf hvs
    cases hlists : listsOf vs with
    | error e => exact .fail (unmarked_of_agrees hraising hlists)
    | ok lists =>
      rw [hlists] at hleaving
      cases hleaving with
      | ok hlists =>
        exact (mapOver_names h hp hlists).bind (mapOver_relates h.runs hp hlists)
          fun st' vs hst _ => of_silent fun s e t h => by cases h
  · have hfront : Likeness.raising.text "map requires a procedure, got " :=
      Likeness.raising.text_of_line (by decide)
    have hmessage := Likeness.raising.text_append hfront (p.text_typeName .raising)
    exact .fail (Error.marked_eq_false hmessage)

theorem higherBody_names (h : Mirrors start recur recurIn)
    (higher : Higher) {vs : List Value}
    (hvs : Value.AllAlike (.leaving start) st vs vs) :
    Names start st inner (higherBody recur depth higher vs)
      (higherBodyIn recurIn inner depth higher vs) := by
  cases higher with
  | map =>
    cases vs with
    | nil => exact .fail trivial
    | cons p vs => cases hvs with
      | cons hp hvs => exact map_names h hp hvs
  | apply =>
    match vs, hvs with
    | [], _ => exact .fail trivial
    | [_], _ => exact .fail trivial
    | [p, v], .cons hp (.cons hv .nil) =>
      have hother : (Error.type (.applyArguments v.typeName) none).Unmarked := by
        have hfront : Likeness.raising.text "apply requires a list of arguments, got " :=
          Likeness.raising.text_of_line (by decide)
        have hmessage := Likeness.raising.text_append hfront (v.text_typeName .raising)
        exact Error.marked_eq_false hmessage
      cases v with
      | list id items => exact h.names _ (.apply hp (Value.alike_list_iff.mp hv).2)
      | _ => exact .fail hother
    | _ :: v :: _ :: _, _ =>
      cases v <;> exact .fail trivial

/-- One step of the way down. -/
theorem body_names (h : Mirrors start recur recurIn)
    :
    Mirrors start (body recur) (bodyIn recurIn) := by
  refine ⟨body_relates h.runs, fun {st c} inner hc => ?_⟩
  cases hc with
  | @eval e f _ depth hcode hf _ =>
    simp only [body, bodyIn]
    split
    · exact .fail (Error.marked_eq_false (by decide))
    · exact expr_names h hf hcode
  | apply hp hargs => exact applyTo_names h hp hargs
  | higher hargs => exact higherBody_names h _ hargs

theorem run_names (start : Stage) (n : Nat) : Mirrors start (run n) (runIn n) := by
  induction n with
  | zero => exact ⟨run_relates _ 0, fun _ _ _ _ _ _ => rfl⟩
  | succ n ih => exact body_names ih

/-- Where everything keeps to one line, evaluation goes as the reference evaluator does, with the
same fuel. -/
theorem run_eq_runIn {e : Expr} (he : e.OneLine) {s : State} (hs : s.OneLine)
    (hhosts : ∀ run ∈ s.hosts, Tidy run) (f : FrameId) (depth n : Nat) :
    run n (.eval e f depth) s = runIn n none (.eval e f depth) s := by
  have hcall : (Call.eval e f depth).Alike (Watch.leaving s.stage) s.stage (.eval e f depth) :=
    .eval he (Likeness.diagonal_oneLine.upto_frame_iff.mpr ⟨rfl, .inl trivial⟩) trivial
  have hnames := (run_names s.stage n).names none hcall s (le_refl _) (hs.states hhosts) hhosts
  rw [hnames, Eval.naming_none]

end Call

end MiniLisp
