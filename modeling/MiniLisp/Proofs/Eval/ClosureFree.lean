import MiniLisp.Eval.Outcome
import MiniLisp.Proofs.Eval.DepthLimit
import MiniLisp.Proofs.Eval.Invariant
import MiniLisp.Proofs.Expr.Grammar
import MiniLisp.Proofs.History.Known
import MiniLisp.Proofs.History.Offered
import MiniLisp.Proofs.Scope.Handed
import MiniLisp.Proofs.Scope.Resolution

/-!
# Programs without closures

Only closures start evaluations anew, with a body that may be as deep as it likes and may come back
to itself. A program that makes no closure and can come to none evaluates nothing but its own parts,
each one level deeper than the list that it is a part of; `map` and `apply` add to the depth of
builtin procedures, which the limit does not count. So its evaluations are no deeper than it is
nested (`Call.Free`, `run_staysFree`), and what can be read is nested far less deep than the limit:
such a program never comes to it (`limit_out_of_reach`).
-/

namespace MiniLisp

/-- No closure is found in the value. -/
def Value.ClosureFree (v : Value) : Prop := ∀ c, ¬ v.Holds c

theorem Value.hereditary_closureFree : Hereditary ClosureFree := hereditary_holds fun _ => False

theorem Value.inheritable_closureFree : Inheritable ClosureFree :=
  hereditary_closureFree.inheritable

theorem Value.closureFree_list {id : Nat} {items : List Value} (h : Value.All ClosureFree items) :
    (list id items).ClosureFree := by
  intro c hc
  cases hc with
  | item hv hc => exact h _ hv c hc

theorem Draft.All.of_not_holds {d : Draft} (h : ∀ c, ¬ d.Holds c) : d.All Value.ClosureFree := by
  induction d using Draft.items_induction with
  | value v => exact .value fun c hc => h c (.value hc)
  | list items ih => exact .list fun d hd => ih d hd fun c hc => h c (.item hd hc)

/-- A `lambda` form occurs in the expression, outside all `quote` forms. -/
inductive Expr.Closes : Expr → Prop where
  | form {items : List Expr} {names : List String} {body : Expr}
      (h : Form.Shape items (.lambda names body)) : Closes (.list items)
  | item {items : List Expr} {e : Expr} (hopen : ∀ datum, items ≠ [.symbol "quote", datum])
      (he : e ∈ items) (h : Closes e) : Closes (.list items)

namespace Expr

@[simp] theorem not_closes_int (n : Int64) : ¬ (int n).Closes := nofun

@[simp] theorem not_closes_float (x : Float) : ¬ (float x).Closes := nofun

@[simp] theorem not_closes_symbol (name : String) : ¬ (symbol name).Closes := nofun

theorem closes_list_iff {items : List Expr} : (list items).Closes ↔
    (∃ e body names, items = [.symbol "lambda", e, body] ∧ Form.params e = .ok names) ∨
      (∀ datum, items ≠ [.symbol "quote", datum]) ∧ ∃ e ∈ items, e.Closes := by
  constructor
  · intro h
    cases h with
    | form h =>
      cases h with
      | lambda h => exact .inl ⟨_, _, _, rfl, h⟩
    | item hopen he h => exact .inr ⟨hopen, _, he, h⟩
  · rintro (⟨e, body, names, rfl, h⟩ | ⟨hopen, e, he, h⟩)
    · exact .form (.lambda h)
    · exact .item hopen he h

/-- What a form evaluates in its own frame is outside all `quote` forms. -/
theorem Closes.part {items : List Expr} {form : Form} (hform : form.Shape items) {e : Expr}
    (he : e ∈ form.parts) (h : e.Closes) : (list items).Closes := by
  refine .item (fun datum hquote => ?_) (hform.mem_of_mem_parts he) h
  cases hform with
  | quote => cases he
  | cond => simp at hquote
  | define => simp at hquote
  | assign => simp at hquote
  | lambda => cases he
  | call _ hhead =>
    cases hquote
    cases hhead

end Expr

/-- The procedure of the host makes no closures, and does not answer with the error of the limit. -/
structure Tame (run : HostFunction) : Prop where
  makesNoClosures : MakesNoClosures run
  not_limited : ∀ args, ¬ Limited (run args)

namespace State

/-- No closure can be reached from the frame. -/
def ClosureFree (s : State) (f : FrameId) : Prop := ∀ c, ¬ s.ReachableClosure f c

variable {s t : State} {f g : FrameId} {x : String} {v : Value}

theorem reachable_of_outward (h : Relation.ReflTransGen s.LiesIn f g) : s.Reachable f g := by
  induction h with
  | refl => exact .self
  | tail _ ho ih => exact .outer ih ho

namespace ClosureFree

theorem lookup (h : s.ClosureFree f) (hv : s.lookup f x = some v) : v.ClosureFree := by
  obtain ⟨g, hg, hbound⟩ := lookup_eq_some_iff.mp hv
  exact fun c hc => h c (.bound (reachable_of_outward hg.outward) hbound hc)

/-- Nothing new can be reached by way of new values that hold no closure. -/
theorem reachable_of_reachable (hlinks : t.links = s.links)
    (hbound : ∀ g x v, t.binding? g x = some v → s.binding? g x = some v ∨ v.ClosureFree)
    (hg : t.Reachable f g) : s.Reachable f g := by
  induction hg with
  | self => exact .self
  | outer _ ho ih =>
    refine .outer ih ?_
    rwa [liesIn_iff_getElem?_links, ← hlinks, ← liesIn_iff_getElem?_links]
  | captured _ hv hc ih =>
    rcases hbound _ _ _ hv with hold | hfree
    · exact .captured ih hold hc
    · exact absurd hc (hfree _)

theorem of_bindings (h : s.ClosureFree f) (hlinks : t.links = s.links)
    (hbound : ∀ g x v, t.binding? g x = some v → s.binding? g x = some v ∨ v.ClosureFree) :
    t.ClosureFree f := by
  intro c hc
  cases hc with
  | bound hg hv hc =>
    have hg := reachable_of_reachable hlinks hbound hg
    rcases hbound _ _ _ hv with hold | hfree
    · exact h c (.bound hg hold hc)
    · exact hfree c hc

theorem of_frames (h : s.ClosureFree f) (hframes : t.frames = s.frames) : t.ClosureFree f := by
  refine h.of_bindings (by rw [links, links, hframes]) fun g x v hv => .inl ?_
  rwa [binding?, ← hframes]

theorem define (h : s.ClosureFree f) (hv : v.ClosureFree) : (s.define g x v).ClosureFree f := by
  refine h.of_bindings (links_define ..) fun g' y u hu => ?_
  rw [binding?_define] at hu
  split at hu
  · obtain ⟨frame, -, rfl⟩ := Option.map_eq_some_iff.mp hu
    exact .inr hv
  · exact .inl hu

end ClosureFree

end State

namespace Eval

variable {f : FrameId} {α β : Type} {V : α → Prop} {V' : β → Prop} {m : Eval α}

/-- No closure can be reached from `f`, nor made or the limit pretended by a procedure of the
host. -/
structure StartsFree (f : FrameId) (s : State) : Prop where
  closureFree : s.ClosureFree f
  hosts : ∀ run ∈ s.hosts, Tame run

/-- The computation ended without the limit, in a result of the kind `V` if in any, and went on from
such a state to such a state. -/
structure EndsFree (f : FrameId) (V : α → Prop) (r : Except Error α × State) : Prop where
  state : StartsFree f r.2
  not_limited : ¬ Limited r.1
  value : ∀ a, r.1 = .ok a → V a

/-- From states without closures in reach of `f` the computation comes to such states, if it
ends. -/
def StaysFree (f : FrameId) (V : α → Prop) (m : Eval α) : Prop :=
  ∀ s r, StartsFree f s → m s = some r → EndsFree f V r

namespace StaysFree

theorem ret {a : α} (h : V a) : StaysFree f V (pure a) := by
  rintro s r hs ⟨⟩
  exact ⟨hs, not_limited_ok a, fun _ hb => by cases hb; exact h⟩

theorem fail {e : Error} (h : ¬ e.IsDepthLimit) : StaysFree f V (fail e) := by
  rintro s r hs ⟨⟩
  exact ⟨hs, mt limited_error.mp h, nofun⟩

theorem bind (h : StaysFree f V m) {k : α → Eval β} (hk : ∀ a, V a → StaysFree f V' (k a)) :
    StaysFree f V' (m >>= k) := by
  intro s r hs hr
  rw [bind_apply] at hr
  split at hr
  · cases hr
  · rename_i e t hm
    cases hr
    have hend := h s _ hs hm
    exact ⟨hend.state, fun hl => hend.not_limited (limited_error.mpr (limited_error.mp hl)), nofun⟩
  · rename_i a t hm
    have hend := h s _ hs hm
    exact hk a (hend.value a rfl) t r hend.state hr

theorem mapM {k : β → Eval α} {xs : List β} (h : ∀ x ∈ xs, StaysFree f V (k x)) :
    StaysFree f (fun as => ∀ a ∈ as, V a) (xs.mapM k) := by
  induction xs with
  | nil => exact ret nofun
  | cons x xs ih =>
    rw [List.forall_mem_cons] at h
    rw [List.mapM_cons]
    exact h.1.bind fun a ha => (ih h.2).bind fun as has => ret (List.forall_mem_cons.mpr ⟨ha, has⟩)

theorem inForm (h : StaysFree f V m) (form : Expr) : StaysFree f V (inForm form m) := by
  intro s r hs hr
  unfold Eval.inForm at hr
  split at hr
  · rename_i e t hm
    cases hr
    have hend := h s _ hs hm
    refine ⟨hend.state, fun hl => hend.not_limited ?_, nofun⟩
    rwa [limited_error, Error.isDepthLimit_withContext, ← limited_error] at hl
  · exact h s r hs hr

section Steps

variable {g : FrameId} {x : String} {v : Value}

theorem lookup (f : FrameId) (x : String) : StaysFree f Value.ClosureFree (lookup f x) := by
  intro s r hs hr
  unfold Eval.lookup at hr
  split at hr
  · rename_i v hv
    cases hr
    exact ⟨hs, not_limited_ok v, fun _ hu => by cases hu; exact hs.closureFree.lookup hv⟩
  · cases hr
    exact ⟨hs, mt limited_error.mp id, fun _ hu => by cases hu⟩

theorem define (hv : v.ClosureFree) : StaysFree f (fun _ => True) (define g x v) := by
  rintro s r hs ⟨⟩
  exact ⟨⟨hs.closureFree.define hv, hs.hosts⟩, not_limited_ok (), fun _ _ => trivial⟩

theorem assign (hv : v.ClosureFree) : StaysFree f (fun _ => True) (assign g x v) := by
  rintro s r hs ⟨⟩
  unfold State.assign
  split
  · exact ⟨⟨hs.closureFree.define hv, hs.hosts⟩, not_limited_ok (), fun _ _ => trivial⟩
  · exact ⟨hs, mt limited_error.mp id, fun _ hu => by cases hu⟩

theorem make {d : Draft} (hd : d.All Value.ClosureFree) :
    StaysFree f Value.ClosureFree (make d) := by
  rintro s r hs ⟨⟩
  refine ⟨⟨hs.closureFree.of_frames rfl, hs.hosts⟩, not_limited_ok _, fun _ hv => ?_⟩
  cases hv
  exact hd.finish (fun _ _ => Value.closureFree_list) s.fresh

theorem accept {r : Except Error Reply} (hlimit : ¬ Limited r)
    (hreply : ∀ reply, r = .ok reply → reply.draft.All Value.ClosureFree) :
    StaysFree f Value.ClosureFree (accept r) := by
  cases r with
  | error e => exact fail (mt limited_error.mpr hlimit)
  | ok reply =>
    rintro s r hs ⟨⟩
    refine ⟨⟨hs.closureFree.of_frames rfl, hs.hosts⟩, not_limited_ok _, fun _ hv => ?_⟩
    cases hv
    exact (hreply reply rfl).finish (fun _ _ => Value.closureFree_list) s.fresh

theorem host (index : Nat) : StaysFree f Tame (host index) := by
  intro s r hs hr
  unfold Eval.host at hr
  split at hr
  · rename_i run hrun
    cases hr
    exact ⟨hs, not_limited_ok run,
      fun _ h => by cases h; exact hs.hosts _ (Array.mem_of_getElem? hrun)⟩
  · cases hr
    exact ⟨hs, mt limited_error.mp id, fun _ hu => by cases hu⟩

end Steps

end StaysFree

end Eval

namespace Call

open Eval (StaysFree)

/-- No closure has a part in the call, and evaluating it would not come to the limit: the expression
is nested less deep than there are levels left. -/
def Free (f : FrameId) : Call → Prop
  | .eval e g depth => g = f ∧ ¬ e.Closes ∧ depth + e.nesting < evalLimit
  | .apply p args _ => p.ClosureFree ∧ Value.All Value.ClosureFree args
  | .higher _ args _ => Value.All Value.ClosureFree args

/-- Calls without closures run without closures. -/
def RunsFree (f : FrameId) (recur : Runner) : Prop :=
  ∀ c, c.Free f → StaysFree f Value.ClosureFree (recur c)

variable {recur : Runner} {f : FrameId} {depth : Nat}

theorem form_staysFree (h : RunsFree f recur) {items : List Expr} {x : Form}
    (hshape : Form.Shape items x) (hitems : ¬ (Expr.list items).Closes)
    (hd : depth + (Expr.list items).nesting < evalLimit) :
    StaysFree f Value.ClosureFree (form recur f depth x) := by
  have hpart (e : Expr) (he : e ∈ x.parts) :
      StaysFree f Value.ClosureFree (recur (.eval e f (depth + 1))) := by
    have hlt := Expr.nesting_lt_of_mem (hshape.mem_of_mem_parts he)
    exact h _ ⟨rfl, fun hcloses => hitems (hcloses.part hshape he), by omega⟩
  have hunspecified : Value.ClosureFree .unspecified := Value.inheritable_closureFree.plain trivial
  cases x with
  | quote datum => exact .make (Draft.all_ofExpr Value.inheritable_closureFree datum)
  | cond test yes no =>
    refine (hpart test (.head _)).bind fun v _ => ?_
    split
    · exact hpart yes (.tail _ (.head _))
    · exact hpart no (.tail _ (.tail _ (.head _)))
  | define name value =>
    exact (hpart value (.head _)).bind fun v hv =>
      (StaysFree.define hv).bind fun _ _ => .ret hunspecified
  | assign name value =>
    exact (hpart value (.head _)).bind fun v hv =>
      (StaysFree.assign hv).bind fun _ _ => .ret hunspecified
  | lambda params body => exact absurd (.form hshape) hitems
  | call head operands =>
    refine (hpart head (.head _)).bind fun p hp => ?_
    exact (StaysFree.mapM fun e he => hpart e (.tail _ he)).bind fun vs hvs =>
      h (.apply p vs depth) ⟨hp, hvs⟩

theorem expr_staysFree (h : RunsFree f recur) {e : Expr} (he : ¬ e.Closes)
    (hd : depth + e.nesting < evalLimit) :
    StaysFree f Value.ClosureFree (expr recur f depth e) := by
  cases e with
  | int n => exact .ret (Value.inheritable_closureFree.plain trivial)
  | float x => exact .ret (Value.inheritable_closureFree.plain trivial)
  | symbol name => exact .lookup f name
  | list items =>
    refine StaysFree.inForm ?_ _
    cases hx : Form.ofList items with
    | error err => exact .fail (not_isDepthLimit_of_ofList hx)
    | ok x => exact form_staysFree h (Form.shape_of_ofList hx) he hd

theorem not_limited_of_sound {entry : Entry} (h : entry.Sound) (args : List Value) :
    ¬ Limited (entry.run args) := by
  intro hl
  cases hrun : entry.run args with
  | ok reply =>
    rw [hrun] at hl
    exact not_limited_ok reply hl
  | error e =>
    rw [hrun, limited_error] at hl
    rcases h args e hrun with he | ⟨-, expected, rfl⟩
    · cases he <;> exact hl
    · exact hl

theorem applyTo_staysFree (h : RunsFree f recur) {p : Value} (hp : p.ClosureFree)
    {args : List Value} (hargs : Value.All Value.ClosureFree args) :
    StaysFree f Value.ClosureFree (applyTo recur args depth p) := by
  cases p with
  | builtin b =>
    simp only [applyTo]
    split
    · split
      · rename_i p _
        exact .accept (not_limited_of_sound p.sound args)
          (p.handsOver _ Value.inheritable_closureFree args hargs)
      · refine (StaysFree.host _).bind fun run hrun => ?_
        refine .accept (hrun.not_limited args) fun reply hreply => .of_not_holds fun c hc => ?_
        obtain ⟨v, hv, hheld⟩ := hrun.makesNoClosures args reply hreply c hc
        exact hargs v hv c hheld
      · exact h (.higher _ args _) hargs
    · exact .fail id
  | closure c => exact absurd .self (hp c)
  | _ => exact .fail id

theorem mapOver_staysFree (h : RunsFree f recur) {p : Value} (hp : p.ClosureFree)
    {lists : List (List Value)} (hlists : ∀ items ∈ lists, Value.All Value.ClosureFree items) :
    StaysFree f (Value.All Value.ClosureFree) (mapOver recur depth p lists) := by
  refine .mapM fun i hi => ?_
  obtain ⟨vs, hrow, hvs⟩ := row_of_lt (List.mem_range.mp hi)
  simp only [hrow]
  refine h (.apply p vs depth) ⟨hp, fun v hv => ?_⟩
  obtain ⟨items, hitems, hv⟩ := exists_mem_of_forall₂ hvs hv
  exact hlists items hitems v (List.mem_of_getElem? hv)

theorem higherBody_staysFree (h : RunsFree f recur) (hh : Higher) {args : List Value}
    (hargs : Value.All Value.ClosureFree args) :
    StaysFree f Value.ClosureFree (higherBody recur depth hh args) := by
  have hitem := @Value.inheritable_closureFree.item
  unfold higherBody
  split
  · rename_i p id items
    exact h (.apply p items depth) ⟨hargs p (.head _), hitem (hargs _ (.tail _ (.head _)))⟩
  · exact .fail id
  · exact .fail id
  · exact .fail id
  · rename_i p vs
    split
    · split
      · rename_i hlists
        exact .fail (not_isDepthLimit_of_listsOf hlists)
      · rename_i lists hlists
        refine (mapOver_staysFree h (hargs p (.head _)) fun items hitems => ?_).bind
          fun results hresults => .make (.ofList hresults)
        obtain ⟨v, hv, id, rfl⟩ := exists_mem_of_forall₂ (forall₂_listsOf hlists) hitems
        exact hitem (hargs _ (.tail _ hv))
    · exact .fail id

theorem body_staysFree (h : RunsFree f recur) {c : Call} (hc : c.Free f) :
    StaysFree f Value.ClosureFree (c.body recur) := by
  cases c with
  | eval e g depth =>
    obtain ⟨rfl, he, hd⟩ := hc
    have hdepth : depth < evalLimit := Nat.lt_of_le_of_lt (Nat.le_add_right ..) hd
    rw [body, if_neg (Nat.not_le.mpr hdepth)]
    exact expr_staysFree h he hd
  | apply p args depth => exact applyTo_staysFree h hc.1 hc.2
  | higher hh args depth => exact higherBody_staysFree h hh hc

/-- However much fuel it has, a call without closures runs without closures. -/
theorem run_staysFree (n : Nat) (f : FrameId) : RunsFree f (run n) := by
  induction n with
  | zero => exact fun _ _ _ _ _ hr => by cases hr
  | succ n ih => exact fun c hc => body_staysFree ih hc

end Call

/-- Where no closure can be reached, an expression that was read and makes no closure is evaluated
without coming to the depth limit; nor can a closure be reached afterwards, or be found in the
result. -/
theorem limit_out_of_reach {source : String} {strict : Bool} {e : Expr}
    (hparse : Expr.parse source strict = .ok e) (he : ¬ e.Closes) {s : State} {f : FrameId}
    (hs : s.ClosureFree f) (hhosts : ∀ run ∈ s.hosts, Tame run) :
    ¬ Limited (s.eval f e).1 ∧ (s.eval f e).2.ClosureFree f ∧
      ∀ v, (s.eval f e).1 = .ok v → v.ClosureFree := by
  have hnesting := Expr.nesting_le_of_parse hparse
  have hfree : (Call.eval e f 0).Free f :=
    ⟨rfl, he, by rw [Nat.zero_add]; exact Nat.lt_of_le_of_lt hnesting (by decide)⟩
  obtain ⟨n, hn⟩ := Call.outcome_eq_iff.mp (rfl : (Call.eval e f 0).outcome s = s.eval f e)
  have hend := Call.run_staysFree n f _ hfree s _ ⟨hs, hhosts⟩ hn
  exact ⟨hend.not_limited, hend.state.closureFree, hend.value⟩

theorem State.closureFree_standard (f : FrameId) : State.standard.ClosureFree f := by
  rintro c (⟨hg, hv, hc⟩)
  obtain ⟨frame, hframe, hv⟩ := Option.bind_eq_some_iff.mp hv
  have hmem := Array.mem_of_getElem? hframe
  simp only [State.standard, State.addFrame, State.empty, Array.mem_push, Array.not_mem_empty,
    false_or] at hmem
  subst hmem
  exact Value.hereditary_closureFree.atom (Frame.isAtom_standard hv) c hc

/-- Adds up a row of numbers and multiplies another, `apply` being mapped over `+` and `*`, and goes
on with the sum and the product. The word `lambda` occurs quoted. -/
def tally : Expr := .list [.symbol "begin",
  .list [.symbol "define", .symbol "r",
    .list [.symbol "quote", .list [.list [.int 1, .int 2], .list [.int 3, .int 4]]]],
  .list [.symbol "set!", .symbol "r",
    .list [.symbol "map", .symbol "apply", .list [.symbol "list", .symbol "+", .symbol "*"],
      .symbol "r"]],
  .list [.symbol "if", .list [.symbol "null?", .symbol "r"],
    .list [.symbol "quote", .symbol "lambda"],
    .list [.symbol "apply", .symbol "max",
      .list [.symbol "map", .symbol "-", .symbol "r",
        .list [.symbol "list", .int 9, .list [.symbol "abs", .int (-2)]]]]]]

def tallyText : String :=
  "(begin (define r (quote ((1 2) (3 4)))) (set! r (map apply (list + *) r)) " ++
    "(if (null? r) (quote lambda) (apply max (map - r (list 9 (abs -2))))))"

set_option maxRecDepth 2000 in
theorem limit_out_of_reach_nested :
    Expr.parse tallyText true = .ok tally ∧ ¬ tally.Closes ∧
      State.standard.ClosureFree 0 ∧ (∀ run ∈ State.standard.hosts, Tame run) ∧
      ¬ Limited (State.standard.eval 0 tally).1 ∧
      (State.standard.eval 0 tally).2.ClosureFree 0 ∧
      (State.standard.eval 0 tally).1.map Value.text = .ok "10" := by
  have hparse : Expr.parse tallyText true = .ok tally := by rfl
  have htally : ¬ tally.Closes := by simp [tally, Expr.closes_list_iff]
  have hfree := State.closureFree_standard 0
  have hhosts : ∀ run ∈ State.standard.hosts, Tame run := by
    simp [State.standard, State.addFrame, State.empty]
  have hrun : (Call.run 30 (.eval tally 0 0) .standard).map (fun r => r.1.map Value.text) =
      some (.ok "10") := by decide +kernel
  obtain ⟨hlimit, hafter, -⟩ := limit_out_of_reach hparse htally hfree hhosts
  exact ⟨hparse, htally, hfree, hhosts, hlimit, hafter, Call.seen_outcome_of_run hrun⟩

end MiniLisp
