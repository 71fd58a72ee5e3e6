import MiniLisp.Proofs.Builtin.Failures
import MiniLisp.Proofs.Builtin.HandsOn
import MiniLisp.Proofs.Eval.CallTree
import MiniLisp.Proofs.Eval.Shape
import MiniLisp.Proofs.Scope.Binding
import Mathlib.Order.Basic

/-!
# Invariants of runs

What a run keeps true of the state and of the values at hand is said of worlds, which tell what is
known so far and only grow. An `Invariant` says what each allocation does to it; every run keeps it
(`Invariant.run_keeps`), and it holds wherever a run comes to (`Invariant.of_enters`).
-/

namespace MiniLisp

theorem Form.failsBy_params (e : Expr) : FailsBy (fun e => ¬ e.IsDefect) (params e) := by
  intro err h
  cases e with
  | list items =>
    obtain ⟨names, e, rest, -, -, hfault⟩ := params_eq_error_iff.mp h
    cases hfault with
    | notSymbol => exact id
    | repeated => exact id
  | _ =>
    cases h
    exact id

theorem Form.failsBy_target (keyword : String) (e : Expr) :
    FailsBy (fun e => ¬ e.IsDefect) (target keyword e) := by
  unfold target
  split
  · exact .ok _
  · exact .error id

/-- A list that is no form is none by its own fault. -/
theorem Form.failsBy_ofList (items : List Expr) :
    FailsBy (fun e => ¬ e.IsDefect) (ofList items) := by
  unfold ofList
  split
  · exact .error id
  · split
    · exact .ok _
    · split
      · exact .ok _
      · exact .ok _
      · exact (failsBy_target _ _).map _
      · exact (failsBy_target _ _).map _
      · exact (failsBy_params _).map _
      · exact .error id

section Rows

theorem exists_mem_of_forall₂ {α β : Type} {R : α → β → Prop} {as : List α} {bs : List β}
    (h : List.Forall₂ R as bs) {b : β} (hb : b ∈ bs) : ∃ a ∈ as, R a b := by
  induction h with
  | nil => cases hb
  | cons hab _ ih =>
    rcases List.mem_cons.mp hb with rfl | hb
    · exact ⟨_, .head _, hab⟩
    · obtain ⟨a, ha, hab⟩ := ih hb
      exact ⟨a, .tail _ ha, hab⟩

namespace Call

/-- The values that `map` is given are lists, and these are their items. -/
theorem forall₂_listsOf {vs : List Value} {lists : List (List Value)}
    (h : listsOf vs = .ok lists) :
    List.Forall₂ (fun v items => ∃ id, v = .list id items) vs lists := by
  induction vs generalizing lists with
  | nil =>
    cases h
    exact .nil
  | cons v vs ih =>
    unfold listsOf at h ih
    rw [List.mapM_cons] at h
    cases v with
    | list id items =>
      simp only [bind, Except.bind] at h
      split at h
      · cases h
      · rename_i rest hrest
        cases h
        exact .cons ⟨id, rfl⟩ (ih hrest)
    | _ => cases h

theorem failsBy_listsOf (vs : List Value) : FailsBy (fun e => ¬ e.IsDefect) (listsOf vs) := by
  refine .mapM fun v => ?_
  cases v with
  | list id items => exact .ok items
  | _ => exact .error id

/-- Every list has an element at a place before the end of the shortest. -/
theorem row_of_lt {lists : List (List Value)} {i : Nat} (h : i < shortest lists) :
    ∃ vs, row (lists.map List.toArray) i = .ok vs ∧
      List.Forall₂ (fun items v => items[i]? = some v) lists vs := by
  have hlt : ∀ items ∈ lists, i < items.length := fun items hitems =>
    Nat.lt_of_lt_of_le h (List.min?_getD_le_of_mem (List.mem_map_of_mem hitems))
  clear h
  have hrow : ∃ vs, (lists.map List.toArray).mapM (fun items : Array Value => items[i]?) = some vs ∧
      List.Forall₂ (fun items v => items[i]? = some v) lists vs := by
    induction lists with
    | nil => exact ⟨[], rfl, .nil⟩
    | cons items lists ih =>
      obtain ⟨vs, hvs, hall⟩ := ih fun items hitems => hlt items (.tail _ hitems)
      have hitem := List.getElem?_eq_getElem (hlt items (.head _))
      refine ⟨_ :: vs, ?_, .cons hitem hall⟩
      rw [List.map_cons, List.mapM_cons, hvs, List.getElem?_toArray, hitem]
      rfl
  obtain ⟨vs, hvs, hall⟩ := hrow
  exact ⟨vs, by rw [row, hvs], hall⟩

end Call

end Rows

/-- What runs keep true. Values may be at hand, frames may be evaluated in, procedures of the host
must be there, and the rest of a state is told by the first free identity and the outer frames. -/
structure Invariant (W : Type) [Preorder W] where
  value : W → Value → Prop
  frame : W → FrameId → Prop
  hosted : Nat → Prop
  shape : W → Nat → List (Option FrameId) → Prop
  error : Error → Prop
  inheritable (w : W) : Inheritable (value w)
  value_mono {w w' : W} {v : Value} : w ≤ w' → value w v → value w' v
  frame_mono {w w' : W} {f : FrameId} : w ≤ w' → frame w f → frame w' f
  error_of {e : Error} : ¬ e.IsDefect → error e
  host {w : W} {b : Builtin} {index : Nat} : value w (.builtin b) → b.operation = .host index →
    hosted index ∨ error (.internal .hostMissing)
  make {w : W} {n : Nat} {links : List (Option FrameId)} {d : Draft} : shape w n links →
    d.All (value w) → ∃ w', w ≤ w' ∧ shape w' (d.finish n).2 links ∧ value w' (d.finish n).1
  close {w : W} {n : Nat} {links : List (Option FrameId)} {params : List String} (body : Expr)
    {f : FrameId} : shape w n links → frame w f → params.Nodup →
    ∃ w', w ≤ w' ∧ shape w' (n + 1) links ∧ value w' (.closure ⟨n, params, body, f⟩)
  enter {w : W} {n : Nat} {links : List (Option FrameId)} {c : Closure} : shape w n links →
    value w (.closure c) →
    ∃ w', w ≤ w' ∧ shape w' n (links ++ [some c.frame]) ∧ frame w' links.length

namespace Invariant

variable {W : Type} [Preorder W] {I : Invariant W} {w w' : W} {α β : Type}

/-- The host function keeps the invariant. -/
def Host (I : Invariant W) (w : W) (run : HostFunction) : Prop :=
  ∀ w', w ≤ w' → ∀ args, Value.All (I.value w') args →
    (∀ reply, run args = .ok reply → reply.draft.All (I.value w')) ∧ FailsBy I.error (run args)

/-- The invariant holds of the state. -/
structure Holds (I : Invariant W) (w : W) (s : State) : Prop where
  bound : ∀ f x v, s.binding? f x = some v → I.value w v
  hosts : ∀ run ∈ s.hosts, I.Host w run
  hosted : ∀ index, I.hosted index → index < s.hosts.size
  shape : I.shape w s.fresh s.links

/-- The call may be made. -/
def Ready (I : Invariant W) (w : W) : Call → Prop
  | .eval _ f _ => I.frame w f
  | .apply p args _ => I.value w p ∧ Value.All (I.value w) args
  | .higher _ args _ => Value.All (I.value w) args

theorem all_mono (h : w ≤ w') {vs : List Value} (hvs : Value.All (I.value w) vs) :
    Value.All (I.value w') vs :=
  fun v hv => I.value_mono h (hvs v hv)

theorem Ready.mono (h : w ≤ w') {c : Call} (hc : I.Ready w c) : I.Ready w' c := by
  cases c with
  | eval => exact I.frame_mono h hc
  | apply => exact ⟨I.value_mono h hc.1, all_mono h hc.2⟩
  | higher => exact all_mono h hc

theorem error_withContext {e : Error} (h : I.error e) (form : String) :
    I.error (e.withContext form) := by
  cases e with
  | type cause context =>
    simp only [Error.withContext]
    split <;> exact I.error_of id
  | eval cause context =>
    simp only [Error.withContext]
    split <;> exact I.error_of id
  | _ => exact h

namespace Holds

variable {s : State}

theorem of_frames {t : State} (h : I.Holds w s) (hframes : t.frames = s.frames)
    (hhosts : t.hosts = s.hosts) (hle : w ≤ w') (hshape : I.shape w' t.fresh s.links) :
    I.Holds w' t where
  bound f x v hv := by
    refine I.value_mono hle (h.bound f x v ?_)
    rwa [State.binding?, ← hframes]
  hosts run hrun w'' hw'' := h.hosts run (hhosts ▸ hrun) w'' (hle.trans hw'')
  hosted index hindex := hhosts ▸ h.hosted index hindex
  shape := by
    rw [State.links, hframes]
    exact hshape

theorem print (h : I.Holds w s) (text : String) : I.Holds w (s.print text) :=
  h.of_frames rfl rfl le_rfl h.shape

theorem define (h : I.Holds w s) (f : FrameId) (x : String) {v : Value} (hv : I.value w v) :
    I.Holds w (s.define f x v) where
  bound g y u hu := by
    rw [State.binding?_define] at hu
    split at hu
    · obtain ⟨frame, -, rfl⟩ := Option.map_eq_some_iff.mp hu
      exact hv
    · exact h.bound g y u hu
  hosts := h.hosts
  hosted := h.hosted
  shape := by
    rw [State.links_define]
    exact h.shape

theorem assign (h : I.Holds w s) (f : FrameId) (x : String) {v : Value} (hv : I.value w v) :
    I.Holds w (s.assign f x v).2 := by
  unfold State.assign
  split
  · exact h.define _ x hv
  · exact h

theorem teardown (h : I.Holds w s) (f : FrameId) : I.Holds w (s.teardown f) where
  bound g x v hv := by
    rw [State.binding?_teardown] at hv
    split at hv
    · cases hv
    · exact h.bound g x v hv
  hosts := h.hosts
  hosted := h.hosted
  shape := by
    rw [State.links_teardown]
    exact h.shape

theorem register (h : I.Holds w s) (f : FrameId) (x : String) (arity : Arity) {run : HostFunction}
    (hrun : I.Host w run) (hvalue : I.value w (.builtin ⟨x, arity, .host s.hosts.size⟩)) :
    I.Holds w (s.register f x arity run) := by
  refine Holds.define (s := { s with hosts := s.hosts.push run }) ⟨h.bound, fun run' hrun' => ?_,
    fun index hindex => ?_, h.shape⟩ f x hvalue
  · rcases Array.mem_push.mp hrun' with hrun' | rfl
    · exact h.hosts run' hrun'
    · exact hrun
  · rw [Array.size_push]
    exact (h.hosted index hindex).trans (Nat.lt_succ_self _)

theorem lookup (h : I.Holds w s) {f : FrameId} {x : String} {v : Value}
    (hv : s.lookup f x = some v) : I.value w v := by
  obtain ⟨g, -, hg⟩ := List.exists_of_findSome?_eq_some hv
  exact h.bound g x v hg

theorem make (h : I.Holds w s) {d : Draft} (hd : d.All (I.value w)) :
    ∃ w', w ≤ w' ∧ I.Holds w' (s.make d).2 ∧ I.value w' (s.make d).1 := by
  obtain ⟨w', hle, hshape, hvalue⟩ := I.make h.shape hd
  exact ⟨w', hle, h.of_frames rfl rfl hle hshape, hvalue⟩

theorem close (h : I.Holds w s) {f : FrameId} (hf : I.frame w f) {params : List String}
    (hparams : params.Nodup) (body : Expr) :
    ∃ w', w ≤ w' ∧ I.Holds w' { s with fresh := s.fresh + 1 } ∧
      I.value w' (.closure ⟨s.fresh, params, body, f⟩) := by
  obtain ⟨w', hle, hshape, hvalue⟩ := I.close body h.shape hf hparams
  exact ⟨w', hle, h.of_frames rfl rfl hle hshape, hvalue⟩

theorem addFrame (h : I.Holds w s) {frame : Frame} (hle : w ≤ w')
    (hbound : ∀ (x : String) (v : Value), frame.bindings[x]? = some v → I.value w' v)
    (hshape : I.shape w' s.fresh (s.links ++ [frame.outer])) : I.Holds w' (s.addFrame frame) where
  bound f x v hv := by
    obtain ⟨frame', hframe', hv⟩ := Option.bind_eq_some_iff.mp hv
    rw [State.addFrame, Array.getElem?_push] at hframe'
    split at hframe'
    · cases hframe'
      exact hbound x v hv
    · exact I.value_mono hle (h.bound f x v (Option.bind_eq_some_iff.mpr ⟨frame', hframe', hv⟩))
  hosts run hrun w'' hw'' := h.hosts run hrun w'' (hle.trans hw'')
  hosted := h.hosted
  shape := by
    rw [State.links_addFrame]
    exact hshape

/-- A frame for a closure binds arguments only. -/
theorem enter (h : I.Holds w s) {c : Closure} (hc : I.value w (.closure c)) {args : List Value}
    (hargs : Value.All (I.value w) args) :
    ∃ w', w ≤ w' ∧
      I.Holds w' (s.addFrame ⟨Std.TreeMap.ofList (c.params.zip args), some c.frame⟩) ∧
      I.frame w' s.frames.size := by
  obtain ⟨w', hle, hshape, hframe⟩ := I.enter h.shape hc
  rw [State.length_links] at hframe
  refine ⟨w', hle, h.addFrame hle (fun x v hv => ?_) hshape, hframe⟩
  exact I.value_mono hle (hargs v (List.of_mem_zip (Frame.mem_of_getElem?_ofList hv)).2)

end Holds

/-- What a computation ends in, started in a world up to `w`, when its results are of the kind
`V`. -/
def Ends (I : Invariant W) (w : W) (V : W → α → Prop) (end' : Except Error α × State) : Prop :=
  ∃ w', w ≤ w' ∧ I.Holds w' end'.2 ∧ (∀ a, end'.1 = .ok a → V w' a) ∧ FailsBy I.error end'.1

/-- From all states of the world `w` or a later one the computation ends so that the invariant
holds, or does not end and `stuck` holds. -/
def Keeps (I : Invariant W) (stuck : Prop) (w : W) (V : W → α → Prop) (m : Eval α) : Prop :=
  ∀ w', w ≤ w' → ∀ s, I.Holds w' s → (m s).elim stuck (I.Ends w' V)

variable {stuck : Prop} {V : W → α → Prop} {V' : W → β → Prop} {m : Eval α}

namespace Keeps

theorem mono (h : I.Keeps stuck w V m) (hle : w ≤ w') : I.Keeps stuck w' V m :=
  fun w'' hle' => h w'' (hle.trans hle')

theorem fail {e : Error} (he : I.error e) : I.Keeps stuck w V (Eval.fail e) :=
  fun w' _ _ hs => ⟨w', le_rfl, hs, nofun, .error he⟩

theorem ret {a : α} (h : ∀ w', w ≤ w' → V w' a) : I.Keeps stuck w V (pure a) :=
  fun w' hle _ hs => ⟨w', le_rfl, hs, fun _ hb => by cases hb; exact h w' hle, .ok a⟩

theorem bind (h : I.Keeps stuck w V m) {k : α → Eval β}
    (hk : ∀ a w', w ≤ w' → V w' a → I.Keeps stuck w' V' (k a)) :
    I.Keeps stuck w V' (m >>= k) := by
  intro w' hle s hs
  have hm := h w' hle s hs
  rw [Eval.bind_apply]
  generalize m s = end' at hm ⊢
  obtain _ | ⟨e | a, t⟩ := end'
  · exact hm
  · obtain ⟨w₁, hle₁, ht, -, he⟩ := hm
    exact ⟨w₁, hle₁, ht, nofun, .error (he e rfl)⟩
  · obtain ⟨w₁, hle₁, ht, ha, -⟩ := hm
    have hnext := hk a w₁ (hle.trans hle₁) (ha a rfl) w₁ le_rfl t ht
    simp only
    generalize k a t = end' at hnext ⊢
    cases end' with
    | none => exact hnext
    | some end' =>
      obtain ⟨w₂, hle₂, hend⟩ := hnext
      exact ⟨w₂, hle₁.trans hle₂, hend⟩

theorem inForm (h : I.Keeps stuck w V m) (form : Expr) :
    I.Keeps stuck w V (Eval.inForm form m) := by
  intro w' hle s hs
  have hm := h w' hle s hs
  unfold Eval.inForm
  generalize m s = end' at hm ⊢
  obtain _ | ⟨e | a, t⟩ := end'
  · exact hm
  · obtain ⟨w₁, hle₁, ht, -, he⟩ := hm
    exact ⟨w₁, hle₁, ht, nofun, .error (error_withContext (he e rfl) _)⟩
  · exact hm

theorem mapM {k : β → Eval α} {xs : List β}
    (hV : ∀ {w w' a}, w ≤ w' → V w a → V w' a) (h : ∀ x ∈ xs, I.Keeps stuck w V (k x)) :
    I.Keeps stuck w (fun w as => ∀ a ∈ as, V w a) (xs.mapM k) := by
  induction xs generalizing w with
  | nil => exact ret fun _ _ => nofun
  | cons x xs ih =>
    rw [List.mapM_cons]
    refine (h x (.head _)).bind fun a w₁ hle₁ ha => ?_
    refine (ih fun y hy => (h y (.tail _ hy)).mono hle₁).bind fun as w₂ hle₂ has => ?_
    exact ret fun w₃ hle₃ => List.forall_mem_cons.mpr
      ⟨hV (hle₂.trans hle₃) ha, fun b hb => hV hle₃ (has b hb)⟩

section Steps

variable {f : FrameId} {x : String} {v : Value}

theorem lookup (f : FrameId) (x : String) : I.Keeps stuck w I.value (Eval.lookup f x) := by
  intro w' hle s hs
  unfold Eval.lookup
  cases hv : s.lookup f x with
  | none => exact ⟨w', le_rfl, hs, nofun, .error (I.error_of id)⟩
  | some v => exact ⟨w', le_rfl, hs, fun _ hu => by cases hu; exact hs.lookup hv, .ok v⟩

theorem define (hv : I.value w v) :
    I.Keeps stuck w (fun _ _ => True) (Eval.define f x v) :=
  fun w' hle _ hs =>
    ⟨w', le_rfl, hs.define f x (I.value_mono hle hv), fun _ _ => trivial, .ok _⟩

theorem assign (hv : I.value w v) :
    I.Keeps stuck w (fun _ _ => True) (Eval.assign f x v) := by
  intro w' hle s hs
  refine ⟨w', le_rfl, hs.assign f x (I.value_mono hle hv), fun _ _ => trivial, fun e he => ?_⟩
  unfold State.assign at he
  split at he
  · cases he
  · cases he
    exact I.error_of id

theorem make {d : Draft} (hd : d.All (I.value w)) : I.Keeps stuck w I.value (Eval.make d) := by
  intro w' hle s hs
  obtain ⟨w₁, hle₁, ht, hv⟩ := hs.make (hd.imp fun _ => I.value_mono hle)
  exact ⟨w₁, hle₁, ht, fun _ hu => by cases hu; exact hv, .ok _⟩

theorem close (hf : I.frame w f) {params : List String} (hparams : params.Nodup) (body : Expr) :
    I.Keeps stuck w I.value (Eval.close params body f) := by
  intro w' hle s hs
  obtain ⟨w₁, hle₁, ht, hv⟩ := hs.close (I.frame_mono hle hf) hparams body
  exact ⟨w₁, hle₁, ht, fun _ hu => by cases hu; exact hv, .ok _⟩

theorem accept {r : Except Error Reply} (herror : FailsBy I.error r)
    (hreply : ∀ reply, r = .ok reply → reply.draft.All (I.value w)) :
    I.Keeps stuck w I.value (Eval.accept r) := by
  cases r with
  | error e => exact fail (herror e rfl)
  | ok reply =>
    intro w' hle s hs
    obtain ⟨w₁, hle₁, ht, hv⟩ := (hs.print reply.printed).make
      ((hreply reply rfl).imp fun _ => I.value_mono hle)
    exact ⟨w₁, hle₁, ht, fun _ hu => by cases hu; exact hv, .ok _⟩

theorem host {index : Nat} (h : I.hosted index ∨ I.error (.internal .hostMissing)) :
    I.Keeps stuck w I.Host (Eval.host index) := by
  intro w' hle s hs
  unfold Eval.host
  cases hrun : s.hosts[index]? with
  | none =>
    have hmissing : ¬ index < s.hosts.size := Nat.not_lt.mpr (Array.getElem?_eq_none_iff.mp hrun)
    have herror := h.resolve_left fun hindex => hmissing (hs.hosted index hindex)
    exact ⟨w', le_rfl, hs, nofun, .error herror⟩
  | some run =>
    exact ⟨w', le_rfl, hs, fun _ h => by cases h; exact hs.hosts _ (Array.mem_of_getElem? hrun),
      .ok run⟩

theorem enter {c : Closure} (hc : I.value w (.closure c)) {args : List Value}
    (hargs : Value.All (I.value w) args) :
    I.Keeps stuck w I.frame (Eval.enter c.frame (c.params.zip args)) := by
  intro w' hle s hs
  obtain ⟨w₁, hle₁, ht, hf⟩ := hs.enter (I.value_mono hle hc) (all_mono hle hargs)
  exact ⟨w₁, hle₁, ht, fun _ h => by cases h; exact hf, .ok _⟩

end Steps

end Keeps

section Calls

/-- The calls that may be made keep the invariant. -/
def Runs (I : Invariant W) (stuck : Prop) (w : W) (recur : Call.Runner) : Prop :=
  ∀ w', w ≤ w' → ∀ c, I.Ready w' c → I.Keeps stuck w' I.value (recur c)

variable {recur : Call.Runner} {f : FrameId} {depth : Nat}

theorem Runs.mono (h : I.Runs stuck w recur) (hle : w ≤ w') : I.Runs stuck w' recur :=
  fun w'' hle' => h w'' (hle.trans hle')

theorem args_keeps (h : I.Runs stuck w recur) (hf : I.frame w f) (operands : List Expr) :
    I.Keeps stuck w (fun w vs => Value.All (I.value w) vs) (Call.args recur f depth operands) :=
  .mapM (fun hle hv => I.value_mono hle hv) fun e _ => h w le_rfl (.eval e f depth) hf

theorem form_keeps (h : I.Runs stuck w recur) (hf : I.frame w f) {items : List Expr} {x : Form}
    (hx : Form.ofList items = .ok x) : I.Keeps stuck w I.value (Call.form recur f depth x) := by
  have hpart (e : Expr) : I.Keeps stuck w I.value (recur (.eval e f (depth + 1))) :=
    h w le_rfl (.eval e f (depth + 1)) hf
  have hunspecified (w' : W) : I.value w' .unspecified := (I.inheritable w').plain trivial
  cases x with
  | quote datum => exact .make (Draft.all_ofExpr (I.inheritable w) datum)
  | cond test yes no =>
    exact (hpart test).bind fun v w' hle _ => (h.mono hle) w' le_rfl _ (I.frame_mono hle hf)
  | define name value =>
    exact (hpart value).bind fun v w' _ hv =>
      (Keeps.define hv).bind fun _ _ _ _ => .ret fun w'' _ => hunspecified w''
  | assign name value =>
    exact (hpart value).bind fun v w' _ hv =>
      (Keeps.assign hv).bind fun _ _ _ _ => .ret fun w'' _ => hunspecified w''
  | lambda params body =>
    cases Form.shape_of_ofList hx with
    | lambda hparams => exact .close hf (Form.params_eq_ok_iff.mp hparams).2 body
  | call head operands =>
    refine (hpart head).bind fun p w₁ hle₁ hp => ?_
    refine (args_keeps (h.mono hle₁) (I.frame_mono hle₁ hf) operands).bind fun vs w₂ hle₂ hvs => ?_
    exact h w₂ (hle₁.trans hle₂) (.apply p vs depth) ⟨I.value_mono hle₂ hp, hvs⟩

theorem expr_keeps (h : I.Runs stuck w recur) (hf : I.frame w f) (e : Expr) :
    I.Keeps stuck w I.value (Call.expr recur f depth e) := by
  cases e with
  | int n => exact .ret fun w' _ => (I.inheritable w').plain trivial
  | float x => exact .ret fun w' _ => (I.inheritable w').plain trivial
  | symbol name => exact .lookup f name
  | list items =>
    refine Keeps.inForm ?_ _
    cases hx : Form.ofList items with
    | error e => exact .fail (I.error_of (Form.failsBy_ofList items e hx))
    | ok x => exact form_keeps h hf hx

theorem applyTo_keeps (h : I.Runs stuck w recur) {p : Value} (hp : I.value w p)
    {args : List Value} (hargs : Value.All (I.value w) args) :
    I.Keeps stuck w I.value (Call.applyTo recur args depth p) := by
  cases p with
  | builtin b =>
    simp only [Call.applyTo]
    split
    · split
      · rename_i p _
        exact .accept ((p.sound.not_isDefect args).imp fun _ => I.error_of)
          (p.handsOver _ (I.inheritable w) args hargs)
      · rename_i index hindex
        exact (Keeps.host (I.host hp hindex)).bind fun run w' hle hrun =>
          .accept (hrun w' le_rfl args (all_mono hle hargs)).2
            (hrun w' le_rfl args (all_mono hle hargs)).1
      · exact h w le_rfl (.higher _ args _) hargs
    · exact .fail (I.error_of id)
  | closure c =>
    simp only [Call.applyTo]
    split
    · exact (Keeps.enter hp hargs).bind fun g w' hle hg => h w' hle (.eval c.body g _) hg
    · exact .fail (I.error_of id)
  | _ => exact .fail (I.error_of id)

theorem all_of_listsOf {vs : List Value} {lists : List (List Value)}
    (h : Call.listsOf vs = .ok lists) (hvs : Value.All (I.value w) vs) :
    ∀ items ∈ lists, Value.All (I.value w) items := by
  intro items hitems
  obtain ⟨v, hv, id, rfl⟩ := exists_mem_of_forall₂ (Call.forall₂_listsOf h) hitems
  exact (I.inheritable w).item (hvs _ hv)

theorem mapOver_keeps (h : I.Runs stuck w recur) {p : Value} (hp : I.value w p)
    {lists : List (List Value)} (hlists : ∀ items ∈ lists, Value.All (I.value w) items) :
    I.Keeps stuck w (fun w vs => Value.All (I.value w) vs)
      (Call.mapOver recur depth p lists) := by
  refine .mapM (fun hle hv => I.value_mono hle hv) fun i hi => ?_
  obtain ⟨vs, hrow, hvs⟩ := Call.row_of_lt (List.mem_range.mp hi)
  simp only [hrow]
  refine h w le_rfl (.apply p vs depth) ⟨hp, fun v hv => ?_⟩
  obtain ⟨items, hitems, hv⟩ := exists_mem_of_forall₂ hvs hv
  exact hlists items hitems v (List.mem_of_getElem? hv)

theorem higherBody_keeps (h : I.Runs stuck w recur) (hh : Higher) {args : List Value}
    (hargs : Value.All (I.value w) args) :
    I.Keeps stuck w I.value (Call.higherBody recur depth hh args) := by
  unfold Call.higherBody
  split
  · rename_i p id items
    have hitems := (I.inheritable w).item (hargs (.list id items) (.tail _ (.head _)))
    exact h w le_rfl (.apply p items depth) ⟨hargs p (.head _), hitems⟩
  · exact .fail (I.error_of id)
  · exact .fail (I.error_of id)
  · exact .fail (I.error_of id)
  · rename_i p vs
    split
    · split
      · rename_i e he
        exact .fail (I.error_of (Call.failsBy_listsOf vs e he))
      · rename_i lists hlists
        have hvs : Value.All (I.value w) vs := fun v hv => hargs v (.tail _ hv)
        exact (mapOver_keeps h (hargs p (.head _)) (all_of_listsOf hlists hvs)).bind
          fun results w' _ hresults => .make (.ofList hresults)
    · exact .fail (I.error_of id)

theorem body_keeps (h : I.Runs stuck w recur) {c : Call} (hc : I.Ready w c) :
    I.Keeps stuck w I.value (c.body recur) := by
  cases c with
  | eval e f depth =>
    simp only [Call.body]
    split
    · exact .fail (I.error_of id)
    · exact expr_keeps h hc e
  | apply p args depth => exact applyTo_keeps h hc.1 hc.2
  | higher hh args depth => exact higherBody_keeps h hh hc

end Calls

section Runs

variable {c : Call} {s : State}

/-- Every run keeps the invariant, however much fuel it has. -/
theorem run_keeps (n : Nat) (w : W) : I.Runs True w (Call.run n) := by
  induction n generalizing w with
  | zero => exact fun _ _ _ _ _ _ _ _ => trivial
  | succ n ih => exact fun w' _ _ hc => body_keeps (ih w') hc

theorem outcome_ends (hs : I.Holds w s) (hc : I.Ready w c) : I.Ends w I.value (c.outcome s) := by
  obtain ⟨n, hn⟩ := Call.outcome_eq_iff.mp (rfl : c.outcome s = c.outcome s)
  have hrun := run_keeps n w w le_rfl c hc w le_rfl s hs
  rw [hn] at hrun
  exact hrun

theorem runs_ends (w : W) : I.Runs False w Call.ends :=
  fun _ _ _ hc _ hle _ hs => outcome_ends hs (hc.mono hle)

/-- The invariant holds where a call is made: were it not to hold there, the call that makes it
would end without that call. -/
theorem of_makes {y : Call × State} (hs : I.Holds w s) (hc : I.Ready w c)
    (h : Call.Makes (c, s) y) : ∃ w', w ≤ w' ∧ I.Holds w' y.2 ∧ I.Ready w' y.1 := by
  by_contra hno
  have hruns : I.Runs False w (Call.without y) := by
    intro w₁ hle₁ c₁ hc₁ w₂ hle₂ s₁ hs₁
    unfold Call.without
    split
    · rename_i heq
      subst heq
      exact hno ⟨w₂, hle₁.trans hle₂, hs₁, hc₁.mono hle₂⟩
    · exact outcome_ends hs₁ (hc₁.mono hle₂)
  have hbody := body_keeps hruns hc w le_rfl s hs
  unfold Call.Makes at h
  rw [h] at hbody
  exact hbody

/-- The invariant holds wherever a run comes to. -/
theorem of_enters {x y : Call × State} (hs : I.Holds w x.2) (hc : I.Ready w x.1)
    (h : Call.Enters x y) : ∃ w', w ≤ w' ∧ I.Holds w' y.2 ∧ I.Ready w' y.1 := by
  induction h with
  | refl => exact ⟨w, le_rfl, hs, hc⟩
  | tail _ hmakes ih =>
    obtain ⟨w₁, hle₁, hs₁, hc₁⟩ := ih
    obtain ⟨w₂, hle₂, h₂⟩ := of_makes hs₁ hc₁ hmakes
    exact ⟨w₂, hle₁.trans hle₂, h₂⟩

end Runs

end Invariant

end MiniLisp
