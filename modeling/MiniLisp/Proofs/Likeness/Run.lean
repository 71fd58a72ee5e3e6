import MiniLisp.Eval.Halting
import MiniLisp.Proofs.Eval.Shape
import MiniLisp.Proofs.Likeness.State

/-!
# Alike runs

Calls that are alike, made in states that are alike, end alike with the same fuel: in the same error
or in values that are alike, and in states that are alike (`run_relates`). Alongside, something may
be watched of the left run: what holds of its states throughout because of where its code writes.
-/

namespace MiniLisp

variable {L : Likeness} {st st' : Stage} {α β γ δ : Type}

/-- What is watched of the left run. What it does depends on the expressions that are evaluated and
on the frames they are evaluated in: `task` says which may be. -/
structure Watch (L : Likeness) where
  holds : State → Prop
  task : Expr → FrameId → Prop
  error_withContext {form : Expr} {e : Error} : L.code form → L.error e →
    L.error (e.withContext form.text)
  task_part {items : List Expr} {x : Form} {e : Expr} {f : FrameId} :
    task (.list items) f → x.Shape items → e ∈ x.parts → task e f
  task_code {e : Expr} {f : FrameId} : L.code e → L.frame.left ≤ f → task e f
  holds_of_frames {s t : State} : s.frames = t.frames → holds s → holds t
  holds_addFrame {s : State} {bs : List (String × Value)} (outer : FrameId) :
    (∀ b ∈ bs, L.name b.1) → holds s →
    holds (s.addFrame ⟨Std.TreeMap.ofList bs, some outer⟩)
  holds_define {s : State} {f g : FrameId} {name : String} {value : Expr} (v : Value) : holds s →
    L.frame.Upto s.frames.size f g →
    task (.list [.symbol "define", .symbol name, value]) f → holds (s.define f name v)
  holds_assign {s : State} {f g : FrameId} {name : String} {value : Expr} (v : Value) : holds s →
    L.frame.Upto s.frames.size f g → L.code (.list [.symbol "set!", .symbol name, value]) →
    (s.binding? f name).isSome → holds (s.define f name v)

/-- Where a run may end in any error, it may also end in that error with a context. -/
theorem Likeness.error_of_all (L : Likeness) (herror : ∀ e, L.error e) {form : Expr} {e : Error}
    (_ : L.code form) (_ : L.error e) : L.error (e.withContext form.text) :=
  herror _

/-- Nothing is watched. -/
def Watch.nothing (L : Likeness) (herror : ∀ {form : Expr} {e : Error}, L.code form → L.error e →
    L.error (e.withContext form.text)) : Watch L where
  holds _ := True
  task _ _ := True
  error_withContext := herror
  task_part _ _ _ := trivial
  task_code _ _ := trivial
  holds_of_frames _ _ := trivial
  holds_addFrame _ _ _ := trivial
  holds_define _ _ _ _ := trivial
  holds_assign _ _ _ _ _ := trivial

variable {W : Watch L}

/-- What two computations that started in the states `s` and `t` end in. -/
structure Watch.Ends (W : Watch L) (s t : State) (V : Stage → α → β → Prop)
    (r : Except Error α × State) (r' : Except Error β × State) : Prop where
  grown : s.stage ≤ r.2.stage
  hosts : r.2.hosts = s.hosts ∧ r'.2.hosts = t.hosts
  states : L.States r.2 r'.2
  watched : W.holds r.2
  agrees : L.Agrees (V r.2.stage) r.1 r'.1

/-- The two computations go the same way from all alike states of the stage `st` or a later one. -/
def Watch.Relates (W : Watch L) (st : Stage) (V : Stage → α → β → Prop) (m : Eval α)
    (m' : Eval β) : Prop :=
  ∀ s t, st ≤ s.stage → L.States s t → W.holds s → Option.Rel (W.Ends s t V) (m s) (m' t)

namespace Watch.Relates

variable {V : Stage → α → β → Prop} {V' : Stage → γ → δ → Prop} {m : Eval α} {m' : Eval β}

theorem mono (h : W.Relates st V m m') (hst : st ≤ st') : W.Relates st' V m m' :=
  fun s t hs => h s t (hst.trans hs)

theorem fail {e : Error} (he : L.error e) : W.Relates st V (Eval.fail e) (Eval.fail e) :=
  fun _ _ _ hstates hholds => .some ⟨le_refl _, ⟨rfl, rfl⟩, hstates, hholds, .error he⟩

theorem ret {a : α} {b : β} (h : ∀ st', st ≤ st' → V st' a b) :
    W.Relates st V (pure a) (pure b) :=
  fun _ _ hst hstates hholds => .some ⟨le_refl _, ⟨rfl, rfl⟩, hstates, hholds, .ok (h _ hst)⟩

theorem bind (h : W.Relates st V m m') {k : α → Eval γ} {k' : β → Eval δ}
    (hk : ∀ st' a b, st ≤ st' → V st' a b → W.Relates st' V' (k a) (k' b)) :
    W.Relates st V' (m >>= k) (m' >>= k') := by
  intro s t hst hstates hholds
  have hends := h s t hst hstates hholds
  rw [Eval.bind_apply, Eval.bind_apply]
  generalize m s = o at hends ⊢
  generalize m' t = o' at hends ⊢
  cases hends with
  | none => exact .none
  | @some r r' hends =>
    obtain ⟨r, s'⟩ := r
    obtain ⟨r', t'⟩ := r'
    obtain ⟨hgrown, hhosts, hstates', hholds', hagrees⟩ := hends
    cases hagrees with
    | error he => exact .some ⟨hgrown, hhosts, hstates', hholds', .error he⟩
    | ok hab =>
      have hnext := hk s'.stage _ _ (hst.trans hgrown) hab s' t' (le_refl _) hstates' hholds'
      exact rel_imp hnext fun _ _ h => ⟨hgrown.trans h.grown,
        ⟨h.hosts.1.trans hhosts.1, h.hosts.2.trans hhosts.2⟩, h.states, h.watched, h.agrees⟩

theorem inForm (h : W.Relates st V m m') {form : Expr} (hform : L.code form) :
    W.Relates st V (Eval.inForm form m) (Eval.inForm form m') := by
  intro s t hst hstates hholds
  have hends := h s t hst hstates hholds
  unfold Eval.inForm
  generalize m s = o at hends ⊢
  generalize m' t = o' at hends ⊢
  cases hends with
  | none => exact .none
  | @some r r' hends =>
    obtain ⟨r, s'⟩ := r
    obtain ⟨r', t'⟩ := r'
    obtain ⟨hgrown, hhosts, hstates', hholds', hagrees⟩ := hends
    cases hagrees with
    | error he =>
      have hnamed := W.error_withContext hform he
      exact .some ⟨hgrown, hhosts, hstates', hholds', .error hnamed⟩
    | ok hab => exact .some ⟨hgrown, hhosts, hstates', hholds', .ok hab⟩

theorem mapM {k : γ → Eval α} {k' : γ → Eval β} {xs : List γ}
    (hV : ∀ {st st' a b}, V st a b → st ≤ st' → V st' a b)
    (h : ∀ x ∈ xs, W.Relates st V (k x) (k' x)) :
    W.Relates st (fun st => List.Forall₂ (V st)) (xs.mapM k) (xs.mapM k') := by
  induction xs generalizing st with
  | nil => exact ret fun _ _ => .nil
  | cons x xs ih =>
    rw [List.mapM_cons, List.mapM_cons]
    refine (h x (.head _)).bind fun st₁ a b hst₁ hab => ?_
    refine (ih fun y hy => (h y (.tail _ hy)).mono hst₁).bind fun st₂ as bs hst₂ hrest => ?_
    exact ret fun st₃ hst₃ =>
      .cons (hV hab (hst₂.trans hst₃)) (hrest.imp fun _ _ h => hV h hst₃)

section Steps

variable {f g : FrameId} {x : String} {v w : Value}

theorem lookup (hf : L.frame.Upto st.frames f g) (hx : L.name x) :
    W.Relates st (Value.Alike L) (Eval.lookup f x) (Eval.lookup g x) := by
  intro s t hst hstates hholds
  have hlookup := hstates.lookup (hf.mono hst.1) hx
  unfold Eval.lookup
  generalize s.lookup f x = o at hlookup ⊢
  generalize t.lookup g x = o' at hlookup ⊢
  cases hlookup with
  | none => exact .some ⟨le_refl _, ⟨rfl, rfl⟩, hstates, hholds, .error (L.error_of_silent trivial)⟩
  | some hv => exact .some ⟨le_refl _, ⟨rfl, rfl⟩, hstates, hholds, .ok hv⟩

theorem stage_define (s : State) (f : FrameId) (x : String) (v : Value) :
    (s.define f x v).stage = s.stage := by
  simp [State.stage, State.define]

theorem define (hf : L.frame.Upto st.frames f g) {value : Expr}
    (htask : W.task (.list [.symbol "define", .symbol x, value]) f) (hv : v.Alike L st w) :
    W.Relates st (fun _ _ _ => True) (Eval.define f x v) (Eval.define g x w) := by
  intro s t hst hstates hholds
  have hf := hf.mono hst.1
  have hdefined := W.holds_define v hholds hf htask
  refine .some ⟨?_, ⟨rfl, rfl⟩, hstates.define hf (hv.mono hst), hdefined, .ok trivial⟩
  rw [stage_define]

theorem isSome_binding?_of_owner? {s : State} (h : s.owner? f x = some g) :
    (s.binding? g x).isSome := by
  exact List.find?_some (p := fun g => (s.binding? g x).isSome) h

theorem assign (hf : L.frame.Upto st.frames f g) {value : Expr}
    (hcode : L.code (.list [.symbol "set!", .symbol x, value])) (hv : v.Alike L st w) :
    W.Relates st (fun _ _ _ => True) (Eval.assign f x v) (Eval.assign g x w) := by
  intro s t hst hstates hholds
  have hx : L.name x := L.name_of_code (L.code_item hcode (.tail _ (.head _)))
  have howner := hstates.owner (hf.mono hst.1) hx
  unfold Eval.assign State.assign
  have hbound {h : FrameId} (hh : s.owner? f x = some h) := isSome_binding?_of_owner? hh
  generalize s.owner? f x = o at howner hbound ⊢
  generalize t.owner? g x = o' at howner ⊢
  cases howner with
  | none => exact .some ⟨le_refl _, ⟨rfl, rfl⟩, hstates, hholds, .error (L.error_of_silent trivial)⟩
  | some hh =>
    refine .some ⟨?_, ⟨rfl, rfl⟩, hstates.define hh (hv.mono hst),
      W.holds_assign v hholds hh hcode (hbound rfl), .ok trivial⟩
    rw [stage_define]

theorem make {d e : Draft} (h : d.Alike L st e) :
    W.Relates st (Value.Alike L) (Eval.make d) (Eval.make e) := by
  intro s t hst hstates hholds
  have hfinish := h.finish (hstates.ids) hst.2
  have hgrown : s.stage ≤ (s.make d).2.stage := ⟨Nat.le_refl _, hfinish.grown⟩
  have hvalue : (s.make d).1.Alike L (s.make d).2.stage (t.make e).1 :=
    hfinish.value.mono ⟨hst.1, Nat.le_refl _⟩
  exact .some ⟨hgrown, ⟨rfl, rfl⟩, hstates.withFresh hfinish.inStep hfinish.grown,
    W.holds_of_frames (s := s) rfl hholds, .ok hvalue⟩

theorem close {params : List String} {body : Expr} (hparams : ∀ x ∈ params, L.name x)
    (hbody : L.code body) (hf : L.frame.Upto st.frames f g) :
    W.Relates st (Value.Alike L) (Eval.close params body f) (Eval.close params body g) := by
  intro s t hst hstates hholds
  have hgrown : s.stage ≤ ({ s with fresh := s.fresh + 1 } : State).stage :=
    ⟨Nat.le_refl _, Nat.le_succ _⟩
  exact .some ⟨hgrown, ⟨rfl, rfl⟩, hstates.withFresh (hstates.ids.add 1) (Nat.le_succ _),
    W.holds_of_frames (s := s) rfl hholds,
    .ok (.closure hstates.ids.upto hparams hbody (hf.mono hst.1))⟩

theorem accept {r r' : Except Error Reply} (h : L.Agrees (Reply.Alike L st) r r') :
    W.Relates st (Value.Alike L) (Eval.accept r) (Eval.accept r') := by
  intro s t hst hstates hholds
  cases h with
  | error he => exact .some ⟨le_refl _, ⟨rfl, rfl⟩, hstates, hholds, .error he⟩
  | @ok a b hab =>
    obtain ⟨d, text⟩ := a
    obtain ⟨e, text'⟩ := b
    obtain ⟨hdraft, htext⟩ := hab
    cases htext
    have hmake := make (W := W) hdraft (s.print text) (t.print text) hst (hstates.print text)
      (W.holds_of_frames (s := s) rfl hholds)
    exact rel_imp hmake fun _ _ h => ⟨h.grown, h.hosts, h.states, h.watched, h.agrees⟩

theorem host {i j : Nat} (h : L.host i j) :
    W.Relates st (fun _ => L.Answers) (Eval.host i) (Eval.host j) := by
  intro s t hst hstates hholds
  have hhost := hstates.host h
  unfold Eval.host
  generalize s.hosts[i]? = o at hhost ⊢
  generalize t.hosts[j]? = o' at hhost ⊢
  cases hhost with
  | none => exact .some ⟨le_refl _, ⟨rfl, rfl⟩, hstates, hholds, .error (L.error_of_silent trivial)⟩
  | some hrun => exact .some ⟨le_refl _, ⟨rfl, rfl⟩, hstates, hholds, .ok hrun⟩

/-- Both runs enter a new frame, and the two new frames belong together. -/
theorem enter (hf : L.frame.Upto st.frames f g) {bs cs : List (String × Value)}
    (hnames : ∀ b ∈ bs, L.name b.1)
    (h : List.Forall₂ (fun b c => b.1 = c.1 ∧ b.2.Alike L st c.2) bs cs) :
    W.Relates st (fun st f g => L.frame.Upto st.frames f g ∧ L.frame.left ≤ f)
      (Eval.enter f bs) (Eval.enter g cs) := by
  intro s t hst hstates hholds
  have hframe : Frame.Alike L s.stage ⟨Std.TreeMap.ofList bs, some f⟩
      ⟨Std.TreeMap.ofList cs, some g⟩ :=
    ⟨.some (hf.mono hst.1), fun {x} _ => rel_ofList (h.imp fun _ _ h => ⟨h.1, h.2.mono hst⟩) x⟩
  have hnew : L.frame.Upto (s.addFrame ⟨Std.TreeMap.ofList bs, some f⟩).stage.frames
      s.frames.size t.frames.size := by
    simpa [State.stage, State.addFrame] using hstates.frames.upto
  have hgrown : s.stage ≤ (s.addFrame ⟨Std.TreeMap.ofList bs, some f⟩).stage := by
    constructor <;> simp [State.stage, State.addFrame]
  exact .some ⟨hgrown, ⟨rfl, rfl⟩, hstates.addFrame hframe, W.holds_addFrame f hnames hholds,
    .ok ⟨hnew, hstates.frames.started⟩⟩

end Steps

end Watch.Relates

/-- Calls that are alike, and whose code may be evaluated in its frame. -/
inductive Call.Alike (W : Watch L) (st : Stage) : Call → Call → Prop where
  | eval {e : Expr} {f g : FrameId} {depth : Nat} (hcode : L.code e)
      (hf : L.frame.Upto st.frames f g) (htask : W.task e f) :
      Alike W st (.eval e f depth) (.eval e g depth)
  | apply {p q : Value} {vs ws : List Value} {depth : Nat} (hp : p.Alike L st q)
      (hargs : Value.AllAlike L st vs ws) : Alike W st (.apply p vs depth) (.apply q ws depth)
  | higher {h : Higher} {vs ws : List Value} {depth : Nat} (hargs : Value.AllAlike L st vs ws) :
      Alike W st (.higher h vs depth) (.higher h ws depth)

/-- The two ways to run calls make alike calls go the same way. -/
def Watch.Runs (W : Watch L) (recur recur' : Call.Runner) : Prop :=
  ∀ st c c', c.Alike W st c' → W.Relates st (Value.Alike L) (recur c) (recur' c')

namespace Call

open Watch Relates

section Errors

theorem error_of_params {e : Expr} (hcode : L.code e) {err : Error}
    (h : Form.params e = .error err) : L.error err := by
  cases e with
  | list items =>
    obtain ⟨names, item, rest, rfl, -, hfault⟩ := Form.params_eq_error_iff.mp h
    have hitem : L.code item := L.code_item hcode (List.mem_append_right _ (.head _))
    cases hfault with
    | notSymbol =>
      have hfront : L.text "Lambda parameters must be symbols, got " :=
        L.text_of_line (by decide)
      exact L.error_of_type (L.text_append hfront (L.text_ofCode hitem))
    | repeated =>
      have hfront : L.text "Duplicate parameter name: " := L.text_of_line (by decide)
      exact L.error_of_eval (L.text_append hfront (L.text_of_code hitem))
  | _ =>
    cases h
    exact L.error_of_type (L.text_of_line (by decide))

theorem error_of_target {keyword : String} (hkeyword : '\n' ∉ keyword.toList) {e : Expr}
    (hcode : L.code e) {err : Error} (h : Form.target keyword e = .error err) : L.error err := by
  unfold Form.target at h
  split at h
  · cases h
  · cases h
    have hfront : L.text " requires a symbol, got " := L.text_of_line (by decide)
    exact L.error_of_type
      (L.text_append (L.text_append (L.text_of_line hkeyword) hfront) (L.text_ofCode hcode))

theorem error_of_ofList {items : List Expr} (hitems : ∀ e ∈ items, L.code e) {err : Error}
    (h : Form.ofList items = .error err) : L.error err := by
  cases items with
  | nil =>
    cases h
    exact L.error_of_eval (L.text_of_line (by decide))
  | cons head operands =>
    simp only [Form.ofList] at h
    split at h
    · cases h
    · split at h
      · cases h
      · cases h
      · exact error_of_target (by decide) (hitems _ (.tail _ (.head _))) (error_of_map h)
      · exact error_of_target (by decide) (hitems _ (.tail _ (.head _))) (error_of_map h)
      · exact error_of_params (hitems _ (.tail _ (.head _))) (error_of_map h)
      · cases h
        exact L.error_of_silent trivial

theorem agrees_listsOf {vs ws : List Value} (h : Value.AllAlike L st vs ws) :
    L.Agrees (List.Forall₂ (Value.AllAlike L st)) (listsOf vs) (listsOf ws) := by
  refine .mapM (h.imp fun v w hv => ?_)
  have hother (u : Value) : L.error (.type (.mapList u.typeName) none) :=
    L.error_of_type (L.text_append (L.text_of_line (by decide)) (u.text_typeName L))
  cases hv with
  | list hid hlength hitems =>
    exact .ok (Value.alike_list_iff.mp (.list hid hlength hitems)).2
  | closure => exact .error (hother (.closure _))
  | builtin => exact .error (hother (.builtin _))
  | _ => exact .error (hother _)

end Errors

/-- The parameters of a `lambda` form are names in its code. -/
theorem names_of_params {e : Expr} {names : List String} (hcode : L.code e)
    (h : Form.params e = .ok names) : ∀ x ∈ names, L.name x := by
  obtain ⟨rfl, -⟩ := Form.params_eq_ok_iff.mp h
  exact fun x hx => L.name_of_code (L.code_item hcode (List.mem_map_of_mem hx))

variable {recur recur' : Runner} {f g : FrameId} {depth : Nat}

/-- Evaluating a form goes the same way in both runs. -/
theorem form_relates (hrecur : W.Runs recur recur') (hf : L.frame.Upto st.frames f g)
    {items : List Expr} {x : Form} (hx : x.Shape items) (hcode : L.code (.list items))
    (htask : W.task (.list items) f) :
    W.Relates st (Value.Alike L) (form recur f depth x) (form recur' g depth x) := by
  have hpart {e : Expr} (he : e ∈ x.parts) {st' : Stage} (hst : st ≤ st') :
      W.Relates st' (Value.Alike L) (recur (.eval e f (depth + 1)))
        (recur' (.eval e g (depth + 1))) :=
    hrecur _ _ _ (.eval (L.code_item hcode (hx.mem_of_mem_parts he)) (hf.mono hst.1)
      (W.task_part htask hx he))
  cases hx with
  | quote datum => exact make (Draft.alike_ofExpr (L.code_item hcode (.tail _ (.head _))))
  | cond test yes no =>
    refine (hpart (.head _) (le_refl _)).bind fun st' v w hst hv => ?_
    rw [hv.isTruthy_eq]
    by_cases hw : w.isTruthy = true
    · simp only [hw]
      exact hpart (.tail _ (.head _)) hst
    · simp only [hw]
      exact hpart (.tail _ (.tail _ (.head _))) hst
  | define name value =>
    refine (hpart (.head _) (le_refl _)).bind fun st' v w hst hv => ?_
    exact (define (hf.mono hst.1) htask hv).bind fun _ _ _ _ _ => ret fun _ _ => .unspecified
  | assign name value =>
    refine (hpart (.head _) (le_refl _)).bind fun st' v w hst hv => ?_
    exact (assign (hf.mono hst.1) hcode hv).bind fun _ _ _ _ _ => ret fun _ _ => .unspecified
  | lambda h =>
    have hparams := names_of_params (L.code_item hcode (.tail _ (.head _))) h
    exact close hparams (L.code_item hcode (.tail _ (.tail _ (.head _)))) hf
  | call operands h =>
    refine (hpart (.head _) (le_refl _)).bind fun st₁ p q hst₁ hp => ?_
    refine Relates.bind (V := fun st => Value.AllAlike L st) ?_ fun st₂ vs ws hst₂ hargs =>
      hrecur _ _ _ (.apply (hp.mono hst₂) hargs)
    exact mapM (fun h hst => h.mono hst) fun e he => hpart (.tail _ he) hst₁

theorem expr_relates (hrecur : W.Runs recur recur') (hf : L.frame.Upto st.frames f g) {e : Expr}
    (hcode : L.code e) (htask : W.task e f) :
    W.Relates st (Value.Alike L) (expr recur f depth e) (expr recur' g depth e) := by
  cases e with
  | int n => exact ret fun _ _ => .int n
  | float x => exact ret fun _ _ => .float x
  | symbol name => exact lookup hf (L.name_of_code hcode)
  | list items =>
    refine inForm ?_ hcode
    cases hx : Form.ofList items with
    | error err => exact fail (error_of_ofList (fun e he => L.code_item hcode he) hx)
    | ok x => exact form_relates hrecur hf (Form.shape_of_ofList hx) hcode htask

theorem forall₂_zip (params : List String) {vs ws : List Value} (h : Value.AllAlike L st vs ws) :
    List.Forall₂ (fun b c => b.1 = c.1 ∧ b.2.Alike L st c.2) (params.zip vs) (params.zip ws) := by
  induction params generalizing vs ws with
  | nil => exact .nil
  | cons name params ih => cases h with
    | nil => exact .nil
    | cons hv hvs => exact .cons ⟨rfl, hv⟩ (ih hvs)

theorem applyTo_relates (hrecur : W.Runs recur recur') {p q : Value} (hp : p.Alike L st q)
    {vs ws : List Value} (hargs : Value.AllAlike L st vs ws) :
    W.Relates st (Value.Alike L) (applyTo recur vs depth p) (applyTo recur' ws depth q) := by
  have hplain : W.Relates st (Value.Alike L) (Eval.fail (.type (.notProcedure p.shown) none))
      (Eval.fail (.type (.notProcedure q.shown) none)) := by
    rw [← hp.shown_eq]
    have hfront : L.text "Cannot apply non-procedure: " := L.text_of_line (by decide)
    exact fail (L.error_of_type (L.text_append hfront hp.text))
  have hsilent {e : Error} (he : e.Silent) :
      W.Relates st (Value.Alike L) (Eval.fail e) (Eval.fail e) := fail (L.error_of_silent he)
  cases hp with
  | @builtin id arity o o' hid ho =>
    simp only [applyTo, hargs.length_eq]
    split
    · cases ho with
      | primitive p => exact accept (p.answers L _ _ _ hargs)
      | host hi =>
        exact (host hi).bind fun st' run run' hst hrun => accept (hrun _ _ _ (hargs.mono hst))
      | higher h => exact hrecur _ _ _ (.higher hargs)
    · exact hsilent trivial
  | @closure i j params body f g hid hparams hbody hframe =>
    simp only [applyTo, hargs.length_eq]
    split
    · have hnames (b : String × Value) (hb : b ∈ params.zip vs) : L.name b.1 :=
        hparams b.1 (List.of_mem_zip hb).1
      refine (enter hframe hnames (forall₂_zip params hargs)).bind fun st' f g hst hfg => ?_
      exact hrecur _ _ _ (.eval hbody hfg.1 (W.task_code hbody hfg.2))
    · exact hsilent trivial
  | _ => exact hplain

theorem shortest_eq {lists lists' : List (List Value)}
    (h : List.Forall₂ (Value.AllAlike L st) lists lists') : shortest lists = shortest lists' := by
  have hlengths : lists.map List.length = lists'.map List.length := by
    induction h with
    | nil => rfl
    | cons hhead _ ih => rw [List.map_cons, List.map_cons, hhead.length_eq, ih]
  rw [shortest, shortest, hlengths]

theorem getElem?_rel {vs ws : List Value} (h : Value.AllAlike L st vs ws) (i : Nat) :
    Option.Rel (Value.Alike L st) vs[i]? ws[i]? := by
  induction h generalizing i with
  | nil => exact .none
  | cons hv _ ih => cases i with
    | zero => exact .some hv
    | succ i => exact ih i

theorem agrees_row {lists lists' : List (List Value)}
    (h : List.Forall₂ (Value.AllAlike L st) lists lists') (i : Nat) :
    L.Agrees (Value.AllAlike L st) (row (lists.map List.toArray) i)
      (row (lists'.map List.toArray) i) := by
  have hitems : Option.Rel (Value.AllAlike L st)
      ((lists.map List.toArray).mapM fun items : Array Value => items[i]?)
      ((lists'.map List.toArray).mapM fun items : Array Value => items[i]?) := by
    induction h with
    | nil => exact .some .nil
    | @cons vs ws lists lists' hhead _ ih =>
      rw [List.map_cons, List.map_cons, List.mapM_cons, List.mapM_cons]
      have hfirst := getElem?_rel hhead i
      rw [List.getElem?_toArray, List.getElem?_toArray]
      exact rel_bind hfirst fun v w hv => rel_bind ih fun us us' hrest => .some (.cons hv hrest)
  unfold row
  generalize ((lists.map List.toArray).mapM fun items : Array Value => items[i]?) = o at hitems ⊢
  generalize ((lists'.map List.toArray).mapM fun items : Array Value => items[i]?) = o' at hitems ⊢
  cases hitems with
  | none => exact .error (L.error_of_silent trivial)
  | some h => exact .ok h

theorem mapOver_relates (hrecur : W.Runs recur recur') {p q : Value} (hp : p.Alike L st q)
    {lists lists' : List (List Value)} (h : List.Forall₂ (Value.AllAlike L st) lists lists') :
    W.Relates st (Value.AllAlike L) (mapOver recur depth p lists)
      (mapOver recur' depth q lists') := by
  unfold mapOver
  rw [shortest_eq h]
  refine mapM (fun h hst => h.mono hst) fun i _ => ?_
  have hrow := agrees_row h i
  generalize row (lists.map List.toArray) i = r at hrow ⊢
  generalize row (lists'.map List.toArray) i = r' at hrow ⊢
  cases hrow with
  | error he => exact fail he
  | ok hargs => exact hrecur _ _ _ (.apply hp hargs)

theorem map_relates (hrecur : W.Runs recur recur') {p q : Value} (hp : p.Alike L st q)
    {vs ws : List Value} (hargs : Value.AllAlike L st vs ws) :
    W.Relates st (Value.Alike L) (higherBody recur depth .map (p :: vs))
      (higherBody recur' depth .map (q :: ws)) := by
  simp only [higherBody, hp.isProcedure_eq]
  split
  · have hlists := agrees_listsOf hargs
    generalize listsOf vs = r at hlists ⊢
    generalize listsOf ws = r' at hlists ⊢
    cases hlists with
    | error he => exact fail he
    | ok h =>
      refine (mapOver_relates hrecur hp h).bind fun st' vs ws _ hresults => ?_
      exact make (.ofList hresults)
  · rw [hp.typeName_eq]
    have hfront : L.text "map requires a procedure, got " := L.text_of_line (by decide)
    exact fail (L.error_of_type (L.text_append hfront (q.text_typeName L)))

theorem higherBody_relates (hrecur : W.Runs recur recur') (h : Higher) {vs ws : List Value}
    (hargs : Value.AllAlike L st vs ws) :
    W.Relates st (Value.Alike L) (higherBody recur depth h vs) (higherBody recur' depth h ws) := by
  have hsilent {e : Error} (he : e.Silent) :
      W.Relates st (Value.Alike L) (Eval.fail e) (Eval.fail e) := fail (L.error_of_silent he)
  cases h with
  | map =>
    cases hargs with
    | nil => exact hsilent trivial
    | cons hp hargs => exact map_relates hrecur hp hargs
  | apply =>
    cases hargs with
    | nil => exact hsilent trivial
    | cons hp hargs =>
      cases hargs with
      | nil => exact hsilent trivial
      | @cons v w vs ws hv hargs =>
        cases hargs with
        | nil =>
          have hother : L.error (.type (.applyArguments v.typeName) none) :=
            L.error_of_type (L.text_append (L.text_of_line (by decide)) (v.text_typeName L))
          cases hv with
          | list hid hlength hitems =>
            have hlist := Value.alike_list_iff.mp (.list hid hlength hitems)
            exact hrecur _ _ _ (.apply hp hlist.2)
          | _ => exact fail hother
        | cons hv' hargs =>
          have hlength := hargs.length_eq
          cases hv <;> simp only [higherBody, List.length_cons, hlength] <;> exact hsilent trivial

/-- What alike calls do goes the same way if the calls inside them do. -/
theorem body_relates (hrecur : W.Runs recur recur') : W.Runs (body recur) (body recur') := by
  intro st c c' h
  cases h with
  | @eval e f g depth hcode hf htask =>
    simp only [body]
    split
    · exact fail (L.error_of_eval (L.text_of_line (by decide)))
    · exact expr_relates hrecur hf hcode htask
  | apply hp hargs => exact applyTo_relates hrecur hp hargs
  | higher hargs => exact higherBody_relates hrecur _ hargs

/-- Alike calls go the same way in alike states, with the same fuel. -/
theorem run_relates (W : Watch L) (n : Nat) : W.Runs (run n) (run n) := by
  induction n with
  | zero => exact fun _ _ _ _ _ _ _ _ _ => .none
  | succ n ih => exact body_relates ih

/-- Alike calls end alike in alike states. -/
theorem outcome_relates (W : Watch L) {s t : State} (hstates : L.States s t) (hholds : W.holds s)
    {c c' : Call} (h : c.Alike W s.stage c') :
    W.Ends s t (Value.Alike L) (c.outcome s) (c'.outcome t) := by
  obtain ⟨n, hn⟩ := outcome_eq_iff.mp (rfl : c.outcome s = c.outcome s)
  have hrel := run_relates W n _ _ _ h s t (le_refl _) hstates hholds
  rw [hn] at hrel
  cases hrun : run n c' t with
  | none =>
    rw [hrun] at hrel
    cases hrel
  | some r =>
    rw [hrun] at hrel
    rw [outcome_eq_iff.mpr ⟨n, hrun⟩]
    cases hrel with
    | some hends => exact hends

end Call

end MiniLisp
