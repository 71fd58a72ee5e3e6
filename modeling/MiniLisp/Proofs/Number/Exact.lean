import MiniLisp.Proofs.Eval.Primitive
import MiniLisp.Proofs.Expr.Occurrence
import MiniLisp.Proofs.Number.Word

/-!
# Integer programs

Expressions of integer literals, `+`, `-`, `*`, `abs`, `min`, `max` and `if` with a comparison have
a value over the unbounded integers. Evaluating one either ends in that value, and then the value of
every subexpression that was evaluated fits a word, or in an overflow, and then some such value does
not fit (`IntExpr.ends_settles`).
-/

namespace MiniLisp

open Call

inductive IntOp where
  | add | sub | mul

namespace IntOp

def primitive : IntOp → Primitive
  | add => .add
  | sub => .sub
  | mul => .mul

def exact : IntOp → Int → Int → Int
  | add, m, n => m + n
  | sub, m, n => m - n
  | mul, m, n => m * n

/-- What an overflow says that it happened in. -/
def operation : IntOp → String
  | add => "addition"
  | sub => "subtraction"
  | mul => "multiplication"

end IntOp

/-- Comparisons of two integers. -/
inductive IntTest where
  | order (c : Comparison)
  | equal

namespace IntTest

def primitive : IntTest → Primitive
  | order c => .compare c
  | equal => .numericEqual

def holds : IntTest → Int → Int → Bool
  | order .above, m, n => n < m
  | order .below, m, n => m < n
  | order .notBelow, m, n => n ≤ m
  | order .notAbove, m, n => m ≤ n
  | equal, m, n => m = n

end IntTest

/-- The smaller or the larger of two integers. -/
def Extremum.pick : Extremum → Int → Int → Int
  | least => min
  | greatest => max

inductive IntExpr where
  | literal (n : Int64)
  | combine (op : IntOp) (a b : IntExpr)
  | abs (a : IntExpr)
  | extremum (e : Extremum) (a b : IntExpr) (rest : List IntExpr)
  | choose (test : IntTest) (a b yes no : IntExpr)

namespace IntExpr

mutual

/-- The expression as it is written. -/
def expr : IntExpr → Expr
  | literal n => .int n
  | combine op a b => .list [.symbol op.primitive.name, expr a, expr b]
  | abs a => .list [.symbol Primitive.abs.name, expr a]
  | extremum e a b rest =>
    .list (.symbol (Primitive.extremum e).name :: expr a :: expr b :: exprs rest)
  | choose test a b yes no =>
    .list [.symbol "if", .list [.symbol test.primitive.name, expr a, expr b], expr yes, expr no]

def exprs : List IntExpr → List Expr
  | [] => []
  | e :: rest => expr e :: exprs rest

end

mutual

/-- The value over the unbounded integers. -/
def value : IntExpr → Int
  | literal n => n.toInt
  | combine op a b => op.exact (value a) (value b)
  | abs a => (value a).natAbs
  | extremum e a b rest => (values rest).foldl e.pick (e.pick (value a) (value b))
  | choose test a b yes no => if test.holds (value a) (value b) then value yes else value no

def values : List IntExpr → List Int
  | [] => []
  | e :: rest => value e :: values rest

end

@[simp] theorem exprs_eq_map (es : List IntExpr) : exprs es = es.map expr := by
  induction es with
  | nil => rfl
  | cons e rest ih => simp [exprs, ih]

@[simp] theorem values_eq_map (es : List IntExpr) : values es = es.map value := by
  induction es with
  | nil => rfl
  | cons e rest ih => simp [values, ih]

/-- The branch of a choice that is evaluated. -/
def branch (test : IntTest) (a b yes no : IntExpr) : IntExpr :=
  if test.holds a.value b.value then yes else no

/-- The parts that are evaluated. -/
def operands : IntExpr → List IntExpr
  | literal _ => []
  | combine _ a b => [a, b]
  | abs a => [a]
  | extremum _ a b rest => a :: b :: rest
  | choose test a b yes no => [a, b, branch test a b yes no]

theorem value_choose (test : IntTest) (a b yes no : IntExpr) :
    (choose test a b yes no).value = (branch test a b yes no).value := by
  rw [value, branch]
  split <;> rfl

/-- The branch is taken by the truth of the comparison. -/
theorem expr_branch (test : IntTest) (a b yes no : IntExpr) :
    (branch test a b yes no).expr =
      if Value.isTruthy (.bool (test.holds a.value b.value)) then yes.expr else no.expr := by
  unfold branch
  cases test.holds a.value b.value <;> rfl

/-- Evaluating the first expression evaluates the second one. -/
inductive Evaluates : IntExpr → IntExpr → Prop where
  | self (e : IntExpr) : Evaluates e e
  | operand {e x y : IntExpr} (hx : x ∈ e.operands) (hy : Evaluates x y) : Evaluates e y

/-- All values that come up fit a word. -/
def Fits (e : IntExpr) : Prop := ∀ x, e.Evaluates x → FitsWord x.value

theorem fits_of_operands {e : IntExpr} (h : ∀ x ∈ e.operands, x.Fits) (he : FitsWord e.value) :
    e.Fits := by
  intro x hx
  cases hx with
  | self => exact he
  | operand hy hx => exact h _ hy _ hx

/-- What holds of an expression if it holds of its parts holds of all expressions. -/
@[elab_as_elim]
theorem parts_induction {motive : IntExpr → Prop} (literal : ∀ n, motive (literal n))
    (combine : ∀ op a b, motive a → motive b → motive (combine op a b))
    (abs : ∀ a, motive a → motive (abs a))
    (extremum : ∀ e a b rest, (∀ x ∈ a :: b :: rest, motive x) → motive (extremum e a b rest))
    (choose : ∀ test a b yes no, motive a → motive b → motive yes → motive no →
      motive (choose test a b yes no)) (e : IntExpr) : motive e := by
  refine @IntExpr.rec motive (fun es => ∀ x ∈ es, motive x) literal combine abs ?_ choose ?_ ?_ e
  · intro e a b rest ha hb hrest
    exact extremum e a b rest (List.forall_mem_cons.mpr ⟨ha, List.forall_mem_cons.mpr ⟨hb, hrest⟩⟩)
  · exact fun _ hx => by cases hx
  · exact fun _ _ hhead hrest => List.forall_mem_cons.mpr ⟨hhead, hrest⟩

/-- The ways in which the evaluation of an integer expression may end. -/
inductive Settles (e : IntExpr) : Except Error Value → Prop where
  | exact {w : Int64} (hw : w.toInt = e.value) (h : e.Fits) : Settles e (.ok (.int w))
  | overflow {operation : String} {x : IntExpr} (hx : e.Evaluates x) (h : ¬ FitsWord x.value) :
      Settles e (.error (.arithmetic (.overflow operation)))

section Primitives

/-- A primitive whose arguments all convert hands them to its function. -/
theorem run_fixed {α : Type} [Answer α] {ps : List Param} {f : Function ps α}
    {args others : List Value} {a : α} (hlength : args.length = ps.length)
    (h : Function.feed ps f args = .ok (a, others)) :
    (Entry.fixed ps f).run args = Answer.reply a := by
  simp only [Entry.fixed, hlength, if_true, h]

/-- What a primitive answers to words where `n` is the exact result: the word that holds it, or an
overflow where there is none. -/
def Answers (p : Primitive) (ws : List Int64) (n : Int) : Prop :=
  (∃ w : Int64, w.toInt = n ∧ p.entry.run (ws.map .int) = .ok ⟨.value (.int w), ""⟩) ∨
    ¬ FitsWord n ∧
      ∃ operation, p.entry.run (ws.map .int) = .error (.arithmetic (.overflow operation))

theorem answers_of_wordOr {p : Primitive} {ws : List Int64} {n : Int} (operation : String)
    (h : p.entry.run (ws.map .int) = Answer.reply ((wordOr operation n).map Number.int)) :
    Answers p ws n := by
  rcases wordOr_cases operation n with ⟨w, hw, hword⟩ | ⟨hbig, hword⟩
  · exact .inl ⟨w, hw, by rw [h, hword]; rfl⟩
  · exact .inr ⟨hbig, operation, by rw [h, hword]; rfl⟩

theorem answers_combine (op : IntOp) (m n : Int64) :
    Answers op.primitive [m, n] (op.exact m.toInt n.toInt) := by
  refine answers_of_wordOr op.operation ?_
  cases op <;> exact run_fixed rfl rfl

theorem answers_abs (n : Int64) : Answers .abs [n] n.toInt.natAbs := by
  refine answers_of_wordOr "abs" ?_
  rw [← Number.abs_int]
  exact run_fixed rfl rfl

/-- Scanning words keeps the smallest or the largest so far. -/
theorem bestFrom_ints (e : Extremum) (best : Int64) (ws : List Int64) :
    ∃ w : Int64, w.toInt = (ws.map Int64.toInt).foldl e.pick best.toInt ∧
      Builtin.bestFrom e (.int best, .int best) (ws.map .int) = .ok (.int w) := by
  induction ws generalizing best with
  | nil => exact ⟨best, rfl, rfl⟩
  | cons n ws ih =>
    have hstep : Builtin.bestFrom e (.int best, .int best) (.int n :: ws.map .int) =
        if some (compare n.toInt best.toInt) = some e.better then
          Builtin.bestFrom e (.int n, .int n) (ws.map .int)
        else Builtin.bestFrom e (.int best, .int best) (ws.map .int) := rfl
    simp only [List.map_cons, List.foldl_cons, hstep]
    have hpick : e.pick best.toInt n.toInt =
        if some (compare n.toInt best.toInt) = some e.better then n.toInt else best.toInt := by
      cases e with
      | least =>
        simp only [Extremum.pick, Extremum.better, Option.some.injEq, Int.compare_eq_lt]
        omega
      | greatest =>
        simp only [Extremum.pick, Extremum.better, Option.some.injEq, Int.compare_eq_gt]
        omega
    rw [hpick]
    split
    · exact ih n
    · exact ih best

theorem answers_extremum (e : Extremum) (m n : Int64) (ws : List Int64) :
    Answers (.extremum e) (m :: n :: ws)
      ((ws.map Int64.toInt).foldl e.pick (e.pick m.toInt n.toInt)) := by
  obtain ⟨w, hw, hbest⟩ := bestFrom_ints e m (n :: ws)
  refine .inl ⟨w, hw, ?_⟩
  have hrun : Builtin.extremum e ((m :: n :: ws).map .int) = .ok (.int w) := hbest
  have hentry : (Primitive.extremum e).entry.run ((m :: n :: ws).map .int) =
      Answer.reply (Builtin.extremum e ((m :: n :: ws).map .int)) := rfl
  rw [hentry, hrun]
  rfl

theorem run_test (test : IntTest) (m n : Int64) :
    test.primitive.entry.run [.int m, .int n] =
      .ok ⟨.value (.bool (test.holds m.toInt n.toInt)), ""⟩ := by
  cases test with
  | order c =>
    have hstands : Number.stands c.orders (.int m) (.int n) =
        (IntTest.order c).holds m.toInt n.toInt := by
      have hstands : Number.stands c.orders (.int m) (.int n) =
        c.orders.contains (compare m.toInt n.toInt) := rfl
      rw [hstands]
      rcases h : compare m.toInt n.toInt
      · rw [Int.compare_eq_lt] at h
        cases c <;> simp [Comparison.orders, IntTest.holds] <;> omega
      · rw [Int.compare_eq_eq] at h
        cases c <;> simp [Comparison.orders, IntTest.holds] <;> omega
      · rw [Int.compare_eq_gt] at h
        cases c <;> simp [Comparison.orders, IntTest.holds] <;> omega
    rw [← hstands]
    exact run_fixed rfl rfl
  | equal =>
    have hequal : Value.equal (.int m) (.int n) = IntTest.equal.holds m.toInt n.toInt := by
      simp only [Value.equal, IntTest.holds, Int64.toInt_inj, beq_eq_decide]
    rw [← hequal]
    exact run_fixed rfl rfl

end Primitives

section Evaluation

variable {s : State} {f : FrameId} {depth : Nat}

/-- The evaluation ends as it should, and leaves the state as it was. -/
def Ends (s : State) (f : FrameId) (depth : Nat) (e : IntExpr) : Prop :=
  ∃ r, e.Settles r ∧ ends (.eval e.expr f depth) s = some (r, s)

/-- Evaluating expressions one after the other ends in the words that hold their values, or in the
first overflow. -/
theorem args_ends {es : List IntExpr} (h : ∀ e ∈ es, Ends s f depth e) :
    (∃ ws : List Int64, ws.map Int64.toInt = es.map value ∧ (∀ e ∈ es, e.Fits) ∧
      args ends f depth (es.map expr) s = some (.ok (ws.map .int), s)) ∨
    ∃ operation, ∃ e ∈ es, ∃ x, e.Evaluates x ∧ ¬ FitsWord x.value ∧
      args ends f depth (es.map expr) s =
        some (.error (.arithmetic (.overflow operation)), s) := by
  induction es with
  | nil => exact .inl ⟨[], rfl, nofun, rfl⟩
  | cons e es ih =>
    have hargs : args ends f depth ((e :: es).map expr) = do
        let v ← ends (.eval e.expr f depth)
        let vs ← args ends f depth (es.map expr)
        return v :: vs := by
      rw [args, List.map_cons, List.mapM_cons]
      rfl
    rw [hargs]
    obtain ⟨r, hr, hends⟩ := h e (.head _)
    cases hr with
    | overflow hx hbig => exact .inr ⟨_, e, .head _, _, hx, hbig, Eval.bind_error hends⟩
    | @exact w hw hfits =>
      rw [Eval.bind_ok hends]
      rcases ih fun e he => h e (.tail _ he) with ⟨ws, hws, hall, hrest⟩ |
        ⟨operation, e', he', x, hx, hbig, hrest⟩
      · refine .inl ⟨w :: ws, ?_, List.forall_mem_cons.mpr ⟨hfits, hall⟩, Eval.bind_ok hrest⟩
        rw [List.map_cons, List.map_cons, hw, hws]
      · exact .inr ⟨operation, e', .tail _ he', x, hx, hbig, Eval.bind_error hrest⟩

/-- A call of a primitive hands it the words that hold the values of the operands, or ends in the
first overflow among them. -/
theorem primitive_ends (hs : s.KnowsPrimitives f) (hd : depth + 1 < evalLimit) {p : Primitive}
    {es : List IntExpr} (harity : p.entry.arity.accepts es.length)
    (h : ∀ e ∈ es, Ends s f (depth + 1) e) :
    (∃ ws : List Int64, ws.map Int64.toInt = es.map value ∧ (∀ e ∈ es, e.Fits) ∧
      ends (.eval (.list (.symbol p.name :: es.map expr)) f depth) s =
        Eval.inForm (.list (.symbol p.name :: es.map expr))
          (.accept (p.entry.run (ws.map .int))) s) ∨
    ∃ operation, ∃ e ∈ es, ∃ x, e.Evaluates x ∧ ¬ FitsWord x.value ∧
      ends (.eval (.list (.symbol p.name :: es.map expr)) f depth) s =
        some (.error (.arithmetic (.overflow operation)), s) := by
  rw [ends_primitive hs hd]
  rcases args_ends h with ⟨ws, hws, hfits, hargs⟩ | ⟨operation, e, he, x, hx, hbig, hargs⟩
  · refine .inl ⟨ws, hws, hfits, Eval.inForm_congr ?_⟩
    have hlength := congrArg List.length hws
    simp only [List.length_map] at hlength
    rw [Eval.bind_ok hargs, ends_builtin p (by rwa [List.length_map, hlength])]
    rfl
  · refine .inr ⟨operation, e, he, x, hx, hbig, ?_⟩
    exact Eval.inForm_error (e := .arithmetic (.overflow operation)) (Eval.bind_error hargs)

theorem lt_of_nesting_list {items : List Expr} (h : depth + (Expr.list items).nesting < evalLimit) :
    depth < evalLimit :=
  Nat.lt_of_le_of_lt (Nat.le_add_right depth _) h

theorem nesting_of_mem {items : List Expr} (h : depth + (Expr.list items).nesting < evalLimit)
    {e : Expr} (he : e ∈ items) : depth + 1 + e.nesting < evalLimit := by
  have := Expr.nesting_lt_of_mem he
  omega

/-- A call of a primitive ends as it should if the operands do and the primitive answers to their
values as it should. -/
theorem ends_call (hs : s.KnowsPrimitives f) {e : IntExpr} {p : Primitive}
    (hexpr : e.expr = .list (.symbol p.name :: e.operands.map expr))
    (hd : depth + e.expr.nesting < evalLimit)
    (harity : p.entry.arity.accepts e.operands.length)
    (hanswers : ∀ ws : List Int64, ws.map Int64.toInt = e.operands.map value →
      Answers p ws e.value)
    (h : ∀ x ∈ e.operands, depth + 1 + x.expr.nesting < evalLimit → Ends s f (depth + 1) x) :
    Ends s f depth e := by
  rw [hexpr] at hd
  have hdepth : depth + 1 < evalLimit :=
    Nat.lt_of_le_of_lt (Nat.le_add_right _ _) (nesting_of_mem hd (.head _))
  have hoperands (x : IntExpr) (hx : x ∈ e.operands) : Ends s f (depth + 1) x :=
    h x hx (nesting_of_mem hd (.tail _ (List.mem_map_of_mem hx)))
  unfold Ends
  rw [hexpr]
  rcases primitive_ends hs hdepth harity hoperands with ⟨ws, hws, hfits, hends⟩ |
    ⟨operation, y, hy, x, hx, hbig, hends⟩
  · rw [hends]
    rcases hanswers ws hws with ⟨w, hw, hrun⟩ | ⟨hbig, operation, hrun⟩
    · refine ⟨_, .exact hw (fits_of_operands hfits (hw ▸ fitsWord_toInt w)), Eval.inForm_ok ?_⟩
      rw [hrun, Eval.accept, State.accept_value]
    · have hsettles : e.Settles (.error (.arithmetic (.overflow operation))) :=
        .overflow (.self e) hbig
      refine ⟨_, hsettles, Eval.inForm_error (e := .arithmetic (.overflow operation)) ?_⟩
      rw [hrun, Eval.accept, State.accept_error]
  · exact ⟨_, .overflow (.operand hy hx) hbig, hends⟩

/-- A comparison ends in its truth, or in the first overflow in what is compared. -/
theorem test_ends (hs : s.KnowsPrimitives f) (hd : depth + 1 < evalLimit) (test : IntTest)
    {a b : IntExpr} (h : ∀ x ∈ [a, b], Ends s f (depth + 1) x) :
    ((∀ x ∈ [a, b], x.Fits) ∧
      ends (.eval (.list (.symbol test.primitive.name :: [a, b].map expr)) f depth) s =
        some (.ok (.bool (test.holds a.value b.value)), s)) ∨
    ∃ operation, ∃ e ∈ [a, b], ∃ x, e.Evaluates x ∧ ¬ FitsWord x.value ∧
      ends (.eval (.list (.symbol test.primitive.name :: [a, b].map expr)) f depth) s =
        some (.error (.arithmetic (.overflow operation)), s) := by
  have harity : test.primitive.entry.arity.accepts [a, b].length := by cases test <;> rfl
  rcases primitive_ends hs hd harity h with ⟨ws, hws, hfits, hends⟩ | hoverflow
  · obtain ⟨m, ws', rfl, hm, hws'⟩ := List.map_eq_cons_iff.mp hws
    obtain ⟨n, ws'', rfl, hn, hws''⟩ := List.map_eq_cons_iff.mp hws'
    obtain rfl := List.map_eq_nil_iff.mp hws''
    refine .inl ⟨hfits, ?_⟩
    rw [hends, ← hm, ← hn]
    refine Eval.inForm_ok ?_
    rw [List.map_cons, List.map_cons, List.map_nil, run_test, Eval.accept, State.accept_value]
  · exact .inr hoverflow

/-- A choice ends as it should if the compared expressions and both branches do. -/
theorem ends_choose (hs : s.KnowsPrimitives f) {test : IntTest} {a b yes no : IntExpr}
    (hd : depth + (choose test a b yes no).expr.nesting < evalLimit)
    (hcompared : ∀ x ∈ [a, b], depth + 1 + 1 + x.expr.nesting < evalLimit →
      Ends s f (depth + 1 + 1) x)
    (hbranches : ∀ x ∈ [yes, no], depth + 1 + x.expr.nesting < evalLimit →
      Ends s f (depth + 1) x) : Ends s f depth (choose test a b yes no) := by
  have hexpr : (choose test a b yes no).expr = .list [.symbol "if",
      .list (.symbol test.primitive.name :: [a, b].map expr), yes.expr, no.expr] := rfl
  have htest := nesting_of_mem hd (.tail _ (.head _))
  have htwo : depth + 1 + 1 < evalLimit :=
    Nat.lt_of_le_of_lt (Nat.le_add_right _ _) (nesting_of_mem htest (.head _))
  have hab (x : IntExpr) (hx : x ∈ [a, b]) : Ends s f (depth + 1 + 1) x :=
    hcompared x hx (nesting_of_mem htest (.tail _ (List.mem_map_of_mem hx)))
  have hbranch : Ends s f (depth + 1) (branch test a b yes no) := by
    unfold branch
    split
    · exact hbranches yes (.head _) (nesting_of_mem hd (.tail _ (.tail _ (.head _))))
    · exact hbranches no (.tail _ (.head _))
        (nesting_of_mem hd (.tail _ (.tail _ (.tail _ (.head _)))))
  unfold Ends
  rw [hexpr, ends_list (lt_of_nesting_list hd) rfl]
  rcases test_ends hs htwo test hab with ⟨hfits, hcond⟩ | ⟨operation, y, hy, x, hx, hbig, hends⟩
  · obtain ⟨r, hr, hend⟩ := hbranch
    rw [expr_branch] at hend
    have hform : form ends f depth (.cond (.list (.symbol test.primitive.name :: [a, b].map expr))
        yes.expr no.expr) s = some (r, s) := by
      rw [form, Eval.bind_ok hcond]
      exact hend
    cases hr with
    | @exact w hw hfit =>
      have hall : ∀ x ∈ [a, b] ++ [branch test a b yes no], x.Fits :=
        List.forall_mem_append.mpr ⟨hfits, List.forall_mem_singleton.mpr hfit⟩
      have hvalue : w.toInt = (choose test a b yes no).value := hw.trans (value_choose ..).symm
      exact ⟨_, .exact hvalue (fits_of_operands hall (hvalue ▸ fitsWord_toInt w)),
        Eval.inForm_ok hform⟩
    | @overflow operation x hx hbig =>
      exact ⟨_, .overflow (.operand (.tail _ (.tail _ (.head _))) hx) hbig,
        Eval.inForm_error (e := .arithmetic (.overflow operation)) hform⟩
  · have hmem : y ∈ (choose test a b yes no).operands := List.mem_append_left [_] hy
    exact ⟨_, .overflow (.operand hmem hx) hbig,
      Eval.inForm_error (e := .arithmetic (.overflow operation)) (Eval.bind_error hends)⟩

/-- Where the primitives have their names, every integer expression that is not nested too deep
ends as it should. -/
theorem ends_settles (hs : s.KnowsPrimitives f) (e : IntExpr) (depth : Nat)
    (hd : depth + e.expr.nesting < evalLimit) : Ends s f depth e := by
  induction e using parts_induction generalizing depth with
  | literal n =>
    have hend := ends_int (s := s) (f := f) (Nat.lt_of_le_of_lt (Nat.le_add_right depth _) hd) n
    refine ⟨_, .exact rfl ?_, hend⟩
    exact fits_of_operands nofun (fitsWord_toInt n)
  | combine op a b ha hb =>
    refine ends_call hs rfl hd (by cases op <;> rfl) ?_ ?_
    · intro ws hws
      obtain ⟨m, ws', rfl, hm, hws'⟩ := List.map_eq_cons_iff.mp hws
      obtain ⟨n, ws'', rfl, hn, hws''⟩ := List.map_eq_cons_iff.mp hws'
      obtain rfl := List.map_eq_nil_iff.mp hws''
      have := answers_combine op m n
      rwa [hm, hn] at this
    · exact List.forall_mem_cons.mpr ⟨ha _, List.forall_mem_singleton.mpr (hb _)⟩
  | abs a ha =>
    refine ends_call hs rfl hd rfl ?_ ?_
    · intro ws hws
      obtain ⟨n, ws', rfl, hn, hws'⟩ := List.map_eq_cons_iff.mp hws
      obtain rfl := List.map_eq_nil_iff.mp hws'
      have := answers_abs n
      rwa [hn] at this
    · exact List.forall_mem_singleton.mpr (ha (depth + 1))
  | extremum e a b rest h =>
    refine ends_call (p := .extremum e) hs ?_ hd ?_ ?_ fun x hx => h x hx (depth + 1)
    · simp [expr, operands]
    · simp [Primitive.entry, Entry.variadic, Arity.accepts, operands]
    · intro ws hws
      obtain ⟨m, ws', rfl, hm, hws'⟩ := List.map_eq_cons_iff.mp hws
      obtain ⟨n, ws'', rfl, hn, hws''⟩ := List.map_eq_cons_iff.mp hws'
      have := answers_extremum e m n ws''
      rw [hm, hn, hws''] at this
      rwa [value, values_eq_map]
  | choose test a b yes no ha hb hyes hno =>
    refine ends_choose hs hd ?_ ?_
    · exact List.forall_mem_cons.mpr ⟨ha _, List.forall_mem_singleton.mpr (hb _)⟩
    · exact List.forall_mem_cons.mpr ⟨hyes _, List.forall_mem_singleton.mpr (hno _)⟩

end Evaluation

/-- In a standard frame that was just made, an integer expression ends in the word that holds its
value over the unbounded integers if all values that come up in its evaluation fit a word, and in an
overflow if one of them does not. Nothing else happens. -/
theorem eval_exact_or_overflow (s : State) (e : IntExpr) (hd : e.expr.nesting < evalLimit) :
    (e.Fits → ∃ w : Int64, w.toInt = e.value ∧
      (s.addFrame .standard).eval s.frames.size e.expr = (.ok (.int w), s.addFrame .standard)) ∧
    (¬ e.Fits → ∃ operation,
      (s.addFrame .standard).eval s.frames.size e.expr =
        (.error (.arithmetic (.overflow operation)), s.addFrame .standard)) := by
  obtain ⟨r, hr, hends⟩ := ends_settles s.knowsPrimitives_standard e 0 (by rwa [Nat.zero_add])
  have hend := Option.some.inj hends
  cases hr with
  | @exact w hw hfits => exact ⟨fun _ => ⟨w, hw, hend⟩, fun h => absurd hfits h⟩
  | @overflow operation x hx hbig =>
    exact ⟨fun h => absurd (h x hx) hbig, fun _ => ⟨operation, hend⟩⟩

/-- The smallest word has no absolute value, which a choice between it and `3 * 4` minds only if it
is chosen. -/
theorem eval_exact_or_overflow_choice :
    let tooBig := abs (literal (-9223372036854775808))
    let choice := choose (.order .below) (literal 1) (literal 2)
      (combine .mul (literal 3) (literal 4)) tooBig
    State.standard.eval 0 choice.expr = (.ok (.int 12), .standard) ∧
      ∃ operation, State.standard.eval 0 tooBig.expr =
        (.error (.arithmetic (.overflow operation)), .standard) := by
  have hfits (n : Int64) : (literal n).Fits := fits_of_operands nofun (fitsWord_toInt n)
  have hproduct : (combine .mul (literal 3) (literal 4)).Fits :=
    fits_of_operands
      (List.forall_mem_cons.mpr ⟨hfits 3, List.forall_mem_singleton.mpr (hfits 4)⟩) (by decide)
  constructor
  · obtain ⟨w, hw, heval⟩ := (eval_exact_or_overflow .empty
      (choose (.order .below) (literal 1) (literal 2) (combine .mul (literal 3) (literal 4))
        (abs (literal (-9223372036854775808)))) (by decide)).1
      (fits_of_operands (List.forall_mem_cons.mpr ⟨hfits 1, List.forall_mem_cons.mpr
        ⟨hfits 2, List.forall_mem_singleton.mpr hproduct⟩⟩) (by decide))
    obtain rfl : w = 12 := Int64.toInt_inj.mp hw
    exact heval
  · exact (eval_exact_or_overflow .empty (abs (literal (-9223372036854775808))) (by decide)).2
      fun h => absurd (h _ (.self _)) (by decide)

end IntExpr

end MiniLisp
