import MiniLisp.Proofs.Eval.Passing
import MiniLisp.Proofs.History.Scopes

/-!
# Parameters

A procedure is made of a list of pairwise different symbols and of no other parameter list
(`Call.lambda_ok_iff`). What its body is evaluated in, whenever it is applied, is a frame of its
own: there the parameters mean the arguments, and every other name means what it means by then in
the frame that the procedure was made in (`Closure.appliesBody`).
-/

namespace MiniLisp

/-- One frame has come to the frames of `s`. It is `g` and lies in `f`, the names mean the arguments
there, each the one in its place, and all other names what they mean in `f`. -/
structure State.Opens (s t : State) (g f : FrameId) (names : List String) (args : List Value) :
    Prop where
  new : s.frames[g]? = none
  inside : t.LiesIn g f
  kept : ∀ h, h ≠ g → t.frames[h]? = s.frames[h]?
  fresh : t.fresh = s.fresh
  hosts : t.hosts = s.hosts
  output : t.output = s.output
  param : ∀ (i : Nat) (x : String), names[i]? = some x → t.lookup g x = args[i]?
  other : ∀ x, x ∉ names → t.lookup g x = s.lookup f x

/-- Applied in the state `s`, the procedure evaluates `body` in a new frame inside `f` if there are
as many arguments as names, and otherwise does nothing but say so. -/
structure Value.AppliesBody (p : Value) (names : List String) (body : Expr) (f : FrameId)
    (s : State) : Prop where
  matched : ∀ (args : List Value) (depth : Nat), args.length = names.length →
    ∃ g t, s.Opens t g f names args ∧
      (∀ y, Call.Makes (.apply p args depth, s) y ↔ y = (.eval body g (depth + 1), t)) ∧
      (Call.apply p args depth).outcome s = (Call.eval body g (depth + 1)).outcome t
  refused : ∀ (args : List Value) (depth : Nat), args.length ≠ names.length →
    (Call.apply p args depth).outcome s =
        (.error (.arity (.exactly names.length) args.length none), s) ∧
      ∀ y, ¬ Call.Makes (.apply p args depth, s) y

section Application

variable {s : State} {f : FrameId} {params : List String} {args : List Value}

theorem getElem?_ofList_zip_of_notMem {x : String} (hx : x ∉ params) :
    (Std.TreeMap.ofList (params.zip args) : Bindings)[x]? = none := by
  rw [Option.eq_none_iff_forall_ne_some]
  exact fun v hv => hx (List.of_mem_zip (Frame.mem_of_getElem?_ofList hv)).1

theorem State.opens_addFrame_zip (hs : s.Linked) (hf : f < s.frames.size) (hparams : params.Nodup)
    (hlength : args.length = params.length) :
    s.Opens (s.addFrame ⟨Std.TreeMap.ofList (params.zip args), some f⟩) s.frames.size f params
      args where
  new := Array.getElem?_eq_none (Nat.le_refl _)
  inside := ⟨_, Array.getElem?_push_size, rfl⟩
  kept h hne := by rw [addFrame, Array.getElem?_push, if_neg hne]
  fresh := rfl
  hosts := rfl
  output := rfl
  param i x hi := by
    have hlt : i < args.length := hlength ▸ (List.getElem?_eq_some_iff.mp hi).1
    have harg : args[i]? = some args[i] := List.getElem?_eq_getElem hlt
    have hzip : (params.zip args)[i]? = some (x, args[i]) :=
      List.getElem?_zip_eq_some.mpr ⟨hi, harg⟩
    rw [lookup_addFrame_zip hparams hlength.symm (List.mem_of_getElem? hzip), harg]
  other x hx := lookup_new hs rfl hf (getElem?_ofList_zip_of_notMem hx)

/-- The body of a closure is evaluated in the frame that is made for the call. -/
theorem Closure.outcome_apply (c : Closure) (hlength : args.length = c.params.length)
    (depth : Nat) (s : State) : (Call.apply (.closure c) args depth).outcome s =
      (Call.eval c.body s.frames.size (depth + 1)).outcome
        (s.addFrame ⟨Std.TreeMap.ofList (c.params.zip args), some c.frame⟩) := by
  refine Call.outcome_eq_of_body ?_
  rw [Call.body, Call.applyTo, if_pos hlength.symm]
  rfl

/-- A closure takes its parameters in the frame that it has captured, as this is by then. -/
theorem Closure.appliesBody {c : Closure} (hs : s.Linked) (hf : c.frame < s.frames.size)
    (hparams : c.params.Nodup) : (Value.closure c).AppliesBody c.params c.body c.frame s where
  matched args depth hlength := by
    refine ⟨_, _, State.opens_addFrame_zip hs hf hparams hlength, fun y => ?_,
      c.outcome_apply hlength depth s⟩
    rw [Call.makes_body_iff, and_iff_right hlength.symm]
  refused args depth hlength := by
    refine ⟨Call.outcome_eq_of_body ?_, fun y hy => ?_⟩
    · rw [Call.body, Call.applyTo, if_neg (Ne.symm hlength)]
      rfl
    · exact hlength (Call.makes_body_iff.mp hy).1.symm

end Application

namespace Call

variable {s : State} {f : FrameId} {depth : Nat} {list body : Expr}

/-- What becomes of `lambda` is settled by its parameter list. -/
theorem outcome_lambda (hd : depth < evalLimit) (list body : Expr) :
    (Call.eval (.list [.symbol "lambda", list, body]) f depth).outcome s =
      match Form.params list with
      | .ok names => (.ok (.closure ⟨s.fresh, names, body, f⟩), { s with fresh := s.fresh + 1 })
      | .error e =>
        (.error (e.withContext (Expr.list [.symbol "lambda", list, body]).text), s) := by
  have hform : Form.ofList [.symbol "lambda", list, body] =
      (Form.params list).map (Form.lambda · body) := rfl
  rw [← ends_eq_iff, ends_apply, Call.body, if_neg (Nat.not_le.mpr hd), expr, hform]
  cases Form.params list with
  | ok names => exact Eval.inForm_ok rfl
  | error e => exact Eval.inForm_error rfl

section Ended

variable {out : Outcome Value}
  (hout : (Call.eval (.list [.symbol "lambda", list, body]) f depth).outcome s = out)

include hout

theorem lambda_ok_iff (hd : depth < evalLimit) {p : Value} : out.1 = .ok p ↔
    ∃ names : List String, list = .list (names.map .symbol) ∧ names.Nodup ∧
      p = .closure ⟨s.fresh, names, body, f⟩ := by
  simp only [← and_assoc, ← Form.params_eq_ok_iff]
  rw [← hout, outcome_lambda hd]
  cases Form.params list with
  | ok names =>
    constructor
    · rintro ⟨rfl⟩
      exact ⟨names, rfl, rfl⟩
    · rintro ⟨_, ⟨rfl⟩, rfl⟩
      rfl
  | error e => exact ⟨nofun, fun ⟨_, h, _⟩ => by cases h⟩

theorem lambda_error_iff (hd : depth < evalLimit) {err : Error} : out.1 = .error err ↔
    ∃ cause, Form.params list = .error cause ∧
      err = cause.withContext (Expr.list [.symbol "lambda", list, body]).text := by
  rw [← hout, outcome_lambda hd]
  cases Form.params list with
  | ok names => exact ⟨nofun, fun ⟨_, h, _⟩ => by cases h⟩
  | error cause =>
    constructor
    · rintro ⟨rfl⟩
      exact ⟨cause, rfl, rfl⟩
    · rintro ⟨_, ⟨rfl⟩, rfl⟩
      rfl

/-- Nothing but an identity is used up, if that. -/
theorem state_lambda (hd : depth < evalLimit) : ∃ n, out.2 = { s with fresh := n } := by
  rw [← hout, outcome_lambda hd]
  cases Form.params list with
  | ok names => exact ⟨s.fresh + 1, rfl⟩
  | error e => exact ⟨s.fresh, rfl⟩

end Ended

end Call

/-- A procedure is made of the parameter lists that are lists of pairwise different symbols. Any
other list is refused for the first of its elements that is no symbol or a symbol again. Nothing
changes but that an identity may be used up. At any later time, and so whatever a host program has
done in between, the procedure takes as many arguments as it has parameters and evaluates its body
where these mean the arguments. -/
theorem procedures_take_their_parameters {s : State} {f : FrameId} (hf : f < s.frames.size)
    {depth : Nat} (hd : depth < evalLimit) (list body : Expr) :
    let whole : Expr := .list [.symbol "lambda", list, body]
    let out := (Call.eval whole f depth).outcome s
    (∃ n, out.2 = { s with fresh := n }) ∧
    ((∃ p, out.1 = .ok p) ↔ ∃ names : List String, list = .list (names.map .symbol) ∧ names.Nodup) ∧
    (∀ items err, list = .list items → (out.1 = .error err ↔ ∃ names e rest cause,
      items = names.map .symbol ++ e :: rest ∧ names.Nodup ∧ Form.Fault names e cause ∧
        err = cause.withContext whole.text)) ∧
    ∀ names p, list = .list (names.map .symbol) → out.1 = .ok p →
      (∀ t, s.Later t → p.AppliesBody names body f t) ∧
      ∀ x y : Situation, Reached x → History x y → x.state = s →
        p.AppliesBody names body f y.state := by
  intro whole out
  have hout : (Call.eval whole f depth).outcome s = out := rfl
  refine ⟨Call.state_lambda hout hd, ?_, ?_, ?_⟩
  · constructor
    · rintro ⟨p, hp⟩
      obtain ⟨names, hlist, hnames, -⟩ := (Call.lambda_ok_iff hout hd).mp hp
      exact ⟨names, hlist, hnames⟩
    · rintro ⟨names, hlist, hnames⟩
      exact ⟨_, (Call.lambda_ok_iff hout hd).mpr ⟨names, hlist, hnames, rfl⟩⟩
  · rintro items err rfl
    rw [Call.lambda_error_iff hout hd]
    constructor
    · rintro ⟨cause, hcause, herr⟩
      obtain ⟨names, e, rest, hitems, hnames, hfault⟩ := Form.params_eq_error_iff.mp hcause
      exact ⟨names, e, rest, cause, hitems, hnames, hfault, herr⟩
    · rintro ⟨names, e, rest, cause, hitems, hnames, hfault, herr⟩
      exact ⟨cause, Form.params_eq_error_iff.mpr ⟨names, e, rest, hitems, hnames, hfault⟩, herr⟩
  · intro names p hlist hp
    obtain ⟨names', hlist', hnames, rfl⟩ := (Call.lambda_ok_iff hout hd).mp hp
    have hsame : names' = names := by
      have hsymbols := Expr.list.inj (hlist'.symm.trans hlist)
      exact List.map_injective_iff.mpr (fun _ _ h => Expr.symbol.inj h) hsymbols
    subst hsame
    have hlater (t : State) (ht : s.Later t) :
        (Value.closure ⟨s.fresh, names', body, f⟩).AppliesBody names' body f t :=
      Closure.appliesBody (c := ⟨s.fresh, names', body, f⟩) ht.linked (ht.lt_size hf) hnames
    exact ⟨hlater, fun x y hx hxy hs => hlater _ (hs ▸ hx.later hxy)⟩

/-- A procedure that hands on what it does not take: applied after that was bound again. -/
theorem procedures_take_their_parameters_rebound :
    let s := State.empty.addFrame ⟨.ofList [("y", Value.int 1)], none⟩
    let t := s.define 0 "y" (.int 2)
    0 < s.frames.size ∧ 0 < evalLimit ∧ ∃ p,
      ((Call.eval (.list [.symbol "lambda", .list [.symbol "x"], .symbol "y"]) 0 0).outcome s).1 =
        .ok p ∧
      (∃ g u, u.lookup g "x" = some (.int 5) ∧ u.lookup g "y" = some (.int 2) ∧
        (Call.apply p [.int 5] 0).outcome t = (Call.eval (.symbol "y") g 1).outcome u) ∧
      (Call.apply p [] 0).outcome t = (.error (.arity (.exactly 1) 0 none), t) := by
  intro s t
  have hlater : s.Later t := by
    refine ⟨(State.links_define s 0 "y" _).symm ▸ List.prefix_rfl, fun f o ho => ?_⟩
    rw [State.liesIn_iff_getElem?_links] at ho
    cases List.mem_singleton.mp (List.mem_of_getElem? ho)
  have hd : 0 < evalLimit := by decide
  obtain ⟨-, hmade, -, happlied⟩ := procedures_take_their_parameters (s := s) (f := 0) (by decide) hd
    (.list [.symbol "x"]) (.symbol "y")
  obtain ⟨p, hp⟩ := hmade.mpr ⟨["x"], rfl, List.nodup_singleton _⟩
  have hbody := (happlied ["x"] p rfl hp).1 t hlater
  obtain ⟨g, u, hopens, -, hout⟩ := hbody.matched [.int 5] 0 rfl
  refine ⟨by decide, hd, p, hp, ⟨g, u, hopens.param 0 "x" rfl, ?_, hout⟩,
    (hbody.refused [] 0 (by decide)).1⟩
  rw [hopens.other "y" (by decide)]
  rfl

end MiniLisp
