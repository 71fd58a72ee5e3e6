import MiniLisp.Proofs.Eval.Passing
import MiniLisp.Proofs.History.Known
import MiniLisp.Proofs.Scope.Resolution

/-!
# The identity of lists

Two lists with the same identity have the same items, whenever in a history they are shown
(`Situation.Coherent`). Quotation, `list`, `cons`, `cdr` and `map` make lists that no value shown
before is identical to (`Situation.MakesFresh`), and all that only selects a value or binds it hands
on that very value (`Situation.HandsOn`).
-/

namespace MiniLisp

namespace Value

/-- A list that has items; all lists without items are identical. -/
def IsFilled : Value → Prop
  | list _ items => items ≠ []
  | _ => False

theorem identical_self_iff {v : Value} : v.identical v = true ↔ v ≠ .unspecified := by
  cases v <;> simp [identical]

theorem IsFilled.id_eq_of_identical {u v : Value} (hu : u.IsFilled) (h : u.identical v = true) :
    ∃ i, u.id? = some i ∧ v.id? = some i := by
  cases u with
  | list i xs =>
    cases v with
    | list j ys =>
      have hid : i = j := by simpa [identical, List.isEmpty_eq_false_iff.mpr hu] using h
      exact ⟨i, rfl, congrArg some hid.symm⟩
    | _ => cases h
  | _ => exact absurd hu id

end Value

namespace Call

/-- The call ends in `v`, and `u` is a list found in it that the call has made: quotation makes
lists at all depths, and the others make one list. -/
inductive Creates (v u : Value) : Call → Prop where
  | quote {datum : Expr} {f : FrameId} {depth : Nat} (hu : u.Part v) :
      Creates v u (.eval (.list [.symbol "quote", datum]) f depth)
  | primitive {b : Builtin} {p : Primitive} {args : List Value} {depth : Nat}
      (hb : b.operation = .primitive p) (hp : p.MakesList) (hu : u = v) :
      Creates v u (.apply (.builtin b) args depth)
  | map {args : List Value} {depth : Nat} (hu : u = v) : Creates v u (.higher .map args depth)
  | applied {p : Value} {id : Nat} {items : List Value} {depth : Nat}
      (h : Creates v u (.apply p items depth)) :
      Creates v u (.higher .apply [p, .list id items] depth)
  | higher {b : Builtin} {hh : Higher} {args : List Value} {depth : Nat}
      (hb : b.operation = .higher hh) (h : Creates v u (.higher hh args (depth + 1))) :
      Creates v u (.apply (.builtin b) args depth)

end Call

namespace World

variable {w : World} {s t : State} {v u : Value} {i : Nat}

/-- All lists in a quoted value are new. -/
theorem fresh_le_of_quote {datum : Expr} (h : s.make (.ofExpr datum) = (v, t)) (hu : u.Part v)
    (hi : u.id? = some i) : s.fresh ≤ i := by
  have hdatum := Draft.all_ofExpr (Value.hereditary_within ∅).inheritable datum
  obtain ⟨w, hlearns, hknows⟩ := (sound_none s.fresh).finish hdatum
  have hv : ((Draft.ofExpr datum).finish s.fresh).1 = v := congrArg Prod.fst h
  rcases hlearns.new u (hknows u i (hv ▸ hu) hi) with hnone | ⟨j, hj, hle⟩
  · exact absurd hnone (Set.notMem_empty u)
  · cases hi.symm.trans hj
    exact hle

theorem id?_make_ofList {items : List Value} (h : s.make (.ofList items) = (v, t)) :
    v.id? = some s.fresh := by
  cases h
  rfl

/-- What is made has an identity that no known value has. -/
theorem ne_id_of_creates {c : Call} (hs : Invariant.known.Holds w s)
    (hc : Invariant.known.Ready w c) (hv : c.outcome s = (.ok v, t)) (h : c.Creates v u)
    (hi : u.id? = some i) : ∀ u' ∈ w.known, u'.id? ≠ some i := by
  have hused {n : Nat} (hsound : w.Sound n) (hle : n ≤ i) : ∀ u' ∈ w.known, u'.id? ≠ some i :=
    fun u' hu' hid => absurd (hsound.used u' hu' i hid) (Nat.not_lt.mpr hle)
  induction h with
  | @quote datum _ _ hu =>
    have hquote : Form.ofList [.symbol "quote", datum] = .ok (.quote datum) := rfl
    obtain ⟨-, hmake⟩ := (Call.outcome_list_iff hquote).mp hv
    exact hused hs.shape.2 (fresh_le_of_quote (Call.make_of_eval hmake) hu hi)
  | primitive hb hp hu =>
    obtain ⟨reply, hreply, hmake⟩ := Call.make_of_outcome hb hv
    obtain ⟨items, rfl⟩ := Primitive.ofList_of_run hp hreply
    cases (hu ▸ hi).symm.trans (id?_make_ofList hmake)
    exact hused hs.shape.2 le_rfl
  | @map _ depth hu =>
    obtain ⟨p, vs, lists, results, s', rfl, hlists, hresults, hmake⟩ := Call.map_of_outcome hv
    have hitems := Invariant.all_of_listsOf hlists fun v hv => hc v (.tail _ hv)
    have hkeeps : Invariant.known.Keeps False w (fun w vs => Value.All w.Knows vs)
        (Call.mapOver Call.ends depth p lists) :=
      Invariant.mapOver_keeps (Invariant.runs_ends w) (hc p (.head _)) hitems
    obtain ⟨w', hle, hs', -, -⟩ := hresults ▸ hkeeps w le_rfl s hs
    cases (hu ▸ hi).symm.trans (id?_make_ofList hmake)
    exact fun u' hu' hid => absurd (hs'.shape.2.used u' (hle.1 hu') _ hid) (Nat.lt_irrefl _)
  | @applied p id items depth h ih =>
    have hsame : (Call.higher .apply [p, .list id items] depth).outcome s =
        (Call.apply p items depth).outcome s := Call.outcome_eq_of_body rfl
    have hlist := hc (.list id items) (.tail _ (.head _))
    exact ih ⟨hc p (.head _), (Value.hereditary_within w.known).item hlist⟩ (hsame ▸ hv)
  | higher hb h ih =>
    have hrun := Call.invoke_of_outcome hv
    simp only [State.invoke, hb] at hrun
    exact ih hc.2 hrun

end World

namespace Situation

/-- Lists that are identical have the same items, however much later the second one is shown. -/
def Coherent (x y : Situation) : Prop :=
  ∀ i j xs ys, x.Shows (.list i xs) → y.Shows (.list j ys) →
    (Value.list i xs).identical (.list j ys) = true → xs ≠ [] → xs = ys

/-- The lists that a call creates, made by the host program or anywhere in a run, are identical to
nothing that is shown when the call is made or was shown at any time before. -/
def MakesFresh (x : Situation) : Prop :=
  ∀ c₀ c s v t u, x.MayMake c₀ → Call.Enters (c₀, x.state) (c, s) → c.outcome s = (.ok v, t) →
    c.Creates v u → u.IsFilled →
    ∀ z, Reached z → History z ⟨s, x.hand ∪ c.values⟩ →
    ∀ u', z.Shows u' → u.identical u' = false

/-- What looks a value up, selects it or binds it hands on that very value, and does so whenever the
calls that it depends on have values. -/
structure HandsOn (x : Situation) : Prop where
  lookup {name : String} {f : FrameId} {depth : Nat} {v : Value} {t : State} :
    (Call.eval (.symbol name) f depth).outcome x.state = (.ok v, t) ↔
      depth < evalLimit ∧ x.state.lookup f name = some v ∧ t = x.state
  cond {test yes no : Expr} {f : FrameId} {depth : Nat} {v : Value} {t : State} :
    (Call.eval (.list [.symbol "if", test, yes, no]) f depth).outcome x.state = (.ok v, t) ↔
      depth < evalLimit ∧ ∃ b s, (Call.eval test f (depth + 1)).outcome x.state = (.ok b, s) ∧
        (Call.eval (if b.isTruthy then yes else no) f (depth + 1)).outcome s = (.ok v, t)
  define {name : String} {e : Expr} {f : FrameId} {depth : Nat} {r : Value} {t : State} :
    f < x.state.frames.size →
    ((Call.eval (.list [.symbol "define", .symbol name, e]) f depth).outcome x.state = (.ok r, t) ↔
      depth < evalLimit ∧ r = .unspecified ∧ ∃ v s,
        (Call.eval e f (depth + 1)).outcome x.state = (.ok v, s) ∧ t = s.define f name v ∧
          t.lookup f name = some v)
  assign {name : String} {e : Expr} {f : FrameId} {depth : Nat} {r : Value} {t : State} :
    (Call.eval (.list [.symbol "set!", .symbol name, e]) f depth).outcome x.state = (.ok r, t) ↔
      depth < evalLimit ∧ r = .unspecified ∧ ∃ v s,
        (Call.eval e f (depth + 1)).outcome x.state = (.ok v, s) ∧
          s.assign f name v = (.ok (), t) ∧ t.lookup f name = some v
  operands {items : List Expr} {f : FrameId} {depth d : Nat} {p : Value} {args : List Value}
    {t : State} : Call.Makes (.eval (.list items) f depth, x.state) (.apply p args d, t) ↔
      depth < evalLimit ∧ d = depth ∧ ∃ head operands s,
        Form.ofList items = .ok (.call head operands) ∧
        (Call.eval head f (depth + 1)).outcome x.state = (.ok p, s) ∧
        Call.args Call.ends f (depth + 1) operands s = some (.ok args, t)
  parameters {c : Closure} {args : List Value} {depth : Nat} :
    x.Shows (.closure c) → c.params.length = args.length →
    ∃ f t, (∀ y, Call.Makes (.apply (.closure c) args depth, x.state) y ↔
        y = (.eval c.body f (depth + 1), t)) ∧
      ∀ name v, (name, v) ∈ c.params.zip args → t.lookup f name = some v
  selector {b : Builtin} {p : Primitive} {args : List Value} {depth : Nat} {v : Value} {t : State} :
    b.operation = .primitive p → p.IsSelector →
    ((Call.apply (.builtin b) args depth).outcome x.state = (.ok v, t) ↔
      b.arity.accepts args.length ∧ p.Selects args v ∧ t = x.state)
  extremum {e : Extremum} {args items : List Value} :
    Builtin.candidates e args = .ok items →
    ((∃ v, (Primitive.extremum e).Selects args v) ↔
      items ≠ [] ∧ ∀ v ∈ items, v.number?.isSome)

end Situation

namespace Reached

variable {x y : Situation}

theorem coherent (hx : Reached x) (hxy : History x y) : x.Coherent y := by
  intro i j xs ys hxs hys hidentical hfilled
  obtain ⟨k, hk, hk'⟩ := Value.IsFilled.id_eq_of_identical (u := .list i xs) hfilled hidentical
  exact (Value.list.inj (hx.eq_of_id hxy hxs hys hk hk')).2

theorem makesFresh (hx : Reached x) : x.MakesFresh := by
  intro c₀ c s v t u hc₀ henters hv hnew hfilled z hz hzx u' hu'
  obtain ⟨w, hw⟩ := hz.known
  obtain ⟨w', hle, hw'⟩ := hw.history hzx
  have hready := hw'.ready (hx.mayMake_of_enters hc₀ henters)
  by_contra hidentical
  obtain ⟨i, hi, hi'⟩ := hfilled.id_eq_of_identical (Bool.eq_true_of_not_eq_false hidentical)
  exact World.ne_id_of_creates hw'.state hready hv hnew hi u' (hle.1 (hw.shows hu' hi')) hi'

theorem handsOn (hx : Reached x) : x.HandsOn where
  lookup := Call.outcome_symbol_iff
  cond := Call.outcome_cond_iff
  define {name e f depth r t} hf := by
    rw [Call.outcome_define_iff]
    constructor
    · rintro ⟨hd, hr, v, s, hvalue, rfl⟩
      obtain ⟨w, hw⟩ := hx.known
      have hready := hw.ready (c := .eval e f (depth + 1)) hf
      obtain ⟨w', hle, hs, -, -⟩ := hvalue ▸ Invariant.outcome_ends hw.state hready
      have hsize : f < w'.links.length := Invariant.known.frame_mono hle hready
      rw [hs.shape.1, State.length_links] at hsize
      exact ⟨hd, hr, v, s, hvalue, rfl, State.lookup_define hsize name v⟩
    · rintro ⟨hd, hr, v, s, hvalue, ht, -⟩
      exact ⟨hd, hr, v, s, hvalue, ht⟩
  assign {name e f depth r t} := by
    rw [Call.outcome_assign_iff]
    constructor
    · rintro ⟨hd, hr, v, s, hvalue, hassign⟩
      have hbound := State.lookup_assign (congrArg Prod.fst hassign)
      rw [hassign] at hbound
      exact ⟨hd, hr, v, s, hvalue, hassign, hbound⟩
    · rintro ⟨hd, hr, v, s, hvalue, hassign, -⟩
      exact ⟨hd, hr, v, s, hvalue, hassign⟩
  operands := Call.makes_apply_iff
  parameters {c args depth} hc hlength := by
    obtain ⟨w, hw⟩ := hx.known
    have hparams := (hw.sound.closure c (hw.shows hc rfl)).2
    refine ⟨_, _, fun y => Call.makes_body_iff.trans (and_iff_right hlength), fun name v hv => ?_⟩
    exact State.lookup_addFrame_zip hparams hlength hv _
  selector := Call.outcome_selector_iff
  extremum hitems := Primitive.exists_selects_extremum_iff hitems

end Reached

/-- Identity is an honest account of lists: it tells what they hold, it is new where lists are made,
and it stays where values are handed on. -/
theorem lists_keep_their_identity {x : Situation} (hx : Reached x) :
    (∀ y, History x y → x.Coherent y) ∧ x.MakesFresh ∧ x.HandsOn ∧
      ∀ v : Value, v.identical v = true ↔ v ≠ .unspecified :=
  ⟨fun _ hxy => hx.coherent hxy, hx.makesFresh, hx.handsOn, fun _ => Value.identical_self_iff⟩

/-- Quoting makes a list anew that looks like one at hand. -/
theorem lists_keep_their_identity_quoted :
    let one : Value := .list 0 [.int 1]
    let x : Situation := ⟨{ State.empty.addFrame (.empty none) with fresh := 1 }, {one}⟩
    let c : Call := .eval (.list [.symbol "quote", .list [.int 1]]) 0 0
    Reached x ∧ (∀ y, History x y → ∀ items, y.Shows (.list 0 items) → items = [.int 1]) ∧
      ∃ v t, c.outcome x.state = (.ok v, t) ∧ v.text = one.text ∧ v.identical one = false := by
  intro one x c
  have hmake (n : Nat) : c.outcome { State.empty.addFrame (.empty none) with fresh := n } =
      (.ok (.list n [.int 1]), { State.empty.addFrame (.empty none) with fresh := n + 1 }) :=
    Call.outcome_eq_iff.mpr ⟨1, rfl⟩
  have hx : Reached x := by
    have hroot : Reached ⟨State.empty.addFrame (.empty none), ∅⟩ := .single .root
    have hquoted := hroot.tail (.of_outcome (c := c) Nat.one_pos (hmake 0))
    rwa [insert_empty_eq] at hquoted
  have hone : x.Shows one := .held (Set.mem_singleton _) .self
  obtain ⟨hcoherent, hfresh, -, -⟩ := lists_keep_their_identity hx
  refine ⟨hx, fun y hxy items hitems => ?_, _, _, hmake 1, rfl, ?_⟩
  · exact (hcoherent y hxy 0 0 _ items hone hitems (by simp [Value.identical]) nofun).symm
  · have hthere : History x ⟨x.state, x.hand ∪ c.values⟩ :=
      .single (.inside (c := c) Nat.one_pos .refl)
    exact hfresh c c _ _ _ _ Nat.one_pos .refl (hmake 1) (.quote .self) nofun x hx hthere one hone

end MiniLisp
