import MiniLisp.Proofs.Eval.Block
import MiniLisp.Proofs.Eval.Closure
import MiniLisp.Proofs.Number.Exact
import MiniLisp.Proofs.Scope.Kept

/-!
# Counters

A maker of counters hands out procedures that count how often they have been called, each in a frame
of its own (`Counter`). Calling one adds one to the count in that frame and changes nothing else
that exists (`Counter.outcome_call`, `Counter.ticks`), and making one makes the frame that its count
is in (`outcome_make`, `counter_defined`). That is all that is evaluated here.
-/

namespace MiniLisp

namespace Counters

/-- What the body of a counter is: `(begin (set! count (+ count 1)) count)`. -/
def tick : Expr := .list [.symbol "begin",
  .list [.symbol "set!", .symbol "count", .list [.symbol "+", .symbol "count", .int 1]],
  .symbol "count"]

/-- What the body of the maker is: `((lambda (count) (lambda () ...)) 0)`. -/
def newCounter : Expr := .list [.list [.symbol "lambda", .list [.symbol "count"],
  .list [.symbol "lambda", .list [], tick]], .int 0]

/-- Defines `make-counter`. -/
def definition : Expr := .list [.symbol "define", .symbol "make-counter",
  .list [.symbol "lambda", .list [], newCounter]]

example : Expr.parse ("(define make-counter (lambda () ((lambda (count) (lambda () " ++
    "(begin (set! count (+ count 1)) count))) 0)))") true = .ok definition := rfl

/-- The procedures that counters use mean in `f` what they do in a standard frame. -/
def Knows (s : State) (f : FrameId) : Prop :=
  ∀ p ∈ [Primitive.sequence, Primitive.add], s.lookup f p.name = some (.builtin p.builtin)

/-- In the frame `g` a counter goes by the name `x`. It has counted to `n` and keeps this in the
frame `h`. -/
structure Counter (s : State) (g : FrameId) (x : String) (h : FrameId) (n : Nat) : Prop where
  bound : ∃ id, s.binding? g x = some (.closure ⟨id, [], tick, h⟩)
  count : ∃ w : Int64, w.toInt = n ∧ s.binding? h "count" = some (.int w)
  knows : Knows s h
  apart : h ≠ g

section Kept

variable {s t : State} {f g h : FrameId} {n : Nat} {x y : String}

theorem Knows.of_lookup_eq (hf : Knows s f)
    (heq : ∀ y ∈ ["begin", "+"], t.lookup g y = s.lookup f y) : Knows t g :=
  fun p hp => (heq p.name (List.mem_map_of_mem hp)).trans (hf p hp)

theorem Knows.kept (hf : Knows s f) (hk : s.KeepsBut h x t) (hs : s.Linked)
    (hsize : f < s.frames.size) (hx : x ∉ ["begin", "+"]) : Knows t f :=
  hf.of_lookup_eq fun _ hy => hk.lookup_eq hs (fun heq => hx (heq ▸ hy)) hsize

theorem Counter.lt_size (hc : Counter s g x h n) : h < s.frames.size := by
  obtain ⟨w, -, hcount⟩ := hc.count
  exact State.lt_size_of_binding? hcount

theorem Counter.root_lt_size (hc : Counter s g x h n) : g < s.frames.size := by
  obtain ⟨id, hbound⟩ := hc.bound
  exact State.lt_size_of_binding? hbound

/-- A counter that a request is not about stays as it is. -/
theorem Counter.kept (hc : Counter s g x h n) (hk : s.KeepsBut f y t) (hs : s.Linked)
    (hy : y ∉ ["begin", "+"]) (hx : ¬ (g = f ∧ x = y)) (hcount : ¬ (h = f ∧ "count" = y)) :
    Counter t g x h n where
  bound := by
    obtain ⟨id, hbound⟩ := hc.bound
    exact ⟨id, (hk.binding g hc.root_lt_size x hx).trans hbound⟩
  count := by
    obtain ⟨w, hw, hbound⟩ := hc.count
    exact ⟨w, hw, (hk.binding h hc.lt_size "count" hcount).trans hbound⟩
  knows := hc.knows.kept hk hs hc.lt_size hy
  apart := hc.apart

end Kept

section Counting

variable {s : State} {f g h : FrameId} {depth n : Nat} {m w : Int64} {x : String}

/-- Adding one to a word comes to the next word, if there is one. -/
theorem outcome_add (hw : w.toInt = m.toInt + 1) (depth : Nat) (s : State) :
    (Call.apply (.builtin Primitive.add.builtin) [.int m, .int 1] depth).outcome s =
      (.ok (.int w), s) := by
  have hends : Call.ends (.apply (.builtin Primitive.add.builtin) [.int m, .int 1] depth) s =
    some (s.accept (Primitive.add.entry.run [.int m, .int 1])) := Call.ends_builtin .add rfl
  rcases IntExpr.answers_combine .add m 1 with ⟨w', hw', hrun⟩ | ⟨hbig, -⟩
  · obtain rfl : w' = w := Int64.toInt_inj.mp (hw'.trans hw.symm)
    rw [Call.ends_eq_iff.mp hends]
    exact (congrArg s.accept hrun).trans (s.accept_value _)
  · have hfits := fitsWord_toInt w
    rw [hw] at hfits
    exact absurd hfits hbig

theorem outcome_increment (hknows : Knows s f) (hm : s.lookup f "count" = some (.int m))
    (hw : w.toInt = m.toInt + 1) (hd : depth + 1 < evalLimit) :
    (Call.eval (.list [.symbol "+", .symbol "count", .int 1]) f depth).outcome s =
      (.ok (.int w), s) := by
  have hadd : (Call.eval (.symbol "+") f (depth + 1)).outcome s =
      (.ok (.builtin Primitive.add.builtin), s) :=
    Call.outcome_symbol_iff.mpr ⟨hd, hknows .add (by decide), rfl⟩
  have hcount : (Call.eval (.symbol "count") f (depth + 1)).outcome s = (.ok (.int m), s) :=
    Call.outcome_symbol_iff.mpr ⟨hd, hm, rfl⟩
  have hone : (Call.eval (.int 1) f (depth + 1)).outcome s = (.ok (.int 1), s) :=
    Call.ends_eq_iff.mp (Call.ends_int hd 1)
  have hargs : Call.args Call.ends f (depth + 1) [.symbol "count", .int 1] s =
      some (.ok [.int m, .int 1], s) :=
    Call.args_cons_iff.mpr ⟨_, s, _, hcount, Call.args_cons_iff.mpr ⟨_, s, [], hone, rfl, rfl⟩, rfl⟩
  exact (Call.outcome_call_iff (Form.ofList_primitive .add _)).mpr
    ⟨Nat.lt_of_succ_lt hd, _, s, _, s, hadd, hargs, outcome_add hw depth s⟩

/-- The body of a counter counts on where its count is looked up. -/
theorem outcome_tick (hknows : Knows s f) (hres : s.Resolves "count" f h)
    (hm : s.binding? h "count" = some (.int m)) (hw : w.toInt = m.toInt + 1)
    (hd : depth + 3 < evalLimit) :
    (Call.eval tick f depth).outcome s = (.ok (.int w), s.define h "count" (.int w)) := by
  have hbegin : (Call.eval (.symbol "begin") f (depth + 1)).outcome s =
      (.ok (.builtin Primitive.sequence.builtin), s) :=
    Call.outcome_symbol_iff.mpr ⟨by omega, hknows .sequence (by decide), rfl⟩
  have hset : (Call.eval (.list [.symbol "set!", .symbol "count",
      .list [.symbol "+", .symbol "count", .int 1]]) f (depth + 1)).outcome s =
        (.ok .unspecified, s.define h "count" (.int w)) := by
    have hm : s.lookup f "count" = some (.int m) := hres.lookup_eq.trans hm
    exact Call.outcome_assign_iff.mpr ⟨by omega, rfl, _, s,
      outcome_increment hknows hm hw (by omega), State.assign_of_resolves hres _⟩
  have hcount : (Call.eval (.symbol "count") f (depth + 1)).outcome
      (s.define h "count" (.int w)) = (.ok (.int w), s.define h "count" (.int w)) := by
    have honly := State.differsOnly_define hres.lt_size "count" (.int w)
    have hstill := (honly.sameBut "count").resolves_self hres honly.bound
    exact Call.outcome_symbol_iff.mpr ⟨by omega, honly.rebound.first f hstill, rfl⟩
  have hargs : Call.args Call.ends f (depth + 1) [.list [.symbol "set!", .symbol "count",
      .list [.symbol "+", .symbol "count", .int 1]], .symbol "count"] s =
        some (.ok [.unspecified, .int w], s.define h "count" (.int w)) :=
    Call.args_cons_iff.mpr ⟨_, _, _, hset, Call.args_cons_iff.mpr ⟨_, _, [], hcount, rfl, rfl⟩, rfl⟩
  have hblock := Call.ends_eq_iff.mp
    (Call.ends_begin [.unspecified] (.int w) depth (s.define h "count" (.int w)))
  exact (Call.outcome_call_iff (Form.ofList_primitive .sequence _)).mpr
    ⟨by omega, _, s, _, _, hbegin, hargs, hblock⟩

/-- A procedure without parameters that is called by its name comes to what its body comes to in a
new frame that binds nothing. -/
theorem outcome_named {id : Nat} {body : Expr} {v : Value} {t : State}
    (hx : Keyword.ofName? x = none) (hbound : s.binding? g x = some (.closure ⟨id, [], body, h⟩))
    (hd : depth + 1 < evalLimit)
    (hbody : (Call.eval body s.frames.size (depth + 1)).outcome (s.addFrame (.empty (some h))) =
      (.ok v, t)) : (Call.eval (.list [.symbol x]) g depth).outcome s = (.ok v, t) := by
  have hform : Form.ofList [.symbol x] = .ok (.call (.symbol x) []) := by
    simp only [Form.ofList, Expr.symbol?, Option.bind_some, hx]
  have hhead : (Call.eval (.symbol x) g (depth + 1)).outcome s =
      (.ok (.closure ⟨id, [], body, h⟩), s) :=
    Call.outcome_symbol_iff.mpr ⟨hd, State.lookup_of_binding? hbound, rfl⟩
  have happly : (Call.apply (.closure ⟨id, [], body, h⟩) [] depth).outcome s = (.ok v, t) :=
    (Closure.outcome_apply _ rfl depth s).trans hbody
  exact (Call.outcome_call_iff hform).mpr
    ⟨Nat.lt_of_succ_lt hd, _, s, [], s, hhead, rfl, happly⟩

/-- The state after the counter at `h` has counted to `w`. -/
def counted (s : State) (h : FrameId) (w : Int64) : State :=
  (s.addFrame (.empty (some h))).define h "count" (.int w)

/-- A counter that is called answers with one more than it has counted to. -/
theorem Counter.outcome_call (hs : s.Linked) (hc : Counter s g x h n)
    (hx : Keyword.ofName? x = none) (hw : w.toInt = n + 1) (hd : depth + 4 < evalLimit) :
    (Call.eval (.list [.symbol x]) g depth).outcome s = (.ok (.int w), counted s h w) := by
  obtain ⟨id, hbound⟩ := hc.bound
  obtain ⟨m, hm, hcount⟩ := hc.count
  have hh : h < s.frames.size := hc.lt_size
  -- The frame of the call binds nothing, so that all names are looked up from the captured one.
  let t := s.addFrame (.empty (some h))
  have hknows : Knows t s.frames.size := fun p hp => by
    rw [← hc.knows p hp]
    exact State.lookup_new hs rfl hh rfl
  have hkept : t.binding? h "count" = some (.int m) :=
    (State.binding?_addFrame hh _ _).trans hcount
  have hres : t.Resolves "count" s.frames.size h := by
    have hnew : t.frames[s.frames.size]? = some (.empty (some h)) :=
      Array.getElem?_push_size
    refine .inner ?_ ⟨_, hnew, rfl⟩ (.here hkept)
    rw [State.binding?, hnew]
    rfl
  exact outcome_named hx hbound (by omega) (outcome_tick hknows hres hkept (hm ▸ hw) (by omega))

theorem keepsBut_counted (hs : s.Linked) (hh : h < s.frames.size) (w : Int64) :
    s.KeepsBut h "count" (counted s h w) :=
  ((State.KeepsBut.refl hs h "count").addFrame rfl hh).define (.int w)

theorem Counter.ticks (hc : Counter s g x h n) (hs : s.Linked) (hw : w.toInt = n + 1) :
    Counter (counted s h w) g x h (n + 1) where
  bound := by
    obtain ⟨id, hbound⟩ := hc.bound
    have hkept := (keepsBut_counted hs hc.lt_size w).binding g hc.root_lt_size x
      fun heq => hc.apart heq.1.symm
    exact ⟨id, hkept.trans hbound⟩
  count := by
    have hsize : h < (s.addFrame (.empty (some h))).frames.size :=
      hc.lt_size.trans (s.lt_size_addFrame _)
    exact ⟨w, hw, (State.differsOnly_define hsize "count" (.int w)).bound⟩
  knows := hc.knows.kept (keepsBut_counted hs hc.lt_size w) hs hc.lt_size (by decide)
  apart := hc.apart

end Counting

section Making

variable {s : State} {f g : FrameId} {depth id : Nat} {x : String}

/-- The frame in which a new counter keeps its count. -/
def cell (f : FrameId) : Frame := ⟨Std.TreeMap.ofList (["count"].zip [Value.int 0]), some f⟩

theorem outer_cell (f : FrameId) : (cell f).outer = some f := rfl

/-- The state after a new counter was made in the frame `f`. -/
def madeIn (s : State) (f : FrameId) : State := { s.addFrame (cell f) with fresh := s.fresh + 2 }

theorem outcome_newCounter (s : State) (f : FrameId) (hd : depth + 2 < evalLimit) :
    (Call.eval newCounter f depth).outcome s =
      (.ok (.closure ⟨s.fresh + 1, [], tick, s.frames.size⟩), madeIn s f) := by
  have hhead : (Call.eval (.list [.symbol "lambda", .list [.symbol "count"],
      .list [.symbol "lambda", .list [], tick]]) f (depth + 1)).outcome s =
        (.ok (.closure ⟨s.fresh, ["count"], .list [.symbol "lambda", .list [], tick], f⟩),
          { s with fresh := s.fresh + 1 }) := Call.outcome_lambda (by omega) _ _
  have hargs : Call.args Call.ends f (depth + 1) [.int 0] { s with fresh := s.fresh + 1 } =
      some (.ok [.int 0], { s with fresh := s.fresh + 1 }) :=
    Call.args_cons_iff.mpr
      ⟨_, _, [], Call.ends_eq_iff.mp (Call.ends_int (by omega) 0), rfl, rfl⟩
  have hcounter (h : FrameId) (t : State) :
      (Call.eval (.list [.symbol "lambda", .list [], tick]) h (depth + 1)).outcome t =
        (.ok (.closure ⟨t.fresh, [], tick, h⟩), { t with fresh := t.fresh + 1 }) :=
    Call.outcome_lambda (by omega) _ _
  have happly : (Call.apply (.closure
      ⟨s.fresh, ["count"], .list [.symbol "lambda", .list [], tick], f⟩) [.int 0] depth).outcome
        { s with fresh := s.fresh + 1 } =
          (.ok (.closure ⟨s.fresh + 1, [], tick, s.frames.size⟩), madeIn s f) :=
    (Closure.outcome_apply _ rfl depth _).trans (hcounter _ _)
  exact (Call.outcome_call_iff rfl).mpr ⟨by omega, _, _, _, _, hhead, hargs, happly⟩

/-- The state after `make-counter` was called. -/
def made (s : State) (g : FrameId) : State := madeIn (s.addFrame (.empty (some g))) s.frames.size

/-- The counter that is made then. -/
def madeCounter (s : State) : Closure := ⟨s.fresh + 1, [], tick, s.frames.size + 1⟩

theorem outcome_make
    (hmaker : s.binding? g "make-counter" = some (.closure ⟨id, [], newCounter, g⟩))
    (hd : depth + 3 < evalLimit) :
    (Call.eval (.list [.symbol "make-counter"]) g depth).outcome s =
      (.ok (.closure (madeCounter s)), made s g) := by
  have hbody : (Call.eval newCounter s.frames.size (depth + 1)).outcome
      (s.addFrame (.empty (some g))) = (.ok (.closure (madeCounter s)), made s g) := by
    rw [outcome_newCounter _ _ (by omega), State.size_addFrame]
    rfl
  exact outcome_named rfl hmaker (by omega) hbody

/-- The state after a counter was made and defined as `x`. -/
def defined (s : State) (g : FrameId) (x : String) : State :=
  (made s g).define g x (.closure (madeCounter s))

theorem binding?_madeIn (s : State) (f : FrameId) :
    (madeIn s f).binding? s.frames.size "count" = some (.int 0) := by
  have hnew : (madeIn s f).frames[s.frames.size]? = some (cell f) := Array.getElem?_push_size
  rw [State.binding?, hnew]
  rfl

theorem lookup_madeIn (hs : s.Linked) (hf : f < s.frames.size) (hx : x ≠ "count") :
    (madeIn s f).lookup s.frames.size x = s.lookup f x := by
  have hnone : (cell f).bindings[x]? = none :=
    getElem?_ofList_zip_of_notMem (mt List.mem_singleton.mp hx)
  rw [← State.lookup_new hs (outer_cell f) hf hnone]
  exact State.lookup_congr rfl fun _ => rfl

theorem keepsBut_made (hs : s.Linked) (hg : g < s.frames.size) (x : String) :
    s.KeepsBut g x (made s g) := by
  have hcall : s.KeepsBut g x (s.addFrame (.empty (some g))) :=
    (State.KeepsBut.refl hs g x).addFrame rfl hg
  exact (hcall.addFrame (outer_cell _) (s.lt_size_addFrame _)).of_frames rfl

/-- A counter that was just made keeps its count in the last frame, and stands at zero. -/
theorem counter_defined (hs : s.Linked) (hg : g < s.frames.size) (hknows : Knows s g)
    (hx : x ∉ ["begin", "+"]) : Counter (defined s g x) g x (s.frames.size + 1) 0 := by
  let t := s.addFrame (.empty (some g))
  have ht : t.Linked := ((State.KeepsBut.refl hs g x).addFrame rfl hg).later.linked
  have hsize : t.frames.size = s.frames.size + 1 := s.size_addFrame _
  have honly := State.differsOnly_define ((keepsBut_made hs hg x).later.lt_size hg) x
    (.closure (madeCounter s))
  have hapart : s.frames.size + 1 ≠ g := (Nat.lt_succ_of_lt hg).ne'
  refine ⟨⟨_, honly.bound⟩, ⟨0, rfl, ?_⟩, hknows.of_lookup_eq fun y hy => ?_, hapart⟩
  · rw [defined, honly.unbound _ _ fun heq => hapart heq.1, made, ← hsize]
    exact binding?_madeIn t s.frames.size
  · have hcount : y ≠ "count" := by
      rintro rfl
      exact absurd hy (by decide)
    have hcall : t.lookup s.frames.size y = s.lookup g y := State.lookup_new hs rfl hg rfl
    rw [defined, honly.rebound.other _ y fun heq => hx (heq.1 ▸ hy), made, ← hsize, ← hcall]
    exact lookup_madeIn ht (s.lt_size_addFrame _) hcount

end Making

end Counters

end MiniLisp
