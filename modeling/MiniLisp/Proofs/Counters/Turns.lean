import MiniLisp.Proofs.Counters.Counting

/-!
# Counters by turns

A host program makes counters and calls them in any order. What holds between two requests
(`Stands`) is that every counter stands at the number of calls to it and that no two of them keep
their counts in the same place. Every request keeps this up (`Stands.make`, `Stands.call`), and so
each counter counts its own calls (`counters_count_their_own_calls`).
-/

namespace MiniLisp

namespace Counters

/-- What a host program asks: to make a counter, `(define x (make-counter))`, or to call one,
`(x)`. -/
inductive Request where
  | make (x : String)
  | call (x : String)
  deriving DecidableEq

namespace Request

def name : Request → String
  | make x => x
  | call x => x

def expr : Request → Expr
  | make x => .list [.symbol "define", .symbol x, .list [.symbol "make-counter"]]
  | call x => .list [.symbol x]

/-- How far counters have counted after the request, if they had counted so far before. -/
def tell (tally : String → Option Nat) : Request → String → Option Nat
  | make x => Function.update tally x (some 0)
  | call x => Function.update tally x ((tally x).map (· + 1))

variable {tally : String → Option Nat} {x y : String}

@[simp] theorem tell_make_self : (make x).tell tally x = some 0 := Function.update_self ..

@[simp] theorem tell_call_self : (call x).tell tally x = (tally x).map (· + 1) :=
  Function.update_self ..

theorem tell_of_ne {r : Request} (h : y ≠ r.name) : r.tell tally y = tally y := by
  cases r <;> exact Function.update_of_ne h _ _

end Request

/-- How far each counter has counted after the requests, if it was made. -/
def tally (past : List Request) : String → Option Nat := past.foldl Request.tell fun _ => none

/-- The state that an evaluation leaves. -/
def left (o : Outcome Value) : State := o.2

/-- The state after the requests. -/
def after (s : State) (g : FrameId) (past : List Request) : State :=
  past.foldl (fun t r => left (t.eval g r.expr)) s

/-- What a counter may be called: anything but what a form is told by, the maker, and what counters
use themselves. -/
def Usable (x : String) : Prop :=
  Keyword.ofName? x = none ∧ x ∉ ["make-counter", "begin", "+"]

/-- The counters stand at what `tally` says, each with a count of its own in the frame `home`. -/
structure Stands (s : State) (g : FrameId) (tally : String → Option Nat)
    (home : String → FrameId) : Prop where
  linked : s.Linked
  knows : Knows s g
  maker : ∃ id, s.binding? g "make-counter" = some (.closure ⟨id, [], newCounter, g⟩)
  counter : ∀ x n, tally x = some n → Counter s g x (home x) n
  apart : ∀ x y, (tally x).isSome → (tally y).isSome → home x = home y → x = y

section Standing

variable {s t : State} {f g : FrameId} {n : Nat} {w : Int64} {x y : String}
  {tally : String → Option Nat} {home : String → FrameId}

theorem Stands.root_lt_size (hst : Stands s g tally home) : g < s.frames.size := by
  obtain ⟨id, hmaker⟩ := hst.maker
  exact State.lt_size_of_binding? hmaker

/-- A request leaves the maker as it was, and the counters that it is not about. -/
theorem Stands.kept (hst : Stands s g tally home) (hk : s.KeepsBut f y t)
    (hy : y ∉ ["begin", "+"]) (hmaker : ¬ (g = f ∧ "make-counter" = y)) :
    t.Linked ∧ Knows t g ∧
      (∃ id, t.binding? g "make-counter" = some (.closure ⟨id, [], newCounter, g⟩)) ∧
      ∀ x n, tally x = some n → ¬ (g = f ∧ x = y) → ¬ (home x = f ∧ "count" = y) →
        Counter t g x (home x) n := by
  obtain ⟨id, hbound⟩ := hst.maker
  refine ⟨hk.later.linked, hst.knows.kept hk hst.linked hst.root_lt_size hy, ⟨id, ?_⟩, ?_⟩
  · rw [hk.binding g hst.root_lt_size _ hmaker, hbound]
  · exact fun x n hn hx hcount => (hst.counter x n hn).kept hk hst.linked hy hx hcount

/-- A counter is called: it answers with one more than it has counted to, and nothing but its own
count is different. -/
theorem Stands.call (hst : Stands s g tally home) (hx : Keyword.ofName? x = none)
    (hn : tally x = some n) (hw : w.toInt = n + 1) :
    s.eval g (Request.call x).expr = (.ok (.int w), counted s (home x) w) ∧
    Stands (counted s (home x) w) g ((Request.call x).tell tally) home ∧
    ∀ y, (counted s (home x) w).binding? g y = s.binding? g y := by
  have hc := hst.counter x n hn
  have hk := keepsBut_counted hst.linked hc.lt_size w
  have hsome (y : String) (hy : ((Request.call x).tell tally y).isSome) : (tally y).isSome := by
    by_cases hyx : y = x
    · rw [hyx, hn]
      rfl
    · rwa [Request.tell_of_ne hyx] at hy
  have hroot : ¬ (g = home x ∧ "make-counter" = "count") := fun heq => hc.apart heq.1.symm
  obtain ⟨hlinked, hknows, hmaker, hothers⟩ := hst.kept hk (by decide) hroot
  refine ⟨hc.outcome_call hst.linked hx hw (by decide), ⟨hlinked, hknows, hmaker, ?_, ?_⟩, ?_⟩
  · intro y m hm
    by_cases hyx : y = x
    · subst hyx
      rw [Request.tell_call_self, hn] at hm
      cases hm
      exact hc.ticks hst.linked hw
    · rw [Request.tell_of_ne hyx] at hm
      refine hothers y m hm (fun heq => hc.apart heq.1.symm) fun heq => hyx ?_
      exact hst.apart y x (by rw [hm]; rfl) (by rw [hn]; rfl) heq.1
  · exact fun y z hy hz => hst.apart y z (hsome y hy) (hsome z hz)
  · exact fun y => hk.binding g hc.root_lt_size y fun heq => hc.apart heq.1.symm

/-- Counters keep their counts apart if a new one keeps it where none did. -/
theorem Stands.apart_make (hst : Stands s g tally home) {h : FrameId}
    (hnew : ∀ y, (tally y).isSome → home y ≠ h) {y z : String}
    (hy : ((Request.make x).tell tally y).isSome) (hz : ((Request.make x).tell tally z).isSome)
    (heq : Function.update home x h y = Function.update home x h z) : y = z := by
  by_cases hyx : y = x
  · by_cases hzx : z = x
    · rw [hyx, hzx]
    · rw [Request.tell_of_ne hzx] at hz
      rw [hyx, Function.update_self, Function.update_of_ne hzx] at heq
      exact absurd heq.symm (hnew z hz)
  · rw [Request.tell_of_ne hyx] at hy
    by_cases hzx : z = x
    · rw [hzx, Function.update_self, Function.update_of_ne hyx] at heq
      exact absurd heq (hnew y hy)
    · rw [Request.tell_of_ne hzx] at hz
      rw [Function.update_of_ne hyx, Function.update_of_ne hzx] at heq
      exact hst.apart y z hy hz heq

/-- A counter is made: it stands at zero, and keeps its count where no counter does. -/
theorem Stands.make (hst : Stands s g tally home) (hx : x ∉ ["make-counter", "begin", "+"]) :
    s.eval g (Request.make x).expr = (.ok .unspecified, defined s g x) ∧
    Stands (defined s g x) g ((Request.make x).tell tally)
      (Function.update home x (s.frames.size + 1)) := by
  obtain ⟨id, hmaker⟩ := hst.maker
  have hg := hst.root_lt_size
  have hname : x ≠ "make-counter" ∧ x ∉ ["begin", "+"] := by
    rw [← not_or, ← List.mem_cons]
    exact hx
  have hk : s.KeepsBut g x (defined s g x) := (keepsBut_made hst.linked hg x).define _
  -- All counters that there were keep their counts in frames that there were.
  have hnew (y : String) (hy : (tally y).isSome) : home y ≠ s.frames.size + 1 := by
    obtain ⟨n, hn⟩ := Option.isSome_iff_exists.mp hy
    exact ((hst.counter y n hn).lt_size.trans (Nat.lt_succ_self _)).ne
  have heval : s.eval g (Request.make x).expr = (.ok .unspecified, defined s g x) :=
    Call.outcome_define_iff.mpr ⟨by decide, rfl, _, _, outcome_make hmaker (by decide), rfl⟩
  obtain ⟨hlinked, hknows, hmaker, hothers⟩ := hst.kept hk hname.2 fun heq => hname.1 heq.2.symm
  refine ⟨heval, hlinked, hknows, hmaker, fun y n hn => ?_, fun y z => hst.apart_make hnew⟩
  by_cases hyx : y = x
  · subst hyx
    rw [Request.tell_make_self] at hn
    cases hn
    rw [Function.update_self]
    exact counter_defined hst.linked hg hst.knows hname.2
  · rw [Request.tell_of_ne hyx] at hn
    rw [Function.update_of_ne hyx]
    exact hothers y n hn (fun heq => hyx heq.2) fun heq => (hst.counter y n hn).apart heq.1

end Standing

section Runs

variable {s : State} {past earlier later rest : List Request} {x : String}

theorem tally_concat (past : List Request) (r : Request) :
    tally (past ++ [r]) = r.tell (tally past) := by
  rw [tally, List.foldl_concat, tally]

theorem after_concat (s : State) (g : FrameId) (past : List Request) (r : Request) :
    after s g (past ++ [r]) = left ((after s g past).eval g r.expr) := by
  rw [after, List.foldl_concat, after]

/-- A counter has counted the calls since it was made last. -/
theorem tally_of_made (h : .make x ∉ later) :
    tally (earlier ++ .make x :: later) x = some (later.count (.call x)) := by
  induction later using List.reverseRecOn with
  | nil => rw [tally_concat, Request.tell_make_self, List.count_nil]
  | append_singleton later r ih =>
    rw [List.mem_append, not_or, List.mem_singleton] at h
    have hlater := ih h.1
    rw [← List.cons_append, ← List.append_assoc, tally_concat, List.count_append]
    cases r with
    | make y =>
      have hxy : x ≠ y := fun heq => h.2 (heq ▸ rfl)
      rw [Request.tell_of_ne hxy, hlater]
      simp
    | call y =>
      by_cases hxy : x = y
      · subst hxy
        rw [Request.tell_call_self, hlater]
        simp
      · rw [Request.tell_of_ne hxy, hlater]
        simp [Ne.symm hxy]

/-- One of the requests that made a counter was the last one. -/
theorem exists_made (h : .make x ∈ past) :
    ∃ earlier later, past = earlier ++ .make x :: later ∧ .make x ∉ later := by
  obtain ⟨later, earlier, hpast, hlater⟩ := List.eq_append_cons_of_mem (List.mem_reverse.mpr h)
  refine ⟨earlier.reverse, later.reverse, ?_, by rwa [List.mem_reverse]⟩
  rw [← List.reverse_reverse past, hpast]
  simp

/-- Requests that a host program may make: no counter has a name that is taken, none is called
before it was made, and none more often than a word can count. -/
structure Playable (steps : List Request) : Prop where
  usable : ∀ r ∈ steps, Usable r.name
  made : ∀ earlier x after, steps = earlier ++ .call x :: after → .make x ∈ earlier
  bounded : ∀ x, steps.count (.call x) < 2 ^ 63

theorem Playable.left (h : Playable (earlier ++ later)) : Playable earlier where
  usable r hr := h.usable r (List.mem_append_left _ hr)
  made front x after heq := h.made front x (after ++ later) (by rw [heq]; simp)
  bounded x := by
    refine Nat.lt_of_le_of_lt ?_ (h.bounded x)
    rw [List.count_append]
    exact Nat.le_add_right _ _

/-- Where `make-counter` was just defined, counters may be made. -/
theorem stands_defined {g : FrameId} (hs : s.Linked) (hg : g < s.frames.size) (hknows : Knows s g)
    (home : String → FrameId) : Stands (left (s.eval g definition)) g (tally []) home := by
  have hlambda : (Call.eval (.list [.symbol "lambda", .list [], newCounter]) g 1).outcome s =
      (.ok (.closure ⟨s.fresh, [], newCounter, g⟩), { s with fresh := s.fresh + 1 }) :=
    Call.outcome_lambda (by decide) _ _
  have heval : s.eval g definition = (.ok .unspecified,
      { s with fresh := s.fresh + 1 }.define g "make-counter"
        (.closure ⟨s.fresh, [], newCounter, g⟩)) :=
    Call.outcome_define_iff.mpr ⟨by decide, rfl, _, _, hlambda, rfl⟩
  have hkept : s.KeepsBut g "make-counter" { s with fresh := s.fresh + 1 } :=
    (State.KeepsBut.refl hs _ _).of_frames rfl
  have hk := hkept.define (.closure ⟨s.fresh, [], newCounter, g⟩)
  rw [heval]
  exact ⟨hk.later.linked, hknows.kept hk hs hg (by decide),
    ⟨s.fresh, (State.differsOnly_define (hkept.later.lt_size hg) _ _).bound⟩, nofun, nofun⟩

/-- The state after `make-counter` was defined in a new standard frame. -/
def start (s : State) : State :=
  left ((s.addFrame .standard).eval s.frames.size definition)

theorem stands_start (hs : s.Linked) (home : String → FrameId) :
    Stands (start s) s.frames.size (tally []) home := by
  have hroot : (s.addFrame .standard).Linked :=
    hs.addFrame fun o ho => by cases Frame.outer_standard.symm.trans ho
  have hknows : Knows (s.addFrame .standard) s.frames.size :=
    fun p _ => s.lookup_addFrame_standard p
  exact stands_defined hroot (s.lt_size_addFrame _) hknows home

/-- There is a word for what a counter counts to that is called next. -/
theorem Playable.exists_word
    (h : Playable (earlier ++ .make x :: (later ++ .call x :: rest))) :
    ∃ w : Int64, w.toInt = later.count (.call x) + 1 := by
  have hbound := h.bounded x
  simp only [List.count_append, List.count_cons_self, List.count_cons] at hbound
  have hfits : FitsWord (later.count (.call x) + 1 : Int) := by
    unfold FitsWord
    omega
  obtain ⟨w, hw, -⟩ := int64?_of_fits hfits
  exact ⟨w, hw⟩

theorem Playable.keyword (h : Playable (earlier ++ .call x :: rest)) :
    Keyword.ofName? x = none :=
  (h.usable (.call x) (List.mem_append_right _ (.head _))).1

/-- By induction on the requests: all counters stand at what they have counted. -/
theorem stands_after {g : FrameId} {home : String → FrameId} (hst : Stands s g (tally []) home)
    (h : Playable past) : ∃ home, Stands (after s g past) g (tally past) home := by
  induction past using List.reverseRecOn with
  | nil => exact ⟨home, hst⟩
  | append_singleton past r ih =>
    obtain ⟨home, hst⟩ := ih h.left
    rw [tally_concat, after_concat]
    cases r with
    | make x =>
      have hx : Usable x := h.usable _ (List.mem_append_right _ (.head _))
      obtain ⟨heval, hst⟩ := hst.make hx.2
      rw [heval]
      exact ⟨_, hst⟩
    | call x =>
      have hx := h.keyword
      obtain ⟨earlier, later, rfl, hlater⟩ := exists_made (h.made past x [] rfl)
      rw [List.append_assoc, List.cons_append] at h
      obtain ⟨w, hw⟩ := h.exists_word
      obtain ⟨heval, hst, -⟩ := hst.call hx (tally_of_made hlater) hw
      rw [heval]
      exact ⟨_, hst⟩

/-- Whatever counters a host program makes in a new standard frame, and in whatever order it calls
them, also while it goes on making others, the call number `n` of a counter answers `n`, and calls
change no binding of that frame. A counter that is made again starts again. -/
theorem counters_count_their_own_calls {s : State} (hs : s.Linked) {steps : List Request}
    (h : Playable steps) :
    let g := s.frames.size
    ∀ earlier later rest x, steps = earlier ++ .make x :: (later ++ .call x :: rest) →
      .make x ∉ later →
        let t := after (start s) g (earlier ++ .make x :: later)
        (∃ w : Int64, w.toInt = later.count (.call x) + 1 ∧
          (t.eval g (Request.call x).expr).1 = .ok (.int w)) ∧
        ∀ y, (left (t.eval g (Request.call x).expr)).binding? g y = t.binding? g y := by
  rintro g earlier later rest x rfl hlater t
  obtain ⟨w, hw⟩ := h.exists_word
  rw [← List.cons_append, ← List.append_assoc] at h
  obtain ⟨home, hst⟩ := stands_after (stands_start hs fun _ => 0) h.left
  obtain ⟨heval, -, hkept⟩ := hst.call h.keyword (tally_of_made hlater) hw
  exact ⟨⟨w, hw, congrArg Prod.fst heval⟩, heval ▸ hkept⟩

theorem linked_empty : State.empty.Linked := by
  rintro f o ⟨frame, hframe, -⟩
  rw [State.empty, Array.getElem?_empty] at hframe
  cases hframe

/-- Two counters by turns, the second made after the first was called. -/
theorem counters_count_their_own_calls_by_turns :
    let past : List Request := [.make "a", .call "a", .make "b", .call "b"]
    State.empty.Linked ∧ Playable (past ++ [.call "a", .call "b"]) ∧
    ((after (start .empty) 0 past).eval 0 (Request.call "a").expr).1 = .ok (.int 2) ∧
    ((after (start .empty) 0 (past ++ [.call "a"])).eval 0 (Request.call "b").expr).1 =
      .ok (.int 2) := by
  intro past
  have hplayable : Playable (past ++ [.call "a", .call "b"]) := by
    refine ⟨?_, fun earlier x after heq => ?_, fun x => ?_⟩
    · unfold Usable
      decide
    · rcases earlier with _ | ⟨_, _ | ⟨_, _ | ⟨_, _ | ⟨_, _ | ⟨_, _ | ⟨_, _⟩⟩⟩⟩⟩⟩
      all_goals simp [past] at heq
      all_goals grind
    · exact Nat.lt_of_le_of_lt List.count_le_length (by decide)
  have hcounts := counters_count_their_own_calls linked_empty hplayable
  obtain ⟨⟨w, hw, ha⟩, -⟩ := hcounts [] [.call "a", .make "b", .call "b"] [.call "b"] "a" rfl
    (by decide)
  obtain ⟨⟨w', hw', hb⟩, -⟩ := hcounts [.make "a", .call "a"] [.call "b", .call "a"] [] "b" rfl
    (by decide)
  obtain rfl : w = 2 := Int64.toInt_inj.mp hw
  obtain rfl : w' = 2 := Int64.toInt_inj.mp hw'
  exact ⟨linked_empty, hplayable, ha, hb⟩

/-- A list that the keyword `quote` is all of is an error, whatever that name is bound to. -/
theorem eval_quote (s : State) (g : FrameId) : (s.eval g (.list [.symbol "quote"])).1 =
    .error (.arity (.exactly 1) 0 (some "(quote)")) := by
  have hends : Call.ends (.eval (.list [.symbol "quote"]) g 0) s =
      some (.error (.arity (.exactly 1) 0 (some "(quote)")), s) := by
    have hform : Form.ofList [.symbol "quote"] =
        .error (.arity (.exactly 1) 0 (some "(quote)")) := rfl
    rw [Call.ends_apply, Call.body, if_neg (by decide), Call.expr, hform]
    exact Eval.inForm_error (e := .arity (.exactly 1) 0 (some "(quote)")) rfl
  exact congrArg Prod.fst (Call.ends_eq_iff.mp hends)

/-- A counter may be defined as the keyword of a form, but not be called by it: a form is told by
its keyword before any name is looked up. -/
theorem counters_hidden_by_keywords :
    "quote" ∉ ["make-counter", "begin", "+"] ∧
    ((start .empty).eval 0 (Request.make "quote").expr).1 = .ok .unspecified ∧
    ((after (start .empty) 0 [.make "quote"]).eval 0 (Request.call "quote").expr).1 =
      .error (.arity (.exactly 1) 0 (some "(quote)")) := by
  have hname : "quote" ∉ ["make-counter", "begin", "+"] := by decide
  have hst := stands_start linked_empty fun _ => 0
  exact ⟨hname, congrArg Prod.fst (hst.make hname).1, eval_quote _ 0⟩

end Runs

end Counters

end MiniLisp
