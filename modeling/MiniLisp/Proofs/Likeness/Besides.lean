import MiniLisp.Proofs.Likeness.Shift
import MiniLisp.Proofs.Scope.Standard
import MiniLisp.Proofs.Session.Renaming

/-!
# Runs that do not mention a name

Two runs are compared that differ in what a name means, and maybe in how far they have counted. What
they come to is alike as long as no code mentions the name; such code neither looks it up nor binds
it (`Watch.untouched`).
-/

namespace MiniLisp

variable {s t : State} {x y : String} {g : FrameId} {e : Expr}

/-- The name occurs in the expression as a symbol. -/
def Expr.Mentions (x : String) (e : Expr) : Prop := Within (.symbol x) e

namespace Expr

@[simp] theorem mentions_symbol_iff : (symbol y).Mentions x ↔ x = y := by
  constructor
  · intro h
    cases h
    rfl
  · rintro rfl
    exact .self _

@[simp] theorem not_mentions_int (n : Int64) : ¬ (int n).Mentions x := nofun

@[simp] theorem not_mentions_float (a : Float) : ¬ (float a).Mentions x := nofun

@[simp] theorem mentions_list_iff {items : List Expr} :
    (list items).Mentions x ↔ ∃ e ∈ items, e.Mentions x := by
  constructor
  · intro h
    cases h with
    | item he h => exact ⟨_, he, h⟩
  · rintro ⟨e, he, h⟩
    exact .item he h

theorem Mentions.item {items : List Expr} (h : e.Mentions x) (he : e ∈ items) :
    (list items).Mentions x := mentions_list_iff.mpr ⟨e, he, h⟩

/-- A form that does not mention the name is about another one. -/
theorem ne_of_not_mentions {keyword value : Expr}
    (h : ¬ (list [keyword, symbol y, value]).Mentions x) : y ≠ x := by
  rintro rfl
  exact h (.item (mentions_symbol_iff.mpr rfl) (.tail _ (.head _)))

end Expr

section Runs

/-- The likeness of two runs that differ in what `x` means, and in how far they have counted. -/
def Likeness.besides (x : String) {kind kind' : Nat → Prop} {start start' : Stage}
    (hframe : Settled kind start.frames start'.frames) (hid : Settled kind' start.ids start'.ids) :
    Likeness where
  frame := .shifted hframe
  id := .shifted hid
  host := Eq
  name y := y ≠ x
  code e := ¬ e.Mentions x
  text _ := True
  error _ := True
  code_item h he hx := h (hx.item he)
  name_of_code h := by
    rintro rfl
    exact h (.self _)
  text_of_code _ := trivial
  text_append _ _ := trivial
  text_of_line _ := trivial
  error_of_silent _ := trivial
  error_of_type _ := trivial
  error_of_eval _ := trivial

variable {kind kind' : Nat → Prop} {start start' st : Stage}
  {hframe : Settled kind start.frames start'.frames} {hid : Settled kind' start.ids start'.ids}

theorem Likeness.shifts_besides : (Likeness.besides x hframe hid).Shifts start start' :=
  ⟨fun hab => (Pairing.upto_shifted_iff (h := hframe).mp hab).1,
    fun hab => (Pairing.upto_shifted_iff (h := hid).mp hab).1, rfl⟩

/-- The code of closures that are alike does not mention the name, and their frames belong
together. -/
theorem Value.Alike.closure_besides {v w : Value} (h : v.Alike (.besides x hframe hid) st w)
    {c : Closure} (hc : v.Holds c) : x ∉ c.params ∧ ¬ c.body.Mentions x ∧
      (Pairing.shifted hframe).Upto st.frames c.frame
        (shift start.frames start'.frames c.frame) := by
  induction h with
  | @list i j vs ws _ hlength _ ih =>
    cases hc with
    | item hv hc =>
      obtain ⟨w, hmem⟩ := Value.exists_mem_zip hlength hv
      exact ih hmem hc
  | closure _ hparams hbody hframe =>
    cases hc
    have heq := Likeness.shifts_besides.frame hframe
    exact ⟨fun hx => hparams x hx rfl, hbody, heq ▸ hframe⟩
  | _ => cases hc

/-- Values that differ in numbers only are alike if their closures do not mention the name. -/
theorem Value.Alike.besides {p q : Pairing} {v w : Value} (h : v.Alike (.renaming p q Eq) st w)
    (hq : ∀ {i j : Nat}, q.Upto st.ids i j → (Pairing.shifted hid).Upto st.ids i j)
    (hclosure : ∀ c, v.Holds c → x ∉ c.params ∧ ¬ c.body.Mentions x ∧
      ∀ g, p.Upto st.frames c.frame g → (Pairing.shifted hframe).Upto st.frames c.frame g) :
    v.Alike (.besides x hframe hid) st w := by
  induction h with
  | int n => exact .int n
  | float x => exact .float x
  | symbol _ => exact .symbol trivial
  | bool b => exact .bool b
  | list hij hlength _ ih =>
    refine .list (hq hij) hlength fun hmem => ih hmem fun c hc => hclosure c ?_
    exact .item (List.of_mem_zip hmem).1 hc
  | builtin _ ho =>
    refine .builtin trivial ?_
    cases ho with
    | primitive p => exact .primitive p
    | host h => exact .host h
    | higher h => exact .higher h
  | closure hij _ _ hfg =>
    obtain ⟨hparams, hbody, hupto⟩ := hclosure _ .self
    exact .closure (hq hij) (fun y hy hx => hparams (hx ▸ hy)) hbody (hupto _ hfg)
  | unspecified => exact .unspecified

theorem Draft.Alike.besides {p q : Pairing} {d d' : Draft} (h : d.Alike (.renaming p q Eq) st d')
    (hq : ∀ {i j : Nat}, q.Upto st.ids i j → (Pairing.shifted hid).Upto st.ids i j)
    (hclosure : ∀ c, d.Holds c → x ∉ c.params ∧ ¬ c.body.Mentions x ∧
      ∀ g, p.Upto st.frames c.frame g → (Pairing.shifted hframe).Upto st.frames c.frame g) :
    d.Alike (.besides x hframe hid) st d' := by
  induction h with
  | value h => exact .value (h.besides hq fun c hc => hclosure c (.value hc))
  | list hlength _ ih =>
    refine .list hlength fun hmem => ih hmem fun c hc => hclosure c ?_
    exact .item (List.of_mem_zip hmem).1 hc

/-- Host functions that make no closures do not come to mention the name. -/
theorem answers_besides {run : HostFunction} (hrun : MakesNoClosures run) {p q : Pairing}
    (hanswers : (Likeness.renaming p q Eq).Answers run run)
    (hp : ∀ {n f g : Nat}, (Pairing.shifted hframe).Upto n f g → p.Upto n f g)
    (hq : ∀ {n i j : Nat}, (Pairing.shifted hid).Upto n i j ↔ q.Upto n i j) :
    (Likeness.besides x hframe hid).Answers run run := by
  intro st vs ws hvs
  have hrenamed : Value.AllAlike (.renaming p q Eq) st vs ws :=
    hvs.imp fun _ _ h => h.grow ⟨hp, hq.mp, id, fun _ => trivial, fun _ => trivial, id⟩
  have hagrees := hanswers st vs ws hrenamed
  cases hreply : run vs with
  | error e =>
    rw [hreply] at hagrees
    generalize run ws = r at hagrees ⊢
    cases hagrees with
    | error => exact .error trivial
  | ok reply =>
    rw [hreply] at hagrees
    generalize run ws = r at hagrees ⊢
    cases hagrees with
    | ok h =>
      refine .ok ⟨h.draft.besides hq.mpr fun c hc => ?_, h.printed⟩
      obtain ⟨v, hv, hheld⟩ := hrun vs reply hreply c hc
      obtain ⟨w, hmem⟩ := Value.exists_mem_zip hvs.length_eq hv
      obtain ⟨hparams, hbody, hframes⟩ :=
        ((List.forall₂_iff_zip.mp hvs).2 hmem).closure_besides hheld
      refine ⟨hparams, hbody, fun g hg => ?_⟩
      rwa [← ((hp hframes).unique hg).mp rfl]

/-- Where both runs count from the same point on, alike arguments are the same. -/
theorem answers_besides_of_eq (hstart : start = start') (hkind : ∀ i, kind' i) {run : HostFunction}
    (hrun : MakesNoClosures run) : (Likeness.besides x hframe hid).Answers run run := by
  subst hstart
  have hall : (Likeness.within (fun _ => True) start (fun _ => True) fun _ _ => trivial).Answers
      run run := answers_of_all fun _ => ⟨trivial, trivial⟩
  have hrenaming : (Likeness.renaming (.same (fun _ => True) start.frames)
      (.same (fun _ => True) start.ids) Eq).Answers run run := hall
  refine answers_besides hrun hrenaming (fun {n f g} hfg => ?_) fun {n i j} => ?_
  · obtain ⟨rfl, -⟩ := Pairing.upto_shifted_iff.mp hfg
    rw [shift_self]
    exact Pairing.upto_same_iff.mpr ⟨rfl, .inl trivial⟩
  · rw [Pairing.upto_shifted_iff, Pairing.upto_same_iff, shift_self]
    simp only [hkind, true_or, and_true, eq_comm]

/-- The name is bound where it was bound in `s`, and to the same. -/
structure State.Untouched (s : State) (x : String) (t : State) : Prop where
  size : s.frames.size ≤ t.frames.size
  binding (g : FrameId) : t.binding? g x = s.binding? g x

theorem State.Untouched.define (h : s.Untouched x t) (hy : y ≠ x) (v : Value) :
    s.Untouched x (t.define g y v) := by
  refine ⟨by simpa [State.define] using h.size, fun g' => ?_⟩
  rw [State.binding?_define, if_neg fun hg => hy hg.2]
  exact h.binding g'

theorem State.Untouched.addFrame (h : s.Untouched x t) {bs : List (String × Value)}
    (hbs : ∀ b ∈ bs, b.1 ≠ x) (outer : Option FrameId) :
    s.Untouched x (t.addFrame ⟨Std.TreeMap.ofList bs, outer⟩) := by
  have hsize := h.size
  refine ⟨by simp only [State.addFrame, Array.size_push]; omega, fun g => ?_⟩
  rw [← h.binding g]
  by_cases hg : g = t.frames.size
  · have hnone : (Std.TreeMap.ofList bs : Bindings)[x]? = none :=
      Option.eq_none_iff_forall_not_mem.mpr fun v hv => hbs _ (Frame.mem_of_getElem?_ofList hv) rfl
    simp [State.binding?, State.addFrame, hg, hnone]
  · simp [State.binding?, State.addFrame, Array.getElem?_push, hg]

/-- Watches that the name is not bound anew, and no binding of it changes. -/
def Watch.untouched (s : State) : Watch (.besides x hframe hid) where
  holds t := s.Untouched x t
  task e _ := ¬ e.Mentions x
  error_withContext := Likeness.error_of_all _ fun _ => trivial
  task_part htask hshape he hx := htask (hx.item (hshape.mem_of_mem_parts he))
  task_code hcode _ := hcode
  holds_of_frames hframes h :=
    ⟨hframes ▸ h.size, fun g => by rw [← h.binding g, State.binding?, State.binding?, hframes]⟩
  holds_addFrame outer hnames h := h.addFrame hnames (some outer)
  holds_define v h _ htask := h.define (Expr.ne_of_not_mentions htask) v
  holds_assign v h _ hcode _ := h.define (Expr.ne_of_not_mentions hcode) v

end Runs

end MiniLisp
