import Mathlib.Data.List.Infix
import MiniLisp.Proofs.Context.Innermost

/-!
# The mark of a context

The mark that stands between a message and the form it names begins with a line feed and holds no
other one. So it stands once in a message that names a form, if neither the message proper holds it
nor the form a line feed (`marks_eq_one`), and that is how errors leave the evaluation of list
forms.
-/

namespace MiniLisp

section Occurrences

variable {rest : List Char}

/-- The places in `whole` where `part` occurs. -/
def occurrences (part whole : List Char) : Nat := whole.tails.countP part.isPrefixOf

theorem occurrences_cons (part : List Char) (c : Char) (whole : List Char) :
    occurrences part (c :: whole) =
      occurrences part whole + if part.isPrefixOf (c :: whole) then 1 else 0 := by
  rw [occurrences, List.tails_cons, List.countP_cons, occurrences]

theorem occurrences_eq_zero {whole : List Char} (h : '\n' ∉ whole) :
    occurrences ('\n' :: rest) whole = 0 := by
  induction whole with
  | nil => rfl
  | cons c whole ih =>
    rw [List.mem_cons, not_or] at h
    rw [occurrences_cons, ih h.2]
    simp [List.isPrefixOf, h.1]

theorem occursIn_append {front whole : List Char} (h : '\n' ∉ front) :
    occursIn ('\n' :: rest) (front ++ whole) = occursIn ('\n' :: rest) whole := by
  induction front with
  | nil => rfl
  | cons c front ih =>
    rw [List.mem_cons, not_or] at h
    simp [occursIn, List.isPrefixOf, h.1, ih h.2]

/-- Before a part that holds one line feed only, its first character, it does not begin already. -/
theorem not_prefix_append {before after : List Char} (hrest : '\n' ∉ rest)
    (h : ¬ '\n' :: rest <+: before) (hbefore : before ≠ []) :
    ¬ '\n' :: rest <+: before ++ ('\n' :: rest ++ after) := by
  intro hprefix
  rcases List.prefix_or_prefix_of_prefix hprefix (List.prefix_append _ _) with hpart | hpart
  · exact h hpart
  · obtain ⟨others, hothers⟩ := hpart
    cases others with
    | nil => exact h (by rw [← hothers, List.append_nil])
    | cons d others =>
      rw [← hothers, List.prefix_append_right_inj] at hprefix
      have hd : d = '\n' := by
        obtain ⟨_, hd⟩ := hprefix
        rw [hothers] at hd
        exact (List.cons.inj hd).1
      obtain ⟨c, before, rfl⟩ := List.exists_cons_of_ne_nil hbefore
      obtain ⟨-, rfl⟩ := List.cons.inj hothers
      exact hrest (by simp [hd])

theorem occurrences_append {before after : List Char} (hrest : '\n' ∉ rest)
    (hbefore : occursIn ('\n' :: rest) before = false) (hafter : '\n' ∉ after) :
    occurrences ('\n' :: rest) (before ++ ('\n' :: rest ++ after)) = 1 := by
  induction before with
  | nil =>
    have hothers : '\n' ∉ rest ++ after := by simp [hrest, hafter]
    rw [List.nil_append, List.cons_append, occurrences_cons, occurrences_eq_zero hothers]
    simp [List.isPrefixOf]
  | cons c before ih =>
    simp only [occursIn, Bool.or_eq_false_iff] at hbefore
    have hfirst : ¬ '\n' :: rest <+: c :: before := by
      rw [← List.isPrefixOf_iff_prefix, hbefore.1]
      exact Bool.false_ne_true
    have hnot : ¬ '\n' :: rest <+: c :: before ++ ('\n' :: rest ++ after) :=
      not_prefix_append hrest hfirst (List.cons_ne_nil _ _)
    rw [List.cons_append] at hnot ⊢
    rw [occurrences_cons, ih hbefore.2, if_neg (by rwa [List.isPrefixOf_iff_prefix])]

end Occurrences

namespace Error

/-- How often the mark of a context stands in a message. -/
def marks (message : String) : Nat := occurrences contextMark.toList message.toList

theorem marks_eq_one {kind message form : String} (hkind : '\n' ∉ kind.toList)
    (hmessage : marked message none = false) (hform : '\n' ∉ form.toList) :
    marks (kind ++ inContext message (some form)) = 1 := by
  have hmark : contextMark.toList = '\n' :: contextMark.toList.tail := by decide
  have hrest : '\n' ∉ contextMark.toList.tail := by decide
  have hbefore : occursIn contextMark.toList (kind.toList ++ message.toList) = false := by
    rw [hmark, occursIn_append hkind, ← hmark]
    exact hmessage
  rw [marks, inContext, String.toList_append, String.toList_append, String.toList_append,
    List.append_assoc, ← List.append_assoc]
  rw [hmark] at hbefore ⊢
  exact occurrences_append hrest hbefore hform

/-- An error that names a form marks it once. -/
theorem Neat.marks_withContext {e : Error} (h : e.Neat) (hnames : ¬ e.Silent) {form : String}
    (hform : '\n' ∉ form.toList) : marks (e.withContext form).message = 1 := by
  cases e with
  | type cause context =>
    obtain ⟨hmessage, hcontext⟩ := h
    cases context with
    | none =>
      rw [Error.withContext, if_neg (ne_true_of_eq_false hmessage)]
      exact marks_eq_one (by decide) hmessage hform
    | some form' => exact marks_eq_one (by decide) hmessage (hcontext form' rfl)
  | eval cause context =>
    obtain ⟨hmessage, hcontext⟩ := h
    cases context with
    | none =>
      rw [Error.withContext, if_neg (ne_true_of_eq_false hmessage)]
      exact marks_eq_one (by decide) hmessage hform
    | some form' => exact marks_eq_one (by decide) hmessage (hcontext form' rfl)
  | _ => exact absurd trivial hnames

end Error

namespace Call

/-- An error that leaves a list form does not change any more when that form is named in it. -/
theorem withContext_eq_of_outcome {items : List Expr} {f : FrameId} {depth : Nat}
    (hdepth : depth < evalLimit) {s : State} {e : Error}
    (h : ((Call.eval (.list items) f depth).outcome s).1 = .error e) :
    e.withContext (Expr.list items).text = e := by
  obtain ⟨n, hn⟩ := outcome_eq_iff.mp (rfl : (Call.eval (.list items) f depth).outcome s = _)
  cases n with
  | zero => cases hn
  | succ n =>
    rw [run, body, if_neg (Nat.not_le_of_lt hdepth), expr, Eval.inForm_eq_naming] at hn
    obtain ⟨⟨r, t⟩, -, hr⟩ := Option.map_eq_some_iff.mp hn
    rw [← hr] at h
    cases r with
    | ok v => cases h
    | error e' =>
      cases h
      exact Error.named_named (some (.list items)) (.list items) e'

theorem neat_of_outcome {e : Expr} (he : e.OneLine) {s : State} (hs : s.OneLine)
    (hhosts : ∀ run ∈ s.hosts, Tidy run) {f : FrameId} {depth : Nat} {err : Error}
    (h : ((Call.eval e f depth).outcome s).1 = .error err) : err.Neat := by
  have hcall : (Call.eval e f depth).Alike (Watch.leaving s.stage) s.stage (.eval e f depth) :=
    .eval he (Likeness.diagonal_oneLine.upto_frame_iff.mpr ⟨rfl, .inl trivial⟩) trivial
  have hagrees := (outcome_relates (Watch.leaving s.stage) (hs.states hhosts) trivial hcall).agrees
  rw [h] at hagrees
  cases hagrees with
  | error herr => exact herr

/-- Evaluation of an expression that was read goes as the reference evaluator does, which names the
innermost list form where errors are raised. An error of a kind that names forms leaves a list form
with one mark, and errors of other kinds are never changed. No text may hold a line feed, and the
errors of host functions no mark. -/
theorem innermost_form_is_named {source : String} {strict : Bool} {e : Expr}
    (hread : Expr.parse source strict = .ok e) {s : State} (hs : s.OneLine)
    (hhosts : ∀ run ∈ s.hosts, Tidy run) (f : FrameId) (depth : Nat) :
    (∀ fuel, run fuel (.eval e f depth) s = runIn fuel none (.eval e f depth) s) ∧
    (∃ fuel, runIn fuel none (.eval e f depth) s = some ((Call.eval e f depth).outcome s)) ∧
    (∀ items err, e = .list items → depth < evalLimit → ¬ err.Silent →
      ((Call.eval e f depth).outcome s).1 = .error err → Error.marks err.message = 1) ∧
    ∀ (err : Error) inner, err.Silent → err.raisedIn inner = err ∧ err.named inner = err := by
  have he := Expr.oneLine_of_parse hread
  have hrun := run_eq_runIn he hs hhosts f depth
  refine ⟨hrun, ?_, fun items err hitems hdepth hnames herr => ?_, fun err inner hsilent => ?_⟩
  · obtain ⟨n, hn⟩ := outcome_eq_iff.mp (rfl : (Call.eval e f depth).outcome s = _)
    exact ⟨n, by rw [← hrun, hn]⟩
  · have hneat := neat_of_outcome he hs hhosts herr
    subst hitems
    have hform : '\n' ∉ (Expr.list items).text.toList :=
      Likeness.text_ofCode (Likeness.leaving s.stage) he
    have hmarks := hneat.marks_withContext hnames hform
    rwa [withContext_eq_of_outcome hdepth herr] at hmarks
  · have hnamed := hsilent.named_eq inner
    exact ⟨(hsilent.unmarked.raisedIn_eq inner).trans hnamed, hnamed⟩

/-- An error in the body of a closure names the innermost form of that body. -/
theorem innermost_form_is_named_in_closure :
    let e : Expr :=
      .list [.list [.symbol "lambda", .list [.symbol "x"], .list [.symbol "x"]], .int 5]
    let err : Error := .type (.notProcedure (Value.int 5).shown) (some "(x)")
    Expr.parse "((lambda (x) (x)) 5)" true = .ok e ∧
    ∃ entry, Host.entry? "second" = some entry ∧
      let s := (State.empty.addFrame (.empty none)).register 0 "second" entry.arity entry.run
      s.OneLine ∧ (∀ run ∈ s.hosts, Tidy run) ∧
      ((Call.eval e 0 0).outcome s).1 = .error err ∧ Error.marks err.message = 1 ∧
      ∃ fuel, runIn fuel none (.eval e 0 0) s = some ((Call.eval e 0 0).outcome s) := by
  intro e err
  have hscan : Token.scan "((lambda (x) (x)) 5)" =
      [.opening, .opening, .word "lambda", .opening, .word "x", .closing, .opening, .word "x",
        .closing, .closing, .word "5", .closing] := by decide +kernel
  have hlambda : Expr.ofWord "lambda" = .symbol "lambda" := rfl
  have hx : Expr.ofWord "x" = .symbol "x" := rfl
  have hfive : Expr.ofWord "5" = .int 5 := rfl
  have hread : Expr.parse "((lambda (x) (x)) 5)" true = .ok e := by
    rw [Expr.parse, hscan]
    simp [Expr.ofTokens, Expr.parseTokens, Expr.conclude, nestingLimit, hlambda, hx, hfive, e]
  obtain ⟨entry, hentry⟩ : ∃ entry, Host.entry? "second" = some entry := ⟨_, rfl⟩
  refine ⟨hread, entry, hentry, ?_⟩
  intro s
  have hid : '\n' ∉ "second".toList := by decide
  have hline : s.OneLine := by
    intro f x v hv
    simp only [s, State.register] at hv
    rw [State.binding?_define] at hv
    split at hv
    · cases hv
      exact .builtin hid
    · cases f with
      | zero => simp [State.binding?, State.addFrame, State.empty, Frame.empty] at hv
      | succ f => cases hv
  have hhosts : ∀ run ∈ s.hosts, Tidy run := by
    intro run hrun
    have heq : run = entry.run := by
      simpa [s, State.register, State.define, State.addFrame, State.empty] using hrun
    rw [heq]
    exact tidy_entry hentry
  have hrun : (Call.run 6 (.eval e 0 0) s).map (·.1) = some (.error err) := rfl
  have houtcome : ((Call.eval e 0 0).outcome s).1 = .error err := seen_outcome_of_run hrun
  obtain ⟨-, hends, hmarks, -⟩ := innermost_form_is_named hread hline hhosts 0 0
  exact ⟨hline, hhosts, houtcome, hmarks _ err rfl (by decide) id houtcome, hends⟩

end Call

end MiniLisp
