import MiniLisp.Proofs.Expr.Reread
import MiniLisp.Proofs.Likeness.Host
import MiniLisp.Proofs.Likeness.Within

/-!
# Texts of one line

A line feed is blank, so no expression that was read holds one in a symbol. From states and with
host functions that keep to one line, errors are raised only with messages that do not hold the mark
of a context, for the mark begins with a line feed.
-/

namespace MiniLisp

/-- No symbol in the expression holds a line feed. -/
def Expr.OneLine (e : Expr) : Prop := ∀ x, Within (.symbol x) e → '\n' ∉ x.toList

/-- No symbol in the value and in the bodies of its closures holds a line feed, and no identifier of
its builtin procedures. -/
inductive Value.OneLine : Value → Prop where
  | int (n : Int64) : OneLine (.int n)
  | float (x : Float) : OneLine (.float x)
  | symbol {name : String} (h : '\n' ∉ name.toList) : OneLine (.symbol name)
  | bool (b : Bool) : OneLine (.bool b)
  | list {id : Nat} {items : List Value} (h : ∀ v ∈ items, OneLine v) : OneLine (.list id items)
  | builtin {b : Builtin} (h : '\n' ∉ b.id.toList) : OneLine (.builtin b)
  | closure {c : Closure} (h : c.body.OneLine) : OneLine (.closure c)
  | unspecified : OneLine .unspecified

inductive Draft.OneLine : Draft → Prop where
  | value {v : Value} (h : v.OneLine) : OneLine (.value v)
  | list {items : List Draft} (h : ∀ d ∈ items, OneLine d) : OneLine (.list items)

/-- All values that frames bind keep to one line. -/
def State.OneLine (s : State) : Prop := ∀ f x v, s.binding? f x = some v → v.OneLine

namespace Error

/-- The error does not name a form, and its message does not look as if it did. -/
def Unmarked : Error → Prop
  | type cause context => marked cause.message context = false
  | eval cause context => marked cause.message context = false
  | _ => True

/-- The message proper does not hold the mark, and the form that the error names keeps to one
line. -/
def Neat : Error → Prop
  | type cause context =>
    marked cause.message none = false ∧ ∀ form, context = some form → '\n' ∉ form.toList
  | eval cause context =>
    marked cause.message none = false ∧ ∀ form, context = some form → '\n' ∉ form.toList
  | _ => True

theorem occursIn_eq_false {rest whole : List Char} (h : '\n' ∉ whole) :
    occursIn ('\n' :: rest) whole = false := by
  induction whole with
  | nil => rfl
  | cons c whole ih =>
    rw [List.mem_cons, not_or] at h
    simp [occursIn, List.isPrefixOf, h.1, ih h.2]

/-- A message of one line does not hold the mark. -/
theorem marked_eq_false {message : String} (h : '\n' ∉ message.toList) :
    marked message none = false :=
  occursIn_eq_false h

theorem eq_none_of_marked {message : String} {context : Option String}
    (h : marked message context = false) : context = none := by
  cases context with
  | none => rfl
  | some form => cases h

theorem Unmarked.neat {e : Error} (h : e.Unmarked) : e.Neat := by
  cases e with
  | type cause context =>
    cases eq_none_of_marked h
    exact ⟨h, fun form hform => by cases hform⟩
  | eval cause context =>
    cases eq_none_of_marked h
    exact ⟨h, fun form hform => by cases hform⟩
  | _ => trivial

theorem Silent.unmarked {e : Error} (h : e.Silent) : e.Unmarked := by
  cases e with
  | type => exact h.elim
  | eval => exact h.elim
  | _ => trivial

theorem Neat.withContext {e : Error} (h : e.Neat) {form : String} (hform : '\n' ∉ form.toList) :
    (e.withContext form).Neat := by
  have hnew (form' : String) (h' : some form = some form') : '\n' ∉ form'.toList := by
    cases h'
    exact hform
  cases e with
  | type cause context =>
    simp only [Error.withContext]
    split
    · exact h
    · exact ⟨h.1, hnew⟩
  | eval cause context =>
    simp only [Error.withContext]
    split
    · exact h
    · exact ⟨h.1, hnew⟩
  | _ => trivial

end Error

/-- Handed values of one line, the host function answers with such a value, and the errors that it
makes itself do not hold the mark. -/
structure Tidy (run : HostFunction) : Prop where
  reply {args : List Value} {reply : Reply} (hargs : ∀ v ∈ args, v.OneLine)
    (h : run args = .ok reply) : reply.draft.OneLine
  error {args : List Value} {e : Error} (hargs : ∀ v ∈ args, v.OneLine)
    (h : run args = .error e) : e.Unmarked

/-- The likeness of a run with itself that keeps to one line. -/
def Likeness.oneLine (start : Stage) (error : Error → Prop)
    (unmarked : ∀ {e : Error}, e.Unmarked → error e) : Likeness where
  frame := .same (fun _ => True) start.frames
  id := .same (fun _ => True) start.ids
  host := Eq
  name _ := True
  code := Expr.OneLine
  text a := '\n' ∉ a.toList
  error
  code_item h he x hx := h x (.item he hx)
  name_of_code _ := trivial
  text_of_code h := h _ (.self _)
  text_append ha hb := by
    rw [String.toList_append, List.mem_append]
    exact not_or.mpr ⟨ha, hb⟩
  text_of_line h := h
  error_of_silent h := unmarked h.unmarked
  error_of_type h := unmarked (Error.marked_eq_false h)
  error_of_eval h := unmarked (Error.marked_eq_false h)

section Alike

variable {start st : Stage} {error : Error → Prop}
  {unmarked : ∀ {e : Error}, e.Unmarked → error e}

theorem Likeness.diagonal_oneLine :
    (Likeness.oneLine start error unmarked).Diagonal (fun _ => True) start :=
  ⟨rfl, rfl, rfl⟩

theorem Value.OneLine.alike {v : Value} (h : v.OneLine) :
    v.Alike (.oneLine start error unmarked) st v := by
  have hid (i : Nat) : (Likeness.oneLine start error unmarked).id.Upto st.ids i i :=
    Likeness.diagonal_oneLine.upto_id_iff.mpr rfl
  induction h with
  | int n => exact .int n
  | float x => exact .float x
  | symbol h => exact .symbol h
  | bool b => exact .bool b
  | list _ ih => exact .listOf (hid _) (List.forall₂_same.mpr ih)
  | @builtin b h =>
    obtain ⟨id, arity, operation⟩ := b
    refine .builtin h ?_
    cases operation with
    | primitive p => exact .primitive p
    | host i => exact .host rfl
    | higher operation => exact .higher operation
  | closure h =>
    exact .closure (hid _) (fun _ _ => trivial) h
      (Likeness.diagonal_oneLine.upto_frame_iff.mpr ⟨rfl, .inl trivial⟩)
  | unspecified => exact .unspecified

theorem Value.oneLine_of_alike {v w : Value}
    (h : v.Alike (.oneLine start error unmarked) st w) : v.OneLine := by
  induction h with
  | int n => exact .int n
  | float x => exact .float x
  | symbol h => exact .symbol h
  | bool b => exact .bool b
  | list _ hlength _ ih =>
    refine .list fun v hv => ?_
    obtain ⟨w, hmem⟩ := exists_mem_zip hlength hv
    exact ih hmem
  | builtin hid _ => exact .builtin hid
  | closure _ _ hbody _ => exact .closure hbody
  | unspecified => exact .unspecified

theorem Value.oneLine_of_allAlike {vs ws : List Value}
    (h : AllAlike (.oneLine start error unmarked) st vs ws) : ∀ v ∈ vs, v.OneLine := by
  intro v hv
  obtain ⟨w, hmem⟩ := exists_mem_zip h.length_eq hv
  exact oneLine_of_alike ((List.forall₂_iff_zip.mp h).2 hmem)

theorem Value.allAlike_of_oneLine {vs : List Value} (h : ∀ v ∈ vs, v.OneLine) :
    AllAlike (.oneLine start error unmarked) st vs vs :=
  List.forall₂_same.mpr fun v hv => (h v hv).alike

theorem Draft.OneLine.alike {d : Draft} (h : d.OneLine) :
    d.Alike (.oneLine start error unmarked) st d := by
  induction h with
  | value h => exact .value h.alike
  | list _ ih => exact alike_list_iff.mpr (List.forall₂_same.mpr ih)

theorem Draft.oneLine_of_alike {d e : Draft}
    (h : d.Alike (.oneLine start error unmarked) st e) : d.OneLine := by
  induction h with
  | value h => exact .value (Value.oneLine_of_alike h)
  | list hlength _ ih =>
    refine .list fun d hd => ?_
    obtain ⟨e, hmem⟩ := Value.exists_mem_zip hlength hd
    exact ih hmem

/-- Tidy host functions answer alike to arguments of one line. -/
theorem Tidy.answers {run : HostFunction} (h : Tidy run) :
    (Likeness.oneLine start error unmarked).Answers run run := by
  intro st vs ws hvs
  have hargs := Value.oneLine_of_allAlike hvs
  have heq := Likeness.diagonal_oneLine.eq_of_allAlike hvs
  subst heq
  cases hrun : run vs with
  | error e => exact .error (unmarked (h.error hargs hrun))
  | ok reply => exact .ok ⟨(h.reply hargs hrun).alike, rfl⟩

theorem State.OneLine.states {s : State} (h : s.OneLine)
    (hhosts : ∀ run ∈ s.hosts, Tidy run) :
    (Likeness.oneLine s.stage error unmarked).States s s :=
  Likeness.diagonal_oneLine.states (fun _ _ => trivial) (fun _ _ hv => (h _ _ _ hv).alike) rfl rfl
    rfl rfl (fun _ _ => rfl) fun run hrun => (hhosts run hrun).answers

end Alike

/-- The likeness of runs of one line that allows the errors that may be raised. -/
abbrev Likeness.raising : Likeness := .oneLine ⟨0, 0⟩ Error.Unmarked fun h => h

theorem Value.OneLine.text {v : Value} (h : v.OneLine) : '\n' ∉ v.text.toList :=
  (h.alike : v.Alike .raising ⟨0, 0⟩ v).text

theorem unmarked_of_agrees {α β : Type} {V : α → β → Prop} {r : Except Error α}
    {r' : Except Error β} (h : Likeness.raising.Agrees V r r') {e : Error} (he : r = .error e) :
    e.Unmarked := by
  cases h with
  | error h =>
    cases he
    exact h
  | ok => cases he

/-- All procedures that a host program may register are tidy. -/
theorem tidy_entry {kind : String} {entry : Entry} (h : Host.entry? kind = some entry) :
    Tidy entry.run where
  reply {args reply} hargs hrun := by
    have hagrees := Host.answers_entry h .raising ⟨0, 0⟩ _ _ (Value.allAlike_of_oneLine hargs)
    rw [hrun] at hagrees
    cases hagrees with
    | ok hreply => exact Draft.oneLine_of_alike hreply.draft
  error hargs hrun :=
    unmarked_of_agrees (Host.answers_entry h .raising ⟨0, 0⟩ _ _ (Value.allAlike_of_oneLine hargs))
      hrun

section Reading

namespace Tree

mutual

/-- The symbols in an expression that was read are words that it was read from. -/
theorem word_of_within : ∀ (t : Tree) {x : String}, Expr.Within (.symbol x) t.expr →
    .word x ∈ t.tokens
  | word text, x, h => by
    rcases Expr.ofWord_cases text with ⟨n, hw⟩ | ⟨y, hw⟩ | hw
    · rw [expr, hw] at h
      cases h
    · rw [expr, hw] at h
      cases h
    · rw [expr, hw] at h
      cases h
      simp [tokens]
  | list items, x, h => by
    rw [expr] at h
    cases h with
    | item he h => simp [tokens, word_of_within_all items he h]

theorem word_of_within_all : ∀ (items : List Tree) {x : String} {e : Expr}, e ∈ exprs items →
    Expr.Within (.symbol x) e → .word x ∈ tokensAll items
  | t :: rest, x, e, he, h => by
    rw [exprs, List.mem_cons] at he
    rw [tokensAll, List.mem_append]
    rcases he with rfl | he
    · exact .inl (word_of_within t h)
    · exact .inr (word_of_within_all rest he h)

end

end Tree

/-- Expressions that were read keep to one line. -/
theorem Expr.oneLine_of_parse {source : String} {strict : Bool} {e : Expr}
    (h : parse source strict = .ok e) : e.OneLine := by
  intro x hx hfeed
  obtain ⟨t, rfl, hwords, -⟩ := ofTokens_map h
  have hword : IsWord x := Token.isWord_of_mem_scan (hwords x (t.word_of_within hx))
  exact absurd (hword.letters _ hfeed).notBlank (by decide)

end Reading

end MiniLisp
