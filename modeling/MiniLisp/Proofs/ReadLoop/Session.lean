import MiniLisp.Proofs.Eval.Output
import MiniLisp.Proofs.Eval.Passing
import MiniLisp.Proofs.Scope.Writes
import MiniLisp.Proofs.Session.Offered
import MiniLisp.ReadLoop

/-!
# The read loop is a session

Taking a line is a step of a session in one standard frame that binds `help` too, whatever was
printed before it (`take_behind`). So the loop prints what the lines contribute one after the other
up to the first line to leave, and no line keeps it from going on with what the lines before it have
left (`loop_is_a_session`). That holds with any editor of the lines.
-/

namespace MiniLisp.ReadLoop

def Leaves (line : String) : Prop := trimBlank line = ":quit" ∨ trimBlank line = ":exit"

instance : DecidablePred Leaves := fun _ => inferInstanceAs (Decidable (_ ∨ _))

/-- The lines up to the first that leaves. -/
def kept (input : List String) : List String := input.takeWhile fun line => ¬ Leaves line

/-- A standard frame that binds `help` as well. -/
def session : Session := (Session.start.step (.register 0 "help" help)).2

/-- A line is evaluated, unless it is blank or a command. -/
def lineSteps (line : String) : List Step :=
  if (trimBlank line).isEmpty ∨ trimBlank line = ":help" ∨ trimBlank line = ":env" ∨ Leaves line
  then []
  else [.eval 0 (trimBlank line) false]

def steps (input : List String) : List Step := input.flatMap lineSteps

/-- What is printed of the response to a line, after what its evaluation has printed. -/
def display : Except Error Response → String
  | .error e => "Error: " ++ e.message ++ "\n"
  | .ok (.value .unspecified) => ""
  | .ok (.value v) => v.text ++ "\n"
  | .ok _ => ""

/-- What a line contributes to the output when it comes up in a session. -/
def contribution (x : Session) (line : String) : String :=
  if (trimBlank line).isEmpty then ""
  else if trimBlank line = ":help" then helpText
  else if trimBlank line = ":env" then listing (x.state.visible 0)
  else
    let (response, printed) := (x.step (.eval 0 (trimBlank line) false)).1
    printed ++ display response

/-- What lines contribute that come up in a session one after the other. -/
def contributions (x : Session) (input : List String) : List String :=
  input.mapIdx fun i line => contribution (x.after (steps (input.take i))) line

section Lines

/-- Nothing is left in the session of what its steps have printed, and its first frame is the frame
of all lines. -/
structure Ready (x : Session) : Prop where
  output : x.state.output = ""
  frame : x.frameAt 0 = 0

theorem ready_session : Ready session := ⟨rfl, rfl⟩

variable {x : Session} {line : String}

theorem step_eval (h : Ready x) (text : String) : x.step (.eval 0 text false) =
    (((x.state.evalText 0 text false).1.map .value, (x.state.evalText 0 text false).2.output),
      { x with state := { (x.state.evalText 0 text false).2 with output := "" } }) := by
  have hstate : ({ x.state with output := "" } : State) = x.state := by
    rw [← h.output]
  have hframe : ({ x with state := x.state } : Session).frameAt 0 = 0 := h.frame
  simp only [Session.step, Session.perform, hstate, hframe]
  rfl

theorem Ready.after_lineSteps (h : Ready x) (line : String) :
    Ready (x.after (lineSteps line)) := by
  unfold lineSteps
  split
  · exact h
  · rw [Session.after_cons, Session.after_nil, step_eval h]
    -- The outcome is left open, for the kernel would look into a run that stands here.
    generalize x.state.evalText 0 (trimBlank line) false = out
    exact ⟨rfl, h.frame⟩

theorem display_map_value (r : Except Error Value) : display (r.map .value) = answer r := by
  have hline (text : String) : lines [text] = text ++ "\n" := by
    simp [lines]
  cases r with
  | error e => exact (hline _).symm
  | ok v =>
    cases v with
    | unspecified => rfl
    | _ => exact (hline _).symm

theorem take_of_leaves (h : Leaves line) (s : State) : take s line = none := by
  unfold take
  rcases h with h | h
  · simp [h]
  · simp [h]

/-- Evaluating a text is a step of the session, and prints after what was printed before. -/
theorem print_answer_behind (h : Ready x) (text before : String) :
    let out := (x.state.behind before).evalText 0 text false
    let next := x.step (.eval 0 text false)
    out.2.print (answer out.1) =
      next.2.state.behind (before ++ (next.1.2 ++ display next.1.1)) := by
  simp only [step_eval h, display_map_value, State.evalText_behind]
  generalize x.state.evalText 0 text false = out
  simp only [State.behind, State.print, String.append_assoc, String.append_empty]

/-- Taking a line is a step of the session, whatever was printed before. -/
theorem take_behind (h : Ready x) (hline : ¬ Leaves line) (text : String) :
    take (x.state.behind text) line =
      some ((x.after (lineSteps line)).state.behind (text ++ contribution x line)) := by
  have hleave : ¬ (trimBlank line = ":quit" ∨ trimBlank line = ":exit") := hline
  have hprint (more : String) :
      (x.state.behind text).print more = x.state.behind (text ++ more) := by
    rw [State.print_behind, State.print_eq_behind h.output, State.behind_behind]
  unfold take lineSteps contribution
  -- The cases are those of `take`, in its order.
  by_cases hblank : (trimBlank line).isEmpty = true
  · simp only [hblank, true_or, if_true, String.append_empty]
    rfl
  by_cases hhelp : trimBlank line = ":help"
  · simp only [hhelp, true_or, or_true, if_true, hprint]
    rfl
  by_cases henv : trimBlank line = ":env"
  · simp only [henv, true_or, or_true, if_true, hprint, State.visible_behind]
    rfl
  · simp only [hblank, hhelp, henv, hleave, hline, or_self, if_false]
    exact congrArg some (print_answer_behind h (trimBlank line) text)

end Lines

section Runs

variable {edit : Editor} {x : Session} {typed input : List String}

/-- What was typed comes to the given lines once it is edited. -/
abbrev ComesTo (edit : Editor) (typed input : List String) : Prop :=
  List.Forall₂ (fun text line => edit text = some line) typed input

theorem steps_cons (line : String) (rest : List String) :
    steps (line :: rest) = lineSteps line ++ steps rest := List.flatMap_cons

theorem Ready.after_steps (h : Ready x) (input : List String) : Ready (x.after (steps input)) := by
  induction input generalizing x with
  | nil => exact h
  | cons line rest ih =>
    rw [steps_cons, Session.after_append]
    exact ih (h.after_lineSteps line)

theorem contributions_cons (x : Session) (line : String) (rest : List String) :
    contributions x (line :: rest) =
      contribution x line :: contributions (x.after (lineSteps line)) rest := by
  simp only [contributions, List.mapIdx_cons, List.take_zero, List.take_succ_cons, steps_cons,
    Session.after_append]
  rfl

/-- A line that is evaluated contributes the answer, and goes on to the session `y`. -/
theorem contributions_of_eval {y : Session} (hx : Ready x) (hy : Ready y) (hheld : x.held = y.held)
    (hline : lineSteps line ≠ []) {r : Except Error Value}
    (heval : x.state.evalText 0 (trimBlank line) false = (r, y.state)) (rest : List String) :
    contributions x (line :: rest) = answer r :: contributions y rest := by
  have hstep : x.step (.eval 0 (trimBlank line) false) = ((r.map .value, ""), y) := by
    have hclear : ({ y.state with output := "" } : State) = y.state := by
      rw [← hy.output]
    rw [step_eval hx, heval, hclear, hy.output, hheld]
  have hplain : ¬ ((trimBlank line).isEmpty ∨ trimBlank line = ":help" ∨ trimBlank line = ":env" ∨
      Leaves line) := fun hcommand => hline (if_pos hcommand)
  have hsteps : lineSteps line = [.eval 0 (trimBlank line) false] := if_neg hplain
  simp only [not_or] at hplain
  obtain ⟨hblank, hhelp, henv, -⟩ := hplain
  rw [contributions_cons, hsteps, Session.after_cons, Session.after_nil, hstep, contribution,
    if_neg hblank, if_neg hhelp, if_neg henv, hstep, ← display_map_value]
  exact congrArg (· :: _) (String.empty_append ..)

theorem contributions_of_command (hline : lineSteps line = []) (rest : List String) :
    contributions x (line :: rest) = contribution x line :: contributions x rest := by
  rw [contributions_cons, hline, Session.after_nil]

theorem step_of_take {text line : String} {s t : State} (h : edit text = some line)
    (ht : take s line = some t) : step edit s text = .ok t := by
  simp only [step, h, ht]

theorem step_of_leaves {text line : String} {s : State} (h : edit text = some line)
    (hline : Leaves line) : step edit s text = .error (leave s) := by
  simp only [step, h, take_of_leaves hline]

/-- None of the lines ends the loop, and it comes to where the session comes to. -/
theorem foldlM_step (h : Ready x) (hinput : ComesTo edit typed input)
    (hstay : ∀ line ∈ input, ¬ Leaves line) (before : String) :
    typed.foldlM (step edit) (x.state.behind before) = .ok
      ((x.after (steps input)).state.behind (before ++ String.join (contributions x input))) := by
  induction hinput generalizing x before with
  | nil =>
    change _ = Except.ok (x.state.behind (before ++ String.join []))
    rw [String.join_nil, String.append_empty]
    rfl
  | @cons text line typed input hedited _ ih =>
    rw [List.foldlM_cons, step_of_take hedited (take_behind h (hstay line (.head _)) before),
      contributions_cons, steps_cons, Session.after_append, String.join_cons,
      ← String.append_assoc]
    exact ih (h.after_lineSteps line) (fun line hline => hstay line (.tail _ hline)) _

/-- The loop prints what was printed before, what the lines contribute and the farewell. -/
theorem runFrom_behind (h : Ready x) (hinput : ComesTo edit typed input) (before : String) :
    runFrom edit (x.state.behind before) typed =
      ⟨before ++ String.join (contributions x (kept input)) ++ farewell, 0⟩ := by
  have hleave (x : Session) (h : Ready x) (before : String) :
      leave (x.state.behind before) =
        ⟨before ++ String.join (contributions x []) ++ farewell, 0⟩ := by
    simp [leave, State.behind, State.print, h.output, contributions]
  -- Every line that stays moves the session on, and what was printed so far.
  induction hinput generalizing x before with
  | nil => exact hleave x h before
  | @cons text line typed input hedited _ ih =>
    rw [runFrom]
    by_cases hline : Leaves line
    · have hkept : kept (line :: input) = [] := List.takeWhile_cons_of_neg (by simpa using hline)
      rw [step_of_leaves hedited hline, hkept]
      exact hleave x h before
    · have hkept : kept (line :: input) = line :: kept input :=
        List.takeWhile_cons_of_pos (by simpa using hline)
      rw [step_of_take hedited (take_behind h hline before), hkept, contributions_cons,
        String.join_cons, ← String.append_assoc]
      exact ih (h.after_lineSteps line) _

end Runs

section Effects

/-- Going on from `s` to `t` by a line undoes nothing: a line that cannot be read changes nothing at
all, bindings stay, and they change only by `define` or `set!`, in the line itself or in a closure
that it can come to. -/
structure UndoesNothing (s t : State) (line : String) : Prop where
  malformed {e : ParseError} : Expr.parse (trimBlank line) false = .error e → t = s
  size : s.frames.size ≤ t.frames.size
  bound {f : FrameId} {name : String} (hf : f < s.frames.size) :
    (s.binding? f name).isSome → (t.binding? f name).isSome
  changed {f : FrameId} {name : String} (hf : f < s.frames.size) :
    t.binding? f name ≠ s.binding? f name → ∃ e, Expr.parse (trimBlank line) false = .ok e ∧
      (e.Sets name ∨ (∃ c, s.ReachableClosure 0 c ∧ c.body.Sets name) ∨ f = 0 ∧ e.Defines name)

variable {x : Session}

theorem UndoesNothing.refl (s : State) (line : String) : UndoesNothing s s line :=
  ⟨fun _ => rfl, Nat.le_refl _, fun _ h => h, fun _ h => absurd rfl h⟩

theorem handsOver_help : HandsOver help.run :=
  handsOver_fixed fun K hK reply hreply => by
    cases hreply
    exact .value (hK.plain trivial)

theorem help_run_ne_internal (args : List Value) (d : Defect) :
    help.run args ≠ .error (.internal d) := by
  simp only [help, Entry.fixed]
  split
  · intro h
    cases h
  · intro h
    cases h

theorem handOver_help : HandOver [("help", help)] := by
  intro r hr
  obtain rfl := List.mem_singleton.mp hr
  exact handsOver_help

theorem registrations_steps (input : List String) : Session.registrations (steps input) = [] := by
  refine List.flatMap_eq_nil_iff.mpr fun step hstep => ?_
  obtain ⟨line, -, hstep⟩ := List.mem_flatMap.mp hstep
  unfold lineSteps at hstep
  split at hstep
  · cases hstep
  · rw [List.mem_singleton.mp hstep]
    rfl

theorem registrations_session (input : List String) :
    Session.registrations (.register 0 "help" help :: steps input) = [("help", help)] := by
  rw [Session.registrations, List.flatMap_cons, ← Session.registrations, registrations_steps]
  rfl

theorem offers_steps (input : List String) :
    (session.after (steps input)).state.Offers [("help", help)] := by
  have h := Session.offers_after Session.offers_start (.register 0 "help" help :: steps input)
  rw [registrations_session, Session.after_cons, ← session] at h
  exact h handOver_help

theorem makesNoClosures_hosts (h : x.state.Offers [("help", help)]) :
    ∀ run ∈ x.state.hosts, MakesNoClosures run := by
  intro run hrun
  rw [← Array.mem_toList_iff, h.hosts] at hrun
  obtain rfl := List.mem_singleton.mp hrun
  exact handsOver_help.handsOn.makesNoClosures

theorem undoesNothing_evalText {s : State} (hhosts : ∀ run ∈ s.hosts, MakesNoClosures run)
    (line : String) : UndoesNothing s (s.evalText 0 (trimBlank line) false).2 line := by
  cases hparse : Expr.parse (trimBlank line) false with
  | error e =>
    have heval : (s.evalText 0 (trimBlank line) false).2 = s := by
      rw [State.evalText, hparse]
    rw [heval]
    exact .refl s line
  | ok e =>
    have heval : s.evalText 0 (trimBlank line) false = (Call.eval e 0 0).outcome s := by
      rw [State.evalText, hparse]
      rfl
    have hwrites : s.WritesWithin 0 (fun y => e.Defines y)
        (fun y => e.Sets y ∨ ∃ c, s.ReachableClosure 0 c ∧ c.body.Sets y)
        ((Call.eval e 0 0).outcome s).2 :=
      writesWithin_eval (s.closed_reachable 0 fun c hc y hy => .inr ⟨c, hc, hy⟩)
        (fun run hrun => answers_of_makesNoClosures (hhosts run hrun)) .self
        (fun y hy => .inl hy) 0
    rw [heval]
    refine ⟨fun herror => ?_, hwrites.size, hwrites.kept, fun hf hchanged => ⟨e, hparse, ?_⟩⟩
    · rw [hparse] at herror
      cases herror
    · exact or_assoc.mp (hwrites.changed hf hchanged)

theorem undoesNothing_lineSteps (h : Ready x) (hoffers : x.state.Offers [("help", help)])
    (line : String) : UndoesNothing x.state (x.after (lineSteps line)).state line := by
  unfold lineSteps
  split
  · exact .refl _ _
  · rw [Session.after_cons, Session.after_nil, step_eval h]
    have hundoes := undoesNothing_evalText (makesNoClosures_hosts hoffers) line
    generalize x.state.evalText 0 (trimBlank line) false = out at hundoes ⊢
    refine ⟨fun herror => ?_, hundoes.size, hundoes.bound, hundoes.changed⟩
    rw [hundoes.malformed herror, ← h.output]

/-- A line never ends in a defect. -/
theorem not_internal_lineSteps (h : Ready x) (hoffers : x.state.Offers [("help", help)])
    (text : String) (d : Defect) : (x.step (.eval 0 text false)).1.1 ≠ .error (.internal d) := by
  rw [step_eval h]
  unfold State.evalText
  split
  · exact nofun
  · rename_i e _
    obtain ⟨-, -, herror⟩ := hoffers.outcome handOver_help (c := .eval e 0 0) trivial
    intro hd
    obtain ⟨r, hr, args, hrun⟩ := herror _ (Call.error_of_map hd) d rfl
    obtain rfl := List.mem_singleton.mp hr
    exact help_run_ne_internal args d hrun

end Effects

section Loop

theorem start_eq : start = session.state.behind banner := State.print_eq_behind rfl banner

variable {edit : Editor} {typed input : List String}

theorem not_leaves_of_mem_kept {line : String} (h : line ∈ kept input) : ¬ Leaves line := by
  simpa using List.all_eq_true.mp List.all_takeWhile line h

theorem take_eq_take_kept {n : Nat} (h : n ≤ (kept input).length) :
    input.take n = (kept input).take n := by
  obtain ⟨rest, hrest⟩ : kept input <+: input := List.takeWhile_prefix _
  conv_lhs => rw [← hrest]
  exact List.take_append_of_le_length h

/-- Whatever edits the lines, the read loop prints the banner, then for each line up to the first to
leave exactly what the line contributes, then the farewell. Before each of these lines it is in the
state of a session that has evaluated the lines before; the line undoes nothing of that, and ends in
no defect. -/
theorem loop_is_a_session (hinput : ComesTo edit typed input) :
    runWith edit typed =
      ⟨banner ++ String.join (contributions session (kept input)) ++ farewell, 0⟩ ∧
    ∀ n ≤ (kept input).length,
      let x := session.after (steps (input.take n))
      (typed.take n).foldlM (step edit) start =
        .ok (x.state.behind (banner ++ String.join (contributions session (input.take n)))) ∧
      ∀ line, UndoesNothing x.state (x.after (lineSteps line)).state line ∧
        ∀ d, (x.step (.eval 0 (trimBlank line) false)).1.1 ≠ .error (.internal d) := by
  refine ⟨?_, fun n hn => ⟨?_, fun line => ⟨?_, ?_⟩⟩⟩
  · rw [runWith, start_eq]
    exact runFrom_behind ready_session hinput banner
  · rw [start_eq]
    refine foldlM_step ready_session (List.forall₂_take n hinput) (fun line hline => ?_) banner
    rw [take_eq_take_kept hn] at hline
    exact not_leaves_of_mem_kept (List.mem_of_mem_take hline)
  · exact undoesNothing_lineSteps (ready_session.after_steps _) (offers_steps _) line
  · exact not_internal_lineSteps (ready_session.after_steps _) (offers_steps _) _

end Loop

section Visit

open Call

def visit : List String :=
  ["(define x 3)", "  ", ":help", "(* x 14)", "(car", "(set! y x)", " :env ", " :quit ", "x"]

/-- What the visit prints between the banner and the farewell. -/
def visitText : String := helpText ++ lines
  ["42",
   "Error: SyntaxError: unexpected end of input",
   "Error: Unbound symbol: y",
   "Environment bindings (71 total):",
   "",
   "Built-in functions (67):",
   "  *                +                -                /              ",
   "  <                <=               =                >              ",
   "  >=               abs              acos             acosh          ",
   "  apply            asin             asinh            atan           ",
   "  atan2            atanh            begin            car            ",
   "  cdr              ceil             cons             copysign       ",
   "  cos              cosh             degrees          eq?            ",
   "  equal?           exp              expm1            expt           ",
   "  fabs             factorial        floor            fmod           ",
   "  gcd              help             hypot            isfinite       ",
   "  isinf            isnan            length           list           ",
   "  list?            log              log10            log1p          ",
   "  log2             map              max              min            ",
   "  not              null?            number?          pow            ",
   "  print            procedure?       radians          round          ",
   "  sin              sinh             sqrt             symbol?        ",
   "  tan              tanh             trunc          ",
   "",
   "User-defined values (4):",
   "  e = 2.718281828459045",
   "  pi = 3.141592653589793",
   "  tau = 6.283185307179586",
   "  x = 3"]

/-- The session of the visit, once it has defined `x`. -/
def visited : Session := { session with state := session.state.define 0 "x" (.int 3) }

theorem lookup_visited : visited.state.lookup 0 "x" = some (.int 3) := by rfl

theorem visit_define :
    session.state.evalText 0 (trimBlank "(define x 3)") false = (.ok .unspecified, visited.state) :=
  Call.outcome_define_iff.mpr
    ⟨by decide, rfl, .int 3, session.state, ends_eq_iff.mp (ends_int (by decide) 3), rfl⟩

theorem visit_product :
    visited.state.evalText 0 (trimBlank "(* x 14)") false = (.ok (.int 42), visited.state) := by
  have hmul : visited.state.lookup 0 "*" = some (.builtin Primitive.mul.builtin) := by rfl
  have hargs : args ends 0 1 [.symbol "x", .int 14] visited.state =
      some (.ok [.int 3, .int 14], visited.state) :=
    args_cons_iff.mpr ⟨_, _, _, outcome_symbol_iff.mpr ⟨by decide, lookup_visited, rfl⟩,
      args_cons_iff.mpr ⟨_, _, _, ends_eq_iff.mp (ends_int (by decide) 14), rfl, rfl⟩, rfl⟩
  exact (outcome_call_iff rfl).mpr ⟨by decide, _, _, _, _,
    outcome_symbol_iff.mpr ⟨by decide, hmul, rfl⟩, hargs, outcome_of_run rfl rfl visited.state 0⟩

theorem visit_malformed : visited.state.evalText 0 (trimBlank "(car") false =
    (.error (.malformed ⟨.unexpectedEnd, none⟩), visited.state) := by
  have hparse : Expr.parse (trimBlank "(car") false = .error ⟨.unexpectedEnd, none⟩ := by rfl
  rw [State.evalText, hparse]

theorem visit_unbound : visited.state.evalText 0 (trimBlank "(set! y x)") false =
    (.error (.unbound "y"), visited.state) :=
  outcome_assign_unbound (by decide) (outcome_symbol_iff.mpr ⟨by decide, lookup_visited, rfl⟩) rfl

theorem join_contributions_visit :
    String.join (contributions session (kept visit)) = visitText := by
  have hready : Ready visited := ⟨rfl, rfl⟩
  have hkept : kept visit =
      ["(define x 3)", "  ", ":help", "(* x 14)", "(car", "(set! y x)", " :env "] := by decide
  rw [hkept, contributions_of_eval ready_session hready rfl (by decide) visit_define,
    contributions_of_command (by decide), contributions_of_command (by decide),
    contributions_of_eval hready hready rfl (by decide) visit_product,
    contributions_of_eval hready hready rfl (by decide) visit_malformed,
    contributions_of_eval hready hready rfl (by decide) visit_unbound,
    contributions_of_command (by decide)]
  -- No evaluation is left, only the listing of what is bound.
  decide +kernel

theorem loop_is_a_session_visit :
    ComesTo edited visit visit ∧ run visit = ⟨banner ++ visitText ++ farewell, 0⟩ := by
  have hplain : ∀ line ∈ visit, edited line = some line := by
    have hbackspace : ∀ line ∈ visit, backspace ∉ line.toList := by decide
    exact fun line hline => edited_eq_self (hbackspace line hline)
  have hvisit : ComesTo edited visit visit := List.forall₂_same.mpr hplain
  have hrun : run visit =
      ⟨banner ++ String.join (contributions session (kept visit)) ++ farewell, 0⟩ :=
    (loop_is_a_session hvisit).1
  exact ⟨hvisit, by rw [hrun, join_contributions_visit]⟩

end Visit

end MiniLisp.ReadLoop
