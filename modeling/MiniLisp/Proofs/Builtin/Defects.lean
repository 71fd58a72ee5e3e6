import MiniLisp.Proofs.Eval.Invariant
import MiniLisp.Proofs.Eval.Primitive
import Mathlib.Order.CompletePartialOrder

/-!
# No builtin procedure has a defect

Whatever a builtin procedure is given, and whether or not its arguments are counted first, it does
not run into a defect of its own (`builtins_have_no_defects`). `apply` and `map` call procedures
of the host, and a defect that one of those answers with is handed on.
-/

namespace MiniLisp

/-- A defect that the error is, if it is one, is that of a host function, or that there is no such
host function. -/
def Error.FromHost (hosts : Array HostFunction) (e : Error) : Prop :=
  ∀ d, e = .internal d →
    d = .hostMissing ∨ ∃ run ∈ hosts, ∃ args, run args = .error (.internal d)

theorem Error.fromHost_of_not_isDefect {hosts : Array HostFunction} {e : Error}
    (h : ¬ e.IsDefect) : e.FromHost hosts := by
  rintro d rfl
  exact absurd trivial h

/-- Runs keep nothing but that their errors are accounted for. -/
def Invariant.defects (hosts : Array HostFunction) : Invariant Unit where
  value _ _ := True
  frame _ _ := True
  hosted _ := False
  shape _ _ _ := True
  error := Error.FromHost hosts
  inheritable _ := ⟨fun _ => trivial, fun _ _ _ => trivial⟩
  value_mono _ _ := trivial
  frame_mono _ _ := trivial
  error_of := Error.fromHost_of_not_isDefect
  host _ _ := .inr fun d hd => by
    cases hd
    exact .inl rfl
  make _ _ := ⟨(), le_rfl, trivial, trivial⟩
  close _ _ _ _ _ := ⟨(), le_rfl, trivial, trivial⟩
  enter _ _ := ⟨(), le_rfl, trivial, trivial⟩

theorem Draft.all_true (d : Draft) : d.All fun _ => True := by
  induction d using Draft.items_induction with
  | value v => exact .value trivial
  | list items ih => exact .list ih

theorem Invariant.holds_defects (s : State) : (Invariant.defects s.hosts).Holds () s where
  bound _ _ _ _ := trivial
  hosts run hrun _ _ args _ :=
    ⟨fun reply _ => reply.draft.all_true, fun _ he _ hd => .inr ⟨run, hrun, args, hd ▸ he⟩⟩
  hosted := nofun
  shape := trivial

/-- No run comes to a defect but by a procedure of the host. -/
theorem Call.failsBy_outcome (c : Call) (s : State) :
    FailsBy (Error.FromHost s.hosts) (c.outcome s).1 := by
  have hready : (Invariant.defects s.hosts).Ready () c := by
    cases c with
    | eval => trivial
    | apply => exact ⟨trivial, fun _ _ => trivial⟩
    | higher => exact fun _ _ => trivial
  obtain ⟨-, -, -, -, h⟩ := Invariant.outcome_ends (Invariant.holds_defects s) hready
  exact h

/-- A builtin procedure run without and with a count of its arguments beforehand. -/
def State.bothWays (s : State) (b : Builtin) (args : List Value) (depth : Nat) :
    List (Outcome Value) :=
  [s.invoke b args depth, (Call.apply (.builtin b) args depth).outcome s]

/-- The entry is one of exactly so many arguments. -/
def Entry.IsFixed (entry : Entry) : Prop :=
  ∃ (α : Type) (_ : Answer α) (ps : List Param) (f : Function ps α), entry = .fixed ps f

/-- Run in either way, a primitive ends in a value or in the error that it fails by, unless it is
refused for the number of its arguments. -/
theorem Primitive.bothWays_cases {p : Primitive} {s : State} {args : List Value} {depth : Nat}
    {out : Outcome Value} (h : out ∈ s.bothWays p.builtin args depth) :
    (∃ v, out.1 = .ok v) ∨ (∃ e, out.1 = .error e ∧ p.entry.run args = .error e) ∨
      p.entry.arity.accepts args.length = false ∧
        out.1 = .error (.arity p.entry.arity args.length none) := by
  have haccept : (∃ v, (s.accept (p.entry.run args)).1 = .ok v) ∨
      ∃ e, (s.accept (p.entry.run args)).1 = .error e ∧ p.entry.run args = .error e := by
    cases hrun : p.entry.run args with
    | ok reply => exact .inl ⟨_, rfl⟩
    | error e => exact .inr ⟨e, rfl, rfl⟩
  have hran : out = s.accept (p.entry.run args) ∨ p.entry.arity.accepts args.length = false ∧
      out = (.error (.arity p.entry.arity args.length none), s) := by
    rcases List.mem_pair.mp h with rfl | rfl
    · exact .inl rfl
    · rw [Call.outcome_builtin, show p.builtin.arity = p.entry.arity from rfl]
      cases p.entry.arity.accepts args.length with
      | true => exact .inl rfl
      | false => exact .inr ⟨rfl, rfl⟩
  rcases hran with rfl | ⟨hcount, rfl⟩
  · exact haccept.imp_right .inl
  · exact .inr (.inr ⟨hcount, rfl⟩)

/-- An entry of exactly so many arguments fails by an arity error if, and only if, it is declared to
refuse their number, and then by the error that says so. -/
theorem Entry.arity_error_iff {entry : Entry} (h : entry.IsFixed) (hsound : entry.Sound)
    (args : List Value) :
    ((∃ expected got form, entry.run args = .error (.arity expected got form)) ↔
      entry.arity.accepts args.length = false) ∧
    (entry.arity.accepts args.length = false →
      entry.run args = .error (.arity entry.arity args.length none)) := by
  have hrejects (hcount : entry.arity.accepts args.length = false) :
      entry.run args = .error (.arity entry.arity args.length none) := by
    obtain ⟨α, _, ps, f, rfl⟩ := h
    exact run_fixed_of_rejects hcount
  refine ⟨⟨fun ⟨expected, got, form, hrun⟩ => ?_, fun hcount => ⟨_, _, _, hrejects hcount⟩⟩,
    hrejects⟩
  rcases hsound args _ hrun with hargument | ⟨hcount, -⟩
  · cases hargument
  · exact hcount

/-- Builtin procedures have no defects, whatever they are given and whether or not their arguments
are counted first. Primitives that are given as many arguments as they are declared to take fail by
errors about these arguments alone, and those of exactly so many arguments count them by themselves
as they are declared. `apply` and `map` come to a defect only where a procedure of the host has
one. -/
theorem builtins_have_no_defects (s : State) (args : List Value) (depth : Nat) :
    (∀ p : Primitive,
      (∀ out ∈ s.bothWays p.builtin args depth, (∀ d, out.1 ≠ .error (.internal d)) ∧
        (p.entry.arity.accepts args.length = true →
          (∃ v, out.1 = .ok v) ∨ ∃ e, out.1 = .error e ∧ e.OfArgument)) ∧
      (p.entry.IsFixed →
        ((∃ expected got form, p.entry.run args = .error (.arity expected got form)) ↔
          p.entry.arity.accepts args.length = false) ∧
        (p.entry.arity.accepts args.length = false →
          p.entry.run args = .error (.arity p.entry.arity args.length none)))) ∧
    ∀ h : Higher, ∀ out ∈ s.bothWays h.builtin args depth, ∀ d, out.1 = .error (.internal d) →
      d = .hostMissing ∨ ∃ run ∈ s.hosts, ∃ vs, run vs = .error (.internal d) := by
  refine ⟨fun p => ⟨fun out hend => ?_, fun h => Entry.arity_error_iff h p.sound args⟩,
    fun h out hend d hd => ?_⟩
  · rcases Primitive.bothWays_cases hend with ⟨v, hv⟩ | ⟨e, he, hrun⟩ | ⟨hcount, he⟩
    · rw [hv]
      exact ⟨nofun, fun _ => .inl ⟨v, rfl⟩⟩
    · rw [he]
      refine ⟨fun d hd => ?_, fun hcount => .inr ⟨e, rfl, ?_⟩⟩
      · cases hd
        exact p.sound.not_isDefect args _ hrun trivial
      · rcases p.sound args e hrun with hargument | ⟨hrejects, -⟩
        · exact hargument
        · exact absurd hcount (Bool.eq_false_iff.mp hrejects)
    · rw [he]
      exact ⟨nofun, fun h => absurd h (Bool.eq_false_iff.mp hcount)⟩
  · rcases List.mem_pair.mp hend with rfl | rfl
    · exact Call.failsBy_outcome (.higher h args depth) s _ hd d rfl
    · exact Call.failsBy_outcome (.apply (.builtin h.builtin) args depth) s _ hd d rfl

end MiniLisp
