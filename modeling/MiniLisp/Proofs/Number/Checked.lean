import MiniLisp.Proofs.Builtin.Conversion
import MiniLisp.Proofs.Number.Finite
import MiniLisp.Proofs.Number.Order

/-!
# Checked results

Of the functions of floats that come with the platform nothing is known, and their results are
checked against all the numbers that they come from (`Checked.run_eq`). So a NaN or an infinity that
no argument accounts for is an error and never a result, whatever these functions compute
(`Checked.nothing_leaks`).
-/

namespace MiniLisp

namespace Number

inductive IsInfinite : Number → Prop where
  | float {x : Float} (h : x.isInf = true) : IsInfinite (.float x)

/-- Integers are finite, and so are the floats that are neither NaN nor infinite. -/
inductive IsFinite : Number → Prop where
  | int (n : Int64) : IsFinite (.int n)
  | float {x : Float} (h : x.isFinite = true) : IsFinite (.float x)

variable {a : Number}

theorem isFinite_toReal_iff : a.toReal.isFinite = true ↔ a.IsFinite := by
  cases a with
  | int n => exact iff_of_true (Real.isFinite_realOf n) (.int n)
  | float x => exact ⟨.float, fun | .float h => h⟩

theorem isNaN_toReal_iff : a.toReal.isNaN = true ↔ a.IsNaN :=
  Real.place?_eq_none_iff.symm.trans place?_eq_none_iff

theorem isInf_toReal_iff : a.toReal.isInf = true ↔ a.IsInfinite := by
  cases a with
  | int n =>
    have hfinite := Real.isFinite_realOf n
    rw [Real.isFinite_eq, Bool.and_eq_true, Bool.not_eq_true', Bool.not_eq_true'] at hfinite
    exact iff_of_false (Bool.eq_false_iff.mp hfinite.2) nofun
  | float x => exact ⟨.float, fun | .float h => h⟩

/-- A number is of one of three kinds. -/
theorem isFinite_iff : a.IsFinite ↔ ¬ (a.IsNaN ∨ a.IsInfinite) := by
  rw [← isFinite_toReal_iff, ← isNaN_toReal_iff, ← isInf_toReal_iff, Real.isFinite_eq,
    Bool.and_eq_true, Bool.not_eq_true', Bool.not_eq_true', not_or, Bool.not_eq_true,
    Bool.not_eq_true]

end Number

/-- A NaN that comes of numbers of which none is NaN. -/
def StrayNaN (ns : List Number) (x : Float) : Prop := x.isNaN = true ∧ ∀ n ∈ ns, ¬ n.IsNaN

/-- An infinity that comes of finite numbers. -/
def StrayInfinity (ns : List Number) (x : Float) : Prop := x.isInf = true ∧ ∀ n ∈ ns, n.IsFinite

theorem not_strayNaN_of_isInf {ns : List Number} {x : Float} (h : x.isInf = true) :
    ¬ StrayNaN ns x := by
  rintro ⟨hnan, -⟩
  have hplace := Real.isInf_iff_place?.mp h
  rw [Real.place?_eq_none_iff.mpr hnan] at hplace
  obtain ⟨p, hp, -⟩ := hplace
  cases hp

/-- The check lets a result through unless it is stray. -/
theorem checked_cases (name : String) (ns : List Number) (x : Float) :
    StrayNaN ns x ∧ checked name (ns.map Number.toReal) x = .error (.arithmetic (.domain name)) ∨
    StrayInfinity ns x ∧
      checked name (ns.map Number.toReal) x = .error (.arithmetic (.range name)) ∨
    (¬ StrayNaN ns x ∧ ¬ StrayInfinity ns x) ∧
      checked name (ns.map Number.toReal) x = .ok x := by
  have hnan : (x.isNaN && !(ns.map Number.toReal).any Float.isNaN) = true ↔ StrayNaN ns x := by
    simp [StrayNaN, ← Number.isNaN_toReal_iff]
  have hinf : (x.isInf && (ns.map Number.toReal).all Float.isFinite) = true ↔
      StrayInfinity ns x := by
    simp [StrayInfinity, ← Number.isFinite_toReal_iff]
  unfold checked
  by_cases h : StrayNaN ns x
  · exact .inl ⟨h, if_pos (hnan.mpr h)⟩
  · rw [if_neg (mt hnan.mp h)]
    by_cases h' : StrayInfinity ns x
    · exact .inr (.inl ⟨h', if_pos (hinf.mpr h')⟩)
    · exact .inr (.inr ⟨⟨h, h'⟩, if_neg (mt hinf.mp h')⟩)

/-- Functions of floats, whatever they compute. -/
structure Platform where
  unary : Elementary → Float → Float
  binary : Dyadic → Float → Float → Float
  ln : Float → Float

/-- The functions that there are. -/
def Platform.given : Platform := ⟨Elementary.raw, Dyadic.raw, Float.log⟩

/-- The procedures whose results are checked. -/
inductive Checked where
  | elementary (f : Elementary)
  | dyadic (f : Dyadic)
  | expt
  | log

namespace Checked

def primitive : Checked → Primitive
  | elementary f => .elementary f
  | dyadic f => .dyadic f
  | expt => .expt
  | log => .log

/-- The name in the errors of the procedure, where `expt` is a power like `pow`. -/
def errorName : Checked → String
  | elementary f => f.name
  | dyadic f => f.name
  | expt => Dyadic.pow.name
  | log => "log"

/-- What the procedure does on a platform. -/
def entry (platform : Platform) : Checked → Entry
  | elementary f => .fixed [.real] fun x : Float => checked f.name [x] (platform.unary f x)
  | dyadic f =>
    .fixed [.real, .real] fun x y : Float => checked f.name [x, y] (platform.binary f x y)
  | expt =>
    .fixed [.real, .real] fun x y : Float => checked "pow" [x, y] (platform.binary .pow x y)
  | log =>
    .variadic (.between 1 2) [.real] .numbers fun (x : Float) (bases : List Number) =>
      match bases with
      | [] => checked "log" [x] (platform.ln x)
      | base :: _ =>
        checked "log" [x, base.toReal] (platform.ln x / platform.ln base.toReal)

/-- How many numbers a procedure takes, on any platform. -/
def arity : Checked → Arity
  | elementary _ => .exactly 1
  | dyadic _ => .exactly 2
  | expt => .exactly 2
  | log => .between 1 2

/-- What the functions of a platform give for the numbers, unchecked. -/
def raw (platform : Platform) : Checked → List Number → Float
  | elementary f, [a] => platform.unary f a.toReal
  | dyadic f, [a, b] => platform.binary f a.toReal b.toReal
  | expt, [a, b] => platform.binary .pow a.toReal b.toReal
  | log, [a] => platform.ln a.toReal
  | log, [a, b] => platform.ln a.toReal / platform.ln b.toReal
  | _, _ => 0

theorem entry_given (c : Checked) : c.entry .given = c.primitive.entry := by
  cases c with
  | log =>
    refine congrArg (Entry.variadic (.between 1 2) [.real] .numbers) ?_
    funext x bases
    cases bases <;> rfl
  | _ => rfl

variable {platform : Platform} {c : Checked} {ns : List Number}

theorem arity_entry : (c.entry platform).arity = c.arity := by cases c <;> rfl

theorem arity_primitive : c.primitive.entry.arity = c.arity := by cases c <;> rfl

theorem reply_eq (r : Except Error Float) :
    Answer.reply r = r.map fun x => (⟨.value (.float x), ""⟩ : Reply) := by
  cases r <;> rfl

/-- All numbers that a procedure is given go into the check of its result. -/
theorem run_eq (h : (c.entry platform).arity.accepts ns.length = true) :
    (c.entry platform).run (ns.map .ofNumber) =
      (checked c.errorName (ns.map Number.toReal) (c.raw platform ns)).map
        fun x => ⟨.value (.float x), ""⟩ := by
  rw [← reply_eq]
  cases c with
  | elementary f =>
    match ns, h with
    | [a], _ => cases a <;> rfl
  | dyadic f =>
    match ns, h with
    | [a, b], _ => cases a <;> cases b <;> rfl
  | expt =>
    match ns, h with
    | [a, b], _ => cases a <;> cases b <;> rfl
  | log =>
    match ns, h with
    | [a], _ => cases a <;> rfl
    | [a, b], _ => cases a <;> cases b <;> rfl

/-- Given as many numbers as they take, the procedures of `Checked.primitive` answer with a float,
which is NaN only if one of the numbers is NaN, and infinite only if one of them is infinite or NaN.
They fail in two ways, by a domain error just where the unchecked result is a NaN and no number is
NaN, and by a range error just where it is infinite and all numbers are finite. So it is on every
platform, the given one included. -/
theorem nothing_leaks (platform : Platform) (c : Checked) (ns : List Number)
    (h : c.primitive.entry.arity.accepts ns.length = true) :
    (∀ s depth,
      (Call.apply (.builtin c.primitive.builtin) (ns.map .ofNumber) depth).outcome s =
        s.accept ((c.entry .given).run (ns.map .ofNumber))) ∧
    ((∃ x : Float, (c.entry platform).run (ns.map .ofNumber) = .ok ⟨.value (.float x), ""⟩ ∧
        (x.isNaN = true → ∃ n ∈ ns, n.IsNaN) ∧
        (x.isInf = true → ∃ n ∈ ns, n.IsInfinite ∨ n.IsNaN)) ∨
      (c.entry platform).run (ns.map .ofNumber) = .error (.arithmetic (.domain c.errorName)) ∨
      (c.entry platform).run (ns.map .ofNumber) = .error (.arithmetic (.range c.errorName))) ∧
    ((c.entry platform).run (ns.map .ofNumber) = .error (.arithmetic (.domain c.errorName)) ↔
      (c.raw platform ns).isNaN = true ∧ ∀ n ∈ ns, ¬ n.IsNaN) ∧
    ((c.entry platform).run (ns.map .ofNumber) = .error (.arithmetic (.range c.errorName)) ↔
      (c.raw platform ns).isInf = true ∧ ∀ n ∈ ns, n.IsFinite) := by
  have hcount : (c.entry platform).arity.accepts ns.length = true := by
    rwa [arity_entry, ← arity_primitive]
  refine ⟨fun s depth => ?_, ?_⟩
  · rw [← Call.ends_eq_iff, Call.ends_builtin c.primitive (by rwa [List.length_map]), entry_given]
  rw [run_eq hcount]
  rcases checked_cases c.errorName ns (c.raw platform ns) with
    ⟨hstray, heq⟩ | ⟨hstray, heq⟩ | ⟨⟨hnan, hinf⟩, heq⟩
  · rw [heq]
    refine ⟨.inr (.inl rfl), iff_of_true rfl hstray, iff_of_false nofun fun hinf => ?_⟩
    exact not_strayNaN_of_isInf hinf.1 hstray
  · rw [heq]
    exact ⟨.inr (.inr rfl), iff_of_false nofun (not_strayNaN_of_isInf hstray.1),
      iff_of_true rfl hstray⟩
  · rw [heq]
    refine ⟨.inl ⟨_, rfl, fun hx => ?_, fun hx => ?_⟩, iff_of_false nofun hnan,
      iff_of_false nofun hinf⟩
    · by_contra hno
      exact hnan ⟨hx, fun n hn hnan => hno ⟨n, hn, hnan⟩⟩
    · by_contra hno
      refine hinf ⟨hx, fun n hn => Number.isFinite_iff.mpr fun hbad => hno ⟨n, hn, hbad.symm⟩⟩

/-- A platform whose logarithms are all infinite, and whose other functions give NaN. -/
def endless : Platform := ⟨fun _ _ => Real.nan, fun _ _ _ => Real.nan, fun _ => Real.infinity⟩

/-- The quotient of two infinite logarithms is a NaN that none of the numbers accounts for. -/
theorem nothing_leaks_quotient :
    Checked.log.primitive.entry.arity.accepts [Number.int 8, .int 2].length = true ∧
    (Checked.log.entry endless).run ([Number.int 8, .int 2].map .ofNumber) =
      .error (.arithmetic (.domain "log")) := by
  have hcount : Checked.log.primitive.entry.arity.accepts [Number.int 8, .int 2].length = true := by
    rw [arity_primitive]
    rfl
  refine ⟨hcount, (nothing_leaks endless .log [.int 8, .int 2] hcount).2.2.1.mpr ⟨?_, ?_⟩⟩
  · decide
  · intro n hn
    simp only [List.mem_cons, List.not_mem_nil, or_false] at hn
    rcases hn with rfl | rfl <;> nofun

end Checked

end MiniLisp
