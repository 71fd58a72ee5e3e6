import MiniLisp.Eval.Outcome
import MiniLisp.Proofs.Eval.DepthLimit

/-!
# How deep procedure calls nest

Calls count their depth, and evaluations are refused from the limit on. So a procedure of the
program is never called beyond it without ending the run. Nothing refuses `apply` and `map`, and
where they are applied at the limit they call procedures beyond it: that is the only way to nest
deeper (`counts_iff_and_limited_iff`), and along it a run may go arbitrarily deep and still end in a
value (`outcome_layers`, `nests_layers`). A run that gets by on little fuel does not come near the
limit (`depth_lt_of_enters`).
-/

namespace MiniLisp

namespace Call

open Eval

def depth : Call → Nat
  | .eval _ _ depth => depth
  | .apply _ _ depth => depth
  | .higher _ _ depth => depth

/-- Whether a procedure is called, and not an expression evaluated. -/
def IsProcedureCall : Call → Prop
  | .eval _ _ _ => False
  | _ => True

/-- The call applies `apply` or `map`, to as many arguments as they take. -/
def AppliesHigher : Call → Prop
  | .apply (.builtin b) args _ =>
    (∃ h, b.operation = .higher h) ∧ b.arity.accepts args.length = true
  | _ => False

/-- The call applies a procedure that calls no other. -/
def AppliesPlain : Call → Prop
  | .apply (.builtin b) _ _ => ∀ h, b.operation ≠ .higher h
  | _ => False

/-- The call is an evaluation that the limit refuses. -/
def Refused : Call → Prop
  | .eval _ _ depth => evalLimit ≤ depth
  | _ => False

/-- Procedure calls nest deeper than the limit in the run of `x`. -/
def Nests (x : Call × State) : Prop :=
  ∃ y, Enters x y ∧ y.1.IsProcedureCall ∧ evalLimit < y.1.depth

/-- The limit counts every nested call in the run of `x`: no procedure is called beyond it, and a
run that gets there ends in its error. -/
structure Counts (x : Call × State) : Prop where
  within : ¬ Nests x
  ends : (Nests x ∨ ∃ y, Enters x y ∧ y.1.Refused) → Limited (x.1.outcome x.2).1

theorem depth_le_of_makes {x y : Call × State} (h : Makes x y) : y.1.depth ≤ x.1.depth + 1 := by
  obtain ⟨c, s⟩ := x
  obtain ⟨c', t⟩ := y
  cases inside_of_makes h with
  | part | closure | builtin => exact Nat.le_refl _
  | procedure | argument => exact Nat.le_succ _

/-- The fuel that a run needs bounds how deep its calls nest. -/
theorem depth_lt_of_enters {n : Nat} {x y : Call × State} {r : Except Error Value × State}
    (h : run n x.1 x.2 = some r) (hy : Enters x y) : y.1.depth < x.1.depth + n := by
  induction hy using Relation.ReflTransGen.head_induction_on generalizing n r with
  | refl =>
    cases n with
    | zero => cases h
    | succ n => omega
  | head hmake _ ih =>
    cases n with
    | zero => cases h
    | succ n =>
      obtain ⟨r', hr'⟩ := run_of_makes h hmake
      have hlt := ih hr'
      have hle := depth_le_of_makes hmake
      omega

theorem body_of_refused {c : Call} (h : c.Refused) (recur : Runner) (s : State) :
    c.body recur s = some (.error (.eval .depthLimit none), s) := by
  cases c with
  | eval e f depth =>
    have hd : evalLimit ≤ depth := h
    simp only [body, if_pos hd, fail_apply]
  | _ => exact absurd h id

theorem outcome_of_refused {c : Call} (h : c.Refused) (s : State) :
    c.outcome s = (.error (.eval .depthLimit none), s) :=
  outcome_eq_of_body (body_of_refused h ends s)

theorem limited_of_refused {c : Call} (h : c.Refused) (s : State) : Limited (c.outcome s).1 := by
  rw [outcome_of_refused h s]
  exact .error trivial

theorem makes_higher {b : Builtin} {h : Higher} {args : List Value} (hb : b.operation = .higher h)
    (ha : b.arity.accepts args.length = true) (depth : Nat) (s : State) :
    Makes (.apply (.builtin b) args depth, s) (.higher h args (depth + 1), s) := by
  simp [Makes, body, applyTo, ha, hb]

theorem makes_body {c : Closure} {args : List Value} (hc : c.params.length = args.length)
    (depth : Nat) (s : State) : ∃ t, Makes (.apply (.closure c) args depth, s)
      (.eval c.body s.frames.size (depth + 1), t) := by
  refine ⟨s.addFrame ⟨Std.TreeMap.ofList (c.params.zip args), some c.frame⟩, ?_⟩
  simp only [Makes, body, applyTo, if_pos hc]
  exact bind_eq_none_iff.mpr (.inr ⟨_, _, rfl, without_self _ _⟩)

/-- An error of the limit in a call that is made is never made good. -/
theorem limited_of_makes {x y : Call × State} (h : Makes x y)
    (hy : Limited (y.1.outcome y.2).1) : Limited (x.1.outcome x.2).1 := by
  have hwithout (c : Call) (_ : Inside x.1 c) : UpToLimit (ends c) (without y c) := by
    intro s
    by_cases he : (c, s) = y
    · exact .inr ⟨c.outcome s, rfl, by rw [← he] at hy; exact hy⟩
    · exact .inl (if_neg he).symm
  rcases (body_plan x.1).upToLimit hwithout x.2 with he | ⟨r, he, hl⟩
  · rw [body_ends, h] at he
    cases he
  · rw [outcome_eq_of_body he]
    exact hl

theorem limited_of_enters {x y : Call × State} (h : Enters x y)
    (hy : Limited (y.1.outcome y.2).1) : Limited (x.1.outcome x.2).1 := by
  induction h using Relation.ReflTransGen.head_induction_on with
  | refl => exact hy
  | head hmake _ ih => exact limited_of_makes hmake ih

theorem Plan.not_limited {α : Type} {E : Error → Prop} {P : Call → Prop} {m : Runner → Eval α}
    (h : Plan E P m) (hE : ∀ e, E e → ¬ e.IsDepthLimit) {recur : Runner}
    (hr : ∀ c s r, recur c s = some r → ¬ Limited r.1) {s : State} {r : Except Error α × State}
    (hm : m recur s = some r) : ¬ Limited r.1 := by
  induction h generalizing s with
  | leaf h =>
    obtain ⟨r', t, hr', he⟩ := h s
    cases hr'.symm.trans hm
    cases r' with
    | ok a => exact not_limited_ok a
    | error e => exact fun hl => hE e (he e rfl) (limited_error.mp hl)
  | call => exact hr _ _ _ hm
  | @bind _ _ m k _ _ ihm ihk =>
    simp only [bind_apply] at hm
    split at hm
    · cases hm
    · rename_i e t hms
      cases hm
      exact fun hl => ihm hms (.error (limited_error.mp hl))
    · exact ihk _ hm
  | @inForm _ m form _ ih =>
    simp only [Eval.inForm] at hm
    split at hm
    · rename_i e t hms
      cases hm
      have he : ¬ e.IsDepthLimit := fun hl => ih hms (.error hl)
      simpa using he
    · exact ih hm

/-- All calls end as they do, but those that the limit ended do not end. -/
noncomputable def calm : Runner := fun c s =>
  open Classical in if Limited (c.outcome s).1 then none else some (c.outcome s)

theorem calm_below (c : Call) : Below (calm c) (ends c) := by
  intro s r h
  unfold calm at h
  split at h
  · cases h
  · exact h

theorem not_limited_of_calm {c : Call} {s : State} {r : Except Error Value × State}
    (h : calm c s = some r) : ¬ Limited r.1 := by
  unfold calm at h
  split at h
  · cases h
  · rename_i hl
    cases h
    exact hl

theorem limited_of_calm {c : Call} {s : State} (h : calm c s = none) :
    Limited (c.outcome s).1 := by
  unfold calm at h
  split at h
  · assumption
  · cases h

/-- An error of the limit comes from a call that is made or is raised by the call itself. -/
theorem makes_or_raises_of_limited {x : Call × State} (h : Limited (x.1.outcome x.2).1) :
    (∃ y, Makes x y ∧ Limited (y.1.outcome y.2).1) ∨ ∃ e, e.IsDepthLimit ∧ x.1.Raises e := by
  cases hbody : x.1.body calm x.2 with
  | none =>
    obtain ⟨y, hy, hstuck⟩ := makes_of_stuck calm_below hbody
    exact .inl ⟨y, hy, limited_of_calm hstuck⟩
  | some r =>
    refine .inr (Classical.byContradiction fun hraises => ?_)
    have hend : x.1.body ends x.2 = some r := body_below calm_below x.1 x.2 r hbody
    rw [outcome_eq_of_body hend] at h
    have hE (e : Error) (he : x.1.Raises e) : ¬ e.IsDepthLimit := fun hl => hraises ⟨e, hl, he⟩
    exact (body_plan x.1).not_limited hE (fun c s r => not_limited_of_calm) hbody h

/-- Calls that raise the error of the limit themselves. -/
theorem refused_or_plain_of_raises {c : Call} {e : Error} (he : e.IsDepthLimit) (h : c.Raises e) :
    c.Refused ∨ c.AppliesPlain := by
  cases c with
  | eval => exact .inl (h he)
  | apply p =>
    cases p with
    | builtin b => exact .inr (h he)
    | _ => exact absurd he h
  | higher => exact absurd he h

theorem source_of_limited {x : Call × State} (h : Limited (x.1.outcome x.2).1) :
    ∃ y, Enters x y ∧ (y.1.Refused ∨ y.1.AppliesPlain ∧ Limited (y.1.outcome y.2).1) := by
  induction x using makes_wellFounded.induction with
  | _ x ih =>
    rcases makes_or_raises_of_limited h with ⟨y, hy, hl⟩ | ⟨e, he, hr⟩
    · obtain ⟨z, hz, hsource⟩ := ih y hy hl
      exact ⟨z, .head hy hz, hsource⟩
    · rcases refused_or_plain_of_raises he hr with hx | hx
      · exact ⟨x, .refl, .inl hx⟩
      · exact ⟨x, .refl, .inr ⟨hx, h⟩⟩

/-- The way beyond the limit leads over `apply` or `map`, applied at the limit. -/
theorem higher_at_limit {x y : Call × State} (hx : x.1.depth = 0) (h : Enters x y)
    (hp : y.1.IsProcedureCall) (hd : evalLimit < y.1.depth) :
    ∃ z, Enters x z ∧ z.1.AppliesHigher ∧ z.1.depth = evalLimit := by
  induction h with
  | refl => omega
  | @tail z y hxz hzy ih =>
    obtain ⟨c, s⟩ := z
    obtain ⟨c', t⟩ := y
    cases inside_of_makes hzy with
    | part => exact absurd hp id
    | procedure hlt =>
      simp only [depth] at hd
      omega
    | closure => exact absurd hp id
    | @builtin b h args depth hb ha =>
      by_cases he : depth = evalLimit
      · exact ⟨_, hxz, ⟨⟨h, hb⟩, ha⟩, he⟩
      · refine ih trivial ?_
        simp only [Call.depth] at hd ⊢
        omega
    | argument => exact ih trivial hd

theorem nests_iff {x : Call × State} (hx : x.1.depth = 0) :
    Nests x ↔ ∃ y, Enters x y ∧ y.1.AppliesHigher ∧ y.1.depth = evalLimit := by
  constructor
  · rintro ⟨y, hy, hp, hd⟩
    exact higher_at_limit hx hy hp hd
  · rintro ⟨⟨c, s⟩, hy, ha, hd⟩
    cases c with
    | apply p args d =>
      cases p with
      | builtin b =>
        obtain ⟨⟨h, hb⟩, hargs⟩ := ha
        refine ⟨(.higher h args (d + 1), s), hy.tail (makes_higher hb hargs d s), trivial, ?_⟩
        simp only [depth] at hd ⊢
        omega
      | _ => exact absurd ha id
    | _ => exact absurd ha id

/-- A closure called at the limit, or right below it, ends the run. -/
theorem limited_of_closure {x : Call × State} {c : Closure} {args : List Value} {depth : Nat}
    {s : State} (hc : c.params.length = args.length) (hd : evalLimit ≤ depth + 1)
    (h : Enters x (.apply (.closure c) args depth, s)) : Limited (x.1.outcome x.2).1 := by
  obtain ⟨t, ht⟩ := makes_body hc depth s
  have hr : Refused (.eval c.body s.frames.size (depth + 1)) := hd
  exact limited_of_enters (h.tail ht) (limited_of_refused hr t)

section Layers

/-- The application of `p` to `args`, with `n` applications of `apply` around it. -/
def layers (p : Value) (args : List Value) : Nat → Value × List Value
  | 0 => (p, args)
  | n + 1 => (.builtin Higher.apply.builtin, [(layers p args n).1, .list 0 (layers p args n).2])

variable (p : Value) (args : List Value)

/-- A call of `apply` ends as the call that it is asked for, one level deeper. -/
theorem outcome_apply (id depth : Nat) (s : State) :
    (apply (.builtin Higher.apply.builtin) [p, .list id args] depth).outcome s =
      (apply p args (depth + 1)).outcome s := by
  have hinner : (higher .apply [p, .list id args] (depth + 1)).outcome s =
      (apply p args (depth + 1)).outcome s := outcome_eq_of_body rfl
  rw [← hinner]
  exact outcome_eq_of_body rfl

theorem enters_apply (id depth : Nat) (s : State) :
    Enters (apply (.builtin Higher.apply.builtin) [p, .list id args] depth, s)
      (apply p args (depth + 1), s) := by
  have hhigher : Makes (apply (.builtin Higher.apply.builtin) [p, .list id args] depth, s)
      (higher .apply [p, .list id args] (depth + 1), s) := makes_higher rfl rfl depth s
  have hinner : Makes (higher .apply [p, .list id args] (depth + 1), s)
      (apply p args (depth + 1), s) := without_self _ _
  exact .head hhigher (.single hinner)

theorem outcome_layers (n depth : Nat) (s : State) :
    (apply (layers p args n).1 (layers p args n).2 depth).outcome s =
      (apply p args (depth + n)).outcome s := by
  induction n generalizing depth with
  | zero => rfl
  | succ n ih =>
    simp only [layers]
    rw [outcome_apply, ih, Nat.add_right_comm, Nat.add_assoc]

theorem enters_layers (n depth : Nat) (s : State) :
    Enters (apply (layers p args n).1 (layers p args n).2 depth, s)
      (apply p args (depth + n), s) := by
  induction n generalizing depth with
  | zero => exact .refl
  | succ n ih =>
    simp only [layers]
    refine (enters_apply _ _ 0 depth s).trans ?_
    rw [show depth + (n + 1) = depth + 1 + n by omega]
    exact ih (depth + 1)

/-- More layers than the limit nest deeper than the limit, whatever they are around. -/
theorem nests_layers {n : Nat} (hn : evalLimit < n) (s : State) :
    Nests (apply (layers p args n).1 (layers p args n).2 0, s) := by
  refine ⟨_, enters_layers p args n 0 s, trivial, ?_⟩
  simp only [depth]
  omega

theorem outcome_sum (depth : Nat) (s : State) :
    (apply (.builtin Primitive.add.builtin) [.int 1, .int 2] depth).outcome s =
      (.ok (.int 3), s) := by
  have hrun : Primitive.add.entry.run [.int 1, .int 2] = .ok ⟨.value (.int 3), ""⟩ := rfl
  have haccept : s.accept (Primitive.add.entry.run [.int 1, .int 2]) = (.ok (.int 3), s) := by
    rw [hrun]
    simp [State.accept, State.print, State.make, Draft.finish]
  refine outcome_eq_of_body ?_
  rw [← haccept]
  rfl

end Layers

/-- Every nested call counts toward the limit exactly as long as `apply` and `map` are never applied
at the limit. An error of the limit arises exactly where an evaluation is refused, or where a
procedure that calls no other answers with it. -/
theorem counts_iff_and_limited_iff {x : Call × State} (hx : x.1.depth = 0) :
    (Counts x ↔ ∀ y, Enters x y → y.1.AppliesHigher → y.1.depth ≠ evalLimit) ∧
    (Limited (x.1.outcome x.2).1 ↔
      ∃ y, Enters x y ∧ (y.1.Refused ∨ y.1.AppliesPlain ∧ Limited (y.1.outcome y.2).1)) := by
  refine ⟨⟨fun h y hy ha hd => h.within ((nests_iff hx).mpr ⟨y, hy, ha, hd⟩), fun h => ?_⟩,
    source_of_limited, ?_⟩
  · have hwithin : ¬ Nests x := fun hn => by
      obtain ⟨y, hy, ha, hd⟩ := (nests_iff hx).mp hn
      exact h y hy ha hd
    refine ⟨hwithin, ?_⟩
    rintro (hn | ⟨y, hy, hr⟩)
    · exact absurd hn hwithin
    · exact limited_of_enters hy (limited_of_refused hr y.2)
  · rintro ⟨y, hy, hr | ⟨-, hl⟩⟩
    · exact limited_of_enters hy (limited_of_refused hr y.2)
    · exact limited_of_enters hy hl

/-- A closure counts the leaves below a node of a binary tree: it maps itself over the two nodes
that come next and applies `+` to what they have. The tree is five deep. -/
def leaves : Expr := .list [.symbol "begin",
  .list [.symbol "define", .symbol "leaves", .list [.symbol "lambda", .list [.symbol "n"],
    .list [.symbol "if", .list [.symbol "=", .symbol "n", .int 0], .int 1,
      .list [.symbol "apply", .symbol "+", .list [.symbol "map", .symbol "leaves",
        .list [.symbol "list", .list [.symbol "-", .symbol "n", .int 1],
          .list [.symbol "-", .symbol "n", .int 1]]]]]]],
  .list [.symbol "leaves", .int 5]]

theorem counts_leaves :
    let x : Call × State := (.eval leaves 0 0, State.standard)
    depth x.1 = 0 ∧ Counts x ∧ (x.1.outcome x.2).1.map Value.text = .ok "32" := by
  intro x
  have hrun : (run 60 x.1 x.2).map (fun r => r.1.map Value.text) = some (.ok "32") := by
    decide +kernel
  obtain ⟨r, hr, -⟩ := Option.map_eq_some_iff.mp hrun
  refine ⟨rfl, (counts_iff_and_limited_iff rfl).1.mpr fun y hy _ => ?_, seen_outcome_of_run hrun⟩
  have hlt : y.1.depth < 0 + 60 := depth_lt_of_enters hr hy
  have hlimit : evalLimit = 1000 := rfl
  omega

/-- Beyond the limit, and yet a sum. -/
theorem layers_not_counted :
    let x : Call × State := (apply (layers (.builtin Primitive.add.builtin) [.int 1, .int 2] 1001).1
      (layers (.builtin Primitive.add.builtin) [.int 1, .int 2] 1001).2 0, State.standard)
    Nests x ∧ x.1.outcome x.2 = (.ok (.int 3), State.standard) ∧ ¬ Counts x := by
  have hnests := nests_layers (.builtin Primitive.add.builtin) [.int 1, .int 2]
    (show evalLimit < 1001 by decide) State.standard
  have hsum := outcome_layers (.builtin Primitive.add.builtin) [.int 1, .int 2] 1001 0
    State.standard
  rw [outcome_sum] at hsum
  exact ⟨hnests, hsum, fun h => h.within hnests⟩

end Call

end MiniLisp
