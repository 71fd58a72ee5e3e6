import MiniLisp.Builtin.Registry
import MiniLisp.Proofs.Expr.Occurrence

/-!
# What procedures hand on

A procedure answers with what it was handed: with its arguments and the items of lists among them,
put into new lists at most, besides numbers, symbols, booleans and the like (`HandsOver`), so that
it makes nothing that has an identity (`HandsOn`). This holds of all primitives
(`Primitive.handsOver`).
-/

namespace MiniLisp

variable {K : Value → Prop} {α : Type}

/-- All values in the list are of the kind. -/
abbrev Value.All (K : Value → Prop) (vs : List Value) : Prop := ∀ v ∈ vs, K v

/-- Values that nothing tells apart but what they are: all but lists and closures. -/
def Value.IsAtom : Value → Prop
  | list _ _ => False
  | closure _ => False
  | _ => True

/-- Values that are neither lists nor procedures. -/
def Value.IsPlain : Value → Prop
  | list _ _ => False
  | builtin _ => False
  | closure _ => False
  | _ => True

theorem Value.isPlain_ofNumber (n : Number) : (ofNumber n).IsPlain := by cases n <;> trivial

theorem Value.IsPlain.isAtom {v : Value} (h : v.IsPlain) : v.IsAtom := by
  cases v with
  | list => exact h
  | closure => exact h
  | _ => trivial

/-- What holds of all atoms, and of the items of every list that it holds of. -/
structure Hereditary (K : Value → Prop) : Prop where
  atom : ∀ {v : Value}, v.IsAtom → K v
  item : ∀ {id : Nat} {items : List Value}, K (.list id items) → Value.All K items

/-- What holds of all plain values, and of the items of every list that it holds of. -/
structure Inheritable (K : Value → Prop) : Prop where
  plain : ∀ {v : Value}, v.IsPlain → K v
  item : ∀ {id : Nat} {items : List Value}, K (.list id items) → Value.All K items

theorem Hereditary.inheritable (h : Hereditary K) : Inheritable K where
  plain hv := h.atom hv.isAtom
  item := h.item

/-- All values in the draft, which are those that exist already, are of the kind. -/
inductive Draft.All (K : Value → Prop) : Draft → Prop where
  | value {v : Value} (h : K v) : All K (.value v)
  | list {items : List Draft} (h : ∀ d ∈ items, All K d) : All K (.list items)

theorem Draft.All.imp {K' : Value → Prop} {d : Draft} (h : d.All K) (hK : ∀ v, K v → K' v) :
    d.All K' := by
  induction h with
  | value h => exact .value (hK _ h)
  | list _ ih => exact .list ih

theorem Draft.All.ofList {vs : List Value} (h : Value.All K vs) : (Draft.ofList vs).All K := by
  refine .list fun d hd => ?_
  obtain ⟨v, hv, rfl⟩ := List.mem_map.mp hd
  exact .value (h v hv)

/-- Quotation makes new lists of plain values. -/
theorem Draft.all_ofExpr (hK : Inheritable K) (e : Expr) : (ofExpr e).All K := by
  induction e using Expr.items_induction with
  | int n => exact .value (hK.plain trivial)
  | float x => exact .value (hK.plain trivial)
  | symbol name => exact .value (hK.plain trivial)
  | list items ih =>
    rw [ofExpr, ofExprs_eq_map]
    refine .list fun d hd => ?_
    obtain ⟨e, he, rfl⟩ := List.mem_map.mp hd
    exact ih e he

/-- The procedure hands out only what it was handed, and atoms. -/
def HandsOn (run : HostFunction) : Prop :=
  ∀ K : Value → Prop, Hereditary K → ∀ args, Value.All K args →
    ∀ reply, run args = .ok reply → reply.draft.All K

/-- The procedure hands out only what it was handed, and plain values. -/
def HandsOver (run : HostFunction) : Prop :=
  ∀ K : Value → Prop, Inheritable K → ∀ args, Value.All K args →
    ∀ reply, run args = .ok reply → reply.draft.All K

theorem HandsOver.handsOn {run : HostFunction} (h : HandsOver run) : HandsOn run :=
  fun K hK => h K hK.inheritable

section Conversion

/-- Numbers are never handed on as values. -/
def Param.Only (K : Value → Prop) : (p : Param) → p.Carrier → Prop
  | .value => K
  | .list => Value.All K
  | _ => fun _ => True

def Rest.Only (K : Value → Prop) : (r : Rest) → r.Carrier → Prop
  | .values => Value.All K
  | .numbers => fun _ => True

theorem Param.only_convert (hK : Inheritable K) {v : Value} (h : K v) {p : Param} {a : p.Carrier}
    (ha : p.convert v = .ok a) : p.Only K a := by
  cases p with
  | value =>
    cases ha
    exact h
  | list =>
    cases v with
    | list id items =>
      cases ha
      exact hK.item h
    | _ => cases ha
  | _ => trivial

theorem Rest.only_convert {vs : List Value} (h : Value.All K vs) {r : Rest} {a : r.Carrier}
    (ha : r.convert vs = .ok a) : r.Only K a := by
  cases r with
  | values =>
    cases ha
    exact h
  | numbers => trivial

/-- Functions whose results are of a kind if the values that they are handed are. -/
def Function.Only (K : Value → Prop) (R : α → Prop) : (ps : List Param) → Function ps α → Prop
  | [], a => R a
  | p :: ps, f => ∀ a, p.Only K a → Function.Only K R ps (f a)

theorem Function.Only.feed (hK : Inheritable K) {R : α → Prop} {ps : List Param}
    {f : Function ps α} (h : Function.Only K R ps f) {vs others : List Value}
    (hvs : Value.All K vs) {a : α} (hfeed : Function.feed ps f vs = .ok (a, others)) :
    R a ∧ Value.All K others := by
  induction ps generalizing vs with
  | nil =>
    cases hfeed
    exact ⟨h, hvs⟩
  | cons p ps ih => cases vs with
    | nil => cases hfeed
    | cons v vs =>
      simp only [Function.feed] at hfeed
      split at hfeed
      · cases hfeed
      · rename_i b hb
        have hfirst := h b (Param.only_convert hK (hvs v (.head _)) hb)
        exact ih hfirst (fun v hv => hvs v (.tail _ hv)) hfeed

end Conversion

section Answers

variable [Answer α]

/-- All values that the answer hands out are of the kind. -/
def Answer.Only (K : Value → Prop) (a : α) : Prop :=
  ∀ reply, Answer.reply a = .ok reply → reply.draft.All K

/-- What a procedure of fixed arguments answers is the answer of its function. -/
theorem Entry.feed_of_run_fixed {ps : List Param} {f : Function ps α}
    {args : List Value} {reply : Reply} (h : (Entry.fixed ps f).run args = .ok reply) :
    args.length = ps.length ∧
      ∃ a others, Function.feed ps f args = .ok (a, others) ∧ Answer.reply a = .ok reply := by
  simp only [Entry.fixed] at h
  split at h
  · rename_i hlength
    split at h
    · cases h
    · rename_i a others hfeed
      exact ⟨hlength, a, others, hfeed, h⟩
  · cases h

theorem handsOver_fixed {ps : List Param} {f : Function ps α}
    (h : ∀ K, Inheritable K → Function.Only K (Answer.Only K) ps f) :
    HandsOver (Entry.fixed ps f).run := by
  intro K hK args hargs reply hreply
  obtain ⟨-, a, others, hfeed, ha⟩ := Entry.feed_of_run_fixed hreply
  exact ((h K hK).feed hK hargs hfeed).1 reply ha

theorem handsOver_variadic {arity : Arity} {ps : List Param} {rest : Rest}
    {f : Function ps (rest.Carrier → α)}
    (h : ∀ K, Inheritable K →
      Function.Only K (fun g => ∀ a, rest.Only K a → Answer.Only K (g a)) ps f) :
    HandsOver (Entry.variadic arity ps rest f).run := by
  intro K hK args hargs reply hreply
  simp only [Entry.variadic] at hreply
  split at hreply
  · cases hreply
  · split at hreply
    · cases hreply
    · rename_i g others hfeed
      obtain ⟨hg, hothers⟩ := (h K hK).feed hK hargs hfeed
      split at hreply
      · cases hreply
      · rename_i remaining hremaining
        exact hg _ (Rest.only_convert hothers hremaining) reply hreply

end Answers

namespace Answer

theorem only_value {v : Value} (h : K v) : Only K v := by
  intro reply hreply
  cases hreply
  exact .value h

theorem only_draft {d : Draft} (h : d.All K) : Only K d := by
  intro reply hreply
  cases hreply
  exact h

/-- Answers that are plain values. -/
class Atomic (α : Type) [Answer α] : Prop where
  only {K : Value → Prop} (hK : Inheritable K) (a : α) : Only K a

instance : Atomic Number := ⟨fun hK n reply hreply => by
  cases hreply
  exact .value (hK.plain (Value.isPlain_ofNumber n))⟩

instance : Atomic Int64 := ⟨fun hK n reply hreply => by
  cases hreply
  exact .value (hK.plain trivial)⟩

instance : Atomic Float := ⟨fun hK x reply hreply => by
  cases hreply
  exact .value (hK.plain trivial)⟩

instance : Atomic Bool := ⟨fun hK b reply hreply => by
  cases hreply
  exact .value (hK.plain trivial)⟩

theorem only_except [Answer α] {r : Except Error α} (h : ∀ a, r = .ok a → Only K a) :
    Only K r := by
  intro reply hreply
  cases r with
  | error e => cases hreply
  | ok a => exact h a rfl reply hreply

instance {α : Type} [Answer α] [Atomic α] : Atomic (Except Error α) :=
  ⟨fun hK _ => only_except fun a _ => Atomic.only hK a⟩

end Answer

open Answer

/-- Functions that answer with plain values hand nothing on. -/
theorem Function.only_of_atomic [Answer α] [Atomic α] (hK : Inheritable K) {ps : List Param}
    (f : Function ps α) : Function.Only K (Answer.Only K) ps f := by
  induction ps with
  | nil => exact Atomic.only (α := α) hK f
  | cons p ps ih => exact fun a _ => ih (f a)

theorem handsOver_of_atomic [Answer α] [Atomic α] {ps : List Param} (f : Function ps α) :
    HandsOver (Entry.fixed ps f).run :=
  handsOver_fixed fun _ hK => Function.only_of_atomic hK f

namespace Builtin

theorem only_car {vs : List Value} (h : Value.All K vs) : Answer.Only K (car vs) := by
  cases vs with
  | nil => exact only_except nofun
  | cons v vs => exact only_value (h v (.head _))

theorem only_cdr {vs : List Value} (h : Value.All K vs) : Answer.Only K (cdr vs) := by
  cases vs with
  | nil => exact only_except nofun
  | cons v vs => exact only_draft (.ofList fun w hw => h w (.tail _ hw))

theorem only_cons (hK : Inheritable K) {v w : Value} (hv : K v) (hw : K w) :
    Answer.Only K (cons v w) := by
  cases w with
  | list id items => exact only_draft (.ofList (List.forall_mem_cons.mpr ⟨hv, hK.item hw⟩))
  | _ => exact only_except nofun

theorem only_sequence {vs : List Value} (h : Value.All K vs) : Answer.Only K (sequence vs) := by
  refine only_except fun v hv => ?_
  unfold sequence at hv
  split at hv
  · cases hv
  · rename_i last hlast
    cases hv
    exact only_value (h _ (List.mem_of_getLast? hlast))

/-- The best of the candidates is one of them. -/
theorem bestFrom_mem {e : Extremum} {best : Value × Number} {vs : List Value} {v : Value}
    (h : bestFrom e best vs = .ok v) : v = best.1 ∨ v ∈ vs := by
  induction vs generalizing best with
  | nil =>
    cases h
    exact .inl rfl
  | cons w vs ih =>
    unfold bestFrom at h
    split at h
    · cases h
    · split at h
      · exact .inr ((ih h).elim (fun hv => hv ▸ .head _) (.tail _))
      · exact (ih h).imp (fun hv => hv) (.tail _)

theorem extremum_mem {e : Extremum} {vs : List Value} {v : Value} (h : extremum e vs = .ok v) :
    ∃ items, candidates e vs = .ok items ∧ v ∈ items := by
  unfold extremum at h
  split at h
  · cases h
  · cases h
  · rename_i first rest hitems
    split at h
    · cases h
    · refine ⟨first :: rest, hitems, ?_⟩
      exact (bestFrom_mem h).elim (fun hv => hv ▸ .head _) (.tail _)

theorem only_extremum (hK : Inheritable K) (e : Extremum) {vs : List Value}
    (h : Value.All K vs) : Answer.Only K (extremum e vs) := by
  refine only_except fun v hv => only_value ?_
  obtain ⟨items, hitems, hmem⟩ := extremum_mem hv
  unfold candidates at hitems
  split at hitems
  · cases hitems
    exact hK.item (h _ (.head _)) v hmem
  · cases hitems
  · cases hitems
    exact h v hmem

end Builtin

/-- No primitive hands out a list or a procedure that it was not handed. -/
theorem Primitive.handsOver (p : Primitive) : HandsOver p.entry.run := by
  cases p with
  | extremum e =>
    exact handsOver_variadic fun K hK vs hvs => Builtin.only_extremum hK e hvs
  | round =>
    exact handsOver_variadic fun K hK a _ digits _ => Atomic.only hK (Builtin.round a digits)
  | car => exact handsOver_fixed fun K hK vs hvs => Builtin.only_car hvs
  | cdr => exact handsOver_fixed fun K hK vs hvs => Builtin.only_cdr hvs
  | cons => exact handsOver_fixed fun K hK v hv w hw => Builtin.only_cons hK hv hw
  | list => exact handsOver_variadic fun K hK vs hvs => only_draft (.ofList hvs)
  | sequence => exact handsOver_variadic fun K hK vs hvs => Builtin.only_sequence hvs
  | print =>
    refine handsOver_variadic fun K hK vs hvs reply hreply => ?_
    cases hreply
    exact .value (hK.plain trivial)
  | log => exact handsOver_variadic fun K hK x _ bases _ => Atomic.only hK (logarithm x bases)
  | _ => exact handsOver_of_atomic _

end MiniLisp
