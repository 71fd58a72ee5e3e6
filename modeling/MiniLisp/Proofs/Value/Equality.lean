import MiniLisp.Proofs.History.Situation
import MiniLisp.Proofs.Number.Order

/-!
# Equality of values

Lists are equal item by item, so what holds of the equality of atoms is carried over to lists by
induction. Equality is symmetric, and a value equals itself if no NaN and no unspecified value is in
it (`Value.equal_self_iff`). It is not transitive: an integer equals a float if the float nearest to
it is equal to that one, and beyond `2 ^ 53` different integers have the same nearest float. Where
this does not come in it is (`Value.equal_trans_iff`).
-/

namespace MiniLisp

namespace Number

variable {a b c : Number}

/-- Numbers that are equal share a place, and integers are the same. -/
theorem place_eq_of_order (h : a.order b = some .eq) : ∃ p, a.place? = some p ∧
    b.place? = some p ∧ ∀ m n, a = .int m → b = .int n → m = n := by
  have hint {m n : Int64} (h : (int m).order (int n) = some .eq) : m = n :=
    Int64.toInt_inj.mp (Int.compare_eq_eq.mp (Option.some.inj h))
  rcases order_cases a b with ⟨m, n, rfl, rfl⟩ | horder
  · obtain rfl := hint h
    exact ⟨_, place?_int m, place?_int m, fun _ _ hm hn => by cases hm; cases hn; rfl⟩
  · have hplaces := h
    rw [horder] at hplaces
    simp only [Option.bind_eq_some_iff, Option.map_eq_some_iff, Int.compare_eq_eq] at hplaces
    obtain ⟨p, hp, _, hq, rfl⟩ := hplaces
    exact ⟨p, hp, hq, fun m n hm hn => hint (hm ▸ hn ▸ h)⟩

/-- Two numbers equal to a third are equal, or they are different integers. -/
theorem order_eq_trans_iff (h : a.order b = some .eq) (h' : b.order c = some .eq) :
    a.order c = some .eq ↔ ∀ m n, a = .int m → c = .int n → m = n := by
  obtain ⟨p, hp, hq, -⟩ := place_eq_of_order h
  obtain ⟨q, hq', hr, -⟩ := place_eq_of_order h'
  cases hq.symm.trans hq'
  constructor
  · intro h''
    obtain ⟨-, -, -, hint⟩ := place_eq_of_order h''
    exact hint
  · intro hint
    rcases order_cases a c with ⟨m, n, rfl, rfl⟩ | horder
    · rw [hint m n rfl rfl]
      exact congrArg some (Int.compare_eq_eq.mpr rfl)
    · rw [horder, hp, hr]
      exact congrArg some (Int.compare_eq_eq.mpr rfl)

/-- Different integers that share a place are too large for 53 bits. -/
theorem far_of_place_eq {m n : Int64} (h : (int m).place? = (int n).place?) (hne : m ≠ n) :
    2 ^ 53 ≤ m.toInt.natAbs ∧ 2 ^ 53 ≤ n.toInt.natAbs := by
  have hrank : Real.rank m.toInt = Real.rank n.toInt := by
    rwa [place?_int, place?_int, Option.some.injEq] at h
  have hne : m.toInt ≠ n.toInt := mt Int64.toInt_inj.mp hne
  by_contra hshort
  have hshort : m.toInt.natAbs < 2 ^ 53 ∨ n.toInt.natAbs < 2 ^ 53 := by omega
  rcases Int.lt_or_gt_of_ne hne with hlt | hgt
  · exact absurd hrank (Int.ne_of_lt (Real.rank_lt hlt hshort))
  · exact absurd hrank (Int.ne_of_gt (Real.rank_lt hgt hshort.symm))

end Number

namespace Value

variable {u v w a b c : Value} {vs ws : List Value}

theorem equalAll_iff :
    equalAll vs ws = true ↔ List.Forall₂ (fun v w => v.equal w = true) vs ws := by
  induction vs generalizing ws with
  | nil => cases ws <;> simp [equalAll]
  | cons v vs ih => cases ws <;> simp [equalAll, ih]

theorem equal_list_iff {i j : Nat} : (list i vs).equal (list j ws) = true ↔
    List.Forall₂ (fun v w => v.equal w = true) vs ws := by
  rw [equal, equalAll_iff]

theorem equal_item {i j place : Nat} (h : (list i vs).equal (list j ws) = true)
    (hv : vs[place]? = some v) (hw : ws[place]? = some w) : v.equal w = true := by
  obtain ⟨hplace, rfl⟩ := List.getElem?_eq_some_iff.mp hv
  obtain ⟨hplace', rfl⟩ := List.getElem?_eq_some_iff.mp hw
  exact (equal_list_iff.mp h).get hplace hplace'

theorem equal_of_equal (h : v.equal w = true) : w.equal v = true := by
  induction v using items_induction generalizing w with
  | atom v hv =>
    cases v with
    | list i vs => exact absurd rfl (hv i vs)
    | float x =>
      cases w with
      | float y => exact BEq.symm h
      | int n => exact h
      | _ => cases h
    | _ => cases w <;> simp_all [equal]
  | list i vs ih =>
    cases w with
    | list j ws =>
      have hitems : List.Forall₂ (fun v w =>
          (∀ w, v.equal w = true → w.equal v = true) ∧ v.equal w = true) vs ws :=
        (List.forall₂_and_left _ _).mpr ⟨fun v hv w => ih v hv, equal_list_iff.mp h⟩
      exact equal_list_iff.mpr (List.Forall₂.flip (hitems.imp fun v w ⟨hv, h⟩ => hv w h))
    | _ => cases h

theorem equal_comm (v w : Value) : v.equal w = w.equal v :=
  Bool.eq_iff_iff.mpr ⟨equal_of_equal, equal_of_equal⟩

/-- NaN and the unspecified value, which equal nothing. -/
inductive Unmatched : Value → Prop where
  | nan {x : Float} (h : x.isNaN = true) : Unmatched (.float x)
  | unspecified : Unmatched .unspecified

theorem part_iff_of_ne_list (hv : ∀ id items, v ≠ .list id items) : Part u v ↔ u = v := by
  constructor
  · intro h
    cases h with
    | self => rfl
    | item => exact absurd rfl (hv _ _)
  · rintro rfl
    exact .self

theorem equal_self_iff : v.equal v = true ↔ ∀ u : Value, u.Part v → ¬ u.Unmatched := by
  induction v using items_induction with
  | atom v hv =>
    simp only [part_iff_of_ne_list hv, forall_eq]
    cases v with
    | list i vs => exact absurd rfl (hv i vs)
    | float x =>
      have hnan : ¬ (float x).Unmatched ↔ x.isNaN ≠ true :=
        not_congr ⟨fun | .nan h => h, .nan⟩
      rw [hnan, equal, Real.beq_iff_place?, ne_eq, ← Real.place?_eq_none_iff,
        ← ne_eq, Option.ne_none_iff_exists']
      simp only [and_self]
    | unspecified => exact ⟨nofun, fun h => absurd .unspecified h⟩
    | _ => exact iff_of_true (by simp [equal]) nofun
  | list i vs ih =>
    rw [equal_list_iff, List.forall₂_same]
    constructor
    · intro h u hu hlone
      cases hu with
      | self => cases hlone
      | item hv hu => exact (ih _ hv).mp (h _ hv) u hu hlone
    · exact fun h v hv => (ih v hv).mpr fun u hu => h u (.item hv hu)

/-- At some place of three lists, or of lists in them, stand two different integers and, between
them, a float. -/
inductive Straddles : Value → Value → Value → Prop where
  | number {m n : Int64} (x : Float) (h : m ≠ n) : Straddles (.int m) (.float x) (.int n)
  | item {i j k place : Nat} {us vs ws : List Value} {u v w : Value} (hu : us[place]? = some u)
      (hv : vs[place]? = some v) (hw : ws[place]? = some w) (h : Straddles u v w) :
      Straddles (.list i us) (.list j vs) (.list k ws)

/-- What is equal to a number is a number. -/
theorem exists_number_of_equal {m : Number} (h : (ofNumber m).equal w = true) :
    ∃ n, w = ofNumber n := by
  cases m <;> cases w <;> simp only [ofNumber, equal, Bool.false_eq_true] at h
  · exact ⟨.int _, rfl⟩
  · exact ⟨.float _, rfl⟩
  · exact ⟨.int _, rfl⟩
  · exact ⟨.float _, rfl⟩

theorem straddles_number_iff {m n k : Number} :
    Straddles (ofNumber m) (ofNumber n) (ofNumber k) ↔
      ∃ i x j, m = .int i ∧ n = .float x ∧ k = .int j ∧ i ≠ j := by
  constructor
  · intro h
    cases m <;> cases n <;> cases k <;> cases h
    exact ⟨_, _, _, rfl, rfl, rfl, ‹_›⟩
  · rintro ⟨i, x, j, rfl, rfl, rfl, hne⟩
    exact .number x hne

theorem equal_trans_iff_of_number {m : Number} (h : (ofNumber m).equal b = true)
    (h' : b.equal c = true) : (ofNumber m).equal c = true ↔ ¬ Straddles (ofNumber m) b c := by
  obtain ⟨n, rfl⟩ := exists_number_of_equal h
  obtain ⟨k, rfl⟩ := exists_number_of_equal h'
  rw [Number.equal_iff_order] at h h' ⊢
  rw [Number.order_eq_trans_iff h h', straddles_number_iff]
  constructor
  · rintro hsame ⟨i, x, j, rfl, rfl, rfl, hne⟩
    exact hne (hsame i j rfl rfl)
  · intro hnot i j hi hj
    by_contra hne
    cases n with
    | int l =>
      -- an integer between them would be both
      obtain ⟨-, -, -, hil⟩ := Number.place_eq_of_order h
      obtain ⟨-, -, -, hlj⟩ := Number.place_eq_of_order h'
      exact hne ((hil i l hi rfl).trans (hlj l j rfl hj))
    | float x => exact hnot ⟨i, x, j, hi, rfl, hj, hne⟩

/-- Three lists of which the first two and the last two are equal item by item. -/
theorem forall₂_trans_iff {us : List Value}
    (hitems : ∀ u ∈ us, ∀ v w, u.equal v = true → v.equal w = true →
      (u.equal w = true ↔ ¬ Straddles u v w))
    (h : List.Forall₂ (fun u v => u.equal v = true) us vs)
    (h' : List.Forall₂ (fun v w => v.equal w = true) vs ws) :
    List.Forall₂ (fun u w => u.equal w = true) us ws ↔ ∀ (place : Nat) (u v w : Value),
      us[place]? = some u → vs[place]? = some v → ws[place]? = some w → ¬ Straddles u v w := by
  induction h generalizing ws with
  | nil =>
    cases h'
    exact iff_of_true .nil fun _ _ _ _ hu => by cases hu
  | @cons u v us vs huv _ ih =>
    cases h' with
    | @cons _ w _ ws hvw hrest =>
      have hhead := hitems u (.head _) v w huv hvw
      have htail := ih (fun u hu => hitems u (.tail _ hu)) hrest
      rw [List.forall₂_cons, hhead, htail]
      constructor
      · rintro ⟨hfirst, hothers⟩ (_ | place) u' v' w' hu hv hw
        · cases hu; cases hv; cases hw
          exact hfirst
        · exact hothers place u' v' w' hu hv hw
      · exact fun hall => ⟨hall 0 u v w rfl rfl rfl, fun place => hall (place + 1)⟩

theorem equal_trans_iff (h : a.equal b = true) (h' : b.equal c = true) :
    a.equal c = true ↔ ¬ a.Straddles b c := by
  induction a using items_induction generalizing b c with
  | atom a ha =>
    cases a with
    | list i us => exact absurd rfl (ha i us)
    | int m => exact equal_trans_iff_of_number (m := .int m) h h'
    | float x => exact equal_trans_iff_of_number (m := .float x) h h'
    | _ =>
      refine iff_of_true ?_ nofun
      cases b <;> cases c <;> simp_all [equal]
  | list i us ih =>
    cases b with
    | list j vs =>
      cases c with
      | list k ws =>
        rw [equal_list_iff] at h h' ⊢
        rw [forall₂_trans_iff (fun u hu v w => ih u hu) h h']
        constructor
        · rintro hall (_ | ⟨hu, hv, hw, hs⟩)
          exact hall _ _ _ _ hu hv hw hs
        · exact fun hnot place u v w hu hv hw hs => hnot (.item hu hv hw hs)
      | _ => cases h'
    | _ => cases h

/-- Where different integers equal one float, 53 bits cannot hold them. -/
theorem Straddles.far (hs : a.Straddles b c) (h : a.equal b = true) (h' : b.equal c = true) :
    ∃ m n : Int64, (int m).Part a ∧ (int n).Part c ∧ m ≠ n ∧
      2 ^ 53 ≤ m.toInt.natAbs ∧ 2 ^ 53 ≤ n.toInt.natAbs := by
  induction hs with
  | @number m n x hne =>
    obtain ⟨p, hm, hx, -⟩ :=
      Number.place_eq_of_order ((Number.equal_iff_order (.int m) (.float x)).mp h)
    obtain ⟨q, hx', hn, -⟩ :=
      Number.place_eq_of_order ((Number.equal_iff_order (.float x) (.int n)).mp h')
    have hplace := hm.trans (hx.symm.trans (hx'.trans hn.symm))
    exact ⟨m, n, .self, .self, hne, Number.far_of_place_eq hplace hne⟩
  | @item i j k place us vs ws u v w hu hv hw _ ih =>
    obtain ⟨m, n, hm, hn, hfar⟩ := ih (equal_item h hu hv) (equal_item h' hv hw)
    exact ⟨m, n, .item (List.mem_of_getElem? hu) hm, .item (List.mem_of_getElem? hw) hn, hfar⟩

end Value

/-- Equality is transitive except where two different integers equal one float, as integers of
`2 ^ 53` and more can. There the two values are not equal. -/
theorem equality_is_transitive_iff {p : Primitive} (hp : p = .equal ∨ p = .numericEqual)
    {a b c : Value} (h : p.Answers a b true) (h' : p.Answers b c true) :
    (p.Answers a c true ↔ ¬ a.Straddles b c) ∧
    (a.Straddles b c → p.Answers a c false ∧
      ∃ m n : Int64, (Value.int m).Part a ∧ (Value.int n).Part c ∧ m ≠ n ∧
        2 ^ 53 ≤ m.toInt.natAbs ∧ 2 ^ 53 ≤ n.toInt.natAbs) := by
  have hanswer := Primitive.answers_of_equality hp
  have hab := (hanswer a b).true_iff.mp h
  have hbc := (hanswer b c).true_iff.mp h'
  have htrans := Value.equal_trans_iff hab hbc
  refine ⟨(hanswer a c).true_iff.trans htrans, fun hs => ⟨?_, hs.far hab hbc⟩⟩
  have hnot : a.equal c = false := Bool.eq_false_iff.mpr fun heq => htrans.mp heq hs
  exact hnot ▸ hanswer a c

/-- `2 ^ 53 + 1` and `2 ^ 53`, each in a list, both equal the float `2 ^ 53` there. -/
theorem equality_is_transitive_iff_large :
    let a : Value := .list 0 [.int 9007199254740993]
    let b : Value := .list 1 [.float 9007199254740992]
    let c : Value := .list 2 [.int 9007199254740992]
    Primitive.equal.Answers a b true ∧ Primitive.equal.Answers b c true ∧ a.Straddles b c ∧
      Primitive.equal.Answers a c false := by
  intro a b c
  have hab : Primitive.equal.Answers a b true := Primitive.answers_equal a b
  have hbc : Primitive.equal.Answers b c true := Primitive.answers_equal b c
  have hnumbers : Value.Straddles (.int 9007199254740993) (.float 9007199254740992)
      (.int 9007199254740992) := .number _ (by decide)
  have hs : a.Straddles b c :=
    .item (rfl : [Value.int 9007199254740993][0]? = some _) rfl rfl hnumbers
  exact ⟨hab, hbc, hs, ((equality_is_transitive_iff (.inl rfl) hab hbc).2 hs).1⟩

/-- Both kinds of equality fail to be transitive at these numbers. -/
theorem not_transitive_equality :
    let m : Value := .int 9007199254740993
    let x : Value := .float 9007199254740992
    let n : Value := .int 9007199254740992
    ∀ p ∈ [Primitive.equal, Primitive.numericEqual],
      p.Answers m x true ∧ p.Answers x n true ∧ ¬ p.Answers m n true := by
  intro m x n p hp
  have hanswer := Primitive.answers_of_equality (by simpa using hp)
  refine ⟨hanswer m x, hanswer x n, fun h => ?_⟩
  cases (hanswer m n).unique h

end MiniLisp
