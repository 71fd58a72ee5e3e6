import MiniLisp.Proofs.Likeness.Within

/-!
# Counting from different points

Two runs that go the same way may start to count from different points. What has a number already
keeps it in both, and what is new in the one run has a number in the other that is as much larger as
that run started later (`shift`). Values that are alike in the two runs are then the same up to the
numbers of what is new (`Value.Alike.eq_shifted`).
-/

namespace MiniLisp

/-- What a number of a run that counts from `left` on is in one that counts from `right` on. -/
def shift (left right n : Nat) : Nat := if n < left then n else n + (right - left)

section Numbers

variable {kind : Nat → Prop} {left right n m a b : Nat}

theorem shift_of_lt (h : n < left) : shift left right n = n := if_pos h

theorem shift_of_le (h : left ≤ n) : shift left right n = n + (right - left) :=
  if_neg (Nat.not_lt_of_le h)

@[simp] theorem shift_self (left n : Nat) : shift left left n = n := by
  simp [shift]

/-- Of the numbers of a kind none is new, unless both runs count from the same point on. -/
structure Settled (kind : Nat → Prop) (left right : Nat) : Prop where
  le : left ≤ right
  old {n : Nat} : kind n → left = right ∨ n < left

theorem Settled.shift_eq (h : Settled kind left right) (hn : kind n) : shift left right n = n := by
  rcases h.old hn with rfl | hlt
  · exact shift_self left n
  · exact shift_of_lt hlt

/-- Numbers of a kind belong to themselves, and new ones to those that they are shifted to. -/
def Pairing.shifted (h : Settled kind left right) : Pairing where
  old a b := a = b ∧ kind a
  left
  right
  unique hab hab' := unique_same hab hab'
  inOrder := by
    rintro a b ⟨rfl, hkind⟩ hnew
    have hle := h.le
    rcases h.old hkind with heq | hlt
    · omega
    · omega

theorem Pairing.upto_shifted_iff {h : Settled kind left right} :
    (shifted h).Upto n a b ↔ b = shift left right a ∧ (kind a ∨ left ≤ a ∧ a < n) := by
  have hle := h.le
  simp only [Upto, shifted]
  constructor
  · rintro (⟨rfl, hkind⟩ | ⟨hnew, hlt, hoffset⟩)
    · exact ⟨(h.shift_eq hkind).symm, .inl hkind⟩
    · rw [shift_of_le hnew]
      exact ⟨by omega, .inr ⟨hnew, hlt⟩⟩
  · rintro ⟨rfl, hkind | ⟨hnew, hlt⟩⟩
    · exact .inl ⟨(h.shift_eq hkind).symm, hkind⟩
    · rw [shift_of_le hnew]
      exact .inr ⟨hnew, hlt, by omega⟩

theorem Pairing.InStep.eq_add {h : Settled kind left right} (hn : (shifted h).InStep n m) :
    left ≤ n ∧ m = n + (right - left) := by
  have hle := h.le
  have hoffset : n + right = m + left := hn.offset
  exact ⟨hn.started, by omega⟩

end Numbers

namespace Value

mutual

/-- What a value of a run that starts at the stage `st` is in one that starts at the stage `st'`. -/
def shifted (st st' : Stage) : Value → Value
  | int n => int n
  | float x => float x
  | symbol name => symbol name
  | bool b => bool b
  | list id items => list (shift st.ids st'.ids id) (shiftedAll st st' items)
  | builtin b => builtin b
  | closure c => closure { c with
      id := shift st.ids st'.ids c.id, frame := shift st.frames st'.frames c.frame }
  | unspecified => unspecified

def shiftedAll (st st' : Stage) : List Value → List Value
  | [] => []
  | v :: rest => shifted st st' v :: shiftedAll st st' rest

end

variable {st st' : Stage}

@[simp] theorem shiftedAll_eq_map (items : List Value) :
    shiftedAll st st' items = items.map (shifted st st') := by
  induction items with
  | nil => rfl
  | cons v rest ih => simp [shiftedAll, ih]

/-- All identities and frames in the value have been given out. -/
def Numbered (st : Stage) (v : Value) : Prop :=
  ∀ u i, u.Part v → u.id? = some i → i < st.ids ∧ ∀ c, u = closure c → c.frame < st.frames

theorem Numbered.item {id : Nat} {items : List Value} {v : Value}
    (h : (list id items).Numbered st) (hv : v ∈ items) : v.Numbered st :=
  fun u i hu hi => h u i (.item hv hu) hi

theorem shifted_eq_self {v : Value} (h : v.Numbered st) : v.shifted st st' = v := by
  induction v using Value.items_induction with
  | list id items ih =>
    have hitems : items.map (shifted st st') = items.map fun v => v :=
      List.map_congr_left fun v hv => ih v hv (h.item hv)
    rw [List.map_id'] at hitems
    rw [shifted, shiftedAll_eq_map, hitems, shift_of_lt (h _ id .self rfl).1]
  | atom v hv =>
    cases v with
    | list id items => exact absurd rfl (hv id items)
    | closure c =>
      obtain ⟨hid, hframe⟩ := h _ c.id .self rfl
      rw [shifted, shift_of_lt hid, shift_of_lt (hframe c rfl)]
    | _ => rfl

@[simp] theorem shifted_self (st : Stage) (v : Value) : v.shifted st st = v := by
  induction v using Value.items_induction with
  | list id items ih =>
    have hitems : items.map (shifted st st) = items.map fun v => v := List.map_congr_left ih
    rw [List.map_id'] at hitems
    rw [shifted, shiftedAll_eq_map, hitems, shift_self]
  | atom v hv =>
    cases v with
    | list id items => exact absurd rfl (hv id items)
    | closure c => rw [shifted, shift_self, shift_self]
    | _ => rfl

end Value

/-- What belongs together is what is shifted to each other. -/
structure Likeness.Shifts (L : Likeness) (start start' : Stage) : Prop where
  frame {n f g : Nat} : L.frame.Upto n f g → g = shift start.frames start'.frames f
  id {n i j : Nat} : L.id.Upto n i j → j = shift start.ids start'.ids i
  host : L.host = Eq

variable {L : Likeness} {start start' st : Stage}

theorem Value.Alike.eq_shifted (hL : L.Shifts start start') {v w : Value} (h : v.Alike L st w) :
    w = v.shifted start start' := by
  induction h with
  | @list i j vs ws hid hlength _ ih =>
    have hitems : vs.map (Value.shifted start start') = ws.map fun w => w :=
      Value.map_eq_of_zip hlength fun hmem => (ih hmem).symm
    rw [List.map_id'] at hitems
    rw [Value.shifted, Value.shiftedAll_eq_map, hitems, hL.id hid]
  | builtin hid ho =>
    cases ho with
    | host h =>
      rw [hL.host] at h
      rw [h]
      rfl
    | _ => rfl
  | closure hid _ _ hframe => rw [Value.shifted, hL.id hid, hL.frame hframe]
  | _ => rfl

theorem Likeness.Agrees.eq_shifted (hL : L.Shifts start start') {r r' : Except Error Value}
    (h : L.Agrees (Value.Alike L st) r r') : r' = r.map (Value.shifted start start') := by
  cases h with
  | error => rfl
  | ok hv => exact congrArg Except.ok (hv.eq_shifted hL)

theorem eq_map_shifted_of_rel (hL : L.Shifts start start') {o o' : Option Value}
    (h : Option.Rel (Value.Alike L st) o o') : o' = o.map (Value.shifted start start') := by
  cases h with
  | none => rfl
  | some hv => exact congrArg some (hv.eq_shifted hL)

end MiniLisp
