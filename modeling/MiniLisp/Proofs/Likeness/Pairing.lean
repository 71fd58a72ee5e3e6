import Mathlib.Order.Defs.PartialOrder

/-!
# Pairing the numbers of two runs

Frames and identities are numbers handed out by counting. Two runs that go the same way may count
from different points on, so that what is one number in the left run is another one in the right
run. A pairing says which belong together: some from before, and from there on in order.
-/

namespace MiniLisp

structure Pairing where
  /-- The numbers that belonged together before. -/
  old : Nat → Nat → Prop
  /-- Where the left run starts to count. -/
  left : Nat
  /-- Where the right run starts to count. -/
  right : Nat
  unique {a b a' b' : Nat} : old a b → old a' b' → (a = a' ↔ b = b')
  /-- A number that is not handed out yet belongs to the one that will be handed out with it. -/
  inOrder {a b : Nat} : old a b → left ≤ a ∨ right ≤ b → a + right = b + left

namespace Pairing

variable {p : Pairing} {n m a b a' b' : Nat}

/-- The numbers that belong together once the left run has counted up to `n`. -/
def Upto (p : Pairing) (n a b : Nat) : Prop :=
  p.old a b ∨ p.left ≤ a ∧ a < n ∧ a + p.right = b + p.left

/-- Both runs have counted equally far. -/
structure InStep (p : Pairing) (n m : Nat) : Prop where
  started : p.left ≤ n
  offset : n + p.right = m + p.left

theorem Upto.mono (h : p.Upto n a b) {n' : Nat} (hn : n ≤ n') : p.Upto n' a b := by
  rcases h with h | ⟨hleft, hlt, hoffset⟩
  · exact .inl h
  · exact .inr ⟨hleft, by omega, hoffset⟩

theorem Upto.unique (h : p.Upto n a b) (h' : p.Upto n a' b') : a = a' ↔ b = b' := by
  rcases h with h | ⟨hleft, -, hoffset⟩
  · rcases h' with h' | ⟨hleft', -, hoffset'⟩
    · exact p.unique h h'
    · have horder := p.inOrder h
      omega
  · rcases h' with h' | ⟨hleft', -, hoffset'⟩
    · have horder := p.inOrder h'
      omega
    · omega

theorem InStep.add (h : p.InStep n m) (k : Nat) : p.InStep (n + k) (m + k) := by
  obtain ⟨hstarted, hoffset⟩ := h
  exact ⟨by omega, by omega⟩

/-- The next two numbers will belong together. -/
theorem InStep.upto (h : p.InStep n m) : p.Upto (n + 1) n m :=
  .inr ⟨h.started, by omega, h.offset⟩

theorem InStep.eq_iff (h : p.InStep n m) (hab : p.Upto (n + 1) a b) : a = n ↔ b = m :=
  hab.unique h.upto

theorem Upto.of_ne (h : p.Upto (n + 1) a b) (hne : a ≠ n) : p.Upto n a b := by
  rcases h with h | ⟨hleft, hlt, hoffset⟩
  · exact .inl h
  · exact .inr ⟨hleft, by omega, hoffset⟩

/-- The numbers that belong together are all below the points from which the runs count. -/
def ofBounded (old : Nat → Nat → Prop) (left right : Nat)
    (unique : ∀ {a b a' b' : Nat}, old a b → old a' b' → (a = a' ↔ b = b'))
    (bounded : ∀ {a b : Nat}, old a b → a < left ∧ b < right) : Pairing where
  old
  left
  right
  unique
  inOrder hold h := by
    have hbounded := bounded hold
    omega

/-- Both runs are still where they start to count. -/
structure Starts (p : Pairing) (n m : Nat) : Prop where
  left : p.left = n
  right : p.right = m
  bounded {a b : Nat} : p.old a b → a < n ∧ b < m

theorem Starts.inStep (h : p.Starts n m) : p.InStep n m := by
  rw [← h.left, ← h.right]
  exact ⟨Nat.le_refl _, Nat.add_comm _ _⟩

theorem Starts.upto_iff (h : p.Starts n m) : p.Upto n a b ↔ p.old a b := by
  constructor
  · rintro (hold | ⟨hleft, hlt, -⟩)
    · exact hold
    · exact absurd hlt (Nat.not_lt_of_le (h.left ▸ hleft))
  · exact .inl

theorem bounded_of_upto (h : p.Starts n m) {n' m' : Nat} (h' : p.InStep n' m')
    (hab : p.Upto n' a b) : a < n' ∧ b < m' := by
  have hleft := h.left
  have hright := h.right
  obtain ⟨hstarted, hoffset⟩ := h'
  rcases hab with hold | ⟨hge, hlt, hsum⟩
  · have hbounded := h.bounded hold
    omega
  · omega

/-- The pairing with which two runs go on that have counted up to `n'` and `m'`. -/
def advance (p : Pairing) (h : p.Starts n m) {n' m' : Nat} (h' : p.InStep n' m') : Pairing :=
  .ofBounded (p.Upto n') n' m' Upto.unique (bounded_of_upto h h')

theorem starts_advance (h : p.Starts n m) {n' m' : Nat} (h' : p.InStep n' m') :
    (p.advance h h').Starts n' m' :=
  ⟨rfl, rfl, bounded_of_upto h h'⟩

/-- The same numbers belong together, but the left run starts to count later. -/
def delay (p : Pairing) (h : p.Starts n m) {n' : Nat} (hn : n ≤ n') : Pairing :=
  .ofBounded p.old n' m p.unique fun hold =>
    ⟨Nat.lt_of_lt_of_le (h.bounded hold).1 hn, (h.bounded hold).2⟩

theorem starts_delay (h : p.Starts n m) {n' : Nat} (hn : n ≤ n') :
    (p.delay h hn).Starts n' m :=
  ⟨rfl, rfl, fun hold => ⟨Nat.lt_of_lt_of_le (h.bounded hold).1 hn, (h.bounded hold).2⟩⟩

theorem unique_same {kind : Nat → Prop} {a b a' b' : Nat} (h : a = b ∧ kind a)
    (h' : a' = b' ∧ kind a') : a = a' ↔ b = b' := by
  rw [← h.1, ← h'.1]

/-- Every number of a kind belongs to itself, and so does every number from `n` on. -/
def same (kind : Nat → Prop) (n : Nat) : Pairing where
  old a b := a = b ∧ kind a
  left := n
  right := n
  unique h h' := unique_same h h'
  inOrder h _ := by rw [h.1]

variable {kind : Nat → Prop} {start : Nat}

@[simp] theorem upto_same_iff :
    (same kind start).Upto n a b ↔ a = b ∧ (kind a ∨ start ≤ a ∧ a < n) := by
  simp only [Upto, same]
  constructor
  · rintro (⟨rfl, h⟩ | ⟨hleft, hlt, hoffset⟩)
    · exact ⟨rfl, .inl h⟩
    · exact ⟨by omega, .inr ⟨hleft, hlt⟩⟩
  · rintro ⟨rfl, h | ⟨hleft, hlt⟩⟩
    · exact .inl ⟨rfl, h⟩
    · exact .inr ⟨hleft, hlt, rfl⟩

@[simp] theorem inStep_same_iff : (same kind start).InStep n m ↔ n = m ∧ start ≤ n := by
  constructor
  · rintro ⟨hstarted, hoffset⟩
    simp only [same] at hstarted hoffset
    exact ⟨by omega, hstarted⟩
  · rintro ⟨rfl, hstarted⟩
    exact ⟨hstarted, rfl⟩

end Pairing

/-- How far a run has counted. -/
structure Stage where
  frames : Nat
  ids : Nat

instance : Preorder Stage where
  le a b := a.frames ≤ b.frames ∧ a.ids ≤ b.ids
  le_refl _ := ⟨Nat.le_refl _, Nat.le_refl _⟩
  le_trans _ _ _ h h' := ⟨Nat.le_trans h.1 h'.1, Nat.le_trans h.2 h'.2⟩

end MiniLisp
