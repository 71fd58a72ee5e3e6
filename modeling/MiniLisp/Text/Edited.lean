import MiniLisp.Text.Cluster

/-!
# Edited lines

On the command line a backspace in a line takes back the cluster before it that was not taken back
yet; at the beginning of a line it does nothing. A line without one stays as it is
(`edited_eq_self`). The read loop works with any other editor just as well.
-/

namespace MiniLisp

def backspace : Char := '\x08'

/-- A line while it is being typed. -/
structure Typing where
  /-- The characters, the last one first. -/
  chars : List Char
  /-- How many bytes of text the clusters take, the last one first. A single byte holds each
  number, so that of a long cluster only the remainder of division by 256 is known. -/
  sizes : List UInt8

namespace Typing

/-- Leaves out as many bytes; characters cannot be divided. -/
def dropBytes : Nat → List Char → Option (List Char)
  | 0, chars => some chars
  | _, [] => none
  | n, c :: rest => if c.utf8Size ≤ n then dropBytes (n - c.utf8Size) rest else none

def takeBack (t : Typing) : Option Typing :=
  match t.sizes with
  | [] => some t
  | size :: sizes => (dropBytes size.toNat t.chars).map fun chars => ⟨chars, sizes⟩

def put (t : Typing) (cluster : List Char) : Option Typing :=
  if cluster = [backspace] then t.takeBack
  else some ⟨cluster.reverse ++ t.chars, .ofNat (String.ofList cluster).utf8ByteSize :: t.sizes⟩

end Typing

/-- The line that remains, if every backspace was able to take back whole characters. -/
def edited (line : String) : Option String :=
  ((clusters line.toList).foldlM Typing.put ⟨[], []⟩).map fun t => String.ofList t.chars.reverse

namespace Typing

theorem foldlM_put (cs : List (List Char)) (h : [backspace] ∉ cs) (t : Typing) :
    ∃ sizes, cs.foldlM put t = some ⟨cs.flatten.reverse ++ t.chars, sizes⟩ := by
  induction cs generalizing t with
  | nil => exact ⟨t.sizes, rfl⟩
  | cons c cs ih =>
    simp only [List.mem_cons, not_or] at h
    rw [List.foldlM_cons, put, if_neg (Ne.symm h.1)]
    simpa using ih h.2 _

end Typing

theorem edited_eq_self {line : String} (h : backspace ∉ line.toList) :
    edited line = some line := by
  have hc : [backspace] ∉ clusters line.toList := fun hm => h <| by
    rw [← flatten_clusters line.toList]
    exact List.mem_flatten_of_mem hm (.head _)
  obtain ⟨sizes, ht⟩ := Typing.foldlM_put _ hc ⟨[], []⟩
  simp [edited, ht]

end MiniLisp
