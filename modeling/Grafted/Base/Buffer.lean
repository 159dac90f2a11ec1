import Mathlib.Data.List.Basic

/-! Writing to a buffer of a fixed size.

A writer appends to what is in the buffer, or fails when it would go past the end. A writer
that `Writes` some bytes fails exactly when there is no room for all of them, and one after
another they write what they write together (`Writes.andThen`). -/
namespace Buffer
variable {β : Type} {capacity : Nat}

/-- From what is in the buffer to what is in it afterwards. -/
abbrev Writer (β : Type) := List β → Option (List β)

def write (capacity : Nat) (bytes : List β) : Writer β :=
  fun buf => if buf.length + bytes.length ≤ capacity then some (buf ++ bytes) else none

/-- Nothing is written. -/
def skip : Writer β := some

def andThen (p q : Writer β) : Writer β := fun buf => (p buf).bind q

def sequence : List (Writer β) → Writer β
  | [] => skip
  | p :: rest => andThen p (sequence rest)

def Writes (capacity : Nat) (p : Writer β) (bytes : List β) : Prop :=
  ∀ buf, buf.length ≤ capacity → p buf = write capacity bytes buf

theorem writes_write (bytes : List β) : Writes capacity (write capacity bytes) bytes := fun _ _ => rfl

theorem writes_skip : Writes capacity (skip (β := β)) [] := by
  intro buf hbuf
  rw [write, List.length_nil, Nat.add_zero, if_pos hbuf, List.append_nil]
  rfl

theorem Writes.andThen {p q : Writer β} {bytes bytes' : List β} (hp : Writes capacity p bytes)
    (hq : Writes capacity q bytes') : Writes capacity (andThen p q) (bytes ++ bytes') := by
  intro buf hbuf
  rw [Buffer.andThen, hp buf hbuf]
  unfold write
  by_cases hfits : buf.length + bytes.length ≤ capacity
  · have hlength : (buf ++ bytes).length = buf.length + bytes.length := List.length_append
    rw [if_pos hfits, Option.bind_some, hq _ (hlength ▸ hfits), write, hlength, List.length_append,
      List.append_assoc, Nat.add_assoc]
  · have hover : ¬ buf.length + (bytes ++ bytes').length ≤ capacity := by
      rw [List.length_append]
      omega
    rw [if_neg hfits, if_neg hover]
    rfl

theorem writes_sequence_map {ι : Type} {p : ι → Writer β} {bytes : ι → List β} (is : List ι)
    (h : ∀ i, Writes capacity (p i) (bytes i)) :
    Writes capacity (sequence (is.map p)) (is.flatMap bytes) := by
  induction is with
  | nil => exact writes_skip
  | cons i rest ih => exact (h i).andThen ih

/-- From an empty buffer. -/
theorem Writes.isSome {p : Writer β} {bytes : List β} (h : Writes capacity p bytes) :
    (p []).isSome ↔ bytes.length ≤ capacity := by
  rw [h [] (Nat.zero_le capacity), write, List.length_nil, Nat.zero_add]
  split_ifs with hfits
  · exact iff_of_true rfl hfits
  · exact iff_of_false Bool.false_ne_true hfits

end Buffer
