import Grafted.Base.ByteMemory

/-! Pushes: moves down from an address, and a write at the end of each.

Addresses wrap, and nothing says how far down the pushes go. But one push moves little more
than it writes, so the first that leaves a region is seen: it writes outside. The writes are
all in the region exactly if the moves together are not longer than it (`inside_iff`). -/
namespace Descent
open ByteMemory

/-- Down by `step`, and `size` bytes written from there up. -/
structure Push where
  step : Nat
  size : Nat
  nonempty : 0 < size
  size_le : size ≤ step
  step_le : step ≤ size + 23

/-- Where they write, and how much. -/
def writes (top : Address) : Nat → List Push → List (Address × Nat)
  | _, [] => []
  | depth, push :: rest =>
    (top - BitVec.ofNat 64 (depth + push.step), push.size) :: writes top (depth + push.step) rest

def total : List Push → Nat
  | [] => 0
  | push :: rest => push.step + total rest

def Inside (base : Address) (size : Nat) (w : Address × Nat) : Prop :=
  base.toNat ≤ w.1.toNat ∧ w.1.toNat + w.2 ≤ base.toNat + size

theorem writes_append (top : Address) (depth : Nat) (pushes pushes' : List Push) :
    writes top depth (pushes ++ pushes') =
      writes top depth pushes ++ writes top (depth + total pushes) pushes' := by
  induction pushes generalizing depth with
  | nil => rfl
  | cons push rest ih =>
    rw [List.cons_append, writes, writes, ih, List.cons_append]
    rw [total, Nat.add_assoc]

theorem total_append (pushes pushes' : List Push) :
    total (pushes ++ pushes') = total pushes + total pushes' := by
  induction pushes with
  | nil => exact (Nat.zero_add _).symm
  | cons push rest ih => rw [List.cons_append, total, total, ih, Nat.add_assoc]

section Region
variable {base : Address} {size : Nat} (hfits : base.toNat + size < 2 ^ 64) (hsmall : size < 2 ^ 62)
include hfits hsmall

theorem inside_step {depth : Nat} (hdepth : depth ≤ size) (push : Push) :
    Inside base size ((base + BitVec.ofNat 64 size) - BitVec.ofNat 64 (depth + push.step), push.size) ↔
      depth + push.step ≤ size := by
  obtain ⟨step, n, hpos, hle, hslack⟩ := push
  have htop : (base + BitVec.ofNat 64 size).toNat = base.toNat + size := by
    bv_omega
  unfold Inside
  dsimp only
  constructor
  · rintro ⟨hlow, hhigh⟩
    by_contra hdeep
    have hmove : (depth + step) % 2 ^ 64 = depth + step := Nat.mod_eq_of_lt (by omega)
    rw [BitVec.toNat_sub, htop, BitVec.toNat_ofNat, hmove] at hlow hhigh
    omega
  · intro h
    have hmove : (depth + step) % 2 ^ 64 = depth + step := Nat.mod_eq_of_lt (by omega)
    rw [BitVec.toNat_sub, htop, BitVec.toNat_ofNat, hmove]
    omega

theorem inside_iff {depth : Nat} (hdepth : depth ≤ size) (pushes : List Push) :
    (∀ w ∈ writes (base + BitVec.ofNat 64 size) depth pushes, Inside base size w) ↔
      depth + total pushes ≤ size := by
  induction pushes generalizing depth with
  | nil => exact iff_of_true (List.forall_mem_nil _) hdepth
  | cons push rest ih =>
    have hstep := inside_step hfits hsmall hdepth push
    rw [writes, List.forall_mem_cons, hstep, total, ← Nat.add_assoc]
    constructor
    · rintro ⟨hfirst, hrest⟩
      exact (ih hfirst).mp hrest
    · intro h
      have hfirst : depth + push.step ≤ size := by omega
      exact ⟨hfirst, (ih hfirst).mpr h⟩

end Region

end Descent
