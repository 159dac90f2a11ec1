import Mathlib.Algebra.Order.BigOperators.Group.Finset
import Mathlib.Data.Fintype.Card
import Mathlib.Data.Fintype.EquivFin
import Mathlib.Logic.Relation

/-! Objects that hold one another.

A heap maps references to objects, and an object has a list of the references it holds.
Where holding is acyclic not everything can be held (`exists_unheld`). `slots` counts by
how many places of the heap a reference is held: it changes with one object by what that
object held and holds (`slots_update`). -/
namespace Holding
open Relation

section Relation
variable {R O : Type} (values : O → List R) (heap : R → Option O)

def Holds (c x : R) : Prop := ∃ o, heap c = some o ∧ x ∈ values o

/-- No object holds itself, directly or through others. -/
def Acyclic : Prop := ∀ x, ¬ TransGen (Holds values heap) x x

/-- In an acyclic heap some member of an inhabited set is held by none of them. -/
theorem exists_unheld [Finite R] (hacyclic : Acyclic values heap) {live : R → Prop} {x : R}
    (hx : live x) : ∃ y, live y ∧ ∀ c, live c → ¬ Holds values heap c y := by
  have hirrefl : Std.Irrefl (TransGen (Holds values heap)) := ⟨hacyclic⟩
  have hwf := Finite.wellFounded_of_trans_of_irrefl (TransGen (Holds values heap))
  obtain ⟨y, hy, hmin⟩ := hwf.has_min {y | live y} ⟨x, hx⟩
  exact ⟨y, hy, fun c hc hholds => hmin c hc (.single hholds)⟩

/-- Where what is held always ranks lower there is no cycle. -/
theorem acyclic_of_rank (rank : R → Nat) (hrank : ∀ c x, Holds values heap c x → rank x < rank c) :
    Acyclic values heap := by
  have hlower : ∀ c x, TransGen (Holds values heap) c x → rank x < rank c := by
    intro c x h
    induction h with
    | single hholds => exact hrank _ _ hholds
    | tail _ hholds ih => exact Nat.lt_trans (hrank _ _ hholds) ih
  exact fun x h => Nat.lt_irrefl _ (hlower x x h)

end Relation

section Slots
variable {R O : Type} [Fintype R] [DecidableEq R] (values : O → List R)

/-- How often what is stored in a cell holds the reference. -/
def heldBy (cell : Option O) (x : R) : Nat :=
  match cell with
  | some o => (values o).count x
  | none => 0

/-- By how many places of the heap the reference is held. -/
def slots (heap : R → Option O) (x : R) : Nat := ∑ c, heldBy values (heap c) x

variable {values} {heap : R → Option O}

theorem slots_update (c : R) (cell : Option O) (x : R) :
    slots values (Function.update heap c cell) x + heldBy values (heap c) x =
      slots values heap x + heldBy values cell x := by
  have hafter := Finset.add_sum_erase Finset.univ
    (fun r => heldBy values (Function.update heap c cell r) x) (Finset.mem_univ c)
  have hbefore := Finset.add_sum_erase Finset.univ (fun r => heldBy values (heap r) x)
    (Finset.mem_univ c)
  have hsame : ∑ r ∈ Finset.univ.erase c, heldBy values (Function.update heap c cell r) x =
      ∑ r ∈ Finset.univ.erase c, heldBy values (heap r) x := by
    apply Finset.sum_congr rfl
    intro r hr
    rw [Function.update_of_ne (Finset.ne_of_mem_erase hr)]
  simp only [Function.update_self] at hafter
  unfold slots
  omega

theorem heldBy_le_slots (c x : R) : heldBy values (heap c) x ≤ slots values heap x := by
  unfold slots
  exact Finset.single_le_sum (f := fun c => heldBy values (heap c) x) (fun _ _ => Nat.zero_le _)
    (Finset.mem_univ c)

theorem slots_pos {x : R} : 0 < slots values heap x ↔ ∃ c, Holds values heap c x := by
  have hcell : ∀ c, 0 < heldBy values (heap c) x ↔ Holds values heap c x := by
    intro c
    unfold heldBy Holds
    cases heap c with
    | none => simp
    | some o => simp [List.count_pos_iff]
  constructor
  · intro hpos
    unfold slots at hpos
    obtain ⟨c, -, hc⟩ := Finset.exists_ne_zero_of_sum_ne_zero (Nat.ne_of_gt hpos)
    exact ⟨c, (hcell c).mp (Nat.pos_of_ne_zero hc)⟩
  · intro ⟨c, hc⟩
    exact Nat.lt_of_lt_of_le ((hcell c).mpr hc) (heldBy_le_slots c x)

end Slots

end Holding
