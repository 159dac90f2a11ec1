import Mathlib.Data.List.Nodup
import Mathlib.Logic.Function.Basic
import Mathlib.Logic.Relation

/-! Forests that are stored twice.

Every node has its parent and the list of its children. An edge more closes a cycle exactly
when it could be walked back before (`acyclic_edge_iff`). So a node can be put under
another, with nothing else changed, exactly when it is a root and the other is not below it
(`Forest.attach_iff`), and it can be cut off on its own side alone exactly when it has
neither a parent nor children (`Forest.reset_iff`). -/
namespace Forests
open Relation

section Relations
variable {V : Type} {r : V → V → Prop}

def Acyclic (r : V → V → Prop) : Prop := ∀ x, ¬ TransGen r x x

/-- One edge more. -/
def Edge (r : V → V → Prop) (v p x y : V) : Prop := r x y ∨ x = v ∧ y = p

/-- A path has the new edge or it is an old one. -/
theorem path_edge {v p x y : V} (h : TransGen (Edge r v p) x y) :
    TransGen r x y ∨ ReflTransGen r x v ∧ ReflTransGen r p y := by
  induction h with
  | single hstep =>
    rcases hstep with hold | ⟨rfl, rfl⟩
    · exact .inl (.single hold)
    · exact .inr ⟨.refl, .refl⟩
  | tail _ hstep ih =>
    rcases hstep with hold | ⟨rfl, rfl⟩
    · rcases ih with hpath | ⟨hto, hfrom⟩
      · exact .inl (hpath.tail hold)
      · exact .inr ⟨hto, hfrom.tail hold⟩
    · rcases ih with hpath | ⟨hto, -⟩
      · exact .inr ⟨hpath.to_reflTransGen, .refl⟩
      · exact .inr ⟨hto, .refl⟩

theorem acyclic_edge_iff {v p : V} :
    Acyclic (Edge r v p) ↔ Acyclic r ∧ ¬ ReflTransGen r p v := by
  have hle : r ≤ Edge r v p := fun _ _ hold => .inl hold
  constructor
  · intro h
    refine ⟨fun x hpath => h x (TransGen.mono hle _ _ hpath), fun hback => ?_⟩
    exact h v (.head' (.inr ⟨rfl, rfl⟩) (ReflTransGen.mono hle _ _ hback))
  · rintro ⟨hacyclic, hback⟩ x hpath
    rcases path_edge hpath with hpath | ⟨hto, hfrom⟩
    · exact hacyclic x hpath
    · exact hback (hfrom.trans hto)

end Relations

section Nodes
variable {V : Type} {parent : V → Option V} {children : V → List V}

def ChildOf (parent : V → Option V) (v p : V) : Prop := parent v = some p

/-- Both sides say the same, of every node once, and no node is above itself. -/
structure Forest (parent : V → Option V) (children : V → List V) : Prop where
  once : ∀ p, (children p).Nodup
  one : ∀ p q v, v ∈ children p → v ∈ children q → p = q
  listed : ∀ p v, v ∈ children p ↔ parent v = some p
  acyclic : Acyclic (ChildOf parent)

/-- In one list at most, as there is one parent at most. -/
theorem forest_of_listed (once : ∀ p, (children p).Nodup)
    (listed : ∀ p v, v ∈ children p ↔ parent v = some p) (acyclic : Acyclic (ChildOf parent)) :
    Forest parent children := by
  refine ⟨once, fun p q v hp hq => ?_, listed, acyclic⟩
  have hparent : some p = some q := ((listed p v).mp hp).symm.trans ((listed q v).mp hq)
  exact Option.some.inj hparent

theorem forest_empty : Forest (fun _ : V => none) fun _ => [] := by
  refine forest_of_listed (fun _ => List.nodup_nil) (fun p v => ?_) fun x hpath => ?_
  · exact iff_of_false List.not_mem_nil (nomatch ·)
  · obtain ⟨_, hstep, -⟩ := TransGen.head'_iff.mp hpath
    exact nomatch hstep

theorem Forest.parent_ne (h : Forest parent children) (v : V) : parent v ≠ some v :=
  fun hself => h.acyclic v (.single hself)

theorem Forest.children_eq_nil_iff (h : Forest parent children) (v : V) :
    children v = [] ↔ ∀ u, parent u ≠ some v := by
  rw [List.eq_nil_iff_forall_not_mem]
  exact forall_congr' fun u => not_congr (h.listed v u)

variable [DecidableEq V]

/-- Only the node is changed: those that know it are not told. -/
theorem Forest.reset_iff (h : Forest parent children) (v : V) :
    Forest (Function.update parent v none) (Function.update children v []) ↔
      parent v = none ∧ children v = [] := by
  constructor
  · intro hreset
    refine ⟨Option.eq_none_iff_forall_ne_some.mpr fun p hp => ?_,
      (h.children_eq_nil_iff v).mpr fun u hu => ?_⟩
    · have hne : p ≠ v := by
        rintro rfl
        exact h.parent_ne p hp
      have hmem : v ∈ Function.update children v [] p := by
        rw [Function.update_of_ne hne]
        exact (h.listed p v).mpr hp
      have hnone := (hreset.listed p v).mp hmem
      rw [Function.update_self] at hnone
      exact nomatch hnone
    · have hne : u ≠ v := by
        rintro rfl
        exact h.parent_ne u hu
      have hsome : Function.update parent v none u = some v := by
        rw [Function.update_of_ne hne]
        exact hu
      have hmem := (hreset.listed v u).mpr hsome
      rw [Function.update_self] at hmem
      exact nomatch hmem
  · rintro ⟨hroot, hleaf⟩
    rw [← hroot, ← hleaf, Function.update_eq_self, Function.update_eq_self]
    exact h

theorem childOf_attach {v : V} (hroot : parent v = none) (p : V) :
    ChildOf (Function.update parent v (some p)) = Edge (ChildOf parent) v p := by
  funext x y
  unfold ChildOf Edge
  by_cases hx : x = v
  · obtain rfl := hx
    simp [hroot, eq_comm]
  · simp [hx]

theorem Forest.attach (h : Forest parent children) {p v : V} (hroot : parent v = none)
    (hbelow : ¬ ReflTransGen (ChildOf parent) p v) :
    Forest (Function.update parent v (some p)) (Function.update children p (children p ++ [v])) := by
  have hnew : ∀ q, v ∉ children q := by
    intro q hmem
    rw [h.listed, hroot] at hmem
    exact nomatch hmem
  refine forest_of_listed (fun q => ?_) (fun q u => ?_) ?_
  · by_cases hq : q = p
    · rw [hq, Function.update_self, ← List.concat_eq_append]
      exact (h.once p).concat (hnew p)
    · rw [Function.update_of_ne hq]
      exact h.once q
  · by_cases hu : u = v
    · obtain rfl := hu
      by_cases hq : q = p
      · simp [hq]
      · rw [Function.update_of_ne hq, Function.update_self]
        exact iff_of_false (hnew q) fun heq => hq (Option.some.inj heq).symm
    · rw [Function.update_of_ne hu, ← h.listed]
      by_cases hq : q = p
      · simp [hq, hu]
      · rw [Function.update_of_ne hq]
  · rw [childOf_attach hroot]
    exact acyclic_edge_iff.mpr ⟨h.acyclic, hbelow⟩

/-- The node is put last under the other, with no look at where it was. -/
theorem Forest.attach_iff (h : Forest parent children) (p v : V) :
    Forest (Function.update parent v (some p)) (Function.update children p (children p ++ [v])) ↔
      parent v = none ∧ ¬ ReflTransGen (ChildOf parent) p v := by
  constructor
  · intro hattached
    have hroot : parent v = none := by
      refine Option.eq_none_iff_forall_ne_some.mpr fun q hq => ?_
      have hmem : v ∈ children q := (h.listed q v).mpr hq
      by_cases hqp : q = p
      · obtain rfl := hqp
        have honce := hattached.once q
        rw [Function.update_self] at honce
        exact (List.nodup_append.mp honce).2.2 v hmem v List.mem_cons_self rfl
      · have hlisted := (hattached.listed q v).mp (by rwa [Function.update_of_ne hqp])
        rw [Function.update_self] at hlisted
        exact hqp (Option.some.inj hlisted).symm
    have hacyclic := hattached.acyclic
    rw [childOf_attach hroot] at hacyclic
    exact ⟨hroot, (acyclic_edge_iff.mp hacyclic).2⟩
  · rintro ⟨hroot, hbelow⟩
    exact h.attach hroot hbelow

end Nodes

end Forests
