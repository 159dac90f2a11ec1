import Mathlib.Data.List.AList

/-! Maps whose order means nothing.

A map is an `AList`, its entries in some order. A scan of the entries that stops at
the first answer finds one of its hits, and which one is up to the order: hits that
agree are found in every enumeration (`scan_perm`), and any hit is found in some
enumeration (`exists_scan`). -/
namespace Enumeration
variable {α β : Type}

/-- An answer of some element. -/
def Hit (f : α → Option β) (l : List α) (b : β) : Prop := ∃ x ∈ l, f x = some b

theorem hit_perm {f : α → Option β} {l l' : List α} (h : l.Perm l') {b : β} :
    Hit f l' b ↔ Hit f l b := by
  constructor
  · intro hhit
    obtain ⟨x, hx, hb⟩ := hhit
    exact ⟨x, h.mem_iff.mpr hx, hb⟩
  · intro hhit
    obtain ⟨x, hx, hb⟩ := hhit
    exact ⟨x, h.mem_iff.mp hx, hb⟩

theorem hit_of_scan {f : α → Option β} {l : List α} {b : β} (h : l.findSome? f = some b) :
    Hit f l b := by
  obtain ⟨x, hx, hb⟩ := List.exists_of_findSome?_eq_some h
  exact ⟨x, hx, hb⟩

theorem scan_none {f : α → Option β} {l : List α} :
    l.findSome? f = none ↔ ∀ b, ¬ Hit f l b := by
  rw [List.findSome?_eq_none_iff]
  constructor
  · intro h b hhit
    obtain ⟨x, hx, hb⟩ := hhit
    exact nomatch (h x hx).symm.trans hb
  · intro h x hx
    cases hb : f x with
    | none => rfl
    | some b => exact absurd ⟨x, hx, hb⟩ (h b)

/-- If the hits agree, the scan finds them in any order. -/
theorem scan_perm {f : α → Option β} {l l' : List α} (h : l.Perm l')
    (hagree : ∀ b b', Hit f l b → Hit f l b' → b = b') : l'.findSome? f = l.findSome? f := by
  cases hscan : l.findSome? f with
  | none =>
    have hnone := scan_none.mp hscan
    exact scan_none.mpr fun b hb => hnone b ((hit_perm h).mp hb)
  | some b =>
    cases hscan' : l'.findSome? f with
    | none => exact absurd ((hit_perm h).mpr (hit_of_scan hscan)) (scan_none.mp hscan' b)
    | some b' =>
      have hb' : Hit f l b' := (hit_perm h).mp (hit_of_scan hscan')
      rw [hagree b' b hb' (hit_of_scan hscan)]

/-- Any entry is first in some enumeration of the map. -/
theorem exists_first {κ : Type} [DecidableEq κ] {υ : κ → Type} {m : AList υ} {x : Sigma υ}
    (h : x ∈ m.entries) : ∃ m' : AList υ, m.entries.Perm m'.entries ∧
      ∃ rest, m'.entries = x :: rest := by
  obtain ⟨before, after, hsplit⟩ := List.append_of_mem h
  have hperm : m.entries.Perm (x :: (before ++ after)) := by
    rw [hsplit]
    exact List.perm_middle
  exact ⟨⟨_, (List.perm_nodupKeys hperm).mp m.nodupKeys⟩, hperm, _, rfl⟩

/-- Any hit is what the scan of some enumeration finds. -/
theorem exists_scan {κ : Type} [DecidableEq κ] {υ : κ → Type} {m : AList υ}
    {f : Sigma υ → Option β} {b : β} (h : Hit f m.entries b) :
    ∃ m' : AList υ, m.entries.Perm m'.entries ∧ m'.entries.findSome? f = some b := by
  obtain ⟨x, hx, hb⟩ := h
  obtain ⟨m', hperm, rest, hfirst⟩ := exists_first hx
  refine ⟨m', hperm, ?_⟩
  rw [hfirst, List.findSome?_cons_of_isSome (by rw [hb]; rfl), hb]

end Enumeration
