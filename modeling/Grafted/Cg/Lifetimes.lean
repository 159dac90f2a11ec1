import Mathlib.Data.List.TakeWhile
import Mathlib.Logic.Function.Basic

/-! Contexts, colors and color spaces: who is destroyed when.

A retain goes to the shared count; a release of any of the three types drops the box. So
an object is gone from its first release on (`run_gone`), which is the right one exactly
when no retain came before it (`lifetimes_iff`). -/
namespace Grafted.Cg.Lifetimes

abbrev Ref := BitVec 64

inductive Kind where
  | context
  | colorSpace
  | color
  deriving DecidableEq

/-- The type, and the `CFRuntimeBase`. -/
structure Object where
  kind : Kind
  refcount : BitVec 32
  deriving DecidableEq

/-- `CFRuntimeBase::retain`. -/
def Object.retain (o : Object) : Object := {o with refcount := o.refcount + 1}

abbrev Heap := Ref → Option Object

/-- The count of the object, if the pointer is not null. -/
def retainBase (h : Heap) (cf : Ref) : Heap :=
  if cf = 0 then h
  else
    match h cf with
    | some o => Function.update h cf (some o.retain)
    | none => h

/-- `Box::from_raw` of an object of the type, dropped. -/
def dropBox (kind : Kind) (h : Heap) (ptr : Ref) : Heap :=
  if ptr = 0 then h
  else
    match h ptr with
    | some o => if o.kind = kind then Function.update h ptr none else h
    | none => h

def cfRetain (h : Heap) (cf : Ref) : Heap := retainBase h cf

def cgContextRetain (h : Heap) (ctx : Ref) : Heap := retainBase h ctx

def cgContextRelease (h : Heap) (ctx : Ref) : Heap := dropBox .context h ctx

def cgColorSpaceRelease (h : Heap) (cs : Ref) : Heap := dropBox .colorSpace h cs

def cgColorRelease (h : Heap) (color : Ref) : Heap := dropBox .color h color

inductive Call where
  | cfRetain (cf : Ref)
  | cgContextRetain (ctx : Ref)
  | cgContextRelease (ctx : Ref)
  | cgColorSpaceRelease (cs : Ref)
  | cgColorRelease (color : Ref)
  deriving DecidableEq

def perform (h : Heap) : Call → Heap
  | .cfRetain cf => cfRetain h cf
  | .cgContextRetain ctx => cgContextRetain h ctx
  | .cgContextRelease ctx => cgContextRelease h ctx
  | .cgColorSpaceRelease cs => cgColorSpaceRelease h cs
  | .cgColorRelease color => cgColorRelease h color

def run (h : Heap) (calls : List Call) : Heap := calls.foldl perform h

namespace Call

def target : Call → Ref
  | .cfRetain cf => cf
  | .cgContextRetain ctx => ctx
  | .cgContextRelease ctx => ctx
  | .cgColorSpaceRelease cs => cs
  | .cgColorRelease color => color

/-- The type of object the call is for, if not for all. -/
def kind : Call → Option Kind
  | .cfRetain _ => none
  | .cgContextRetain _ => some .context
  | .cgContextRelease _ => some .context
  | .cgColorSpaceRelease _ => some .colorSpace
  | .cgColorRelease _ => some .color

def isRelease : Call → Bool
  | .cfRetain _ => false
  | .cgContextRetain _ => false
  | .cgContextRelease _ => true
  | .cgColorSpaceRelease _ => true
  | .cgColorRelease _ => true

def releases (x : Ref) (c : Call) : Bool := c.isRelease && c.target == x

def retains (x : Ref) (c : Call) : Bool := !c.isRelease && c.target == x

/-- The call, if it is on the object, is one for its type. -/
def Fits (x : Ref) (kind : Kind) (c : Call) : Prop :=
  c.target = x → c.kind = none ∨ c.kind = some kind

end Call

/-! ### One call -/

theorem perform_retain_eq (h : Heap) {c : Call} (hc : c.isRelease = false) :
    perform h c = retainBase h c.target := by
  cases c with
  | cfRetain cf => rfl
  | cgContextRetain ctx => rfl
  | cgContextRelease ctx => cases hc
  | cgColorSpaceRelease cs => cases hc
  | cgColorRelease color => cases hc

theorem perform_release_eq (h : Heap) {c : Call} (hc : c.isRelease = true) :
    ∃ kind, c.kind = some kind ∧ perform h c = dropBox kind h c.target := by
  cases c with
  | cfRetain cf => cases hc
  | cgContextRetain ctx => cases hc
  | cgContextRelease ctx => exact ⟨.context, rfl, rfl⟩
  | cgColorSpaceRelease cs => exact ⟨.colorSpace, rfl, rfl⟩
  | cgColorRelease color => exact ⟨.color, rfl, rfl⟩

section OneCall
variable {h : Heap} {x cf : Ref} {o : Object}

theorem retainBase_of_ne (hne : x ≠ cf) : retainBase h cf x = h x := by
  unfold retainBase
  split_ifs
  · rfl
  · cases h cf with
    | none => rfl
    | some o => exact Function.update_of_ne hne ..

theorem dropBox_of_ne (kind : Kind) (hne : x ≠ cf) : dropBox kind h cf x = h x := by
  unfold dropBox
  split_ifs
  · rfl
  · cases h cf with
    | none => rfl
    | some o =>
      simp only
      split_ifs
      · exact Function.update_of_ne hne ..
      · rfl

theorem retainBase_gone (hx : h x = none) : retainBase h cf x = none := by
  by_cases hne : x = cf
  · rw [retainBase, ← hne, hx, ite_self]
    exact hx
  · exact (retainBase_of_ne hne).trans hx

theorem dropBox_gone (kind : Kind) (hx : h x = none) : dropBox kind h cf x = none := by
  by_cases hne : x = cf
  · rw [dropBox, ← hne, hx, ite_self]
    exact hx
  · exact (dropBox_of_ne kind hne).trans hx

/-- What is gone stays so. -/
theorem perform_gone (hx : h x = none) (c : Call) : perform h c x = none := by
  cases hc : c.isRelease with
  | false =>
    rw [perform_retain_eq h hc]
    exact retainBase_gone hx
  | true =>
    obtain ⟨kind, -, hdrop⟩ := perform_release_eq h hc
    rw [hdrop]
    exact dropBox_gone kind hx

/-- A release for the type of the object destroys it, whatever its count. -/
theorem perform_release (hnull : x ≠ 0) (hx : h x = some o) {c : Call} (hfits : c.Fits x o.kind)
    (hc : c.releases x) : perform h c x = none := by
  rw [Call.releases, Bool.and_eq_true, beq_iff_eq] at hc
  obtain ⟨kind, hkind, hdrop⟩ := perform_release_eq h hc.1
  have hsame : kind = o.kind := by
    obtain hnone | hsome := hfits hc.2
    · cases hkind.symm.trans hnone
    · exact Option.some.inj (hkind.symm.trans hsome)
  rw [hdrop, hc.2, hsame, dropBox, if_neg hnull, hx]
  simp only [if_true]
  exact Function.update_self ..

/-- Every other call keeps it, and its type. -/
theorem perform_other (hx : h x = some o) {c : Call} (hc : ¬c.releases x) :
    ∃ o', perform h c x = some o' ∧ o'.kind = o.kind := by
  rw [Call.releases, Bool.and_eq_true, beq_iff_eq] at hc
  cases hrelease : c.isRelease with
  | true =>
    obtain ⟨kind, -, hdrop⟩ := perform_release_eq h hrelease
    have hne : x ≠ c.target := fun heq => hc ⟨hrelease, heq.symm⟩
    rw [hdrop, dropBox_of_ne kind hne]
    exact ⟨o, hx, rfl⟩
  | false =>
    rw [perform_retain_eq h hrelease]
    by_cases hne : x = c.target
    · rw [← hne]
      unfold retainBase
      split_ifs
      · exact ⟨o, hx, rfl⟩
      · rw [hx]
        exact ⟨o.retain, Function.update_self .., rfl⟩
    · rw [retainBase_of_ne hne]
      exact ⟨o, hx, rfl⟩

end OneCall

/-! ### A run -/

theorem run_stays_gone {h : Heap} {x : Ref} (hx : h x = none) (calls : List Call) :
    run h calls x = none := by
  induction calls generalizing h with
  | nil => exact hx
  | cons c rest ih => exact ih (perform_gone hx c)

/-- An object is gone once it was released, and not before. -/
theorem run_gone {h : Heap} {x : Ref} (hnull : x ≠ 0) {o : Object} (hx : h x = some o)
    {calls : List Call} (hfits : ∀ c ∈ calls, c.Fits x o.kind) :
    run h calls x = none ↔ ∃ c ∈ calls, c.releases x := by
  induction calls generalizing h o with
  | nil => exact ⟨fun hnone => (nomatch hx.symm.trans hnone), fun hex => (nomatch hex)⟩
  | cons c rest ih =>
    have hrest : ∀ c ∈ rest, c.Fits x o.kind := fun c hc => hfits c (List.mem_cons_of_mem _ hc)
    by_cases hc : c.releases x
    · have hgone := perform_release hnull hx (hfits c List.mem_cons_self) hc
      exact ⟨fun _ => ⟨c, List.mem_cons_self, hc⟩, fun _ => run_stays_gone hgone rest⟩
    · obtain ⟨o', hx', hkind⟩ := perform_other hx hc
      have hlater := ih hx' (hkind ▸ hrest)
      refine hlater.trans ⟨fun ⟨c', hmem, hc'⟩ => ⟨c', List.mem_cons_of_mem c hmem, hc'⟩, ?_⟩
      rintro ⟨c', hmem, hc'⟩
      obtain rfl | hmem := List.mem_cons.mp hmem
      · exact absurd hc' hc
      · exact ⟨c', hmem, hc'⟩

/-- The object is destroyed exactly when the releases have reached one more than the
retains. -/
def CountGoverns (h : Heap) (x : Ref) (calls : List Call) : Prop :=
  ∀ before, before <+: calls → (run h before x = none ↔
    ∃ earlier, earlier <+: before ∧
      earlier.countP (Call.releases x) = 1 + earlier.countP (Call.retains x))

/-- The calls up to the first release of the object. -/
def beforeRelease (x : Ref) (calls : List Call) : List Call :=
  calls.takeWhile fun c => !c.releases x

theorem releases_beforeRelease (x : Ref) (calls : List Call) :
    (beforeRelease x calls).countP (Call.releases x) = 0 := by
  rw [List.countP_eq_zero]
  intro c hc
  have hnot := List.mem_takeWhile_imp hc
  rw [Bool.not_eq_true'] at hnot
  rw [hnot]
  decide

theorem split_release {x : Ref} {calls : List Call} (h : ∃ c ∈ calls, c.releases x) :
    ∃ r later, calls = beforeRelease x calls ++ r :: later ∧ r.releases x := by
  induction calls with
  | nil =>
    obtain ⟨c, hc, -⟩ := h
    exact nomatch hc
  | cons c rest ih =>
    unfold beforeRelease
    cases hc : c.releases x with
    | true =>
      rw [List.takeWhile_cons_of_neg (by rw [hc]; decide)]
      exact ⟨c, rest, rfl, hc⟩
    | false =>
      have hrest : ∃ c ∈ rest, c.releases x := by
        obtain ⟨c', hmem, hc'⟩ := h
        obtain rfl | hmem := List.mem_cons.mp hmem
        · rw [hc] at hc'
          cases hc'
        · exact ⟨c', hmem, hc'⟩
      obtain ⟨r, later, hsplit, hr⟩ := ih hrest
      rw [List.takeWhile_cons_of_pos (by rw [hc]; rfl)]
      exact ⟨r, later, congrArg (c :: ·) hsplit, hr⟩

/-- A release is not a retain. -/
theorem not_retains {x : Ref} {c : Call} (h : c.releases x) : c.retains x = false := by
  rw [Call.releases, Bool.and_eq_true] at h
  rw [Call.retains, h.1]
  rfl

/-- What comes after a release does not matter to what is before the first. -/
theorem beforeRelease_append {x : Ref} {calls : List Call} (h : ∃ c ∈ calls, c.releases x)
    (more : List Call) : beforeRelease x (calls ++ more) = beforeRelease x calls := by
  obtain ⟨r, later, hsplit, hr⟩ := split_release h
  have hbefore : ∀ c ∈ beforeRelease x calls, (!c.releases x) = true :=
    fun c hc => List.mem_takeWhile_imp (p := fun c => !Call.releases x c) hc
  have hstop : (r :: (later ++ more)).takeWhile (fun c => !c.releases x) = [] :=
    List.takeWhile_cons_of_neg (by rw [hr]; decide)
  have hall : calls ++ more = beforeRelease x calls ++ r :: (later ++ more) :=
    (congrArg (· ++ more) hsplit).trans (List.append_assoc ..)
  calc beforeRelease x (calls ++ more)
      = beforeRelease x (beforeRelease x calls ++ r :: (later ++ more)) := congrArg _ hall
    _ = beforeRelease x calls ++ [] := by
        rw [beforeRelease, List.takeWhile_append_of_pos hbefore, hstop]
    _ = beforeRelease x calls := List.append_nil _

/-- The count governs exactly when no retain of the object comes before its first release. -/
theorem lifetimes_iff {h : Heap} {x : Ref} (hnull : x ≠ 0) {o : Object} (hx : h x = some o)
    {calls : List Call} (hfits : ∀ c ∈ calls, c.Fits x o.kind) :
    CountGoverns h x calls ↔
      ((∃ c ∈ calls, c.releases x) → ∀ c ∈ beforeRelease x calls, ¬c.retains x) := by
  have hgone : ∀ {before}, before <+: calls → (run h before x = none ↔ ∃ c ∈ before, c.releases x) :=
    fun hbefore => run_gone hnull hx fun c hc => hfits c (hbefore.subset hc)
  constructor
  · intro hgoverns hreleased
    obtain ⟨r, later, hsplit, hr⟩ := split_release hreleased
    have hprefix : beforeRelease x calls ++ [r] <+: calls :=
      ⟨later, by rw [List.append_assoc]; exact hsplit.symm⟩
    have hdestroyed : run h (beforeRelease x calls ++ [r]) x = none :=
      (hgone hprefix).mpr ⟨r, List.mem_append_right _ (List.mem_singleton_self r), hr⟩
    obtain ⟨earlier, hearlier, hcount⟩ := (hgoverns _ hprefix).mp hdestroyed
    have hnone := releases_beforeRelease x calls
    obtain rfl | hshort := List.prefix_concat_iff.mp hearlier
    · -- the first release is the one that counts
      rw [List.countP_append, List.countP_append, hnone, List.countP_singleton,
        List.countP_singleton, hr, not_retains hr] at hcount
      have hretains : (beforeRelease x calls).countP (Call.retains x) = 0 := by
        simp only [if_true, Bool.false_eq_true, if_false] at hcount
        omega
      exact List.countP_eq_zero.mp hretains
    · have hle := hshort.sublist.countP_le (p := Call.releases x)
      omega
  · intro hcond before hprefix
    rw [hgone hprefix]
    constructor
    · intro hreleased
      obtain ⟨more, rfl⟩ := hprefix
      obtain ⟨r, later, hsplit, hr⟩ := split_release hreleased
      have hany : ∃ c ∈ before ++ more, c.releases x := by
        obtain ⟨c, hc, hcr⟩ := hreleased
        exact ⟨c, List.mem_append_left more hc, hcr⟩
      have hretains := hcond hany
      rw [beforeRelease_append hreleased] at hretains
      refine ⟨beforeRelease x before ++ [r], ⟨later, ?_⟩, ?_⟩
      · rw [List.append_assoc]
        exact hsplit.symm
      · rw [List.countP_append, List.countP_append, releases_beforeRelease,
          List.countP_eq_zero.mpr hretains, List.countP_singleton, List.countP_singleton, hr,
          not_retains hr]
        rfl
    · rintro ⟨earlier, hearlier, hcount⟩
      have hpos : 0 < earlier.countP (Call.releases x) := by omega
      obtain ⟨c, hc, hreleases⟩ := List.countP_pos_iff.mp hpos
      exact ⟨c, hearlier.subset hc, hreleases⟩

/-- A new context at an address. -/
def oneContext : Heap := fun r => if r = 0x1000 then some ⟨.context, 1⟩ else none

theorem released_once : CountGoverns oneContext 0x1000 [.cgContextRelease 0x1000] := by
  have hfits : ∀ c ∈ [Call.cgContextRelease 0x1000], c.Fits 0x1000 .context := by
    intro c hc
    rw [List.mem_singleton.mp hc]
    exact fun _ => .inr rfl
  refine (lifetimes_iff (by decide) (rfl : oneContext 0x1000 = some ⟨.context, 1⟩) hfits).mpr ?_
  exact fun _ c hc => (nomatch hc)

/-- A retained context is gone after the first of its two releases. -/
theorem retained_destroyed :
    ¬CountGoverns oneContext 0x1000
      [.cgContextRetain 0x1000, .cgContextRelease 0x1000, .cgContextRelease 0x1000] := by
  intro hgoverns
  have hgone : run oneContext [.cgContextRetain 0x1000, .cgContextRelease 0x1000] 0x1000 = none := by
    decide
  obtain ⟨earlier, hearlier, hcount⟩ :=
    (hgoverns [.cgContextRetain 0x1000, .cgContextRelease 0x1000] ⟨_, rfl⟩).mp hgone
  obtain rfl | ⟨rest, rfl, hrest⟩ := List.prefix_cons_iff.mp hearlier
  · exact absurd hcount (by decide)
  · obtain rfl | ⟨last, rfl, hnil⟩ := List.prefix_cons_iff.mp hrest
    · exact absurd hcount (by decide)
    · obtain rfl := List.prefix_nil.mp hnil
      exact absurd hcount (by decide)

end Grafted.Cg.Lifetimes
