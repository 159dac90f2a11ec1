import Grafted.Cf.Ownership

/-! What is never freed.

The destructor of a container drops its values without a release, and so does
`CFDictionaryCreate` with a value that a repeated key overwrites. In a run without either
(`GivesBack`) the counts are exactly the references there are, and a client that lets
everything go without having built a cycle sees everything freed; a reference that is
lost once keeps its object for good (`all_freed`). -/
namespace Grafted.Cf.Objects
open Transition Holding

/-- A release now would destroy a container with a value in it. -/
def Spills (h : Heap) (cf : Ref) : Prop :=
  ∃ o, h.objects cf = some o ∧ o.refcount = 1 ∧ ∃ v ∈ o.values, v ≠ K_CF_NULL

/-- The call takes no reference to the old value of the key away from a container that is
destroyed by it. -/
def KeepsOld (h : Heap) (dict key value : Ref) : Prop :=
  ∀ refcount entries old, h.objects dict = some ⟨refcount, .dictionary entries⟩ →
    get entries key = some old → old ≠ value → ¬ Spills h old

/-- Every reference is given back: no container is destroyed while it holds a value, and no
dictionary is created over a repeated key with a value to overwrite. -/
def GivesBack (e : CfEvent) : Prop :=
  match e.action with
  | .createDictionary _ pairs => pairs.Pairwise fun p q => p.1 = q.1 → p.2 = K_CF_NULL
  | .release cf => ¬ Spills e.before.heap cf
  | .dictionarySetValue dict key value => KeepsOld e.before.heap dict key value
  | .dictionaryRemoveValue dict key => KeepsOld e.before.heap dict key K_CF_NULL
  | _ => True

/-- A client that keeps to the rules and builds no cycle. -/
structure Client (e : CfEvent) : Prop where
  fair : Fair e
  acyclic : Acyclic Obj.values e.after.heap.objects

/-! ### The hash map -/

theorem insert_old (entries : List (Ref × Ref)) (key value : Ref) :
    (insert entries key value).2 = get entries key := by
  induction entries with
  | nil => rfl
  | cons entry rest ih =>
    unfold insert get
    split_ifs with hk
    · rfl
    · exact ih

theorem remove_old (entries : List (Ref × Ref)) (key : Ref) :
    (remove entries key).2 = get entries key := by
  induction entries with
  | nil => rfl
  | cons entry rest ih =>
    unfold remove get
    split_ifs with hk
    · rfl
    · exact ih

theorem get_insert (entries : List (Ref × Ref)) (key value k : Ref) :
    get (insert entries key value).1 k = if key = k then some value else get entries k := by
  induction entries with
  | nil => rfl
  | cons entry rest ih =>
    obtain ⟨held, v⟩ := entry
    unfold insert
    by_cases hk : held = key
    · subst hk
      simp only [if_true, get]
      split_ifs <;> rfl
    · simp only [if_neg hk, get, ih]
      by_cases hkey : key = k
      · have hne : held ≠ k := fun heq => hk (heq.trans hkey.symm)
        simp [hkey, hne]
      · simp [hkey]

theorem get_mem {entries : List (Ref × Ref)} {key value : Ref} (h : get entries key = some value) :
    value ∈ entries.map Prod.snd := by
  induction entries with
  | nil => exact nomatch h
  | cons entry rest ih =>
    unfold get at h
    split_ifs at h with hk
    · cases h
      exact List.mem_cons_self
    · exact List.mem_cons_of_mem _ (ih h)

/-! ### What a call loses -/

/-- Some object lost a reference between the two heaps. -/
def Loses (before after : Heap) : Prop := ∃ x, x ≠ K_CF_NULL ∧ before.lost x < after.lost x

theorem not_loses_of_eq {before after : Heap}
    (h : ∀ x, x ≠ K_CF_NULL → after.lost x = before.lost x) : ¬ Loses before after := by
  intro ⟨x, hx, hlt⟩
  rw [h x hx] at hlt
  exact Nat.lt_irrefl _ hlt

theorem cfRelease_lost_le (h : Heap) (cf x : Ref) : h.lost x ≤ (cfRelease h cf).lost x := by
  unfold cfRelease
  split_ifs
  · exact Nat.le_refl _
  · cases h.objects cf with
    | none => exact Nat.le_refl _
    | some o =>
      dsimp only
      split_ifs
      · exact Nat.le_add_right _ _
      · exact Nat.le_refl _

/-- A release loses what it spills. -/
theorem cfRelease_loses {h : Heap} (hnull : h.objects K_CF_NULL = none) (cf : Ref) :
    Loses h (cfRelease h cf) ↔ Spills h cf := by
  by_cases hcf : cf = K_CF_NULL
  · have hnone : ¬ Spills h cf := by
      intro ⟨o, ho, _⟩
      rw [hcf, hnull] at ho
      exact nomatch ho
    refine iff_of_false (not_loses_of_eq fun x _ => ?_) hnone
    rw [cfRelease, if_pos hcf]
  constructor
  · intro ⟨x, hx, hlt⟩
    rw [cfRelease, if_neg hcf] at hlt
    cases ho : h.objects cf with
    | none =>
      rw [ho] at hlt
      exact absurd hlt (Nat.lt_irrefl _)
    | some o =>
      rw [ho] at hlt
      dsimp only at hlt
      by_cases hfree : o.release.2 = true
      · rw [if_pos hfree] at hlt
        have hcount : h.lost x < h.lost x + o.values.count x := hlt
        have hmem : x ∈ o.values := List.count_pos_iff.mp (by omega)
        exact ⟨o, ho, beq_iff_eq.mp hfree, x, hmem, hx⟩
      · rw [if_neg hfree] at hlt
        exact absurd hlt (Nat.lt_irrefl _)
  · intro ⟨o, ho, hlast, v, hv, hne⟩
    refine ⟨v, hne, ?_⟩
    have hfree : o.release.2 = true := beq_iff_eq.mpr hlast
    simp only [cfRelease, if_neg hcf, ho, if_pos hfree]
    exact Nat.lt_add_of_pos_right (List.count_pos_iff.mpr hv)

theorem releaseOld_lost_le (h : Heap) (old : Option Ref) (x : Ref) :
    h.lost x ≤ (releaseOld h old).lost x := by
  cases old with
  | none => exact Nat.le_refl _
  | some old => exact cfRelease_lost_le h old x

theorem releaseOld_loses {h : Heap} (hnull : h.objects K_CF_NULL = none) (old : Option Ref) :
    Loses h (releaseOld h old) ↔ ∃ cf, old = some cf ∧ Spills h cf := by
  cases old with
  | none =>
    apply iff_of_false (not_loses_of_eq fun _ _ => rfl)
    intro ⟨cf, heq, _⟩
    exact nomatch heq
  | some old => simpa [releaseOld] using cfRelease_loses hnull old

theorem retainAll_lost (h : Heap) (values : List Ref) : (values.foldl cfRetain h).lost = h.lost := by
  induction values generalizing h with
  | nil => rfl
  | cons v rest ih => exact (ih _).trans (cfRetain_lost h v)

theorem forget_lost_le (h : Heap) (old : Option Ref) (x : Ref) : h.lost x ≤ (h.forget old).lost x := by
  cases old with
  | none => exact Nat.le_refl _
  | some old =>
    show h.lost x ≤ Function.update h.lost old (h.lost old + 1) x
    rw [Function.update_apply]
    split_ifs with hx
    · rw [hx]
      exact Nat.le_succ _
    · exact Nat.le_refl _

theorem insertAll_lost_le (h : Heap) (entries pairs : List (Ref × Ref)) (x : Ref) :
    h.lost x ≤ (insertAll h entries pairs).1.lost x := by
  induction pairs generalizing h entries with
  | nil => exact Nat.le_refl _
  | cons p rest ih =>
    refine Nat.le_trans ?_ (ih _ _)
    refine Nat.le_trans ?_ (forget_lost_le _ _ x)
    rw [cfRetain_lost]

/-- No key that is still to come has a value to overwrite. -/
theorem insertAll_lost_same {entries pairs : List (Ref × Ref)} (h : Heap)
    (hentries : ∀ p ∈ pairs, ∀ old, get entries p.1 = some old → old = K_CF_NULL)
    (hpairs : pairs.Pairwise fun p q => p.1 = q.1 → p.2 = K_CF_NULL) {x : Ref} (hx : x ≠ K_CF_NULL) :
    (insertAll h entries pairs).1.lost x = h.lost x := by
  induction pairs generalizing h entries with
  | nil => rfl
  | cons p rest ih =>
    obtain ⟨hp, hrest⟩ := List.pairwise_cons.mp hpairs
    have hlater : ∀ q ∈ rest, ∀ old, get (insert entries p.1 p.2).1 q.1 = some old → old = K_CF_NULL := by
      intro q hq old hold
      rw [get_insert] at hold
      split_ifs at hold with hkey
      · cases hold
        exact hp q hq hkey
      · exact hentries q (List.mem_cons_of_mem p hq) old hold
    apply (ih _ hlater hrest).trans
    rw [insert_old]
    cases hold : get entries p.1 with
    | none =>
      show (cfRetain h p.2).lost x = h.lost x
      rw [cfRetain_lost]
    | some old =>
      have hnull := hentries p List.mem_cons_self old hold
      show Function.update (cfRetain h p.2).lost old _ x = h.lost x
      rw [Function.update_of_ne (hnull ▸ hx), cfRetain_lost]

/-- A value that a later pair overwrites is lost. -/
theorem insertAll_lost_overwritten {entries pairs : List (Ref × Ref)} (h : Heap) (key : Ref) {value : Ref}
    (hvalue : get entries key = some value) (hkey : ∃ q ∈ pairs, q.1 = key) :
    h.lost value < (insertAll h entries pairs).1.lost value := by
  induction pairs generalizing h entries with
  | nil =>
    obtain ⟨q, hq, -⟩ := hkey
    exact nomatch hq
  | cons p rest ih =>
    show _ < (insertAll ((cfRetain h p.2).forget (insert entries p.1 p.2).2) _ rest).1.lost value
    by_cases hp : p.1 = key
    · refine Nat.lt_of_lt_of_le ?_ (insertAll_lost_le _ _ _ value)
      rw [insert_old, hp, hvalue]
      show h.lost value < Function.update (cfRetain h p.2).lost value _ value
      rw [Function.update_self, cfRetain_lost]
      exact Nat.lt_succ_self _
    · have hget : get (insert entries p.1 p.2).1 key = some value := by
        rw [get_insert, if_neg hp]
        exact hvalue
      obtain ⟨q, hq, hqkey⟩ := hkey
      have hrest : q ∈ rest := by
        rcases List.mem_cons.mp hq with heq | hrest
        · exact absurd (heq ▸ hqkey) hp
        · exact hrest
      refine Nat.lt_of_le_of_lt ?_ (ih _ hget ⟨q, hrest, hqkey⟩)
      refine Nat.le_trans ?_ (forget_lost_le _ _ value)
      rw [cfRetain_lost]

theorem insertAll_lost_some {entries pairs : List (Ref × Ref)} (h : Heap)
    (hpairs : ¬ pairs.Pairwise fun p q => p.1 = q.1 → p.2 = K_CF_NULL) :
    Loses h (insertAll h entries pairs).1 := by
  induction pairs generalizing h entries with
  | nil => exact absurd .nil hpairs
  | cons p rest ih =>
    have hsame : ∀ x, h.lost x ≤ ((cfRetain h p.2).forget (insert entries p.1 p.2).2).lost x := by
      intro x
      refine Nat.le_trans ?_ (forget_lost_le _ _ x)
      rw [cfRetain_lost]
    by_cases hrest : rest.Pairwise fun p q => p.1 = q.1 → p.2 = K_CF_NULL
    · have hclash : ∃ q ∈ rest, p.1 = q.1 ∧ p.2 ≠ K_CF_NULL := by
        by_contra hnone
        refine hpairs (List.pairwise_cons.mpr ⟨fun q hq hkey => ?_, hrest⟩)
        by_contra hvalue
        exact hnone ⟨q, hq, hkey, hvalue⟩
      obtain ⟨q, hq, hkey, hvalue⟩ := hclash
      refine ⟨p.2, hvalue, Nat.lt_of_le_of_lt (hsame p.2) ?_⟩
      refine insertAll_lost_overwritten _ p.1 ?_ ⟨q, hq, hkey.symm⟩
      rw [get_insert, if_pos rfl]
    · obtain ⟨x, hx, hlt⟩ := ih ((cfRetain h p.2).forget (insert entries p.1 p.2).2) hrest
      exact ⟨x, hx, Nat.lt_of_le_of_lt (hsame x) hlt⟩

/-- The loop of `CFDictionaryCreate` loses the values it overwrites. -/
theorem insertAll_loses (h : Heap) (pairs : List (Ref × Ref)) :
    Loses h (insertAll h [] pairs).1 ↔ ¬ pairs.Pairwise fun p q => p.1 = q.1 → p.2 = K_CF_NULL := by
  constructor
  · intro hloses hpairs
    have hentries : ∀ p ∈ pairs, ∀ old, get [] p.1 = some old → old = K_CF_NULL :=
      fun _ _ _ hold => nomatch hold
    exact not_loses_of_eq (fun x hx => insertAll_lost_same h hentries hpairs hx) hloses
  · exact insertAll_lost_some h

/-! ### Calls -/

theorem cfRetain_objects_ne (h : Heap) {cf y : Ref} (hne : y ≠ cf) :
    (cfRetain h cf).objects y = h.objects y := by
  unfold cfRetain
  split_ifs
  · rfl
  · cases h.objects cf with
    | none => rfl
    | some o => exact Function.update_of_ne hne ..

section Calls
variable {h : Heap} {refs : Ref → Nat}

theorem spills_set {dict cf : Ref} (cell : Option Obj) (hne : cf ≠ dict) :
    Spills (h.set dict cell) cf ↔ Spills h cf := by
  unfold Spills
  show (∃ o, Function.update h.objects dict cell cf = some o ∧ _) ↔ _
  rw [Function.update_of_ne hne]

theorem spills_retain {value cf : Ref} (hne : cf ≠ value) :
    Spills (cfRetain h value) cf ↔ Spills h cf := by
  unfold Spills
  rw [cfRetain_objects_ne h hne]

/-- What was just retained is not destroyed by one release. -/
theorem not_spills_retained {value : Ref} (hacc : Accounted h refs) (hpass : Passable h value)
    (hbound : (cfRetain h value).retains value < 2 ^ 32) : ¬ Spills (cfRetain h value) value := by
  intro ⟨o, ho, hlast, _⟩
  have hnull : value ≠ K_CF_NULL := by
    intro heq
    rw [heq, (cfRetain_objects_none h _ _).mpr hacc.null] at ho
    exact nomatch ho
  obtain ⟨before, hbefore⟩ := Option.ne_none_iff_exists'.mp (hpass.resolve_left hnull)
  obtain ⟨hcount, hpos, hmax⟩ := hacc.counted value before hbefore
  simp only [cfRetain, if_neg hnull, hbefore, Heap.set, Function.update_self] at ho hbound
  cases ho
  have hzero : before.refcount = 0 := by
    have hsucc : before.refcount + 1 = 0 + 1 := hlast
    exact (BitVec.add_left_inj 1).mp hsucc
  rw [hcount] at hzero
  have hmod := congrArg BitVec.toNat hzero
  rw [BitVec.toNat_ofNat] at hmod
  have hz : (0 : BitVec 32).toNat = 0 := rfl
  omega

/-- No dictionary is a value of its own. -/
theorem old_ne {dict key old : Ref} {refcount : BitVec 32} {entries : List (Ref × Ref)}
    (hacyclic : Acyclic Obj.values h.objects) (hdict : h.objects dict = some ⟨refcount, .dictionary entries⟩)
    (hold : get entries key = some old) : old ≠ dict := by
  intro heq
  rw [heq] at hold
  exact hacyclic dict (.single ⟨_, hdict, get_mem hold⟩)

/-- A value that was just retained is not spilled by one release. -/
theorem spills_retained {value old : Ref} (hacc : Accounted h refs) (hpass : Passable h value)
    (hbound : (cfRetain h value).retains value < 2 ^ 32) :
    Spills (cfRetain h value) old ↔ old ≠ value ∧ Spills h old := by
  by_cases hvalue : old = value
  · subst hvalue
    exact iff_of_false (not_spills_retained hacc hpass hbound) fun h => h.1 rfl
  · rw [spills_retain hvalue]
    exact (and_iff_right hvalue).symm

/-- The release of the old value, after the dictionary has changed. -/
theorem releaseOld_set_loses {dict : Ref} (cell : Option Obj) {old : Option Ref}
    (hnone : h.objects K_CF_NULL = none) (hnull : dict ≠ K_CF_NULL)
    (hne : ∀ cf, old = some cf → cf ≠ dict) :
    Loses h (releaseOld (h.set dict cell) old) ↔ ∃ cf, old = some cf ∧ Spills h cf := by
  have hset : (h.set dict cell).objects K_CF_NULL = none :=
    (Function.update_of_ne (Ne.symm hnull) ..).trans hnone
  apply Iff.trans (releaseOld_loses hset old)
  apply exists_congr
  intro cf
  exact and_congr_right fun hold => spills_set cell (hne cf hold)

theorem keepsOld_iff {dict key value : Ref} {refcount : BitVec 32} {entries : List (Ref × Ref)}
    (hdict : h.objects dict = some ⟨refcount, .dictionary entries⟩) :
    KeepsOld h dict key value ↔ ¬ ∃ old, get entries key = some old ∧ old ≠ value ∧ Spills h old := by
  constructor
  · intro hkeeps ⟨old, hold, hvalue, hspills⟩
    exact hkeeps _ _ old hdict hold hvalue hspills
  · intro hnever _ _ old hdict' hold hvalue hspills
    cases hdict.symm.trans hdict'
    exact hnever ⟨old, hold, hvalue, hspills⟩

theorem keepsOld_null (key value : Ref) (hnone : h.objects K_CF_NULL = none) :
    KeepsOld h K_CF_NULL key value := by
  intro _ _ _ ho
  rw [hnone] at ho
  exact nomatch ho

theorem dictionarySetValue_loses {dict key value : Ref} (hacc : Accounted h refs)
    (hacyclic : Acyclic Obj.values h.objects) (hdict : IsDictionary h dict) (hpass : Passable h value)
    (hbound : ∀ x, (cfDictionarySetValue h dict key value).retains x < 2 ^ 32) :
    Loses h (cfDictionarySetValue h dict key value) ↔ ¬ KeepsOld h dict key value := by
  rcases dictionarySetValue_cases key value hdict with
    ⟨hnull, hsame⟩ | ⟨hnull, _, refcount, entries, hentries, _, heq⟩
  · rw [hsame, hnull]
    exact iff_of_false (not_loses_of_eq fun _ _ => rfl)
      (not_not_intro (keepsOld_null key value hacc.null))
  · rw [heq, insert_old] at hbound ⊢
    rw [releaseOld_retains] at hbound
    have hnone := (cfRetain_objects_none h value K_CF_NULL).mpr hacc.null
    have hlost : Loses h = Loses (cfRetain h value) := by
      unfold Loses
      rw [cfRetain_lost]
    rw [hlost, releaseOld_set_loses _ hnone hnull fun _ hold => old_ne hacyclic hentries hold,
      keepsOld_iff hentries, not_not]
    apply exists_congr
    intro old
    exact and_congr_right fun _ => spills_retained hacc hpass (hbound value)

theorem dictionaryRemoveValue_loses {dict key : Ref} (hacc : Accounted h refs)
    (hacyclic : Acyclic Obj.values h.objects) (hdict : IsDictionary h dict) :
    Loses h (cfDictionaryRemoveValue h dict key) ↔ ¬ KeepsOld h dict key K_CF_NULL := by
  rcases dictionaryRemoveValue_cases key hdict with
    ⟨hnull, hsame⟩ | ⟨hnull, refcount, entries, hentries, heq⟩
  · rw [hsame, hnull]
    exact iff_of_false (not_loses_of_eq fun _ _ => rfl)
      (not_not_intro (keepsOld_null key K_CF_NULL hacc.null))
  · rw [heq, remove_old,
      releaseOld_set_loses _ hacc.null hnull fun _ hold => old_ne hacyclic hentries hold,
      keepsOld_iff hentries, not_not]
    apply exists_congr
    intro old
    have hspilled : Spills h old → old ≠ K_CF_NULL := fun ⟨o, ho, _⟩ => hacc.not_null ho
    exact and_congr_right fun _ => (and_iff_right_of_imp hspilled).symm

end Calls

/-! ### Runs -/

theorem cfArrayAppendValue_lost (h : Heap) (arr value : Ref) :
    (cfArrayAppendValue h arr value).lost = h.lost := by
  unfold cfArrayAppendValue
  split_ifs
  · rfl
  · dsimp only
    split
    · exact cfRetain_lost h value
    · exact cfRetain_lost h value

theorem cfDictionarySetValue_lost_le (h : Heap) (dict key value x : Ref) :
    h.lost x ≤ (cfDictionarySetValue h dict key value).lost x := by
  unfold cfDictionarySetValue
  split_ifs
  · exact Nat.le_refl _
  · rw [← cfRetain_lost h value]
    dsimp only
    split
    · exact releaseOld_lost_le ((cfRetain h value).set dict _) _ x
    · exact Nat.le_refl _

theorem cfDictionaryRemoveValue_lost_le (h : Heap) (dict key x : Ref) :
    h.lost x ≤ (cfDictionaryRemoveValue h dict key).lost x := by
  unfold cfDictionaryRemoveValue
  split_ifs
  · exact Nat.le_refl _
  · split
    · exact releaseOld_lost_le (h.set dict _) _ x
    · exact Nat.le_refl _

/-- What is lost stays lost. -/
theorem lost_le (s : State) (a : Action) (x : Ref) : s.heap.lost x ≤ (perform s a).heap.lost x := by
  cases a with
  | createString address bytes => exact Nat.le_refl _
  | createData address bytes => exact Nat.le_refl _
  | createArray address values => exact Nat.le_of_eq (congrFun (retainAll_lost s.heap values).symm x)
  | createDictionary address pairs => exact insertAll_lost_le s.heap [] pairs x
  | retain cf => exact Nat.le_of_eq (congrFun (cfRetain_lost s.heap cf).symm x)
  | release cf => exact cfRelease_lost_le s.heap cf x
  | arrayAppendValue arr value =>
    exact Nat.le_of_eq (congrFun (cfArrayAppendValue_lost s.heap arr value).symm x)
  | dictionarySetValue dict key value => exact cfDictionarySetValue_lost_le s.heap dict key value x
  | dictionaryRemoveValue dict key => exact cfDictionaryRemoveValue_lost_le s.heap dict key x

/-- What the runs of a client keep. -/
structure Sound (s : State) : Prop where
  accounted : Accounted s.heap s.owned
  acyclic : Acyclic Obj.values s.heap.objects

theorem sound_new : Sound .new := by
  refine ⟨accounted_new, acyclic_of_rank Obj.values _ (fun _ => 0) ?_⟩
  intro c x ⟨o, ho, _⟩
  exact nomatch ho

theorem sound_step (s : State) (a : Action) (hsound : Sound s) (hclient : Client (cfSystem.event s a)) :
    Sound (cfSystem.step s a).1 :=
  ⟨accounted_step s a hsound.accounted hclient.fair, hclient.acyclic⟩

/-- A call loses a reference exactly when it does not give it back. -/
theorem loses_iff {s : State} {a : Action} (hsound : Sound s) (hclient : Client (cfSystem.event s a)) :
    Loses s.heap (perform s a).heap ↔ ¬ GivesBack (cfSystem.event s a) := by
  obtain ⟨hacc, hacyclic⟩ := hsound
  obtain ⟨⟨hpasses, hretains⟩, -⟩ := hclient
  have hnever : (∀ x, (perform s a).heap.lost x = s.heap.lost x) →
      (Loses s.heap (perform s a).heap ↔ ¬ True) := fun hsame =>
    iff_of_false (not_loses_of_eq fun x _ => hsame x) (not_not_intro trivial)
  cases a with
  | createString address bytes => exact hnever fun _ => rfl
  | createData address bytes => exact hnever fun _ => rfl
  | createArray address values => exact hnever (congrFun (retainAll_lost s.heap values))
  | createDictionary address pairs => exact insertAll_loses s.heap pairs
  | retain cf => exact hnever (congrFun (cfRetain_lost s.heap cf))
  | release cf => exact (cfRelease_loses hacc.null cf).trans not_not.symm
  | arrayAppendValue arr value => exact hnever (congrFun (cfArrayAppendValue_lost s.heap arr value))
  | dictionarySetValue dict key value =>
    exact dictionarySetValue_loses hacc hacyclic hpasses.1 hpasses.2 hretains
  | dictionaryRemoveValue dict key => exact dictionaryRemoveValue_loses hacc hacyclic hpasses

/-- Nothing has been lost yet. -/
structure Lossless (s : State) : Prop extends Sound s where
  none : ∀ x, x ≠ K_CF_NULL → s.heap.lost x = 0

theorem lossless_step (s : State) (a : Action) (hlossless : Lossless s)
    (hcall : Client (cfSystem.event s a) ∧ GivesBack (cfSystem.event s a)) :
    Lossless (cfSystem.step s a).1 := by
  refine ⟨sound_step s a hlossless.toSound hcall.1, fun x hx => ?_⟩
  by_contra hpos
  refine (loses_iff hlossless.toSound hcall.1).mp ⟨x, hx, ?_⟩ hcall.2
  rw [hlossless.none x hx]
  exact Nat.pos_of_ne_zero hpos

/-- A run that gives every reference back has lost none. -/
theorem lossless_run {actions : List Action} (hclient : cfSystem.Along Client .new actions)
    (hback : cfSystem.Along GivesBack .new actions) : Lossless (cfSystem.run .new actions) :=
  System.Along.run_invariant (C := fun e => Client e ∧ GivesBack e) lossless_step
    ⟨sound_new, fun _ _ => rfl⟩ fun e he => ⟨hclient e he, hback e he⟩

theorem lost_run_le (s : State) (actions : List Action) (x : Ref) :
    s.heap.lost x ≤ (cfSystem.run s actions).heap.lost x := by
  induction actions generalizing s with
  | nil => exact Nat.le_refl _
  | cons a rest ih => exact Nat.le_trans (lost_le s a x) (ih _)

/-- A run that does not give a reference back has lost it for good. -/
theorem lost_some {actions : List Action} (hclient : cfSystem.Along Client .new actions)
    (hback : ¬ cfSystem.Along GivesBack .new actions) :
    ∃ x, x ≠ K_CF_NULL ∧ 0 < (cfSystem.run .new actions).heap.lost x := by
  obtain ⟨before, a, after, heq, hnot⟩ := System.exists_of_not_along hback
  rw [heq, System.along_append, System.along_cons] at hclient
  obtain ⟨hfirst, hcall, -⟩ := hclient
  have hsound : Sound (cfSystem.run .new before) :=
    System.Along.run_invariant sound_step sound_new hfirst
  obtain ⟨x, hx, hlt⟩ := (loses_iff hsound hcall).mpr hnot
  refine ⟨x, hx, ?_⟩
  have hlater : (perform (cfSystem.run .new before) a).heap.lost x ≤
      (cfSystem.run .new actions).heap.lost x := by
    rw [heq, System.run_append]
    exact lost_run_le _ after x
  omega

/-- **What is given back is freed.** As long as every reference is given back the count of
a live object is what the client owns of it and how often the live arrays and dictionaries
hold it. When the client owns nothing any more everything has been freed, exactly if
every reference was given back. -/
theorem all_freed (actions : List Action) (hclient : cfSystem.Along Client .new actions) :
    (cfSystem.Along GivesBack .new actions →
      ∀ x o, (cfSystem.run .new actions).heap.objects x = some o →
        o.refcount = BitVec.ofNat 32 ((cfSystem.run .new actions).owned x +
          slots Obj.values (cfSystem.run .new actions).heap.objects x)) ∧
    ((∀ x, x ≠ K_CF_NULL → (cfSystem.run .new actions).owned x = 0) →
      ((∀ x, ¬ Live (cfSystem.run .new actions).heap x) ↔ cfSystem.Along GivesBack .new actions)) := by
  have hsound : Sound (cfSystem.run .new actions) :=
    System.Along.run_invariant sound_step sound_new hclient
  obtain ⟨hacc, hacyclic⟩ := hsound
  refine ⟨fun hback x o ho => ?_, fun howned => ⟨fun hfreed => ?_, fun hback x hlive => ?_⟩⟩
  · have hlost := (lossless_run hclient hback).none x (hacc.not_null ho)
    have hcount := (hacc.counted x o ho).1
    rw [due, hlost] at hcount
    exact hcount
  · -- what was lost is still due, so it is still there
    by_contra hback
    obtain ⟨x, hx, hpos⟩ := lost_some hclient hback
    have hnone := hacc.freed x hx (not_not.mp (hfreed x))
    rw [due] at hnone
    omega
  · -- some live object is held by none of them: nothing is due for it
    obtain ⟨y, hlivey, hunheld⟩ := exists_unheld Obj.values _ hacyclic hlive
    obtain ⟨o, ho⟩ := Option.ne_none_iff_exists'.mp hlivey
    have hy := hacc.not_null ho
    have hslots : slots Obj.values (cfSystem.run .new actions).heap.objects y = 0 := by
      by_contra hpos
      obtain ⟨c, oc, hoc, hmem⟩ := slots_pos.mp (Nat.pos_of_ne_zero hpos)
      refine hunheld c ?_ ⟨oc, hoc, hmem⟩
      rw [Live, hoc]
      exact Option.some_ne_none oc
    have hdue := (hacc.counted y o ho).2.1
    rw [due, howned y hy, hslots, (lossless_run hclient hback).none y hy] at hdue
    exact Nat.lt_irrefl 0 hdue

/-! ### Two clients -/

/-- Values lie below what holds them, and no object was retained more than `n` times. -/
structure Tame (n : Nat) (h : Heap) : Prop where
  below : ∀ c x, Holds Obj.values h.objects c x → x.toNat < c.toNat
  few : ∀ x, h.retains x ≤ n

section Tame
variable {n : Nat} {h : Heap}

theorem tame_new : Tame 0 State.new.heap := by
  refine ⟨fun c x hholds => ?_, fun _ => Nat.le_refl 0⟩
  obtain ⟨o, ho, -⟩ := hholds
  exact nomatch ho

/-- One cell changes. -/
theorem Tame.set (htame : Tame n h) (cf : Ref) (cell : Option Obj)
    (hcell : ∀ o ∈ cell, ∀ v ∈ o.values, v.toNat < cf.toNat) : Tame n (h.set cf cell) := by
  refine ⟨fun c x hholds => ?_, htame.few⟩
  obtain ⟨o, ho, hmem⟩ := hholds
  change Function.update h.objects cf cell c = some o at ho
  rw [Function.update_apply] at ho
  by_cases hc : c = cf
  · rw [if_pos hc] at ho
    rw [hc]
    exact hcell o ho x hmem
  · rw [if_neg hc] at ho
    exact htame.below c x ⟨o, ho, hmem⟩

theorem Tame.box (htame : Tame n h) (address : Ref) (body : Body)
    (hbody : ∀ v ∈ body.values, v.toNat < address.toNat) : Tame n (h.box address body) := by
  refine ⟨(htame.set address (some (.new body)) fun o ho => ?_).below, fun x => ?_⟩
  · cases ho
    exact hbody
  · show Function.update h.retains address 0 x ≤ n
    rw [Function.update_apply]
    split_ifs
    · exact Nat.zero_le n
    · exact htame.few x

theorem Tame.retain (htame : Tame n h) (cf : Ref) : Tame (n + 1) (cfRetain h cf) := by
  have hmore : Tame (n + 1) h := ⟨htame.below, fun x => Nat.le_succ_of_le (htame.few x)⟩
  unfold cfRetain
  split_ifs
  · exact hmore
  · cases ho : h.objects cf with
    | none => exact hmore
    | some o =>
      refine ⟨(htame.set cf (some o.retain) fun o' ho' => ?_).below, fun x => ?_⟩
      · cases ho'
        exact fun v hv => htame.below cf v ⟨o, ho, hv⟩
      · show Function.update h.retains cf (h.retains cf + 1) x ≤ n + 1
        rw [Function.update_apply]
        split_ifs
        · exact Nat.succ_le_succ (htame.few cf)
        · exact hmore.few x

theorem Tame.release (htame : Tame n h) (cf : Ref) : Tame n (cfRelease h cf) := by
  unfold cfRelease
  split_ifs
  · exact htame
  · cases ho : h.objects cf with
    | none => exact htame
    | some o =>
      dsimp only
      split_ifs
      · have hdropped := htame.set cf none fun _ h => (nomatch h)
        exact ⟨hdropped.below, hdropped.few⟩
      · apply htame.set cf (some o.release.1)
        intro o' ho'
        cases ho'
        exact fun v hv => htame.below cf v ⟨o, ho, hv⟩

end Tame

theorem client_of_tame {n : Nat} {s : State} {a : Action} (hpasses : Passes s a)
    (htame : Tame n (perform s a).heap) (hn : n < 2 ^ 32) : Client (cfSystem.event s a) :=
  ⟨⟨hpasses, fun x => Nat.lt_of_le_of_lt (htame.few x) hn⟩,
    acyclic_of_rank Obj.values _ BitVec.toNat htame.below⟩

/-- A string in an array, and both let go. -/
theorem nested_client : cfSystem.Along Client .new
    [.createString 0x10 [], .createArray 0x20 [0x10], .release 0x10, .release 0x20] := by
  have hstring := tame_new.box 0x10 (.string []) (List.forall_mem_nil _)
  have harray := (hstring.retain 0x10).box 0x20 (.array [0x10])
    (List.forall_mem_singleton.mpr (by decide))
  have hlive : ∀ v ∈ [0x10], Passable (cfSystem.step .new (.createString 0x10 [])).1.heap v := by
    intro v hv
    rw [List.mem_singleton.mp hv]
    exact .inr (Option.some_ne_none _)
  refine System.along_cons.mpr ⟨client_of_tame ⟨by decide, rfl⟩ hstring (by decide), ?_⟩
  refine System.along_cons.mpr ⟨client_of_tame ⟨⟨by decide, rfl⟩, hlive⟩ harray (by decide), ?_⟩
  refine System.along_cons.mpr
    ⟨client_of_tame (.inr (by decide)) (harray.release 0x10) (by decide), ?_⟩
  refine System.along_cons.mpr
    ⟨client_of_tame (.inr (by decide)) ((harray.release 0x10).release 0x20) (by decide), ?_⟩
  exact System.along_nil _ _

/-- The string is still there, and nobody has a reference to it. A repeated key leaves a
count above the references there are too. -/
theorem all_freed_fails :
    (¬ ∀ actions, cfSystem.Along Client .new actions →
      (∀ x, x ≠ K_CF_NULL → (cfSystem.run .new actions).owned x = 0) →
        ∀ x, ¬ Live (cfSystem.run .new actions).heap x) ∧
    (let s := cfSystem.run .new
      [.createString 0x10 [], .createDictionary 0x20 [(0x1, 0x10), (0x1, 0x10)]]
    s.heap.objects 0x10 = some ⟨3, .string []⟩ ∧ s.owned 0x10 = 1 ∧
      s.heap.objects 0x20 = some ⟨1, .dictionary [(0x1, 0x10)]⟩) := by
  constructor
  · intro hall
    refine hall _ nested_client (fun x _ => ?_) 0x10 (Option.some_ne_none _)
    show Function.update (Function.update (Function.update (Function.update (fun _ => 0) 0x10 1)
      0x20 1) 0x10 0) 0x20 0 x = 0
    simp only [Function.update_apply]
    split_ifs <;> rfl
  · exact ⟨rfl, rfl, rfl⟩

/-- A string in a dictionary, taken out before both are let go. -/
theorem emptied_client : cfSystem.Along Client .new
    [.createString 0x10 [], .createDictionary 0x20 [(0x1, 0x10)], .dictionaryRemoveValue 0x20 0x1,
      .release 0x10, .release 0x20] := by
  have hstring := tame_new.box 0x10 (.string []) (List.forall_mem_nil _)
  have hdictionary := (hstring.retain 0x10).box 0x20 (.dictionary [(0x1, 0x10)])
    (List.forall_mem_singleton.mpr (by decide))
  have hremoved := (hdictionary.set 0x20 (some ⟨1, .dictionary []⟩) fun o ho => by
    cases ho
    exact List.forall_mem_nil _).release 0x10
  have hlive : ∀ p ∈ [((0x1, 0x10) : Ref × Ref)],
      Passable (cfSystem.step .new (.createString 0x10 [])).1.heap p.2 := by
    intro p hp
    rw [List.mem_singleton.mp hp]
    exact .inr (Option.some_ne_none _)
  refine System.along_cons.mpr ⟨client_of_tame ⟨by decide, rfl⟩ hstring (by decide), ?_⟩
  refine System.along_cons.mpr ⟨client_of_tame ⟨⟨by decide, rfl⟩, hlive⟩ hdictionary (by decide), ?_⟩
  refine System.along_cons.mpr
    ⟨client_of_tame (.inr ⟨1, [(0x1, 0x10)], rfl⟩) hremoved (by decide), ?_⟩
  refine System.along_cons.mpr
    ⟨client_of_tame (.inr (by decide)) (hremoved.release 0x10) (by decide), ?_⟩
  refine System.along_cons.mpr
    ⟨client_of_tame (.inr (by decide)) ((hremoved.release 0x10).release 0x20) (by decide), ?_⟩
  exact System.along_nil _ _

theorem not_spills {h : Heap} {cf : Ref} {o : Obj} (ho : h.objects cf = some o)
    (hvalues : o.values = []) : ¬ Spills h cf := by
  intro ⟨o', ho', _, v, hv, _⟩
  cases ho.symm.trans ho'
  rw [hvalues] at hv
  exact nomatch hv

theorem emptied_givesBack : cfSystem.Along GivesBack .new
    [.createString 0x10 [], .createDictionary 0x20 [(0x1, 0x10)], .dictionaryRemoveValue 0x20 0x1,
      .release 0x10, .release 0x20] := by
  refine System.along_cons.mpr ⟨trivial, ?_⟩
  refine System.along_cons.mpr ⟨List.pairwise_singleton _ _, ?_⟩
  refine System.along_cons.mpr ⟨?_, ?_⟩
  · intro _ _ old hdict hold _
    cases hdict
    cases hold
    exact not_spills (o := ⟨2, .string []⟩) rfl rfl
  refine System.along_cons.mpr ⟨not_spills (o := ⟨1, .string []⟩) rfl rfl, ?_⟩
  refine System.along_cons.mpr ⟨not_spills (o := ⟨1, .dictionary []⟩) rfl rfl, ?_⟩
  exact System.along_nil _ _

theorem all_freed_emptied : ¬ Live (cfSystem.run .new
    [.createString 0x10 [], .createDictionary 0x20 [(0x1, 0x10)], .dictionaryRemoveValue 0x20 0x1,
      .release 0x10, .release 0x20]).heap 0x10 := by
  refine ((all_freed _ emptied_client).2 fun y _ => ?_).mpr emptied_givesBack 0x10
  show Function.update (Function.update (Function.update (Function.update (fun _ => 0) 0x10 1)
    0x20 1) 0x10 0) 0x20 0 y = 0
  simp only [Function.update_apply]
  split_ifs <;> rfl

end Grafted.Cf.Objects
