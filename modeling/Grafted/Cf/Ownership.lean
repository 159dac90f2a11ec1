import Grafted.Base.Holding
import Grafted.Cf.Objects

/-! Who a reference count counts for.

The count of every live object is what the client owns, the places of live containers that
hold it, and what was lost (`Accounted`). Each step of a call keeps the account while it
carries references from one of these to another. An object is freed when the account is
empty, so nobody has a reference to it (`freed_unreferenced`). -/
namespace Grafted.Cf.Objects
open Transition Holding

/-- Summing over all references is not computed. -/
noncomputable instance : Fintype Ref :=
  have : Finite Ref := Finite.of_injective BitVec.toFin fun _ _ => BitVec.toFin_inj.mp
  Fintype.ofFinite Ref

/-- The references there are to an object, `refs` of them outside the heap. -/
noncomputable def due (h : Heap) (refs : Ref → Nat) (x : Ref) : Nat :=
  refs x + slots Obj.values h.objects x + h.lost x

/-- The account of the heap. -/
structure Accounted (h : Heap) (refs : Ref → Nat) : Prop where
  null : h.objects K_CF_NULL = none
  counted : ∀ x o, h.objects x = some o → o.refcount = BitVec.ofNat 32 (due h refs x) ∧
    0 < due h refs x ∧ due h refs x ≤ h.retains x + 1
  freed : ∀ x, x ≠ K_CF_NULL → h.objects x = none → due h refs x = 0

section Account
variable {h : Heap} {refs refs' : Ref → Nat}

theorem Accounted.not_null (hacc : Accounted h refs) {x : Ref} {o : Obj} (hx : h.objects x = some o) :
    x ≠ K_CF_NULL := by
  intro heq
  rw [heq, hacc.null] at hx
  exact nomatch hx

theorem Accounted.congr (hacc : Accounted h refs) (hrefs : ∀ y, y ≠ K_CF_NULL → refs' y = refs y) :
    Accounted h refs' := by
  have hdue : ∀ y, y ≠ K_CF_NULL → due h refs' y = due h refs y := by
    intro y hy
    rw [due, due, hrefs y hy]
  refine ⟨hacc.null, fun x o hx => ?_, fun x hne hx => ?_⟩
  · rw [hdue x (hacc.not_null hx)]
    exact hacc.counted x o hx
  · rw [hdue x hne]
    exact hacc.freed x hne hx

/-- One cell changes: the others keep their account, and its own is right. -/
theorem Accounted.cell {h' : Heap} (hacc : Accounted h refs) (cf : Ref) (cell : Option Obj)
    (hobjects : h'.objects = Function.update h.objects cf cell) (hne : cf ≠ K_CF_NULL)
    (hothers : ∀ y, y ≠ K_CF_NULL → y ≠ cf →
      due h' refs' y = due h refs y ∧ h'.retains y = h.retains y)
    (hsome : ∀ o, cell = some o → o.refcount = BitVec.ofNat 32 (due h' refs' cf) ∧
      0 < due h' refs' cf ∧ due h' refs' cf ≤ h'.retains cf + 1)
    (hnone : cell = none → due h' refs' cf = 0) : Accounted h' refs' := by
  have hcell : ∀ y, h'.objects y = if y = cf then cell else h.objects y := by
    intro y
    rw [hobjects, Function.update_apply]
  constructor
  · rw [hcell, if_neg (Ne.symm hne)]
    exact hacc.null
  · intro x o hx
    rw [hcell] at hx
    by_cases hcf : x = cf
    · rw [if_pos hcf] at hx
      rw [hcf]
      exact hsome o hx
    · rw [if_neg hcf] at hx
      obtain ⟨hdue, hretains⟩ := hothers x (hacc.not_null hx) hcf
      rw [hdue, hretains]
      exact hacc.counted x o hx
  · intro x hnull hx
    rw [hcell] at hx
    by_cases hcf : x = cf
    · rw [if_pos hcf] at hx
      rw [hcf]
      exact hnone hx
    · rw [if_neg hcf] at hx
      rw [(hothers x hnull hcf).1]
      exact hacc.freed x hnull hx

/-- What is held, after one cell changed. -/
theorem slots_set {cf : Ref} {before : Option Obj} (hbefore : h.objects cf = before)
    (cell : Option Obj) (y : Ref) :
    slots Obj.values (Function.update h.objects cf cell) y + heldBy Obj.values before y =
      slots Obj.values h.objects y + heldBy Obj.values cell y := by
  rw [← hbefore]
  exact slots_update cf cell y

/-- A retain makes a reference. -/
theorem retain_accounted {cf : Ref} (hacc : Accounted h refs) (hpass : Passable h cf)
    (hrefs : ∀ y, y ≠ K_CF_NULL → refs' y = refs y + if y = cf then 1 else 0) :
    Accounted (cfRetain h cf) refs' := by
  unfold cfRetain
  by_cases hnull : cf = K_CF_NULL
  · rw [if_pos hnull]
    apply hacc.congr
    intro y hy
    rw [hrefs y hy, hnull, if_neg hy, Nat.add_zero]
  rw [if_neg hnull]
  obtain ⟨o, ho⟩ := Option.ne_none_iff_exists'.mp (hpass.resolve_left hnull)
  rw [ho]
  obtain ⟨hcount, hpos, hbound⟩ := hacc.counted cf o ho
  have hslots : ∀ y, slots Obj.values (Function.update h.objects cf (some o.retain)) y =
      slots Obj.values h.objects y := fun y => Nat.add_right_cancel (slots_set ho (some o.retain) y)
  refine hacc.cell cf (some o.retain) rfl hnull ?_ ?_ fun h => absurd h (Option.some_ne_none _)
  · intro y hy hne
    have hsame := hrefs y hy
    rw [if_neg hne] at hsame
    refine ⟨?_, Function.update_of_ne hne ..⟩
    show refs' y + slots Obj.values (Function.update h.objects cf _) y + h.lost y = due h refs y
    rw [hslots, hsame]
    rfl
  · have hdue : due {h.set cf (some o.retain) with
        retains := Function.update h.retains cf (h.retains cf + 1)} refs' cf = due h refs cf + 1 := by
      show refs' cf + slots Obj.values (Function.update h.objects cf _) cf + h.lost cf = _
      rw [hslots, hrefs cf hnull, if_pos rfl, due]
      omega
    intro o' ho'
    cases ho'
    rw [hdue]
    refine ⟨?_, Nat.succ_pos _, ?_⟩
    · show o.refcount + 1 = _
      rw [hcount, BitVec.ofNat_add]
      rfl
    · show _ ≤ Function.update h.retains cf (h.retains cf + 1) cf + 1
      rw [Function.update_self]
      omega

/-- The word says one exactly for the last reference. -/
theorem Accounted.last {x : Ref} {o : Obj} (hacc : Accounted h refs) (hx : h.objects x = some o)
    (hbound : h.retains x < 2 ^ 32) : o.refcount = 1 ↔ due h refs x = 1 := by
  obtain ⟨hcount, -, hmax⟩ := hacc.counted x o hx
  rw [hcount]
  constructor
  · intro heq
    have hmod := congrArg BitVec.toNat heq
    rw [BitVec.toNat_ofNat] at hmod
    have hone : (1 : BitVec 32).toNat = 1 := rfl
    omega
  · intro heq
    rw [heq]
    rfl

/-- A release takes a reference away; the last one takes the object. What a container
held is lost. -/
theorem release_accounted {cf : Ref} (hacc : Accounted h refs) (hown : cf = K_CF_NULL ∨ 0 < refs cf)
    (hbound : h.retains cf < 2 ^ 32)
    (hrefs : ∀ y, y ≠ K_CF_NULL → refs' y + (if y = cf then 1 else 0) = refs y) :
    Accounted (cfRelease h cf) refs' := by
  unfold cfRelease
  by_cases hnull : cf = K_CF_NULL
  · rw [if_pos hnull]
    apply hacc.congr
    intro y hy
    rw [← hrefs y hy, hnull, if_neg hy, Nat.add_zero]
  rw [if_neg hnull]
  have hpos : 0 < refs cf := hown.resolve_left hnull
  have howned := hrefs cf hnull
  rw [if_pos rfl] at howned
  cases ho : h.objects cf with
  | none =>
    have hnone := hacc.freed cf hnull ho
    rw [due] at hnone
    omega
  | some o =>
    obtain ⟨hcount, hpos', hmax⟩ := hacc.counted cf o ho
    have hother : ∀ y, y ≠ K_CF_NULL → y ≠ cf → refs' y = refs y := by
      intro y hy hne
      have hsame := hrefs y hy
      rw [if_neg hne] at hsame
      exact hsame
    have hlast := hacc.last ho hbound
    dsimp only
    by_cases hfree : o.release.2 = true
    · rw [if_pos hfree]
      have hdue : due h refs cf = 1 := hlast.mp (beq_iff_eq.mp hfree)
      have hslots := slots_set ho none
      simp only [heldBy, Nat.add_zero] at hslots
      refine hacc.cell cf none rfl hnull ?_ (fun _ h => absurd h.symm (Option.some_ne_none _)) ?_
      · intro y hy hne
        have hy' := hslots y
        refine ⟨?_, rfl⟩
        show refs' y + slots Obj.values (Function.update h.objects cf none) y +
          (h.lost y + o.values.count y) = due h refs y
        rw [hother y hy hne, due]
        omega
      · intro _
        have hcf := hslots cf
        rw [due] at hdue
        show refs' cf + slots Obj.values (Function.update h.objects cf none) cf +
          (h.lost cf + o.values.count cf) = 0
        omega
    · rw [if_neg hfree]
      have hslots : ∀ y, slots Obj.values (Function.update h.objects cf (some o.release.1)) y =
          slots Obj.values h.objects y :=
        fun y => Nat.add_right_cancel (slots_set ho (some o.release.1) y)
      have hmore : due h refs cf ≠ 1 := fun heq => hfree (beq_iff_eq.mpr (hlast.mpr heq))
      refine hacc.cell cf (some o.release.1) rfl hnull ?_ ?_ fun h => absurd h (Option.some_ne_none _)
      · intro y hy hne
        refine ⟨?_, rfl⟩
        show refs' y + slots Obj.values (Function.update h.objects cf _) y + h.lost y = due h refs y
        rw [hslots, hother y hy hne]
        rfl
      · have hdue : due (h.set cf (some o.release.1)) refs' cf + 1 = due h refs cf := by
          show refs' cf + slots Obj.values (Function.update h.objects cf _) cf + h.lost cf + 1 = _
          rw [hslots, due]
          omega
        intro o' ho'
        cases ho'
        refine ⟨?_, by omega, ?_⟩
        · show o.refcount - 1 = _
          rw [hcount, ← hdue, BitVec.ofNat_add]
          exact BitVec.add_sub_cancel _ _
        · show _ ≤ h.retains cf + 1
          omega

/-- References pass between a container and whoever else has them. -/
theorem store_accounted {cf : Ref} {o : Obj} {body : Body} (hacc : Accounted h refs)
    (ho : h.objects cf = some o)
    (hrefs : ∀ y, y ≠ K_CF_NULL → refs' y + body.values.count y = refs y + o.values.count y) :
    Accounted (h.set cf (some ⟨o.refcount, body⟩)) refs' := by
  have hnull := hacc.not_null ho
  have hslots := slots_set ho (some ⟨o.refcount, body⟩)
  have hdue : ∀ y, y ≠ K_CF_NULL → due (h.set cf (some ⟨o.refcount, body⟩)) refs' y = due h refs y := by
    intro y hy
    have hy' := hslots y
    have hr := hrefs y hy
    simp only [heldBy, Obj.values] at hy' hr
    show refs' y + slots Obj.values (Function.update h.objects cf _) y + h.lost y = _
    rw [due]
    omega
  refine hacc.cell cf (some ⟨o.refcount, body⟩) rfl hnull
    (fun y hy _ => ⟨hdue y hy, rfl⟩) ?_ fun h => absurd h (Option.some_ne_none _)
  intro o' ho'
  cases ho'
  rw [hdue cf hnull]
  exact hacc.counted cf o ho

/-- A reference that is forgotten is lost. -/
theorem forget_accounted {old : Option Ref} (hacc : Accounted h refs)
    (hrefs : ∀ y, y ≠ K_CF_NULL → refs' y + old.toList.count y = refs y) :
    Accounted (h.forget old) refs' := by
  have hdue : ∀ y, y ≠ K_CF_NULL → due (h.forget old) refs' y = due h refs y := by
    intro y hy
    have hr := hrefs y hy
    cases old with
    | none => exact congrArg (· + _ + _) hr
    | some old =>
      show refs' y + slots Obj.values h.objects y + Function.update h.lost old (h.lost old + 1) y = _
      rw [Function.update_apply, due]
      by_cases hold : y = old
      · subst hold
        simp only [Option.toList_some, List.count_singleton_self, if_true] at hr ⊢
        omega
      · rw [if_neg hold]
        have hzero : [old].count y = 0 := List.count_eq_zero.mpr fun hm => hold (List.mem_singleton.mp hm)
        rw [Option.toList_some, hzero] at hr
        omega
  have hobjects : (h.forget old).objects = h.objects ∧ (h.forget old).retains = h.retains := by
    cases old <;> exact ⟨rfl, rfl⟩
  refine ⟨?_, fun x o hx => ?_, fun x hne hx => ?_⟩
  · rw [hobjects.1]
    exact hacc.null
  · rw [hobjects.1] at hx
    rw [hdue x (hacc.not_null hx), hobjects.2]
    exact hacc.counted x o hx
  · rw [hobjects.1] at hx
    rw [hdue x hne]
    exact hacc.freed x hne hx

/-- A new object has the reference it is returned with, and takes over those to its
values. -/
theorem box_accounted {address : Ref} {body : Body} (hacc : Accounted h refs)
    (hfresh : IsFresh h address)
    (hrefs : ∀ y, y ≠ K_CF_NULL →
      refs' y + body.values.count y = refs y + if y = address then 1 else 0) :
    Accounted (h.box address body) refs' := by
  obtain ⟨hnull, hnone⟩ := hfresh
  have hslots := slots_set hnone (some (.new body))
  simp only [heldBy, Obj.values, Obj.new, Nat.add_zero] at hslots
  refine hacc.cell address (some (.new body)) rfl hnull ?_ ?_ fun h => absurd h (Option.some_ne_none _)
  · intro y hy hne
    have hy' := hslots y
    have hr := hrefs y hy
    rw [if_neg hne] at hr
    refine ⟨?_, Function.update_of_ne hne ..⟩
    show refs' y + slots Obj.values (Function.update h.objects address _) y + h.lost y = due h refs y
    rw [due]
    simp only [Obj.new]
    omega
  · have hold := hacc.freed address hnull hnone
    have ha := hslots address
    have hr := hrefs address hnull
    rw [if_pos rfl] at hr
    have hdue : due (h.box address body) refs' address = 1 := by
      rw [due] at hold
      show refs' address + slots Obj.values (Function.update h.objects address _) address +
        h.lost address = 1
      simp only [Obj.new]
      omega
    intro o ho
    cases ho
    rw [hdue]
    exact ⟨rfl, Nat.one_pos, Nat.le_add_left 1 _⟩

end Account

/-! ### The hash map -/

theorem count_cons (v : Ref) (rest : List Ref) (y : Ref) :
    (v :: rest).count y = rest.count y + if y = v then 1 else 0 := by
  rw [List.count_cons]
  by_cases hy : y = v
  · simp [hy]
  · simp [hy, Ne.symm hy]

theorem insert_count (entries : List (Ref × Ref)) (key value y : Ref) :
    ((insert entries key value).1.map Prod.snd).count y + (insert entries key value).2.toList.count y =
      (entries.map Prod.snd).count y + if y = value then 1 else 0 := by
  induction entries with
  | nil => simp [insert, count_cons]
  | cons entry rest ih =>
    obtain ⟨k, v⟩ := entry
    unfold insert
    by_cases hk : k = key
    · simp only [if_pos hk, List.map_cons, Option.toList_some, count_cons, List.count_nil]
      omega
    · simp only [if_neg hk, List.map_cons, count_cons]
      omega

theorem remove_count (entries : List (Ref × Ref)) (key y : Ref) :
    ((remove entries key).1.map Prod.snd).count y + (remove entries key).2.toList.count y =
      (entries.map Prod.snd).count y := by
  induction entries with
  | nil => simp [remove]
  | cons entry rest ih =>
    obtain ⟨k, v⟩ := entry
    unfold remove
    by_cases hk : k = key
    · simp only [if_pos hk, List.map_cons, Option.toList_some, count_cons, List.count_nil]
      omega
    · simp only [if_neg hk, List.map_cons, count_cons]
      omega

/-! ### Calls -/

section Calls
variable {h : Heap} {refs refs' : Ref → Nat}

theorem cfRetain_objects_none (h : Heap) (cf y : Ref) :
    (cfRetain h cf).objects y = none ↔ h.objects y = none := by
  unfold cfRetain
  split_ifs
  · rfl
  · cases ho : h.objects cf with
    | none => rfl
    | some o =>
      show Function.update h.objects cf (some o.retain) y = none ↔ _
      rw [Function.update_apply]
      by_cases hy : y = cf
      · rw [if_pos hy, hy, ho]
        exact iff_of_false (Option.some_ne_none _) (Option.some_ne_none o)
      · rw [if_neg hy]

theorem passable_cfRetain {cf y : Ref} (hpass : Passable h y) : Passable (cfRetain h cf) y :=
  hpass.imp_right (mt (cfRetain_objects_none h cf y).mp)

/-- A retain leaves every object what it is. -/
theorem cfRetain_body (h : Heap) (cf : Ref) {y : Ref} {refcount : BitVec 32} {body : Body}
    (ho : h.objects y = some ⟨refcount, body⟩) :
    ∃ refcount', (cfRetain h cf).objects y = some ⟨refcount', body⟩ := by
  unfold cfRetain
  split_ifs
  · exact ⟨refcount, ho⟩
  · cases hcf : h.objects cf with
    | none => exact ⟨refcount, ho⟩
    | some o =>
      show ∃ refcount', Function.update h.objects cf (some o.retain) y = some ⟨refcount', body⟩
      rw [Function.update_apply]
      by_cases hy : y = cf
      · rw [hy, hcf] at ho
        cases ho
        exact ⟨refcount + 1, if_pos hy⟩
      · exact ⟨refcount, (if_neg hy).trans ho⟩

theorem cfRetain_lost (h : Heap) (cf : Ref) : (cfRetain h cf).lost = h.lost := by
  unfold cfRetain
  split_ifs
  · rfl
  · cases h.objects cf <;> rfl

theorem cfRelease_retains (h : Heap) (cf : Ref) : (cfRelease h cf).retains = h.retains := by
  unfold cfRelease
  split_ifs
  · rfl
  · cases h.objects cf with
    | none => rfl
    | some o =>
      dsimp only
      split_ifs <;> rfl

theorem retainAll_accounted {values : List Ref} (hacc : Accounted h refs)
    (hpass : ∀ v ∈ values, Passable h v)
    (hrefs : ∀ y, y ≠ K_CF_NULL → refs' y = refs y + values.count y) :
    Accounted (values.foldl cfRetain h) refs' := by
  induction values generalizing h refs with
  | nil => exact hacc.congr hrefs
  | cons v rest ih =>
    have hv : Accounted (cfRetain h v) fun y => refs y + if y = v then 1 else 0 :=
      retain_accounted hacc (hpass v List.mem_cons_self) fun _ _ => rfl
    apply ih hv (fun w hw => passable_cfRetain (hpass w (List.mem_cons_of_mem v hw)))
    intro y hy
    rw [hrefs y hy, count_cons]
    omega

theorem retainAll_fresh {values : List Ref} {address : Ref} (hfresh : IsFresh h address) :
    IsFresh (values.foldl cfRetain h) address := by
  induction values generalizing h with
  | nil => exact hfresh
  | cons v rest ih => exact ih ⟨hfresh.1, (cfRetain_objects_none h v address).mpr hfresh.2⟩

theorem forget_objects (h : Heap) (old : Option Ref) : (h.forget old).objects = h.objects := by
  cases old <;> rfl

/-- The loop holds one reference for each entry made so far; those to overwritten values
are lost. -/
theorem insertAll_accounted (entries : List (Ref × Ref)) {pairs : List (Ref × Ref)} (hacc : Accounted h refs')
    (hpass : ∀ p ∈ pairs, Passable h p.2)
    (hrefs : ∀ y, y ≠ K_CF_NULL → refs' y = refs y + (entries.map Prod.snd).count y) :
    Accounted (insertAll h entries pairs).1
      fun y => refs y + ((insertAll h entries pairs).2.map Prod.snd).count y := by
  induction pairs generalizing h refs' entries with
  | nil => exact hacc.congr fun y hy => (hrefs y hy).symm
  | cons p rest ih =>
    obtain ⟨key, value⟩ := p
    have hv : Accounted (cfRetain h value) fun y => refs' y + if y = value then 1 else 0 :=
      retain_accounted hacc (hpass _ List.mem_cons_self) fun _ _ => rfl
    have hforgot : Accounted ((cfRetain h value).forget (insert entries key value).2)
        fun y => refs y + ((insert entries key value).1.map Prod.snd).count y := by
      apply forget_accounted hv
      intro y hy
      have hcount := insert_count entries key value y
      have hbefore := hrefs y hy
      omega
    refine ih (insert entries key value).1 hforgot (fun q hq => ?_) fun _ _ => rfl
    have hq' : Passable (cfRetain h value) q.2 :=
      passable_cfRetain (hpass q (List.mem_cons_of_mem _ hq))
    unfold Passable Live at hq' ⊢
    rw [forget_objects]
    exact hq'

theorem insertAll_fresh {entries pairs : List (Ref × Ref)} {address : Ref}
    (hfresh : IsFresh h address) : IsFresh (insertAll h entries pairs).1 address := by
  induction pairs generalizing h entries with
  | nil => exact hfresh
  | cons p rest ih =>
    refine ih ⟨hfresh.1, ?_⟩
    rw [forget_objects]
    exact (cfRetain_objects_none h p.2 address).mpr hfresh.2

/-- The client's references once it was given a new object. -/
def given (owned : Ref → Nat) (address : Ref) : Ref → Nat :=
  Function.update owned address (owned address + 1)

theorem given_apply (owned : Ref → Nat) (address y : Ref) :
    given owned address y = owned y + if y = address then 1 else 0 := by
  rw [given, Function.update_apply]
  split_ifs with hy
  · rw [hy]
  · rfl

theorem arrayCreate_accounted {values : List Ref} {address : Ref} (hacc : Accounted h refs)
    (hfresh : IsFresh h address) (hpass : ∀ v ∈ values, Passable h v) :
    Accounted (cfArrayCreate h address values) (given refs address) := by
  have hvalues : Accounted (values.foldl cfRetain h) fun y => refs y + values.count y :=
    retainAll_accounted hacc hpass fun _ _ => rfl
  apply box_accounted hvalues (retainAll_fresh hfresh)
  intro y _
  rw [given_apply]
  simp only [Body.values]
  omega

theorem dictionaryCreate_accounted {pairs : List (Ref × Ref)} {address : Ref}
    (hacc : Accounted h refs) (hfresh : IsFresh h address) (hpass : ∀ p ∈ pairs, Passable h p.2) :
    Accounted (cfDictionaryCreate h address pairs) (given refs address) := by
  have hentries := insertAll_accounted [] hacc hpass fun _ _ => rfl
  apply box_accounted hentries (insertAll_fresh hfresh)
  intro y _
  rw [given_apply]
  simp only [Body.values]
  omega

theorem arrayAppendValue_accounted {arr value : Ref} (hacc : Accounted h refs) (harr : IsArray h arr)
    (hpass : Passable h value) : Accounted (cfArrayAppendValue h arr value) refs := by
  unfold cfArrayAppendValue
  by_cases hnull : arr = K_CF_NULL
  · rw [if_pos hnull]
    exact hacc
  rw [if_neg hnull]
  have hretained : Accounted (cfRetain h value) fun y => refs y + if y = value then 1 else 0 :=
    retain_accounted hacc hpass fun _ _ => rfl
  obtain ⟨_, values, harr⟩ := harr.resolve_left hnull
  obtain ⟨refcount, ho⟩ := cfRetain_body h value harr
  dsimp only
  rw [ho]
  refine store_accounted (o := ⟨refcount, .array values⟩) hretained ho fun y _ => ?_
  simp only [Body.values, Obj.values, List.count_append, count_cons, List.count_nil]
  omega

theorem releaseOld_retains (h : Heap) (old : Option Ref) :
    (releaseOld h old).retains = h.retains := by
  cases old with
  | none => rfl
  | some old => exact cfRelease_retains h old

theorem releaseOld_accounted {old : Option Ref} (hacc : Accounted h refs)
    (hbound : ∀ x, (releaseOld h old).retains x < 2 ^ 32)
    (hrefs : ∀ y, y ≠ K_CF_NULL → refs' y + old.toList.count y = refs y) :
    Accounted (releaseOld h old) refs' := by
  rw [releaseOld_retains] at hbound
  cases old with
  | none => exact hacc.congr hrefs
  | some old =>
    have hcount : ∀ y, y ≠ K_CF_NULL → refs' y + (if y = old then 1 else 0) = refs y := by
      intro y hy
      have hy' := hrefs y hy
      simp only [Option.toList_some, count_cons, List.count_nil] at hy'
      omega
    refine release_accounted hacc ?_ (hbound old) hcount
    by_cases hnull : old = K_CF_NULL
    · exact .inl hnull
    · have hold := hcount old hnull
      rw [if_pos rfl] at hold
      exact .inr (by omega)

/-- What `CFDictionarySetValue` does to a dictionary: retain, store, release. -/
theorem dictionarySetValue_cases {dict : Ref} (key value : Ref) (hdict : IsDictionary h dict) :
    dict = K_CF_NULL ∧ cfDictionarySetValue h dict key value = h ∨
    dict ≠ K_CF_NULL ∧ ∃ before after entries, h.objects dict = some ⟨before, .dictionary entries⟩ ∧
      (cfRetain h value).objects dict = some ⟨after, .dictionary entries⟩ ∧
      cfDictionarySetValue h dict key value =
        releaseOld ((cfRetain h value).set dict
          (some ⟨after, .dictionary (insert entries key value).1⟩)) (insert entries key value).2 := by
  by_cases hnull : dict = K_CF_NULL
  · exact .inl ⟨hnull, if_pos hnull⟩
  · obtain ⟨before, entries, hbefore⟩ := hdict.resolve_left hnull
    obtain ⟨after, hafter⟩ := cfRetain_body h value hbefore
    refine .inr ⟨hnull, before, after, entries, hbefore, hafter, ?_⟩
    rw [cfDictionarySetValue, if_neg hnull]
    dsimp only
    rw [hafter]

theorem dictionaryRemoveValue_cases {dict : Ref} (key : Ref) (hdict : IsDictionary h dict) :
    dict = K_CF_NULL ∧ cfDictionaryRemoveValue h dict key = h ∨
    dict ≠ K_CF_NULL ∧ ∃ refcount entries, h.objects dict = some ⟨refcount, .dictionary entries⟩ ∧
      cfDictionaryRemoveValue h dict key =
        releaseOld (h.set dict (some ⟨refcount, .dictionary (remove entries key).1⟩))
          (remove entries key).2 := by
  by_cases hnull : dict = K_CF_NULL
  · exact .inl ⟨hnull, if_pos hnull⟩
  · obtain ⟨refcount, entries, hentries⟩ := hdict.resolve_left hnull
    refine .inr ⟨hnull, refcount, entries, hentries, ?_⟩
    rw [cfDictionaryRemoveValue, if_neg hnull, hentries]

theorem dictionarySetValue_accounted {dict key value : Ref} (hacc : Accounted h refs)
    (hdict : IsDictionary h dict) (hpass : Passable h value)
    (hbound : ∀ x, (cfDictionarySetValue h dict key value).retains x < 2 ^ 32) :
    Accounted (cfDictionarySetValue h dict key value) refs := by
  rcases dictionarySetValue_cases key value hdict with
    ⟨-, hsame⟩ | ⟨-, _, refcount, entries, -, ho, heq⟩
  · rw [hsame]
    exact hacc
  · have hretained : Accounted (cfRetain h value) fun y => refs y + if y = value then 1 else 0 :=
      retain_accounted hacc hpass fun _ _ => rfl
    -- the reference to the old value passes from the dictionary to the call
    have hstored : Accounted ((cfRetain h value).set dict
        (some ⟨refcount, .dictionary (insert entries key value).1⟩))
        fun y => refs y + (insert entries key value).2.toList.count y := by
      apply store_accounted (o := ⟨refcount, .dictionary entries⟩) hretained ho
      intro y _
      have hcount := insert_count entries key value y
      simp only [Body.values, Obj.values]
      omega
    rw [heq] at hbound ⊢
    exact releaseOld_accounted hstored hbound fun _ _ => rfl

theorem dictionaryRemoveValue_accounted {dict key : Ref} (hacc : Accounted h refs)
    (hdict : IsDictionary h dict)
    (hbound : ∀ x, (cfDictionaryRemoveValue h dict key).retains x < 2 ^ 32) :
    Accounted (cfDictionaryRemoveValue h dict key) refs := by
  rcases dictionaryRemoveValue_cases key hdict with ⟨-, hsame⟩ | ⟨-, refcount, entries, ho, heq⟩
  · rw [hsame]
    exact hacc
  · have hstored : Accounted (h.set dict (some ⟨refcount, .dictionary (remove entries key).1⟩))
        fun y => refs y + (remove entries key).2.toList.count y := by
      apply store_accounted (o := ⟨refcount, .dictionary entries⟩) hacc ho
      intro y _
      have hcount := remove_count entries key y
      simp only [Body.values, Obj.values]
      omega
    rw [heq] at hbound ⊢
    exact releaseOld_accounted hstored hbound fun _ _ => rfl

end Calls

/-! ### Runs -/

theorem accounted_new : Accounted State.new.heap State.new.owned := by
  refine ⟨rfl, fun _ _ h => (nomatch h), fun x _ _ => ?_⟩
  have hslots : slots Obj.values State.new.heap.objects x = 0 := by
    by_contra hpos
    obtain ⟨c, o, ho, -⟩ := slots_pos.mp (Nat.pos_of_ne_zero hpos)
    exact nomatch ho
  show 0 + slots Obj.values State.new.heap.objects x + 0 = 0
  omega

/-- Every call the client may make keeps the account. -/
theorem accounted_step (s : State) (a : Action) (hacc : Accounted s.heap s.owned)
    (hfair : Fair (cfSystem.event s a)) :
    Accounted (cfSystem.step s a).1.heap (cfSystem.step s a).1.owned := by
  obtain ⟨hpasses, hretains⟩ := hfair
  cases a with
  | createString address bytes =>
    apply box_accounted hacc hpasses
    intro y _
    exact given_apply s.owned address y
  | createData address bytes =>
    apply box_accounted hacc hpasses
    intro y _
    exact given_apply s.owned address y
  | createArray address values => exact arrayCreate_accounted hacc hpasses.1 hpasses.2
  | createDictionary address pairs => exact dictionaryCreate_accounted hacc hpasses.1 hpasses.2
  | retain cf => exact retain_accounted hacc hpasses fun y _ => given_apply s.owned cf y
  | release cf =>
    refine release_accounted hacc hpasses ?_ fun y hy => ?_
    · have hbound := hretains cf
      rw [← cfRelease_retains s.heap cf]
      exact hbound
    · show Function.update s.owned cf (s.owned cf - 1) y + _ = s.owned y
      rw [Function.update_apply]
      have hpasses' : cf = K_CF_NULL ∨ 0 < s.owned cf := hpasses
      by_cases hcf : y = cf
      · subst hcf
        have hpos := hpasses'.resolve_left hy
        rw [if_pos rfl, if_pos rfl]
        omega
      · rw [if_neg hcf, if_neg hcf]
        rfl
  | arrayAppendValue arr value => exact arrayAppendValue_accounted hacc hpasses.1 hpasses.2
  | dictionarySetValue dict key value =>
    exact dictionarySetValue_accounted hacc hpasses.1 hpasses.2 hretains
  | dictionaryRemoveValue dict key => exact dictionaryRemoveValue_accounted hacc hpasses hretains

/-- What is not live has no references. -/
theorem Accounted.unreferenced {h : Heap} {refs : Ref → Nat} (hacc : Accounted h refs) {x : Ref}
    (hne : x ≠ K_CF_NULL) (hdead : ¬ Live h x) :
    refs x = 0 ∧ ∀ c, ¬ Holds Obj.values h.objects c x := by
  have hnone := hacc.freed x hne (not_not.mp hdead)
  rw [due] at hnone
  refine ⟨by omega, fun c hc => ?_⟩
  have hpos := slots_pos.mpr ⟨c, hc⟩
  omega

/-- **Nothing is freed that somebody has a reference to.** When a call frees an object the
client owns no reference to it and no live array or dictionary holds it; what the client
owns, and what a live container holds, is live. -/
theorem freed_unreferenced (actions : List Action) (hfair : cfSystem.Along Fair .new actions) :
    cfSystem.Along (fun e => ∀ x, Live e.before.heap x → ¬ Live e.after.heap x →
      e.after.owned x = 0 ∧ ∀ c o, e.after.heap.objects c = some o → x ∉ o.values) .new actions ∧
    ∀ x, x ≠ K_CF_NULL → (0 < (cfSystem.run .new actions).owned x ∨
        ∃ c, Holds Obj.values (cfSystem.run .new actions).heap.objects c x) →
      Live (cfSystem.run .new actions).heap x := by
  constructor
  · refine System.Along.of_invariant accounted_step ?_ accounted_new hfair
    intro s a hacc hcall x hlive hdead
    have hne : x ≠ K_CF_NULL := fun heq => hlive (heq ▸ hacc.null)
    obtain ⟨howned, hheld⟩ := (accounted_step s a hacc hcall).unreferenced hne hdead
    exact ⟨howned, fun c o ho hmem => hheld c ⟨o, ho, hmem⟩⟩
  · intro x hne href
    have hacc : Accounted (cfSystem.run .new actions).heap (cfSystem.run .new actions).owned :=
      System.Along.run_invariant accounted_step accounted_new hfair
    by_contra hdead
    obtain ⟨howned, hheld⟩ := hacc.unreferenced hne hdead
    rcases href with hpos | ⟨c, hc⟩
    · omega
    · exact hheld c hc

/-- No object of the run is retained more often than once. -/
theorem freed_unreferenced_fair : cfSystem.Along Fair .new
    [.createString 0x10 [], .createArray 0x20 [0x10], .release 0x10] := by
  have hretains : ∀ x : Ref, Function.update (Function.update (Function.update (fun _ => 0) 0x10 0)
      0x10 1) 0x20 0 x < 2 ^ 32 := by
    intro x
    simp only [Function.update_apply]
    split_ifs <;> decide
  refine System.along_cons.mpr ⟨⟨⟨by decide, rfl⟩, fun x => ?_⟩, System.along_cons.mpr
    ⟨⟨⟨⟨by decide, rfl⟩, ?_⟩, hretains⟩, System.along_cons.mpr
    ⟨⟨.inr (by decide), hretains⟩, System.along_nil _ _⟩⟩⟩
  · show Function.update (fun _ => 0) 0x10 0 x < 2 ^ 32
    simp only [Function.update_apply]
    split_ifs <;> decide
  · intro v hv
    rw [List.mem_singleton.mp hv]
    exact .inr (Option.some_ne_none _)

/-- A string in an array, released by the client: it stays. -/
theorem freed_unreferenced_array : Live (cfSystem.run .new
    [.createString 0x10 [], .createArray 0x20 [0x10], .release 0x10]).heap 0x10 :=
  (freed_unreferenced _ freed_unreferenced_fair).2 0x10 (by decide)
    (.inr ⟨0x20, ⟨1, .array [0x10]⟩, rfl, List.mem_singleton_self _⟩)

end Grafted.Cf.Objects
