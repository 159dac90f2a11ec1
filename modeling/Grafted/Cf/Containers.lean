import Mathlib.Data.List.Nodup
import Grafted.Cf.Leaks

/-! What containers hold.

`Objects` says what a call does to the heap, and a call on one object may free others. What an
object holds is changed only by the calls on it (`body_step`), so over any run an array is the
list it was created with and what was appended, in order (`array_holds`), and a dictionary is the
function that its calls make of it one after another (`dictionary_holds`), for as long as they
are not freed. -/
namespace Grafted.Cf.Containers
open Objects Transition

/-! ### The source -/

section Readers
variable (h : Heap)

def bodyOf (cf : Ref) : Option Body := (h.objects cf).map (·.body)

/-- None of what is no array, of which the source reads whatever is there. -/
def arrayValues (arr : Ref) : Option (List Ref) :=
  match bodyOf h arr with
  | some (.array values) => some values
  | _ => none

def dictionaryEntries (dict : Ref) : Option (List (Ref × Ref)) :=
  match bodyOf h dict with
  | some (.dictionary entries) => some entries
  | _ => none

def cfArrayGetCount (arr : Ref) : Option (BitVec 64) :=
  if arr = K_CF_NULL then some 0
  else (arrayValues h arr).map fun values => BitVec.ofNat 64 values.length

/-- A negative index is far out of range. -/
def cfArrayGetValueAtIndex (arr : Ref) (idx : BitVec 64) : Option Ref :=
  if arr = K_CF_NULL then some K_CF_NULL
  else (arrayValues h arr).map fun values => (values[idx.toNat]?).getD K_CF_NULL

def K_CF_NOT_FOUND : BitVec 64 := -1

/-- The range is not looked at. -/
def cfArrayGetFirstIndexOfValue (arr value : Ref) : Option (BitVec 64) :=
  if arr = K_CF_NULL then some K_CF_NOT_FOUND
  else (arrayValues h arr).map fun values =>
    ((values.findIdx? (· = value)).map (BitVec.ofNat 64)).getD K_CF_NOT_FOUND

def cfDictionaryGetCount (dict : Ref) : Option (BitVec 64) :=
  if dict = K_CF_NULL then some 0
  else (dictionaryEntries h dict).map fun entries => BitVec.ofNat 64 entries.length

def cfDictionaryGetValue (dict key : Ref) : Option Ref :=
  if dict = K_CF_NULL then some K_CF_NULL
  else (dictionaryEntries h dict).map fun entries => (get entries key).getD K_CF_NULL

def cfDictionaryContainsKey (dict key : Ref) : Option Bool :=
  if dict = K_CF_NULL then some false
  else (dictionaryEntries h dict).map fun entries => (get entries key).isSome

end Readers

/-! ### What a call does to an object -/

/-- The entries that `CFDictionaryCreate` makes. -/
def created (pairs : List (Ref × Ref)) : List (Ref × Ref) :=
  pairs.foldl (fun entries pair => (insert entries pair.1 pair.2).1) []

/-- The object a call makes. -/
def made : Action → Option (Ref × Body)
  | .createString address bytes => some (address, .string bytes)
  | .createData address bytes => some (address, .data bytes)
  | .createArray address values => some (address, .array values)
  | .createDictionary address pairs => some (address, .dictionary (created pairs))
  | _ => none

/-- What an object holds after a call. -/
def edit (cf : Ref) (body : Body) : Action → Body
  | .arrayAppendValue arr value =>
    match body with
    | .array values => if arr = cf then .array (values ++ [value]) else body
    | _ => body
  | .dictionarySetValue dict key value =>
    match body with
    | .dictionary entries => if dict = cf then .dictionary (insert entries key value).1 else body
    | _ => body
  | .dictionaryRemoveValue dict key =>
    match body with
    | .dictionary entries => if dict = cf then .dictionary (remove entries key).1 else body
    | _ => body
  | _ => body

section Step
variable {h : Heap} {cf : Ref} {body : Body}

theorem bodyOf_some {h : Heap} {cf : Ref} {body : Body} :
    bodyOf h cf = some body ↔ ∃ refcount, h.objects cf = some ⟨refcount, body⟩ := by
  unfold bodyOf
  constructor
  · intro hbody
    obtain ⟨⟨refcount, held⟩, ho, rfl⟩ := Option.map_eq_some_iff.mp hbody
    exact ⟨refcount, ho⟩
  · rintro ⟨refcount, ho⟩
    rw [ho]
    rfl

theorem bodyOf_set (h : Heap) (x : Ref) (cell : Option Obj) (cf : Ref) :
    bodyOf (h.set x cell) cf = if cf = x then cell.map (·.body) else bodyOf h cf := by
  unfold bodyOf Heap.set
  dsimp only
  rw [Function.update_apply]
  split_ifs <;> rfl

theorem bodyOf_box (h : Heap) (address : Ref) (made : Body) (cf : Ref) :
    bodyOf (h.box address made) cf = if cf = address then some made else bodyOf h cf :=
  bodyOf_set h address (some (.new made)) cf

theorem bodyOf_cfRetain (h : Heap) (value cf : Ref) :
    bodyOf (cfRetain h value) cf = bodyOf h cf := by
  cases ho : h.objects cf with
  | none =>
    have hnone := (cfRetain_objects_none h value cf).mpr ho
    rw [bodyOf, bodyOf, ho, hnone]
  | some o =>
    obtain ⟨refcount, body⟩ := o
    obtain ⟨refcount', ho'⟩ := cfRetain_body h value ho
    rw [bodyOf, bodyOf, ho, ho']
    rfl

theorem bodyOf_retainAll (h : Heap) (values : List Ref) (cf : Ref) :
    bodyOf (values.foldl cfRetain h) cf = bodyOf h cf := by
  induction values generalizing h with
  | nil => rfl
  | cons value rest ih => exact (ih (cfRetain h value)).trans (bodyOf_cfRetain h value cf)

/-- A release may free the object. -/
theorem bodyOf_cfRelease {value : Ref} (hbody : bodyOf (cfRelease h value) cf = some body) :
    bodyOf h cf = some body := by
  unfold cfRelease at hbody
  split_ifs at hbody with hnull
  · exact hbody
  · cases ho : h.objects value with
    | none =>
      rw [ho] at hbody
      exact hbody
    | some o =>
      rw [ho] at hbody
      dsimp only at hbody
      split_ifs at hbody with hlast
      · have hdropped : bodyOf (h.drop value o) cf = if cf = value then none else bodyOf h cf :=
          bodyOf_set h value none cf
        rw [hdropped] at hbody
        split_ifs at hbody with hcf
        exact hbody
      · rw [bodyOf_set] at hbody
        split_ifs at hbody with hcf
        · rw [hcf, bodyOf, ho]
          exact hbody
        · exact hbody

theorem bodyOf_releaseOld {old : Option Ref} (hbody : bodyOf (releaseOld h old) cf = some body) :
    bodyOf h cf = some body := by
  cases old with
  | none => exact hbody
  | some old => exact bodyOf_cfRelease hbody

theorem insertAll_spec (h : Heap) (entries pairs : List (Ref × Ref)) (cf : Ref) :
    bodyOf (insertAll h entries pairs).1 cf = bodyOf h cf ∧ (insertAll h entries pairs).2 =
      pairs.foldl (fun entries pair => (insert entries pair.1 pair.2).1) entries := by
  induction pairs generalizing h entries with
  | nil => exact ⟨rfl, rfl⟩
  | cons pair rest ih =>
    obtain ⟨hbody, hentries⟩ := ih ((cfRetain h pair.2).forget (insert entries pair.1 pair.2).2)
      (insert entries pair.1 pair.2).1
    refine ⟨hbody.trans ?_, hentries⟩
    rw [bodyOf, forget_objects]
    exact bodyOf_cfRetain h pair.2 cf

/-- Storing in a dictionary, and releasing what was there. -/
theorem bodyOf_store {dict : Ref} {refcount : BitVec 32} {entries entries' : List (Ref × Ref)}
    {old : Option Ref} (hdict : bodyOf h dict = some (.dictionary entries))
    (hbody : bodyOf (releaseOld (h.set dict (some ⟨refcount, .dictionary entries'⟩)) old) cf =
      some body) :
    ∃ before, bodyOf h cf = some before ∧
      body = if dict = cf then .dictionary entries' else before := by
  have hstored := bodyOf_releaseOld hbody
  rw [bodyOf_set] at hstored
  by_cases hcf : dict = cf
  · rw [if_pos hcf.symm] at hstored
    refine ⟨_, hcf ▸ hdict, ?_⟩
    rw [if_pos hcf]
    exact (Option.some.inj hstored).symm
  · rw [if_neg (Ne.symm hcf)] at hstored
    exact ⟨body, hstored, (if_neg hcf).symm⟩

/-- An edit is of what is of its type. -/
theorem edit_append {arr value : Ref} {held : Body}
    (h : arr = cf → ∀ values, held ≠ .array values) :
    edit cf held (.arrayAppendValue arr value) = held := by
  unfold edit
  cases held with
  | array values => exact if_neg fun harr => h harr values rfl
  | _ => rfl

theorem edit_setValue {dict key value : Ref} {held : Body}
    (h : dict = cf → ∀ entries, held ≠ .dictionary entries) :
    edit cf held (.dictionarySetValue dict key value) = held := by
  unfold edit
  cases held with
  | dictionary entries => exact if_neg fun hdict => h hdict entries rfl
  | _ => rfl

theorem edit_removeValue {dict key : Ref} {held : Body}
    (h : dict = cf → ∀ entries, held ≠ .dictionary entries) :
    edit cf held (.dictionaryRemoveValue dict key) = held := by
  unfold edit
  cases held with
  | dictionary entries => exact if_neg fun hdict => h hdict entries rfl
  | _ => rfl

theorem append_step {arr value : Ref} (hnull : cf ≠ K_CF_NULL)
    (hbody : bodyOf (cfArrayAppendValue h arr value) cf = some body) :
    ∃ before, bodyOf h cf = some before ∧ body = edit cf before (.arrayAppendValue arr value) := by
  unfold cfArrayAppendValue at hbody
  by_cases harr : arr = K_CF_NULL
  · rw [if_pos harr] at hbody
    refine ⟨body, hbody, (edit_append fun heq => ?_).symm⟩
    exact absurd (heq.symm.trans harr) hnull
  · rw [if_neg harr] at hbody
    dsimp only at hbody
    have hretained := bodyOf_cfRetain h value
    split at hbody
    · next refcount values ho =>
      have hvalues : bodyOf h arr = some (.array values) :=
        (hretained arr).symm.trans (bodyOf_some.mpr ⟨refcount, ho⟩)
      rw [bodyOf_set] at hbody
      by_cases hcf : cf = arr
      · rw [if_pos hcf] at hbody
        subst hcf
        exact ⟨_, hvalues, (Option.some.inj hbody).symm.trans (if_pos rfl).symm⟩
      · rw [if_neg hcf, hretained] at hbody
        exact ⟨body, hbody, (edit_append fun heq => absurd heq.symm hcf).symm⟩
    · next hother =>
      rw [hretained] at hbody
      refine ⟨body, hbody, (edit_append fun heq values hvalues => ?_).symm⟩
      subst heq
      obtain ⟨refcount, ho⟩ := bodyOf_some.mp ((hretained arr).trans hbody)
      exact hother refcount values (ho.trans (by rw [hvalues]))

theorem setValue_step {dict key value : Ref} (hnull : cf ≠ K_CF_NULL)
    (hbody : bodyOf (cfDictionarySetValue h dict key value) cf = some body) :
    ∃ before, bodyOf h cf = some before ∧
      body = edit cf before (.dictionarySetValue dict key value) := by
  unfold cfDictionarySetValue at hbody
  by_cases hdict : dict = K_CF_NULL
  · rw [if_pos hdict] at hbody
    refine ⟨body, hbody, (edit_setValue fun heq => ?_).symm⟩
    exact absurd (heq.symm.trans hdict) hnull
  · rw [if_neg hdict] at hbody
    dsimp only at hbody
    have hretained := bodyOf_cfRetain h value
    split at hbody
    · next refcount entries ho =>
      obtain ⟨before, hbefore, hafter⟩ := bodyOf_store (bodyOf_some.mpr ⟨refcount, ho⟩) hbody
      rw [hretained] at hbefore
      refine ⟨before, hbefore, hafter.trans ?_⟩
      by_cases hcf : dict = cf
      · subst hcf
        have hentries := (hretained dict).symm.trans (bodyOf_some.mpr ⟨refcount, ho⟩)
        obtain rfl := Option.some.inj (hentries.symm.trans hbefore)
        rfl
      · rw [if_neg hcf]
        exact (edit_setValue fun heq => absurd heq hcf).symm
    · next hother =>
      rw [hretained] at hbody
      refine ⟨body, hbody, (edit_setValue fun heq entries hentries => ?_).symm⟩
      subst heq
      obtain ⟨refcount, ho⟩ := bodyOf_some.mp ((hretained dict).trans hbody)
      exact hother refcount entries (ho.trans (by rw [hentries]))

theorem removeValue_step {dict key : Ref} (hnull : cf ≠ K_CF_NULL)
    (hbody : bodyOf (cfDictionaryRemoveValue h dict key) cf = some body) :
    ∃ before, bodyOf h cf = some before ∧
      body = edit cf before (.dictionaryRemoveValue dict key) := by
  unfold cfDictionaryRemoveValue at hbody
  by_cases hdict : dict = K_CF_NULL
  · rw [if_pos hdict] at hbody
    refine ⟨body, hbody, (edit_removeValue fun heq => ?_).symm⟩
    exact absurd (heq.symm.trans hdict) hnull
  · rw [if_neg hdict] at hbody
    split at hbody
    · next refcount entries ho =>
      have hentries := bodyOf_some.mpr ⟨refcount, ho⟩
      obtain ⟨before, hbefore, hafter⟩ := bodyOf_store hentries hbody
      refine ⟨before, hbefore, hafter.trans ?_⟩
      by_cases hcf : dict = cf
      · subst hcf
        obtain rfl := Option.some.inj (hentries.symm.trans hbefore)
        rfl
      · rw [if_neg hcf]
        exact (edit_removeValue fun heq => absurd heq hcf).symm
    · next hother =>
      refine ⟨body, hbody, (edit_removeValue fun heq entries hentries => ?_).symm⟩
      subst heq
      obtain ⟨refcount, ho⟩ := bodyOf_some.mp hbody
      exact hother refcount entries (ho.trans (by rw [hentries]))

/-- **One call.** An object that is there after a call was made by it, or it was there before and
holds what the call makes of what it held. -/
theorem body_step (s : State) (a : Action) (hnull : cf ≠ K_CF_NULL)
    (hnew : ∀ new ∈ made a, new.1 ≠ cf) (hbody : bodyOf (perform s a).heap cf = some body) :
    ∃ before, bodyOf s.heap cf = some before ∧ body = edit cf before a := by
  cases a with
  | createString address bytes =>
    have hne : cf ≠ address := Ne.symm (hnew _ rfl)
    exact ⟨body, (if_neg hne).symm.trans ((bodyOf_box ..).symm.trans hbody), rfl⟩
  | createData address bytes =>
    have hne : cf ≠ address := Ne.symm (hnew _ rfl)
    exact ⟨body, (if_neg hne).symm.trans ((bodyOf_box ..).symm.trans hbody), rfl⟩
  | createArray address values =>
    have hne : cf ≠ address := Ne.symm (hnew _ rfl)
    have hkept := (if_neg hne).symm.trans ((bodyOf_box ..).symm.trans hbody)
    exact ⟨body, (bodyOf_retainAll s.heap values cf).symm.trans hkept, rfl⟩
  | createDictionary address pairs =>
    have hne : cf ≠ address := Ne.symm (hnew _ rfl)
    have hkept := (if_neg hne).symm.trans ((bodyOf_box ..).symm.trans hbody)
    exact ⟨body, (insertAll_spec s.heap [] pairs cf).1.symm.trans hkept, rfl⟩
  | retain value => exact ⟨body, (bodyOf_cfRetain s.heap value cf).symm.trans hbody, rfl⟩
  | release value => exact ⟨body, bodyOf_cfRelease hbody, rfl⟩
  | arrayAppendValue arr value => exact append_step hnull hbody
  | dictionarySetValue dict key value => exact setValue_step hnull hbody
  | dictionaryRemoveValue dict key => exact removeValue_step hnull hbody

end Step

/-! ### Runs -/

/-- None of the calls makes an object at the address. -/
def Keeps (cf : Ref) (actions : List Action) : Prop := ∀ a ∈ actions, ∀ new ∈ made a, new.1 ≠ cf

/-- **A run.** What an object holds is what the calls make of what it held. -/
theorem body_run {cf : Ref} (hnull : cf ≠ K_CF_NULL) {actions : List Action}
    (hkeeps : Keeps cf actions) {s : State} {body : Body}
    (hbody : bodyOf (cfSystem.run s actions).heap cf = some body) :
    ∃ before, bodyOf s.heap cf = some before ∧ body = actions.foldl (edit cf) before := by
  induction actions generalizing s with
  | nil => exact ⟨body, hbody, rfl⟩
  | cons a rest ih =>
    obtain ⟨hfirst, hrest⟩ := List.forall_mem_cons.mp hkeeps
    obtain ⟨middle, hmiddle, hafter⟩ := ih hrest hbody
    obtain ⟨before, hbefore, rfl⟩ := body_step s a hnull hfirst hmiddle
    exact ⟨before, hbefore, hafter⟩

/-- From the call that made it. -/
theorem body_made {cf : Ref} (hnull : cf ≠ K_CF_NULL) {actions : List Action}
    (hkeeps : Keeps cf actions) (s : State) {create : Action} {new : Body}
    (hnew : made create = some (cf, new)) {body : Body}
    (hbody : bodyOf (cfSystem.run s (create :: actions)).heap cf = some body) :
    body = actions.foldl (edit cf) new := by
  obtain ⟨before, hbefore, rfl⟩ := body_run hnull hkeeps hbody
  suffices hmade : bodyOf (perform s create).heap cf = some new by
    rw [Option.some.inj (hbefore.symm.trans hmade)]
  cases create with
  | createString address bytes =>
    cases hnew
    exact (bodyOf_box ..).trans (if_pos rfl)
  | createData address bytes =>
    cases hnew
    exact (bodyOf_box ..).trans (if_pos rfl)
  | createArray address values =>
    cases hnew
    exact (bodyOf_box ..).trans (if_pos rfl)
  | createDictionary address pairs =>
    cases hnew
    refine (bodyOf_box ..).trans ((if_pos rfl).trans ?_)
    rw [(insertAll_spec s.heap [] pairs cf).2]
    rfl
  | retain value => exact nomatch hnew
  | release value => exact nomatch hnew
  | arrayAppendValue arr value => exact nomatch hnew
  | dictionarySetValue dict key value => exact nomatch hnew
  | dictionaryRemoveValue dict key => exact nomatch hnew

theorem bodyOf_of_live {h : Heap} {cf : Ref} (hlive : Live h cf) :
    ∃ body, bodyOf h cf = some body := by
  obtain ⟨o, ho⟩ := Option.ne_none_iff_exists'.mp hlive
  exact ⟨o.body, bodyOf_some.mpr ⟨o.refcount, ho⟩⟩

/-! ### Arrays -/

def appends (arr : Ref) : Action → Option Ref
  | .arrayAppendValue arr' value => if arr' = arr then some value else none
  | _ => none

/-- What the calls append to an array, in order. -/
def appended (arr : Ref) (actions : List Action) : List Ref := actions.filterMap (appends arr)

/-- What is read of an array that holds these values. -/
structure ArrayHolds (h : Heap) (arr : Ref) (values : List Ref) : Prop where
  count : cfArrayGetCount h arr = some (BitVec.ofNat 64 values.length)
  value : ∀ idx, cfArrayGetValueAtIndex h arr idx = some ((values[idx.toNat]?).getD K_CF_NULL)
  first : ∀ i value, values[i]? = some value → (∀ j < i, values[j]? ≠ some value) →
    cfArrayGetFirstIndexOfValue h arr value = some (BitVec.ofNat 64 i)
  absent : ∀ value, value ∉ values → cfArrayGetFirstIndexOfValue h arr value = some K_CF_NOT_FOUND

theorem foldl_edit_array (arr : Ref) (values : List Ref) (actions : List Action) :
    actions.foldl (edit arr) (.array values) = .array (values ++ appended arr actions) := by
  induction actions generalizing values with
  | nil => rw [appended, List.filterMap_nil, List.append_nil, List.foldl_nil]
  | cons a rest ih =>
    rw [List.foldl_cons]
    have hstep : edit arr (.array values) a = .array (values ++ (appends arr a).toList) := by
      cases a with
      | arrayAppendValue arr' value =>
        unfold edit appends
        by_cases harr : arr' = arr
        · simp [harr]
        · simp [harr]
      | _ => simp [edit, appends]
    have happended : appended arr (a :: rest) = (appends arr a).toList ++ appended arr rest := by
      unfold appended
      cases ha : appends arr a with
      | none => rw [List.filterMap_cons_none ha, Option.toList_none, List.nil_append]
      | some value => rw [List.filterMap_cons_some ha, Option.toList_some, List.singleton_append]
    rw [hstep, ih, happended, List.append_assoc]

theorem arrayHolds_of_body {h : Heap} {arr : Ref} {values : List Ref} (hnull : arr ≠ K_CF_NULL)
    (hbody : bodyOf h arr = some (.array values)) : ArrayHolds h arr values := by
  have hvalues : arrayValues h arr = some values := by rw [arrayValues, hbody]
  constructor
  · rw [cfArrayGetCount, if_neg hnull, hvalues, Option.map_some]
  · intro idx
    rw [cfArrayGetValueAtIndex, if_neg hnull, hvalues, Option.map_some]
  · intro i value hi hearlier
    have hfound : values.findIdx? (· = value) = some i := by
      refine List.findIdx?_eq_some_iff_getElem.mpr ?_
      obtain ⟨hlt, hat⟩ := List.getElem?_eq_some_iff.mp hi
      refine ⟨hlt, by simpa using hat, fun j hj => ?_⟩
      have hne := hearlier j hj
      rw [List.getElem?_eq_getElem (Nat.lt_trans hj hlt)] at hne
      simpa using fun heq => hne (congrArg some heq)
    rw [cfArrayGetFirstIndexOfValue, if_neg hnull, hvalues, Option.map_some, hfound]
    rfl
  · intro value habsent
    have hnone : values.findIdx? (· = value) = none := by
      refine List.findIdx?_eq_none_iff.mpr fun v hv => ?_
      simpa using fun heq : v = value => habsent (heq ▸ hv)
    rw [cfArrayGetFirstIndexOfValue, if_neg hnull, hvalues, Option.map_some, hnone]
    rfl

/-- **An array holds what it was created with and what was appended to it, in order**, whatever else
is called, as long as it is not freed. -/
theorem array_holds (s : State) {arr : Ref} (hnull : arr ≠ K_CF_NULL) (values : List Ref)
    {actions : List Action} (hkeeps : Keeps arr actions)
    (hlive : Live (cfSystem.run s (.createArray arr values :: actions)).heap arr) :
    ArrayHolds (cfSystem.run s (.createArray arr values :: actions)).heap arr
      (values ++ appended arr actions) := by
  obtain ⟨body, hbody⟩ := bodyOf_of_live hlive
  obtain rfl := body_made hnull hkeeps s rfl hbody
  rw [foldl_edit_array] at hbody
  exact arrayHolds_of_body hnull hbody

/-- What is appended stays, after the client let go of it. -/
theorem array_holds_appended :
    ArrayHolds (cfSystem.run (cfSystem.run .new [.createString 0x10 []])
      [.createArray 0x20 [0x10], .arrayAppendValue 0x20 0x0, .arrayAppendValue 0x20 0x10,
        .release 0x10]).heap 0x20 [0x10, 0x0, 0x10] := by
  refine array_holds (cfSystem.run .new [.createString 0x10 []]) (by decide) [0x10] ?_ ?_
  · intro a ha new hnew
    simp only [List.mem_cons, List.not_mem_nil, or_false] at ha
    rcases ha with rfl | rfl | rfl
    all_goals exact nomatch hnew
  · exact Option.ne_none_iff_exists'.mpr ⟨⟨1, .array [0x10, 0x0, 0x10]⟩, rfl⟩

/-! ### Dictionaries -/

/-- What a call makes of what a dictionary holds. -/
def write (dict : Ref) (contents : Ref → Option Ref) : Action → Ref → Option Ref
  | .dictionarySetValue dict' key value =>
    if dict' = dict then Function.update contents key (some value) else contents
  | .dictionaryRemoveValue dict' key =>
    if dict' = dict then Function.update contents key none else contents
  | _ => contents

/-- The last value of a key that is given more than once. -/
def ofPairs (pairs : List (Ref × Ref)) : Ref → Option Ref :=
  pairs.foldl (fun contents pair => Function.update contents pair.1 (some pair.2)) fun _ => none

/-- Entries and the function they stand for. -/
structure Represents (entries : List (Ref × Ref)) (contents : Ref → Option Ref) : Prop where
  lookup : ∀ key, Objects.get entries key = contents key
  keys : (entries.map Prod.fst).Nodup

theorem get_eq_none {entries : List (Ref × Ref)} {key : Ref} :
    Objects.get entries key = none ↔ key ∉ entries.map Prod.fst := by
  induction entries with
  | nil => exact ⟨fun _ => List.not_mem_nil, fun _ => rfl⟩
  | cons entry rest ih =>
    obtain ⟨k, v⟩ := entry
    rw [List.map_cons, List.mem_cons, Objects.get]
    split_ifs with hk
    · exact ⟨fun h => h.elim, fun h => absurd (Or.inl hk.symm) h⟩
    · rw [ih]
      exact ⟨fun h hmem => hmem.elim (fun heq => hk heq.symm) h, fun h hmem => h (.inr hmem)⟩

theorem keys_insert_subset {entries : List (Ref × Ref)} {key value k : Ref}
    (hmem : k ∈ (insert entries key value).1.map Prod.fst) :
    k = key ∨ k ∈ entries.map Prod.fst := by
  by_contra hno
  obtain ⟨hne, hnot⟩ := not_or.mp hno
  refine get_eq_none.mp ?_ hmem
  rw [get_insert, if_neg (Ne.symm hne)]
  exact get_eq_none.mpr hnot

theorem keys_insert_nodup {entries : List (Ref × Ref)} (h : (entries.map Prod.fst).Nodup)
    (key value : Ref) : ((insert entries key value).1.map Prod.fst).Nodup := by
  induction entries with
  | nil => exact List.nodup_singleton key
  | cons entry rest ih =>
    obtain ⟨k, v⟩ := entry
    obtain ⟨hnot, hrest⟩ := List.nodup_cons.mp h
    unfold Objects.insert
    split_ifs with hk
    · rw [List.map_cons]
      exact List.nodup_cons.mpr ⟨hk ▸ hnot, hrest⟩
    · rw [List.map_cons]
      refine List.nodup_cons.mpr ⟨fun hmem => ?_, ih hrest⟩
      exact (keys_insert_subset hmem).elim hk hnot

theorem get_remove {entries : List (Ref × Ref)} (h : (entries.map Prod.fst).Nodup) (key k : Ref) :
    Objects.get (remove entries key).1 k = if key = k then none else Objects.get entries k := by
  induction entries with
  | nil => split_ifs <;> rfl
  | cons entry rest ih =>
    obtain ⟨held, v⟩ := entry
    obtain ⟨hnot, hrest⟩ := List.nodup_cons.mp h
    unfold remove
    by_cases hk : held = key
    · rw [if_pos hk]
      by_cases hkey : key = k
      · rw [if_pos hkey]
        exact get_eq_none.mpr (hkey ▸ hk ▸ hnot)
      · rw [if_neg hkey, Objects.get, if_neg (hk ▸ hkey)]
    · rw [if_neg hk, Objects.get, Objects.get, ih hrest]
      by_cases hkey : key = k
      · rw [if_neg (hkey ▸ hk), if_pos hkey, if_pos hkey]
      · rw [if_neg hkey, if_neg hkey]

theorem keys_remove_sublist (entries : List (Ref × Ref)) (key : Ref) :
    ((remove entries key).1.map Prod.fst).Sublist (entries.map Prod.fst) := by
  induction entries with
  | nil => exact List.Sublist.refl _
  | cons entry rest ih =>
    unfold remove
    split_ifs with hk
    · exact List.sublist_cons_self _ _
    · exact ih.cons_cons _

section Represents
variable {entries : List (Ref × Ref)} {contents : Ref → Option Ref}

theorem Represents.insert (h : Represents entries contents) (key value : Ref) :
    Represents (insert entries key value).1 (Function.update contents key (some value)) := by
  refine ⟨fun k => ?_, keys_insert_nodup h.keys key value⟩
  rw [get_insert, Function.update_apply, h.lookup]
  by_cases hk : key = k
  · rw [if_pos hk, if_pos hk.symm]
  · rw [if_neg hk, if_neg (Ne.symm hk)]

theorem Represents.remove (h : Represents entries contents) (key : Ref) :
    Represents (remove entries key).1 (Function.update contents key none) := by
  refine ⟨fun k => ?_, h.keys.sublist (keys_remove_sublist entries key)⟩
  rw [get_remove h.keys, Function.update_apply, h.lookup]
  by_cases hk : key = k
  · rw [if_pos hk, if_pos hk.symm]
  · rw [if_neg hk, if_neg (Ne.symm hk)]

theorem Represents.insertAll (h : Represents entries contents) (pairs : List (Ref × Ref)) :
    Represents (pairs.foldl (fun entries pair => (Objects.insert entries pair.1 pair.2).1) entries)
      (pairs.foldl (fun contents pair => Function.update contents pair.1 (some pair.2))
        contents) := by
  induction pairs generalizing entries contents with
  | nil => exact h
  | cons pair rest ih => exact ih (h.insert pair.1 pair.2)

theorem represents_created (pairs : List (Ref × Ref)) :
    Represents (created pairs) (ofPairs pairs) := by
  have hempty : Represents [] fun _ => none := ⟨fun _ => rfl, List.nodup_nil⟩
  exact hempty.insertAll pairs

theorem Represents.edit (h : Represents entries contents) (dict : Ref) (a : Action) :
    ∃ after, Containers.edit dict (.dictionary entries) a = .dictionary after ∧
      Represents after (write dict contents a) := by
  cases a with
  | dictionarySetValue dict' key value =>
    by_cases hdict : dict' = dict
    · refine ⟨(Objects.insert entries key value).1, if_pos hdict, ?_⟩
      rw [write, if_pos hdict]
      exact h.insert key value
    · refine ⟨entries, if_neg hdict, ?_⟩
      rw [write, if_neg hdict]
      exact h
  | dictionaryRemoveValue dict' key =>
    by_cases hdict : dict' = dict
    · refine ⟨(Objects.remove entries key).1, if_pos hdict, ?_⟩
      rw [write, if_pos hdict]
      exact h.remove key
    · refine ⟨entries, if_neg hdict, ?_⟩
      rw [write, if_neg hdict]
      exact h
  | _ => exact ⟨entries, rfl, h⟩

/-- **A run**, on a dictionary. -/
theorem Represents.edits (h : Represents entries contents) (dict : Ref) (actions : List Action) :
    ∃ after, actions.foldl (Containers.edit dict) (.dictionary entries) = .dictionary after ∧
      Represents after (actions.foldl (write dict) contents) := by
  induction actions generalizing entries contents with
  | nil => exact ⟨entries, rfl, h⟩
  | cons a rest ih =>
    obtain ⟨middle, hedit, hmiddle⟩ := h.edit dict a
    obtain ⟨after, hrest, hafter⟩ := ih hmiddle
    exact ⟨after, (congrArg (rest.foldl (Containers.edit dict)) hedit).trans hrest, hafter⟩

end Represents

/-- What is read of a dictionary that holds this function. A value may be null, and then only
`CFDictionaryContainsKey` tells it from a key that is not there. -/
structure DictionaryHolds (h : Heap) (dict : Ref) (contents : Ref → Option Ref) : Prop where
  value : ∀ key, cfDictionaryGetValue h dict key = some ((contents key).getD K_CF_NULL)
  contains : ∀ key, cfDictionaryContainsKey h dict key = some (contents key).isSome
  count : ∃ keys : List Ref, keys.Nodup ∧ (∀ key, key ∈ keys ↔ contents key ≠ none) ∧
    cfDictionaryGetCount h dict = some (BitVec.ofNat 64 keys.length)

theorem dictionaryHolds_of_body {h : Heap} {dict : Ref} {entries : List (Ref × Ref)}
    {contents : Ref → Option Ref} (hnull : dict ≠ K_CF_NULL)
    (hbody : bodyOf h dict = some (.dictionary entries)) (hrep : Represents entries contents) :
    DictionaryHolds h dict contents := by
  have hentries : dictionaryEntries h dict = some entries := by rw [dictionaryEntries, hbody]
  constructor
  · intro key
    rw [cfDictionaryGetValue, if_neg hnull, hentries, Option.map_some, hrep.lookup]
  · intro key
    rw [cfDictionaryContainsKey, if_neg hnull, hentries, Option.map_some, hrep.lookup]
  · refine ⟨entries.map Prod.fst, hrep.keys, fun key => ?_, ?_⟩
    · rw [← hrep.lookup, Ne, get_eq_none, not_not]
    · rw [cfDictionaryGetCount, if_neg hnull, hentries, Option.map_some, List.length_map]

/-- **A dictionary is a function.** It holds what the pairs it was created with and the calls on it
since make of the empty one, whatever else is called, as long as it is not freed. -/
theorem dictionary_holds (s : State) {dict : Ref} (hnull : dict ≠ K_CF_NULL)
    (pairs : List (Ref × Ref)) {actions : List Action} (hkeeps : Keeps dict actions)
    (hlive : Live (cfSystem.run s (.createDictionary dict pairs :: actions)).heap dict) :
    DictionaryHolds (cfSystem.run s (.createDictionary dict pairs :: actions)).heap dict
      (actions.foldl (write dict) (ofPairs pairs)) := by
  obtain ⟨body, hbody⟩ := bodyOf_of_live hlive
  obtain rfl := body_made hnull hkeeps s rfl hbody
  obtain ⟨after, hafter, hrep⟩ := (represents_created pairs).edits dict actions
  rw [hafter] at hbody
  exact dictionaryHolds_of_body hnull hbody hrep

/-- A key is given two values, is removed and is given one again, and the value that is released
meanwhile is freed. -/
theorem dictionary_holds_rewritten :
    DictionaryHolds (cfSystem.run .new
      [.createDictionary 0x20 [(0x1, 0x0), (0x1, 0x0)], .createString 0x10 [],
        .dictionarySetValue 0x20 0x1 0x10, .release 0x10, .dictionaryRemoveValue 0x20 0x1,
        .dictionarySetValue 0x20 0x1 0x0]).heap 0x20
      (Function.update (Function.update (Function.update
        (Function.update (Function.update (fun _ => none) 0x1 (some 0x0)) 0x1 (some 0x0))
        0x1 (some 0x10)) 0x1 none) 0x1 (some 0x0)) := by
  refine dictionary_holds .new (by decide) _ ?_ ?_
  · intro a ha new hnew
    simp only [List.mem_cons, List.not_mem_nil, or_false] at ha
    rcases ha with rfl | rfl | rfl | rfl | rfl
    · cases hnew
      decide
    all_goals exact nomatch hnew
  · exact Option.ne_none_iff_exists'.mpr ⟨⟨1, .dictionary [(0x1, 0x0)]⟩, rfl⟩

end Grafted.Cf.Containers
