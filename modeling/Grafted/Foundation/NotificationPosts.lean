import Mathlib.Data.List.Nodup
import Grafted.Foundation.Notification

/-! Who a post notifies.

The table is what its history says: the registrations made and not removed since
(`observers_run`). A post dispatches what matched in the table it started with
(`post_delivers`), so a removal stops the posts that start after it and no others
(`removed_not_notified`). -/
namespace Grafted.Foundation.NotificationCenter
open Transition

/-- The action removes the registration. -/
def removes (o : Observer) : Action → Bool
  | .removeObserver observer => o.observer == observer
  | .removeObserverNameObject observer name object =>
    o.observer == observer && ((readCfstring name).isNone || o.name == readCfstring name) &&
      (object == 0 || o.object == object)
  | _ => false

/-- The registrations the actions make, numbered from `n`, that no later one removes. -/
def surviving (n : Nat) : List Action → List Observer
  | [] => []
  | .addObserver observer selector name object :: rest =>
    let o : Observer := ⟨n, observer, selector, readCfstring name, object⟩
    if rest.any (removes o) then surviving (n + 1) rest else o :: surviving (n + 1) rest
  | _ :: rest => surviving n rest

/-- A post of the name and the object notifies the registration. -/
def Covers (name : NamePtr) (object : Ptr) (o : Observer) : Prop :=
  (o.name = none ∨ o.name = readCfstring name) ∧ (o.object = 0 ∨ object = 0 ∨ o.object = object)

instance (name : NamePtr) (object : Ptr) : DecidablePred (Covers name object) := fun _ =>
  inferInstanceAs (Decidable (_ ∧ _))

def pending (c : Center) (post : Nat) : List Match :=
  match c.posts[post]? with
  | some p => p.pending
  | none => []

/-- The matches a step dispatches for the post, at most one, each with whether the
observer responds. -/
def dispatchedFor (post : Nat) (e : CenterEvent) : List (Match × Bool) :=
  match e.action, e.answer with
  | .dispatch i responds, .dispatched m _ => if i = post then [(m, responds)] else []
  | _, _ => []

/-- The callbacks a step invokes for the post. -/
def invokedBy (post : Nat) (e : CenterEvent) : List Message :=
  match e.action, e.answer with
  | .dispatch i _, .dispatched _ (some message) => if i = post then [message] else []
  | _, _ => []

/-- A turn of the post's loop. -/
def isTurn (post : Nat) : Action → Bool
  | .dispatch i _ => i == post
  | _ => false

/-- A dispatch takes the next match of the post, if there is one. -/
theorem dispatch_cases (c : Center) (post : Nat) (responds : Bool) :
    (∃ name m rest, c.posts[post]? = some ⟨name, m :: rest⟩ ∧ dispatch c post responds =
      ({c with posts := c.posts.set post ⟨name, rest⟩},
        .dispatched m (dispatchOne m responds name))) ∨
    (pending c post = [] ∧ dispatch c post responds = (c, .done)) := by
  unfold dispatch pending
  cases hpost : c.posts[post]? with
  | none => exact .inr ⟨rfl, rfl⟩
  | some p =>
    obtain ⟨name, _ | ⟨m, rest⟩⟩ := p
    · exact .inr ⟨rfl, rfl⟩
    · exact .inl ⟨name, m, rest, rfl, rfl⟩

/-! ### The table -/

/-- What one action leaves of the table, and what it adds. -/
theorem observers_step (c : Center) (a : Action) :
    (centerSystem.step c a).1.observers =
      c.observers.filter (fun o => !removes o a) ++ surviving c.registered [a] := by
  cases a with
  | addObserver observer selector name object =>
    show c.observers ++ [_] = c.observers.filter (fun _ => true) ++ [_]
    rw [List.filter_true]
  | removeObserver observer => exact (List.append_nil _).symm
  | removeObserverNameObject observer name object => exact (List.append_nil _).symm
  | post name object =>
    show c.observers = c.observers.filter (fun _ => true) ++ []
    rw [List.filter_true, List.append_nil]
  | dispatch post responds =>
    show (dispatch c post responds).1.observers = c.observers.filter (fun _ => true) ++ []
    rw [List.filter_true, List.append_nil]
    rcases dispatch_cases c post responds with ⟨name, m, rest, -, h⟩ | ⟨-, h⟩ <;> rw [h]

theorem registered_step (c : Center) (a : Action) :
    (centerSystem.step c a).1.registered = c.registered + (surviving c.registered [a]).length := by
  cases a with
  | dispatch post responds =>
    show (dispatch c post responds).1.registered = _
    rcases dispatch_cases c post responds with ⟨name, m, rest, -, h⟩ | ⟨-, h⟩ <;> rw [h] <;> rfl
  | _ => rfl

theorem surviving_cons (n : Nat) (a : Action) (rest : List Action) :
    surviving n (a :: rest) = (surviving n [a]).filter (fun o => !rest.any (removes o)) ++
      surviving (n + (surviving n [a]).length) rest := by
  cases a with
  | addObserver observer selector name object =>
    simp only [surviving, List.any_nil, Bool.false_eq_true, if_false, List.length_singleton]
    cases h : rest.any (removes ⟨n, observer, selector, readCfstring name, object⟩)
    all_goals simp [h]
  | _ => rfl

/-- The table after some actions: the registrations that were there and those made, less
the removed ones. -/
theorem observers_run (c : Center) (actions : List Action) :
    (centerSystem.run c actions).observers =
      c.observers.filter (fun o => !actions.any (removes o)) ++ surviving c.registered actions := by
  induction actions generalizing c with
  | nil =>
    show c.observers = c.observers.filter (fun _ => true) ++ []
    rw [List.filter_true, List.append_nil]
  | cons a rest ih =>
    have hrest := ih (centerSystem.step c a).1
    rw [observers_step, registered_step, List.filter_append, List.filter_filter] at hrest
    rw [surviving_cons, ← List.append_assoc]
    simp only [List.any_cons, Bool.not_or, Bool.and_comm]
    exact hrest

/-- Registrations are in the table in the order they were made, each once. -/
theorem surviving_sorted (n : Nat) (actions : List Action) :
    (∀ o ∈ surviving n actions, n ≤ o.number) ∧
      (surviving n actions).Pairwise fun o o' => o.number < o'.number := by
  induction actions generalizing n with
  | nil => exact ⟨fun _ h => (nomatch h), .nil⟩
  | cons a rest ih =>
    cases a with
    | addObserver observer selector name object =>
      obtain ⟨hlow, hsorted⟩ := ih (n + 1)
      unfold surviving
      dsimp only
      split_ifs
      · exact ⟨fun o ho => Nat.le_of_succ_le (hlow o ho), hsorted⟩
      · refine ⟨?_, List.pairwise_cons.mpr ⟨fun o ho => hlow o ho, hsorted⟩⟩
        intro o ho
        rcases List.mem_cons.mp ho with rfl | ho
        · exact Nat.le_refl _
        · exact Nat.le_of_succ_le (hlow o ho)
    | removeObserver observer => exact ih n
    | removeObserverNameObject observer name object => exact ih n
    | post name object => exact ih n
    | dispatch post responds => exact ih n

/-! ### A post in progress -/

theorem postByName_eq (c : Center) (name : NamePtr) (object : Ptr) :
    c.postByName name object = { c with
      posts := c.posts ++ [⟨name, (c.observers.filter (Covers name object)).map Observer.toMatch⟩] } := by
  have hcovers : ∀ o : Observer, ((o.name.isNone || o.name == readCfstring name) &&
      (o.object == 0 || object == 0 || o.object == object)) = decide (Covers name object o) := by
    intro o
    rw [Bool.eq_iff_iff, decide_eq_true_iff]
    simp [Covers, or_assoc]
  simp only [Center.postByName, hcovers]

/-- What a step dispatches for a post comes off its pending matches. -/
theorem post_step {c : Center} {post : Nat} {name : NamePtr} {found : List Match}
    (h : c.posts[post]? = some ⟨name, found⟩) (a : Action) :
    ∃ rest, (centerSystem.step c a).1.posts[post]? = some ⟨name, rest⟩ ∧
      found = (dispatchedFor post (centerSystem.event c a)).map Prod.fst ++ rest ∧
      invokedBy post (centerSystem.event c a) =
        (dispatchedFor post (centerSystem.event c a)).filterMap
          (fun d => dispatchOne d.1 d.2 name) ∧
      rest = found.drop ([a].countP (isTurn post)) := by
  cases a with
  | addObserver observer selector name object => exact ⟨found, h, rfl, rfl, rfl⟩
  | removeObserver observer => exact ⟨found, h, rfl, rfl, rfl⟩
  | removeObserverNameObject observer name object => exact ⟨found, h, rfl, rfl, rfl⟩
  | post name object =>
    have hlt : post < c.posts.length := (List.getElem?_eq_some_iff.mp h).1
    exact ⟨found, (List.getElem?_append_left hlt).trans h, rfl, rfl, rfl⟩
  | dispatch i responds =>
    have hevent : centerSystem.event c (.dispatch i responds) =
      ⟨c, .dispatch i responds, (dispatch c i responds).2, (dispatch c i responds).1⟩ := rfl
    have hstep : (centerSystem.step c (.dispatch i responds)).1 = (dispatch c i responds).1 := rfl
    rw [hevent, hstep]
    rcases dispatch_cases c i responds with ⟨name', m, rest, hpost, hd⟩ | ⟨hnone, hd⟩
    · rw [hd]
      by_cases hi : i = post
      · subst hi
        rw [h] at hpost
        cases hpost
        refine ⟨rest, List.getElem?_set_self (List.getElem?_eq_some_iff.mp h).1, ?_, ?_, ?_⟩
        · simp [dispatchedFor]
        · simp only [dispatchedFor, if_true, List.filterMap_cons, List.filterMap_nil]
          cases hmessage : dispatchOne m responds name <;> simp [invokedBy]
        · simp [isTurn]
      · refine ⟨found, (List.getElem?_set_ne hi).trans h, ?_, ?_, ?_⟩
        · simp [dispatchedFor, hi]
        · cases hmessage : dispatchOne m responds name' <;> simp [dispatchedFor, invokedBy, hi]
        · simp [isTurn, hi]
    · rw [hd]
      refine ⟨found, h, rfl, rfl, ?_⟩
      by_cases hi : i = post
      · subst hi
        have hfound : found = [] := by simpa only [pending, h] using hnone
        rw [hfound, List.drop_nil]
      · simp [isTurn, hi]

theorem post_run {c : Center} {post : Nat} {name : NamePtr} {found : List Match}
    (h : c.posts[post]? = some ⟨name, found⟩) (actions : List Action) :
    found = ((centerSystem.events c actions).flatMap (dispatchedFor post)).map Prod.fst ++
        pending (centerSystem.run c actions) post ∧
      (centerSystem.events c actions).flatMap (invokedBy post) =
        ((centerSystem.events c actions).flatMap (dispatchedFor post)).filterMap
          (fun d => dispatchOne d.1 d.2 name) ∧
      pending (centerSystem.run c actions) post = found.drop (actions.countP (isTurn post)) := by
  induction actions generalizing c found with
  | nil =>
    refine ⟨?_, rfl, ?_⟩
    · show found = [] ++ pending c post
      simp only [pending, h, List.nil_append]
    · show pending c post = found
      simp only [pending, h]
  | cons a rest ih =>
    obtain ⟨left, hleft, hfound, hinvoked, hdrop⟩ := post_step h a
    obtain ⟨hrest, hmessages, hleftover⟩ := ih hleft
    have hcount : (a :: rest).countP (isTurn post) =
        [a].countP (isTurn post) + rest.countP (isTurn post) := by
      rw [← List.singleton_append, List.countP_append]
    simp only [System.events, System.run, List.flatMap_cons, List.map_append, List.filterMap_append]
    rw [hinvoked, hmessages, List.append_assoc, ← hrest, hcount, ← List.drop_drop, ← hdrop]
    exact ⟨hfound, rfl, hleftover⟩

/-- **A post notifies what matched when it started.** Its matches, dispatched or still
pending, are the registrations made and not removed before it that cover the name and the
object, in the order they were made; a post without an object covers any. Each turn of its
loop dispatches the next one: after as many turns as there are matches, when the loop ends,
none is pending and all were dispatched. A dispatched match invokes its callback if it has
one. -/
theorem post_delivers (before after : List Action) (name : NamePtr) (object : Ptr) :
    let post := (centerSystem.run .new before).posts.length
    let posted := centerSystem.run .new (before ++ [.post name object])
    let found := ((surviving 0 before).filter (Covers name object)).map Observer.toMatch
    (surviving 0 before).Pairwise (fun o o' => o.number < o'.number) ∧
    ((centerSystem.events posted after).flatMap (dispatchedFor post)).map Prod.fst ++
        pending (centerSystem.run posted after) post = found ∧
    ((centerSystem.events posted after).flatMap (dispatchedFor post)).map Prod.fst =
      found.take (after.countP (isTurn post)) ∧
    (found.length ≤ after.countP (isTurn post) →
      pending (centerSystem.run posted after) post = [] ∧
      ((centerSystem.events posted after).flatMap (dispatchedFor post)).map Prod.fst = found) ∧
    (centerSystem.events posted after).flatMap (invokedBy post) =
      ((centerSystem.events posted after).flatMap (dispatchedFor post)).filterMap
        fun d => dispatchOne d.1 d.2 name := by
  dsimp only
  have htable : (centerSystem.run .new before).observers = surviving 0 before :=
    (observers_run .new before).trans (List.nil_append _)
  have hposted : (centerSystem.run .new (before ++ [.post name object])).posts[
      (centerSystem.run .new before).posts.length]? =
      some ⟨name, ((surviving 0 before).filter (Covers name object)).map Observer.toMatch⟩ := by
    rw [System.run_append, ← htable]
    show ((centerSystem.run .new before).postByName name object).posts[_]? = _
    rw [postByName_eq]
    exact List.getElem?_concat_length
  obtain ⟨hfound, hinvoked, hpending⟩ := post_run hposted after
  generalize ((surviving 0 before).filter (Covers name object)).map Observer.toMatch = found
    at hfound hpending ⊢
  generalize (centerSystem.run .new before).posts.length = post at hfound hinvoked hpending ⊢
  have htaken : ((centerSystem.events (centerSystem.run .new (before ++ [.post name object]))
      after).flatMap (dispatchedFor post)).map Prod.fst =
        found.take (after.countP (isTurn post)) := by
    rw [hpending] at hfound
    exact List.append_cancel_right (hfound.symm.trans (List.take_append_drop _ found).symm)
  refine ⟨(surviving_sorted 0 before).2, hfound.symm, htaken, fun hended => ⟨?_, ?_⟩, hinvoked⟩
  · rw [hpending, List.drop_eq_nil_of_le hended]
  · rw [htaken, List.take_of_length_le hended]

/-- A post without an object notifies a registration made for object 5. -/
theorem post_without_object_notifies :
    let before := [.addObserver 1 2 .null 5]
    let posted := centerSystem.run .new (before ++ [.post .null 0])
    ((surviving 0 before).filter fun o =>
      (o.name = none ∨ o.name = readCfstring .null) ∧ (o.object = 0 ∨ o.object = 0)) = [] ∧
    (centerSystem.events posted [.dispatch 0 true]).flatMap (invokedBy 0) = [⟨1, 2, .null⟩] := by
  decide

/-! ### Removals -/

/-- A match pending after a step was pending before it, or is of a registration in the
table and the step starts its post. -/
theorem pending_step {c : Center} {a : Action} {i : Nat} {m : Match}
    (h : m ∈ pending (centerSystem.step c a).1 i) :
    m ∈ pending c i ∨ ∃ o ∈ c.observers, o.number = m.number := by
  cases hpost : c.posts[i]? with
  | some p =>
    obtain ⟨rest, hrest, hfound, -⟩ := post_step hpost a
    simp only [pending, hrest] at h
    simp only [pending, hpost]
    left
    rw [hfound]
    exact List.mem_append_right _ h
  | none =>
    have hsame : (centerSystem.step c a).1.posts = c.posts →
        m ∈ pending c i ∨ ∃ o ∈ c.observers, o.number = m.number := by
      intro hposts
      left
      simpa only [pending, hposts] using h
    cases a with
    | addObserver observer selector name object => exact hsame rfl
    | removeObserver observer => exact hsame rfl
    | removeObserverNameObject observer name object => exact hsame rfl
    | post name object =>
      have hlast : m ∈ pending (c.postByName name object) i := h
      rw [postByName_eq] at hlast
      by_cases hi : i = c.posts.length
      · subst hi
        simp only [pending, List.getElem?_concat_length, List.mem_map] at hlast
        obtain ⟨o, ho, rfl⟩ := hlast
        exact .inr ⟨o, (List.mem_filter.mp ho).1, rfl⟩
      · have hge : c.posts.length ≤ i := List.getElem?_eq_none_iff.mp hpost
        simp only [pending] at hlast
        rw [List.getElem?_eq_none (by simp; omega)] at hlast
        exact nomatch hlast
    | dispatch post responds =>
      have hposts : m ∈ pending (dispatch c post responds).1 i := h
      rcases dispatch_cases c post responds with ⟨name, m', rest, hother, hd⟩ | ⟨-, hd⟩
      · have hne : post ≠ i := fun heq => by
          rw [heq, hpost] at hother
          exact nomatch hother
        rw [hd] at hposts
        simp only [pending, List.getElem?_set_ne hne, hpost] at hposts
        exact nomatch hposts
      · rw [hd] at hposts
        exact .inl hposts

/-- The registration was made, and is neither in the table nor pending in a post from the
`k`th on. -/
structure Gone (number k : Nat) (c : Center) : Prop where
  made : number < c.registered
  table : ∀ o ∈ c.observers, o.number ≠ number
  posts : ∀ i, k ≤ i → ∀ m ∈ pending c i, m.number ≠ number

theorem observer_step {c : Center} {a : Action} {o : Observer}
    (h : o ∈ (centerSystem.step c a).1.observers) (hmade : o.number < c.registered) :
    o ∈ c.observers ∧ removes o a = false := by
  rw [observers_step, List.mem_append] at h
  rcases h with h | h
  · obtain ⟨hmem, hnot⟩ := List.mem_filter.mp h
    exact ⟨hmem, by simpa using hnot⟩
  · exact absurd hmade (Nat.not_lt.mpr ((surviving_sorted c.registered [a]).1 o h))

theorem gone_step {number k : Nat} (c : Center) (a : Action) (h : Gone number k c) :
    Gone number k (centerSystem.step c a).1 := by
  constructor
  · rw [registered_step]
    exact Nat.lt_add_right _ h.made
  · intro o ho heq
    exact h.table o (observer_step ho (heq ▸ h.made)).1 heq
  · intro i hi m hm heq
    rcases pending_step hm with hm | ⟨o, ho, hnumber⟩
    · exact h.posts i hi m hm heq
    · exact h.table o ho (hnumber.trans heq)

/-- What is dispatched was pending. -/
theorem dispatched_pending {c : Center} {post : Nat} {responds : Bool} {m : Match}
    {message : Option Message} (h : (dispatch c post responds).2 = .dispatched m message) :
    m ∈ pending c post := by
  rcases dispatch_cases c post responds with ⟨name, m', rest, hpost, hd⟩ | ⟨-, hd⟩
  · rw [hd] at h
    cases h
    simp only [pending, hpost, List.mem_cons_self]
  · rw [hd] at h
    exact nomatch h

/-- Every registration in the table has a number below the next one. -/
def Numbered (c : Center) : Prop := ∀ o ∈ c.observers, o.number < c.registered

theorem numbered_step (c : Center) (a : Action) (h : Numbered c) :
    Numbered (centerSystem.step c a).1 := by
  intro o ho
  rw [observers_step, List.mem_append] at ho
  rw [registered_step]
  rcases ho with ho | ho
  · exact Nat.lt_add_right _ (h o (List.mem_filter.mp ho).1)
  · cases a with
    | addObserver observer selector name object =>
      rw [List.mem_singleton.mp ho]
      exact Nat.lt_succ_self _
    | _ => exact nomatch ho

theorem numbered_run {c : Center} (h : Numbered c) (actions : List Action) :
    Numbered (centerSystem.run c actions) :=
  System.run_invariant numbered_step h actions

/-- A number is one registration's. -/
theorem surviving_unique {n : Nat} {actions : List Action} {o o' : Observer}
    (h : o ∈ surviving n actions) (h' : o' ∈ surviving n actions) (heq : o.number = o'.number) :
    o = o' := by
  have hsorted := (surviving_sorted n actions).2
  have hnodup : ((surviving n actions).map Observer.number).Nodup :=
    List.pairwise_map.mpr (hsorted.imp Nat.ne_of_lt)
  exact List.inj_on_of_nodup_map hnodup h h' heq

/-- What a removal leaves. -/
theorem gone_after_removal {before : List Action} {removal : Action} {o : Observer}
    (hmade : o ∈ surviving 0 before) (hremoves : removes o removal = true) :
    Gone o.number (centerSystem.run .new before).posts.length
        (centerSystem.step (centerSystem.run .new before) removal).1 ∧
      (centerSystem.step (centerSystem.run .new before) removal).1.posts =
        (centerSystem.run .new before).posts := by
  have hposts : (centerSystem.step (centerSystem.run .new before) removal).1.posts =
      (centerSystem.run .new before).posts := by
    cases removal with
    | removeObserver observer => rfl
    | removeObserverNameObject observer name object => rfl
    | _ => exact absurd hremoves Bool.false_ne_true
  have htable : (centerSystem.run .new before).observers = surviving 0 before :=
    (observers_run .new before).trans (List.nil_append _)
  have hlow : o.number < (centerSystem.run .new before).registered :=
    numbered_run (fun _ h => absurd h List.not_mem_nil) before o (htable ▸ hmade)
  refine ⟨⟨?_, ?_, ?_⟩, hposts⟩
  · rw [registered_step]
    exact Nat.lt_add_right _ hlow
  · intro o' ho' heq
    obtain ⟨hmem, hkept⟩ := observer_step ho' (heq ▸ hlow)
    rw [htable] at hmem
    rw [surviving_unique hmem hmade heq, hremoves] at hkept
    exact nomatch hkept
  · intro i hi m hm
    simp only [pending, hposts, List.getElem?_eq_none hi] at hm
    exact nomatch hm

/-- **A removed registration is in no later post.** Once an action that removes it has
returned, only a post that had started dispatches a match of the registration; the removal
leaves those posts as they are. -/
theorem removed_not_notified (before after : List Action) (removal : Action) (o : Observer)
    (hmade : o ∈ surviving 0 before) (hremoves : removes o removal = true) :
    centerSystem.Along (fun e => ∀ post responds m message, e.action = .dispatch post responds →
        e.answer = .dispatched m message → m.number = o.number →
        post < (centerSystem.run .new before).posts.length)
      (centerSystem.run .new (before ++ [removal])) after ∧
    (centerSystem.run .new (before ++ [removal])).posts = (centerSystem.run .new before).posts := by
  obtain ⟨hgone, hposts⟩ := gone_after_removal hmade hremoves
  rw [System.run_append]
  refine ⟨?_, hposts⟩
  refine System.Along.of_invariant (C := fun _ => True) (fun c a h _ => gone_step c a h) ?_ hgone
    (System.along_of_forall (fun _ _ => trivial) _ _)
  intro c a h _ post responds m message haction hanswer hnumber
  by_contra hlate
  have haction' : a = .dispatch post responds := haction
  subst haction'
  exact h.posts post (Nat.not_lt.mp hlate) m (dispatched_pending hanswer) hnumber

/-- An observer that is removed before the event is posted hears nothing of it. -/
theorem removed_not_notified_before_post :
    let before := [.addObserver 1 2 .null 0]
    let removed := centerSystem.run .new (before ++ [.removeObserver 1])
    centerSystem.Along (fun e => ∀ post responds m message, e.action = .dispatch post responds →
        e.answer = .dispatched m message → m.number = 0 →
        post < (centerSystem.run .new before).posts.length)
      removed [.post .null 0, .dispatch 0 true] :=
  (removed_not_notified [.addObserver 1 2 .null 0] [.post .null 0, .dispatch 0 true]
    (.removeObserver 1) ⟨0, 1, 2, none, 0⟩ (by decide) (by decide)).1

/-- The callback of observer 1 removes observer 3, which the post in progress messages
all the same. -/
theorem removed_notified_by_post_in_progress :
    ∃ before removal after o, o ∈ surviving 0 before ∧ removes o removal = true ∧
      ∃ e ∈ centerSystem.events (centerSystem.run .new (before ++ [removal])) after,
        ∃ m message, e.answer = .dispatched m (some message) ∧ m.number = o.number := by
  refine ⟨[.addObserver 1 2 .null 0, .addObserver 3 4 .null 0, .post .null 0, .dispatch 0 true],
    .removeObserver 3, [.dispatch 0 true], ⟨1, 3, 4, none, 0⟩, by decide, by decide,
    _, .head _, ⟨1, 3, 4⟩, ⟨3, 4, .null⟩, ?_, rfl⟩
  decide

end Grafted.Foundation.NotificationCenter
