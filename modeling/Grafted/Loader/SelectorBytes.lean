import Grafted.Loader.SelectorPage

/-! What holds of the selector bytes over a run.

An offset is fresh while it is on its way to a thread or not yet given. Steps make no offset fresh
(`Inv.fresh_of_step`), and the one of a pointer that is handed out is not (`Inv.handed_stale`), so no
pointer is handed out twice, also not when its thread has ended. -/
namespace Grafted.Loader.SelectorPage
open ByteMemory Transition

/-! ### What is handed out -/

/-- The pointer that becomes the selector of a thread on the step, if one does. -/
def handed (e : Event State Action Answer) : Option Address :=
  match e.action with
  | .step t =>
    match e.before.pc t with
    | some (_, .set ptr) => if e.before.aborted then none else some ptr
    | _ => none
  | _ => none

/-- All of them, in order. -/
def handedOut (events : List (Event State Action Answer)) : List Address := events.filterMap handed

/-- The byte is the thread's: it is its selector, or about to be. -/
def Holds (s : State) (t : Thread) (ptr : Address) : Prop :=
  (ptr ≠ 0 ∧ s.selector t = ptr) ∨ ∃ c, s.pc t = some (c, .store ptr) ∨ s.pc t = some (c, .set ptr)

/-- What a step does to selectors that are set. -/
structure Keeps (e : Event State Action Answer) : Prop where
  /-- A set selector changes only where a thread starts, and where it ends. -/
  changed : ∀ t, e.before.selector t ≠ 0 → e.after.selector t ≠ e.before.selector t →
    e.action = .finish t ∨
      ∃ ptr, e.action = .step t ∧ e.before.pc t = some (.threadStartWrapper, .set ptr)
  /-- `selector_ptr` answers it at once. -/
  answered : ∀ t, e.before.selector t ≠ 0 → e.action = .call t .selectorPtr →
    e.before.pc t = none → e.before.aborted = false →
    e.after = e.before ∧ e.answer = some (.selectorPtr, e.before.selector t)
  /-- What a thread is answered is its selector. -/
  own : ∀ c ptr, e.answer = some (c, ptr) →
    ∃ t, (e.action = .call t c ∨ e.action = .step t) ∧ ptr ≠ 0 ∧ e.after.selector t = ptr

/-! ### Over a run -/

/-- An offset that may still be handed out: on its way, or not yet given. -/
def Fresh (s : State) (k : Nat) : Prop :=
  (∃ t c at', s.pc t = some (c, at') ∧ at'.ticket? = some k) ∨ s.next.toNat ≤ k

section Fresh
variable {s s' : State} {t : Thread} {c : Call} {at' : Pc} {k : Nat}

theorem Inv.holds (h : Inv s) {ptr : Address} (hptr : Holds s t ptr) :
    OnPage s.page s.next.toNat ptr ∧ HasTicket s t (ticket ptr) := by
  have hgood := h.good t
  obtain ⟨hne, rfl⟩ | ⟨c, hat | hat⟩ := hptr
  · exact ⟨hgood.selector hne, .inl ⟨hne, rfl⟩⟩
  · exact ⟨hgood.placed c _ hat, .inr ⟨c, _, hat, rfl⟩⟩
  · exact ⟨hgood.placed c _ hat, .inr ⟨c, _, hat, rfl⟩⟩

/-- The thread goes to a place whose offset was on its way, if it has one. -/
theorem fresh_of_setPc {pc : Option (Call × Pc)} (h : Fresh s' k)
    (hpc : s'.pc = Function.update s.pc t pc) (hnext : s'.next = s.next)
    (hticket : ∀ c at', pc = some (c, at') → at'.ticket? = some k → Fresh s k) : Fresh s k := by
  obtain ⟨u, c, at', hat, hk⟩ | hle := h
  · rw [hpc] at hat
    by_cases hu : u = t
    · subst hu
      rw [Function.update_self] at hat
      exact hticket c at' hat hk
    · rw [Function.update_of_ne hu] at hat
      exact .inl ⟨u, c, at', hat, hk⟩
  · rw [hnext] at hle
    exact .inr hle

/-- To a place without an offset. -/
theorem fresh_of_goto {at'' : Pc} (h : Fresh s' k)
    (hpc : s'.pc = Function.update s.pc t (some (c, at''))) (hnext : s'.next = s.next)
    (hnone : at''.ticket? = none) : Fresh s k := by
  refine fresh_of_setPc h hpc hnext ?_
  rintro c' other heq hk
  cases heq
  rw [hnone] at hk
  cases hk

theorem fresh_of_leave (h : Fresh s' k) (hpc : s'.pc = Function.update s.pc t none)
    (hnext : s'.next = s.next) : Fresh s k := by
  refine fresh_of_setPc h hpc hnext ?_
  rintro c' other heq
  cases heq

theorem Inv.fresh_of_advance (h : Inv s) (mmap : Nat → Option Page) (hat : s.pc t = some (c, at'))
    (hk : Fresh (SelectorPage.advance mmap s t c at').1 k) : Fresh s k := by
  have hplaced := (h.good t).placed c at' hat
  have hstep := advanced mmap s t c at'
  generalize SelectorPage.advance mmap s t c at' = r at hstep hk
  cases hstep with
  | aborted => exact hk
  | found => exact fresh_of_goto hk rfl rfl rfl
  | missing => exact fresh_of_goto hk rfl rfl rfl
  | mapped newPtr => exact fresh_of_goto hk rfl rfl rfl
  | adopted newPtr => exact fresh_of_goto hk rfl rfl rfl
  | beaten newPtr => exact fresh_of_goto hk rfl rfl rfl
  | reloaded => exact fresh_of_goto hk rfl rfl rfl
  | took page =>
    obtain hflying | hle := hk
    · have hmoved : Fresh (s.setPc t (some (c, .check page s.next))) k := .inl hflying
      refine fresh_of_setPc hmoved rfl rfl ?_
      rintro c' other heq hk
      cases heq
      cases hk
      exact .inr (Nat.le_refl _)
    · replace hle : (s.next + 1).toNat ≤ k := hle
      rw [h.next_succ] at hle
      exact .inr (Nat.le_of_succ_le hle)
  | checked page offset hoffset =>
    obtain ⟨⟨hmapped, rfl⟩, hlt⟩ := hplaced
    obtain ⟨-, hticket⟩ := onPage_add hmapped h.aligned hoffset hlt
    refine fresh_of_setPc hk rfl rfl ?_
    rintro c' other heq hk
    cases heq
    cases hk
    exact .inl ⟨t, c, _, hat, congrArg some hticket.symm⟩
  | stored ptr =>
    refine fresh_of_setPc hk rfl rfl ?_
    rintro c' other heq hk
    cases heq
    cases hk
    exact .inl ⟨t, c, _, hat, rfl⟩
  | started ptr _ => exact fresh_of_goto hk rfl rfl rfl
  | selected ptr _ => exact fresh_of_leave hk rfl rfl
  | ready ptr => exact fresh_of_leave hk rfl rfl

/-- No step makes an offset fresh. -/
theorem Inv.fresh_of_step (h : Inv s) (mmap : Nat → Option Page) (a : Action)
    (hk : Fresh ((selectorSystem mmap).step s a).1 k) : Fresh s k := by
  replace hk : Fresh (selectorStep mmap s a).1 k := hk
  have hstep := stepped mmap s a
  generalize selectorStep mmap s a = r at hstep hk
  cases hstep with
  | nothing => exact hk
  | began t c _ _ =>
    cases c with
    | threadStartWrapper => exact fresh_of_goto hk rfl rfl rfl
    | selectorPtr =>
      by_cases hsel : s.selector t ≠ 0
      · rw [SelectorPage.begin, if_pos hsel] at hk
        exact hk
      · rw [SelectorPage.begin, if_neg hsel] at hk
        exact fresh_of_goto hk rfl rfl rfl
  | advanced t c at' _ hat => exact h.fresh_of_advance mmap hat hk
  | finished t _ _ => exact hk

/-- What a step that hands a pointer out is. -/
theorem handed_some {mmap : Nat → Option Page} {a : Action} {ptr : Address}
    (h : handed ((selectorSystem mmap).event s a) = some ptr) :
    ∃ t c, a = .step t ∧ s.pc t = some (c, .set ptr) ∧ s.aborted = false := by
  unfold handed at h
  cases a with
  | call t c => cases h
  | finish t => cases h
  | step t =>
    replace h : (match s.pc t with
      | some (_, .set ptr) => if s.aborted then none else some ptr
      | _ => none) = some ptr := h
    split at h
    · rename_i c ptr' hat
      split_ifs at h with haborted
      cases h
      exact ⟨t, c, rfl, hat, Bool.eq_false_iff.mpr haborted⟩
    · cases h

/-- What was handed out is not handed out again. -/
theorem Inv.handed_stale (h : Inv s) {mmap : Nat → Option Page} {a : Action} {ptr : Address}
    (hptr : handed ((selectorSystem mmap).event s a) = some ptr) :
    ¬ Fresh ((selectorSystem mmap).step s a).1 (ticket ptr) := by
  obtain ⟨t, c, rfl, hat, haborted⟩ := handed_some hptr
  have hplaced : OnPage s.page s.next.toNat ptr := (h.good t).placed c _ hat
  have hrun : (selectorSystem mmap).step s (.step t) = SelectorPage.advance mmap s t c (.set ptr) := by
    show selectorStep mmap s (.step t) = _
    rw [selectorStep, if_neg (Bool.eq_false_iff.mp haborted)]
    simp only [hat]
  have hmine : HasTicket s t (ticket ptr) := .inr ⟨c, _, hat, rfl⟩
  have hpcs : ∀ {pc : Option (Call × Pc)}, (∀ c at', pc = some (c, at') → at'.ticket? = none) →
      ¬ Fresh ((s.setSelector t ptr).setPc t pc) (ticket ptr) := by
    rintro pc hnone (⟨u, c', at', hu, hk⟩ | hle)
    · by_cases hut : u = t
      · subst hut
        rw [setPc_same] at hu
        rw [hnone c' at' hu] at hk
        cases hk
      · rw [setPc_other _ t pc hut] at hu
        exact hut (h.apart u t _ (.inr ⟨c', at', hu, hk⟩) hmine)
    · exact absurd hplaced.given (Nat.not_lt.mpr hle)
  rw [hrun]
  cases c with
  | threadStartWrapper =>
    refine hpcs ?_
    rintro c' other heq
    cases heq
    rfl
  | selectorPtr =>
    refine hpcs ?_
    rintro c' other heq
    cases heq

theorem Inv.fresh_of_handedOut (h : Inv s) {mmap : Nat → Option Page} {actions : List Action}
    {ptr : Address} (hptr : ptr ∈ handedOut ((selectorSystem mmap).events s actions)) :
    Fresh s (ticket ptr) := by
  induction actions generalizing s with
  | nil => cases hptr
  | cons a rest ih =>
    obtain ⟨e, he, hhanded⟩ := List.mem_filterMap.mp hptr
    obtain rfl | he := List.mem_cons.mp he
    · obtain ⟨t, c, rfl, hat, -⟩ := handed_some hhanded
      exact .inl ⟨t, c, _, hat, rfl⟩
    · have hlater := ih (inv_step mmap s a h) (List.mem_filterMap.mpr ⟨e, he, hhanded⟩)
      exact h.fresh_of_step mmap a hlater

theorem Inv.handedOut_nodup (h : Inv s) (mmap : Nat → Option Page) (actions : List Action) :
    (handedOut ((selectorSystem mmap).events s actions)).Nodup := by
  induction actions generalizing s with
  | nil => exact List.nodup_nil
  | cons a rest ih =>
    have hrest := ih (inv_step mmap s a h)
    cases hhanded : handed ((selectorSystem mmap).event s a) with
    | none =>
      rw [handedOut, System.events, List.filterMap_cons_none hhanded]
      exact hrest
    | some ptr =>
      rw [handedOut, System.events, List.filterMap_cons_some hhanded, List.nodup_cons]
      refine ⟨?_, hrest⟩
      intro hmem
      exact h.handed_stale hhanded ((inv_step mmap s a h).fresh_of_handedOut hmem)

end Fresh

section Keeps
variable {s : State} {t : Thread} {c : Call} {at' : Pc}

/-- The page that is there stays. -/
theorem page_advance (mmap : Nat → Option Page) (hpage : s.page ≠ 0) :
    (SelectorPage.advance mmap s t c at').1.page = s.page := by
  have hstep := advanced mmap s t c at'
  generalize SelectorPage.advance mmap s t c at' = r at hstep
  cases hstep with
  | adopted newPtr hnone => exact absurd hnone hpage
  | _ => rfl

theorem page_step (mmap : Nat → Option Page) (a : Action) (hpage : s.page ≠ 0) :
    ((selectorSystem mmap).step s a).1.page = s.page := by
  show (selectorStep mmap s a).1.page = s.page
  have hstep := stepped mmap s a
  generalize selectorStep mmap s a = r at hstep
  cases hstep with
  | nothing => rfl
  | began t c _ _ =>
    cases c with
    | threadStartWrapper => rfl
    | selectorPtr =>
      unfold SelectorPage.begin
      dsimp only
      split_ifs <;> rfl
  | advanced t c at' _ _ => exact page_advance mmap hpage
  | finished t _ _ => rfl

theorem page_run (mmap : Nat → Option Page) (actions : List Action) (hpage : s.page ≠ 0) :
    ((selectorSystem mmap).run s actions).page = s.page := by
  induction actions generalizing s with
  | nil => rfl
  | cons a rest ih =>
    have hstep := page_step mmap a hpage
    rw [System.run, ih (by rw [hstep]; exact hpage), hstep]

/-- The pointer is in the page. -/
def InPage (page ptr : Address) : Prop := page.toNat ≤ ptr.toNat ∧ ptr.toNat < page.toNat + 4096

theorem OnPage.inPage {page ptr : Address} {next : Nat} (h : OnPage page next ptr)
    (haligned : page.toNat % 4096 = 0) : InPage page ptr := by
  have hsame := h.same
  unfold InPage
  omega

theorem Inv.handedOut_inPage (h : Inv s) (mmap : Nat → Option Page) (actions : List Action) :
    ∀ ptr ∈ handedOut ((selectorSystem mmap).events s actions),
      InPage ((selectorSystem mmap).run s actions).page ptr := by
  induction actions generalizing s with
  | nil =>
    intro ptr hptr
    cases hptr
  | cons a rest ih =>
    intro ptr hptr
    obtain ⟨e, he, hhanded⟩ := List.mem_filterMap.mp hptr
    obtain rfl | he := List.mem_cons.mp he
    · obtain ⟨t, c, rfl, hat, -⟩ := handed_some hhanded
      have honPage : OnPage s.page s.next.toNat ptr := (h.good t).placed c _ hat
      rw [page_run mmap _ honPage.mapped]
      exact honPage.inPage h.aligned
    · exact ih (inv_step mmap s a h) ptr (List.mem_filterMap.mpr ⟨e, he, hhanded⟩)

/-- Only one step of a thread changes a selector that is set. -/
theorem Inv.advance_selector (h : Inv s) (mmap : Nat → Option Page) (hat : s.pc t = some (c, at'))
    {u : Thread} (hsel : s.selector u ≠ 0)
    (hne : (SelectorPage.advance mmap s t c at').1.selector u ≠ s.selector u) :
    u = t ∧ c = .threadStartWrapper ∧ ∃ ptr, at' = .set ptr := by
  have hstep := advanced mmap s t c at'
  generalize SelectorPage.advance mmap s t c at' = r at hstep hne
  cases hstep with
  | started ptr hc =>
    by_cases hut : u = t
    · exact ⟨hut, hc, ptr, rfl⟩
    · exact absurd (setSelector_other s t ptr hut) hne
  | selected ptr hc =>
    by_cases hut : u = t
    · rw [hc] at hat
      rw [hut] at hsel
      exact absurd ((h.good t).unset _ hat) hsel
    · exact absurd (setSelector_other s t ptr hut) hne
  | ready ptr =>
    rw [h.setup_same hat] at hne
    exact absurd rfl hne
  | _ => exact absurd rfl hne

/-- A step that answers ends the call, and the answer is the selector. -/
theorem Inv.advance_answer (h : Inv s) (mmap : Nat → Option Page) (hat : s.pc t = some (c, at'))
    {c' : Call} {ptr : Address} (hanswer : (SelectorPage.advance mmap s t c at').2 = some (c', ptr)) :
    ptr ≠ 0 ∧ (SelectorPage.advance mmap s t c at').1.selector t = ptr := by
  have hplaced := (h.good t).placed c at' hat
  have hstep := advanced mmap s t c at'
  generalize SelectorPage.advance mmap s t c at' = r at hstep hanswer
  cases hstep with
  | selected ptr' _ =>
    cases hanswer
    exact ⟨OnPage.nonnull hplaced h.aligned, setSelector_same s t _⟩
  | ready ptr' =>
    obtain ⟨-, hptr, -⟩ := hplaced
    cases hanswer
    exact ⟨hptr.nonnull h.aligned, setSelector_same s t _⟩
  | _ => cases hanswer

theorem Inv.keeps (h : Inv s) (mmap : Nat → Option Page) (a : Action) :
    Keeps ((selectorSystem mmap).event s a) := by
  refine ⟨?_, ?_, ?_⟩
  · intro t hsel hne
    replace hne : (selectorStep mmap s a).1.selector t ≠ s.selector t := hne
    have hstep := stepped mmap s a
    generalize selectorStep mmap s a = r at hstep hne
    cases hstep with
    | nothing => exact absurd rfl hne
    | began u c _ _ =>
      cases c with
      | threadStartWrapper => exact absurd rfl hne
      | selectorPtr =>
        unfold SelectorPage.begin at hne
        dsimp only at hne
        split_ifs at hne <;> exact absurd rfl hne
    | advanced u c at' _ hat =>
      obtain ⟨rfl, rfl, ptr, rfl⟩ := h.advance_selector mmap hat hsel hne
      exact .inr ⟨ptr, rfl, hat⟩
    | finished u _ _ =>
      by_cases hut : t = u
      · exact .inl (hut ▸ rfl)
      · exact absurd (setSelector_other s u 0 hut) hne
  · intro t hsel haction hidle haborted
    replace haction : a = .call t .selectorPtr := haction
    replace hidle : s.pc t = none := hidle
    replace haborted : s.aborted = false := haborted
    replace hsel : s.selector t ≠ 0 := hsel
    have hrun : selectorStep mmap s a = (s, some (.selectorPtr, s.selector t)) := by
      rw [haction, selectorStep, if_neg (Bool.eq_false_iff.mp haborted)]
      rw [if_pos hidle, SelectorPage.begin, if_pos hsel]
    show (selectorStep mmap s a).1 = s ∧ (selectorStep mmap s a).2 = _
    rw [hrun]
    exact ⟨rfl, rfl⟩
  · intro c ptr hanswer
    replace hanswer : (selectorStep mmap s a).2 = some (c, ptr) := hanswer
    show ∃ t, (a = .call t c ∨ a = .step t) ∧ ptr ≠ 0 ∧ (selectorStep mmap s a).1.selector t = ptr
    have hstep := stepped mmap s a
    generalize selectorStep mmap s a = r at hstep hanswer
    cases hstep with
    | nothing => cases hanswer
    | began t c' _ _ =>
      cases c' with
      | threadStartWrapper => cases hanswer
      | selectorPtr =>
        by_cases hsel : s.selector t ≠ 0
        · rw [SelectorPage.begin, if_pos hsel] at hanswer ⊢
          cases hanswer
          exact ⟨t, .inl rfl, hsel, rfl⟩
        · rw [SelectorPage.begin, if_neg hsel] at hanswer
          cases hanswer
    | advanced t c' at' _ hat =>
      obtain ⟨hne, hsel⟩ := h.advance_answer mmap hat hanswer
      exact ⟨t, .inr rfl, hne, hsel⟩
    | finished t _ _ => cases hanswer

end Keeps

/-- What is so of the selectors after a run. -/
structure Exclusive (mmap : Nat → Option Page) (actions : List Action) : Prop where
  /-- A byte is one thread's. -/
  apart : ∀ t t' ptr, Holds ((selectorSystem mmap).run State.new actions) t ptr →
    Holds ((selectorSystem mmap).run State.new actions) t' ptr → t = t'
  /-- It is handed out once, also when its thread has ended. -/
  once : (handedOut ((selectorSystem mmap).events State.new actions)).Nodup
  /-- They are all in the page that is there now. -/
  onePage : ∀ ptr ∈ handedOut ((selectorSystem mmap).events State.new actions),
    InPage ((selectorSystem mmap).run State.new actions).page ptr
  held : ∀ t ptr, Holds ((selectorSystem mmap).run State.new actions) t ptr →
    InPage ((selectorSystem mmap).run State.new actions).page ptr
  kept : (selectorSystem mmap).Along Keeps State.new actions

/-- **A selector is one thread's**, in any order of the threads' steps, however many of them find that
there is no page, and whatever is mapped for them: no byte is held by two or handed out twice, all of
them are in one page of 4096 bytes, and `selector_ptr` leaves a selector that is set. -/
theorem selectors_exclusive (mmap : Nat → Option Page) (actions : List Action) :
    Exclusive mmap actions := by
  have hrun : Inv ((selectorSystem mmap).run State.new actions) :=
    System.run_invariant (inv_step mmap) inv_new actions
  refine ⟨?_, inv_new.handedOut_nodup mmap actions, inv_new.handedOut_inPage mmap actions, ?_, ?_⟩
  · intro t t' ptr ht ht'
    exact hrun.apart t t' _ (hrun.holds ht).2 (hrun.holds ht').2
  · intro t ptr ht
    exact (hrun.holds ht).1.inPage hrun.aligned
  · exact System.Along.of_invariant (C := fun _ => True) (fun s a h _ => inv_step mmap s a h)
      (fun s a h _ => h.keeps mmap a) inv_new (System.along_of_forall (fun _ _ => trivial) _ actions)

end Grafted.Loader.SelectorPage
