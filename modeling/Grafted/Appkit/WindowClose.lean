import Grafted.Appkit.WindowIsolation

/-! Windows that are gone.

A window that was closed is never shown, painted or named by an event again, as long as its object
is not initialized anew (`close_final`). -/
namespace Grafted.Appkit.Window
open ByteMemory Cg.Context Transition Transition.System
open Ws.Windows (WindowID XEvent DisplayEvent DisplayState Tracked pollEvents_live)

section Holding
variable {F : Type}

/-! ### No call brings it back -/

theorem findWindow_none_onDisplay {s : App F} {action : Ws.Windows.Action} {id : WindowID}
    (hcreate : action.isCreate = false) (h : s.findWindow id = none) :
    (s.onDisplay action).findWindow id = none := by
  cases hds : s.display with
  | none =>
    cases action with
    | initDisplay display => rw [findWindow_initDisplay, h]
    | createWindow xwin => cases hcreate
    | _ =>
      simp only [App.findWindow, App.onDisplay, hds]
      rfl
  | some ds =>
    have hnone : ds.windows id = none := by
      simp only [App.findWindow, hds] at h
      exact h
    have hvisible (visible : Bool) : (ds.setVisible id visible).1.windows id = none := by
      simp only [DisplayState.setVisible, hnone]
    have hdestroy : (ds.destroyWindow id).1.windows id = none := by
      simp only [DisplayState.destroyWindow, hnone]
    cases action with
    | initDisplay display => rw [findWindow_initDisplay, h]
    | createWindow xwin => cases hcreate
    | showWindow id' =>
      by_cases hid : id = id'
      · rw [findWindow_onDisplay hds, ← hid]
        exact hvisible true
      · rw [findWindow_other s (.inl rfl) hid, h]
    | hideWindow id' =>
      by_cases hid : id = id'
      · rw [findWindow_onDisplay hds, ← hid]
        exact hvisible false
      · rw [findWindow_other s (.inr (.inl rfl)) hid, h]
    | destroyWindow id' =>
      by_cases hid : id = id'
      · rw [findWindow_onDisplay hds, ← hid]
        exact hdestroy
      · rw [findWindow_other s (.inr (.inr rfl)) hid, h]
    | pollEvents pending =>
      rw [findWindow_onDisplay hds]
      exact hnone

/-- A window that is gone comes back under no call. -/
theorem findWindow_none_step [Zero F] (image : CGContextRef → Bool) {n : Nat} {s : App F}
    (h : Owned n s) {call : Call F} {id : WindowID} (hid : call.makes → id ≠ BitVec.ofNat 32 n)
    (hnone : s.findWindow id = none) : (step image s call).findWindow id = none := by
  cases call with
  | sharedApplication obj display =>
    show (nsApplicationShared s obj display).findWindow id = none
    unfold nsApplicationShared
    split_ifs
    · exact hnone
    · exact findWindow_none_onDisplay (s := {s with sharedApp := obj}) rfl hnone
  | initWithContentRect self_ rect mask xwin ctx =>
    exact (findWindow_createWindow h xwin (hid rfl)).trans hnone
  | setTitle self_ title => exact ((sameWindows_setTitle s self_ title).findWindow id).trans hnone
  | display self_ =>
    show (nsWindowDisplay image s self_).findWindow id = none
    unfold nsWindowDisplay
    dsimp only
    split_ifs
    · exact hnone
    · exact ((sameWindows_flushWindow image s _ _).findWindow id).trans hnone
  | graftedSwiftuiCreateWindow display xwin ctx =>
    have hopen : Owned n (s.onDisplay (.initDisplay display)) := h.onDisplay _ rfl
    have hkept := (findWindow_createWindow hopen xwin (hid rfl)).trans
      ((findWindow_initDisplay s display id).trans hnone)
    show (graftedSwiftuiCreateWindow image s display xwin ctx).findWindow id = none
    cases hds : (s.onDisplay (.initDisplay display)).display with
    | none =>
      obtain ⟨hsame, -, -⟩ := sameWindows_graftedSwiftuiCreateWindow image hds xwin ctx
      exact (hsame.findWindow id).trans hnone
    | some ds =>
      have hmade : ((s.onDisplay (.initDisplay display)).createWindow xwin).2 =
          some (BitVec.ofNat 32 n) := by
        rw [← (hopen.next hds).2]
        simp only [App.createWindow, hds]
        rfl
      rw [graftedSwiftuiCreateWindow_some image rfl hmade ctx,
        findWindow_showMain image _ ctx (hid rfl)]
      exact hkept
  | handleEvents pending => exact ((sameWindows_foldl image s _).findWindow id).trans hnone
  | makeKeyAndOrderFront self_ => exact findWindow_none_onDisplay rfl hnone
  | orderOut self_ => exact findWindow_none_onDisplay rfl hnone
  | close self_ => exact findWindow_none_onDisplay rfl hnone
  | _ => exact hnone

/-- An object holds what it held until it is allocated or initialized. -/
theorem held_step [Zero F] (image : CGContextRef → Bool) {n : Nat} {s : App F} (h : Owned n s)
    (hn : n ≤ 2 ^ 32) {call : Call F} (hmakes : call.makes → n < 2 ^ 32) {o : Id}
    (hrenews : call.holder = some (some o) → call.renews = false) :
    (step image s call).held (some o) = s.held (some o) := by
  by_cases hholder : call.holder = some (some o)
  · have hkept := hrenews hholder
    cases call with
    | alloc self_ => cases hkept
    | initWithContentRect self_ rect mask xwin ctx => cases hkept
    | setTitle self_ title => exact (sameWindows_setTitle s self_ title).held _
    | display self_ =>
      show (nsWindowDisplay image s self_).held (some o) = _
      unfold nsWindowDisplay
      dsimp only
      split_ifs
      · rfl
      · exact (sameWindows_flushWindow image s _ _).held _
    | setContentView self_ view =>
      have hdata : NSWindowData.windowId {s.objects self_ with contentView := view} =
          (s.objects self_).windowId := rfl
      exact (sameWindows_withObject s self_ _ hdata).held _
    | graftedSwiftuiCreateWindow display xwin ctx => cases hholder
    | sharedApplication obj display => cases hholder
    | terminate => cases hholder
    | handleEvents pending => cases hholder
    | _ => rfl
  · exact ((isolated_step image h hn hmakes).windows _ hholder).1

/-- What is gone stays so along a run, and who held it holds its id. -/
theorem gone_run [Zero F] (image : CGContextRef → Bool) {n k : Nat} {s : App F} (h : Owned n s)
    {o : Id} (hid : s.held (some o) = BitVec.ofNat 32 k) (hk : k < n)
    (hnone : s.windowOf (some o) = none) {calls : List (Call F)}
    (hcount : n + calls.countP Call.makes ≤ 2 ^ 32) (hfresh : (app image).Along Fresh s calls)
    (hcalls : ∀ call ∈ calls, call.holder = some (some o) → call.renews = false) :
    ((app image).run s calls).held (some o) = s.held (some o) ∧
      ((app image).run s calls).windowOf (some o) = none := by
  induction calls generalizing n s with
  | nil => exact ⟨rfl, hnone⟩
  | cons call rest ih =>
    obtain ⟨hfirst, hrest⟩ := along_cons.mp hfresh
    rw [List.countP_cons] at hcount
    have hn (hmakes : call.makes) : n < 2 ^ 32 := by
      rw [if_pos hmakes] at hcount
      omega
    obtain ⟨n', hle, hle', hnext⟩ := owned_step image h hn fun xwin => hfirst xwin
    have hheld := held_step image h (by omega) hn (o := o) (hcalls call List.mem_cons_self)
    have hne (hmakes : call.makes) : s.held (some o) ≠ BitVec.ofNat 32 n := by
      intro heq
      have := hn hmakes
      have := ofNat_inj (by omega) this (hid.symm.trans heq)
      omega
    have hgone : (step image s call).windowOf (some o) = none := by
      unfold App.windowOf
      rw [hheld]
      exact findWindow_none_step image h hne hnone
    have hlater := ih hnext (hheld.trans hid) (by omega) hgone (by omega) hrest fun call' hmem =>
      hcalls call' (List.mem_cons_of_mem _ hmem)
    exact ⟨hlater.1.trans hheld, hlater.2⟩

/-! ### A call on an object whose window is gone -/

/-- A call of the display on a window that is not there. -/
theorem onDisplay_none {s : App F} {action : Ws.Windows.Action} {id : WindowID}
    (haction : action = .showWindow id ∨ action = .hideWindow id ∨ action = .destroyWindow id)
    (h : s.findWindow id = none) : s.onDisplay action = s := by
  obtain ⟨display, objects, put, running, terminated, sharedApp, mainWindowId, mainWindowCtx⟩ := s
  cases display with
  | none => obtain rfl | rfl | rfl := haction <;> rfl
  | some ds =>
    have hnone : ds.windows id = none := h
    have hvisible (visible : Bool) : (ds.setVisible id visible).1 = ds := by
      simp only [DisplayState.setVisible, hnone]
    have hdestroy : (ds.destroyWindow id).1 = ds := by
      simp only [DisplayState.destroyWindow, hnone]
    unfold App.onDisplay
    obtain rfl | rfl | rfl := haction
    · show App.mk (some (ds.setVisible id true).1) .. = _
      rw [hvisible]
    · show App.mk (some (ds.setVisible id false).1) .. = _
      rw [hvisible]
    · show App.mk (some (ds.destroyWindow id).1) .. = _
      rw [hdestroy]

theorem findWindow_close (s : App F) (o : Id) :
    (nsWindowClose s o).windowOf (some o) = none := by
  unfold nsWindowClose
  show App.findWindow _ (s.objects o).windowId = none
  cases hds : s.display with
  | none =>
    simp only [App.findWindow, App.onDisplay, hds]
    rfl
  | some ds =>
    rw [findWindow_onDisplay hds]
    show (ds.destroyWindow (s.objects o).windowId).1.windows _ = none
    unfold DisplayState.destroyWindow
    cases hwin : ds.windows (s.objects o).windowId with
    | none => exact hwin
    | some win => exact Function.update_self ..

/-- A call on an object whose window is gone. -/
theorem step_gone [Zero F] (image : CGContextRef → Bool) {s : App F} {o : Id}
    (hfind : s.findWindow (s.objects o).windowId = none) (call : Call F)
    (hholder : call.holder = some (some o)) (hrenews : call.renews = false) :
    (step image s call).display = s.display ∧ (step image s call).put = s.put := by
  cases call with
  | alloc self_ => cases hrenews
  | initWithContentRect self_ rect mask xwin ctx => cases hrenews
  | setTitle self_ title =>
    cases title <;> exact ⟨rfl, rfl⟩
  | display self_ =>
    obtain rfl : self_ = o := Option.some.inj (Option.some.inj hholder)
    have hstep : step image s (.display self_) = s := by
      show nsWindowDisplay image s self_ = s
      unfold nsWindowDisplay flushWindow
      simp only [hfind, ite_self]
    rw [hstep]
    exact ⟨rfl, rfl⟩
  | makeKeyAndOrderFront self_ =>
    obtain rfl : self_ = o := Option.some.inj (Option.some.inj hholder)
    have hstep : step image s (.makeKeyAndOrderFront self_) = s := onDisplay_none (.inl rfl) hfind
    rw [hstep]
    exact ⟨rfl, rfl⟩
  | orderOut self_ =>
    obtain rfl : self_ = o := Option.some.inj (Option.some.inj hholder)
    have hstep : step image s (.orderOut self_) = s := onDisplay_none (.inr (.inl rfl)) hfind
    rw [hstep]
    exact ⟨rfl, rfl⟩
  | close self_ =>
    obtain rfl : self_ = o := Option.some.inj (Option.some.inj hholder)
    have hstep : step image s (.close self_) = s := onDisplay_none (.inr (.inr rfl)) hfind
    rw [hstep]
    exact ⟨rfl, rfl⟩
  | setContentView self_ view => exact ⟨rfl, rfl⟩
  | graftedSwiftuiCreateWindow display xwin ctx => cases hholder
  | sharedApplication obj display => cases hholder
  | terminate => cases hholder
  | handleEvents pending => cases hholder

/-- No event names a window that is gone. -/
theorem event_ne_gone {s : App F} (htracked : Tracked s.display) {id : WindowID}
    (hgone : s.findWindow id = none) {pending : List XEvent} {event : DisplayEvent}
    (hevent : event ∈ s.pollEvents pending) : event.window ≠ id := by
  intro heq
  cases hds : s.display with
  | none =>
    simp only [App.pollEvents, hds] at hevent
    cases hevent
  | some ds =>
    simp only [App.pollEvents, hds] at hevent
    obtain ⟨xev, -, win, -, hwin, -⟩ := pollEvents_live (htracked ds hds) hevent
    have hnone : ds.windows id = none := by
      simp only [App.findWindow, hds] at hgone
      exact hgone
    rw [heq, hnone] at hwin
    cases hwin

/-- After `close`, and until the object is initialized anew, no call on it changes the display
or paints, whatever is called in between, and no event names its window. -/
theorem close_final [Zero F] (image : CGContextRef → Bool) {before mid : List (Call F)} {o : Id}
    (hcount : (before ++ .close o :: mid).countP Call.makes < 2 ^ 32)
    (hfresh : (app image).Along Fresh launched (before ++ .close o :: mid))
    (hmid : ∀ call ∈ mid, call.holder = some (some o) → call.renews = false) {s : App F}
    (hs : s = (app image).run launched (before ++ .close o :: mid)) :
    (∀ call, call.holder = some (some o) → call.renews = false →
      (step image s call).display = s.display ∧ (step image s call).put = s.put) ∧
    ∀ pending, ∀ event ∈ s.pollEvents pending, event.window ≠ s.held (some o) := by
  obtain ⟨hbefore, hrest⟩ := along_append.mp hfresh
  obtain ⟨-, hlater⟩ := along_cons.mp hrest
  rw [List.countP_append, List.countP_cons] at hcount
  obtain ⟨n, hpos, hle, howned⟩ := owned_run image owned_launched (by omega) hbefore
  rw [run_append] at hs
  generalize (app image).run launched before = opened at hs hlater howned
  have hclosed : Owned n (nsWindowClose opened o) := howned.onDisplay _ rfl
  obtain ⟨k, hk, hid⟩ : ∃ k, k < n ∧
      (nsWindowClose opened o).held (some o) = BitVec.ofNat 32 k := by
    rcases hclosed.given (some o) with hzero | ⟨k, -, hk, hid⟩
    · exact ⟨0, hpos, hzero⟩
    · exact ⟨k, hk, hid⟩
  obtain ⟨-, hgone⟩ :=
    gone_run image hclosed hid hk (findWindow_close opened o) (by omega) hlater hmid
  obtain ⟨n', -, -, hlast⟩ := owned_run image hclosed (by omega) hlater
  have hrun : (app image).run (nsWindowClose opened o) mid = s := hs.symm
  rw [hrun] at hgone hlast
  have hfind : s.findWindow (s.objects o).windowId = none := hgone
  refine ⟨fun call hholder hrenews => step_gone image hfind call hholder hrenews,
    fun pending event hevent => event_ne_gone hlast.tracked hfind hevent⟩

/-- After the first window is closed. -/
def firstClosed : App ℕ :=
  (app fun _ => true).run launched (opened ++ .close 32 :: [.display 48, .terminate])

theorem close_final_opened :
    (∀ call, call.holder = some (some 32) → call.renews = false →
      (step (fun _ => true) firstClosed call).display = firstClosed.display ∧
        (step (fun _ => true) firstClosed call).put = firstClosed.put) ∧
    ∀ pending, ∀ event ∈ firstClosed.pollEvents pending,
      event.window ≠ firstClosed.held (some 32) := by
  refine close_final (fun _ => true) (by decide) (fresh_opened fun _ => true) ?_ rfl
  intro call hmem hholder
  rcases List.mem_cons.mp hmem with rfl | hmem
  · exact absurd hholder (by decide)
  · obtain rfl := List.mem_singleton.mp hmem
    cases hholder

end Holding

end Grafted.Appkit.Window
