import Grafted.Appkit.WindowEffects

/-! Who holds which window.

A display numbers its windows, and as long as no number is given out twice each window has one
holder (`Owned`). Every call keeps that (`owned_step`), and so does every run (`owned_run`). -/
namespace Grafted.Appkit.Window
open ByteMemory PartialMaps Cg.Context Transition Transition.System
open Ws.Windows (WindowID Window Atom DisplayState NumberedState Tracked numbered_step tracked_step
  length_ids_le)

section Holding
variable {F : Type}

/-! ### Holders -/

/-- The `n`th window is the next, and the windows that are held were given out, each to one
holder. -/
structure Owned (n : Nat) (s : App F) : Prop where
  numbered : NumberedState n s.display
  tracked : Tracked s.display
  given : ∀ h, s.held h = 0 ∨ ∃ k, 1 ≤ k ∧ k < n ∧ s.held h = BitVec.ofNat 32 k
  distinct : ∀ h h', s.held h = s.held h' → s.held h ≠ 0 → h = h'

theorem SameWindows.owned {n : Nat} {s s' : App F} (h : SameWindows s s') (hs : Owned n s) :
    Owned n s' := by
  refine ⟨?_, ?_, fun holder => ?_, fun holder holder' => ?_⟩
  · rw [h.display]
    exact hs.numbered
  · rw [h.display]
    exact hs.tracked
  · rw [h.held]
    exact hs.given holder
  · rw [h.held, h.held]
    exact hs.distinct holder holder'

/-- A call of the display that makes no window. -/
theorem Owned.onDisplay {n : Nat} {s : App F} (h : Owned n s) (action : Ws.Windows.Action)
    (hcreate : action.isCreate = false) : Owned n (s.onDisplay action) := by
  have hlength := length_ids_le s.display action
  rw [hcreate] at hlength
  have hnumbered := (numbered_step h.numbered action).1
  rw [Nat.le_zero.mp hlength] at hnumbered
  have hfresh : Ws.Windows.FreshWindow (Ws.Windows.display.event s.display action) := by
    intro ds xwin _ haction
    have heq : action = .createWindow xwin := haction
    rw [heq] at hcreate
    cases hcreate
  refine ⟨hnumbered, ?_, fun holder => ?_, fun holder holder' => ?_⟩
  · refine tracked_step h.tracked h.numbered (fun h' => ?_) hfresh
    rw [hcreate] at h'
    cases h'
  · rw [held_onDisplay]
    exact h.given holder
  · rw [held_onDisplay, held_onDisplay]
    exact h.distinct holder holder'

/-- The id a display gives out next. -/
theorem Owned.next {n : Nat} {s : App F} (h : Owned n s) {ds : DisplayState}
    (hds : s.display = some ds) : 1 ≤ n ∧ ds.nextId = BitVec.ofNat 32 n := by
  have hnumbered := h.numbered
  rw [hds] at hnumbered
  exact ⟨hnumbered.pos, hnumbered.next⟩

theorem ofNat_inj {j k : Nat} (hj : j < 2 ^ 32) (hk : k < 2 ^ 32)
    (h : BitVec.ofNat 32 j = BitVec.ofNat 32 k) : j = k := by
  have hnat := congrArg BitVec.toNat h
  rw [BitVec.toNat_ofNat, BitVec.toNat_ofNat] at hnat
  omega

/-- No one holds the id that is given out next. -/
theorem Owned.held_ne_next {n : Nat} {s : App F} (h : Owned n s) (hpos : 1 ≤ n) (hn : n < 2 ^ 32)
    (holder : Option Id) : s.held holder ≠ BitVec.ofNat 32 n := by
  intro heq
  rcases h.given holder with hzero | ⟨k, hk, hkn, hid⟩
  · have := ofNat_inj (j := 0) (by decide) hn (hzero.symm.trans heq)
    omega
  · have := ofNat_inj (by omega) hn (hid.symm.trans heq)
    omega

/-- What an id that is not given out is of. -/
theorem findWindow_zero {n : Nat} {s : App F} (h : Owned n s) (hn : n ≤ 2 ^ 32) :
    s.findWindow 0 = none := by
  unfold App.findWindow
  cases hds : s.display with
  | none => rfl
  | some ds =>
    have hnumbered := h.numbered
    rw [hds] at hnumbered
    cases hwin : ds.windows 0 with
    | none => exact hwin
    | some win =>
      obtain ⟨k, hpos, hk, hid⟩ := hnumbered.live 0 win hwin
      have := ofNat_inj (j := 0) (by decide) (by omega) hid
      omega

/-- The windows that were there before one is made. -/
theorem findWindow_createWindow {n : Nat} {s : App F} (h : Owned n s) (xwin : Window)
    {id : WindowID} (hid : id ≠ BitVec.ofNat 32 n) :
    (s.createWindow xwin).1.findWindow id = s.findWindow id := by
  cases hds : s.display with
  | none =>
    rw [findWindow_closed hds]
    simp only [App.createWindow, App.findWindow, App.onDisplay, hds]
    rfl
  | some ds =>
    have hfind : s.findWindow id = ds.windows id := by
      simp only [App.findWindow, hds]
      rfl
    have hne : id ≠ ds.nextId := by
      rw [(h.next hds).2]
      exact hid
    rw [hfind]
    exact (findWindow_onDisplay hds (.createWindow xwin) id).trans (insertAt_of_ne _ _ hne)

/-! ### Windows that are made and lost -/

/-- What a call finds before it makes a window: no live window on the X window it is given. -/
def FreshFor (s : App F) (xwin : Window) : Prop :=
  ∀ ds id win, s.display = some ds → ds.windows id = some win → win.x11Window ≠ xwin

/-- A window is made, and one holder takes it. -/
theorem Owned.create {n : Nat} {s s' : App F} {xwin : Window} (h : Owned n s) (hn : n < 2 ^ 32)
    (hfresh : FreshFor s xwin) (holder : Option Id)
    (hdisplay : s'.display = (s.createWindow xwin).1.display)
    (hself : s'.held holder = (s.createWindow xwin).2.getD (s.held holder))
    (hothers : ∀ other, other ≠ holder → s'.held other = s.held other) :
    ∃ n', n ≤ n' ∧ n' ≤ n + 1 ∧ Owned n' s' := by
  cases hds : s.display with
  | none =>
    refine ⟨n, Nat.le_refl n, Nat.le_succ n, ?_⟩
    have hsame : SameWindows s s' := by
      refine ⟨?_, fun other => ?_⟩
      · rw [hdisplay]
        simp only [App.createWindow, App.onDisplay, hds]
        rfl
      · by_cases hother : other = holder
        · rw [hother, hself]
          simp only [App.createWindow, hds]
          rfl
        · exact hothers other hother
    exact hsame.owned h
  | some ds =>
    obtain ⟨hpos, hnext⟩ := h.next hds
    have hid : s'.held holder = BitVec.ofNat 32 n := by
      rw [hself, ← hnext]
      simp only [App.createWindow, hds]
      rfl
    have hne : ∀ other, other ≠ holder → s'.held other ≠ BitVec.ofNat 32 n := by
      intro other hother
      rw [hothers other hother]
      exact h.held_ne_next hpos hn other
    have hstep := (numbered_step h.numbered (.createWindow xwin)).1
    have hmade : Ws.Windows.FreshWindow
        (Ws.Windows.display.event s.display (.createWindow xwin)) := by
      intro ds' xwin' hbefore haction id win hwin
      obtain rfl : xwin = xwin' := Ws.Windows.Action.createWindow.inj haction
      exact hfresh ds' id win hbefore hwin
    have htracked := tracked_step h.tracked h.numbered (fun _ => hn) hmade
    refine ⟨n + 1, Nat.le_succ n, Nat.le_refl _, ?_, ?_, fun other => ?_, fun other other' => ?_⟩
    · rw [hdisplay]
      rw [hds] at hstep
      show NumberedState (n + 1) (Ws.Windows.step s.display (.createWindow xwin)).1
      rw [hds]
      exact hstep
    · rw [hdisplay]
      exact htracked
    · by_cases hother : other = holder
      · rw [hother]
        exact .inr ⟨n, hpos, Nat.lt_succ_self n, hid⟩
      · rw [hothers other hother]
        rcases h.given other with hzero | ⟨k, hk, hkn, heq⟩
        · exact .inl hzero
        · exact .inr ⟨k, hk, Nat.lt_succ_of_lt hkn, heq⟩
    · by_cases hother : other = holder
      · by_cases hother' : other' = holder
        · exact fun _ _ => hother.trans hother'.symm
        · rw [hother, hid]
          exact fun heq => absurd heq.symm (hne other' hother')
      · by_cases hother' : other' = holder
        · rw [hother', hid]
          exact fun heq => absurd heq (hne other hother)
        · rw [hothers other hother, hothers other' hother']
          exact h.distinct other other'

/-- A holder loses its window. -/
theorem Owned.forget {n : Nat} {s s' : App F} (h : Owned n s) (holder : Option Id)
    (hdisplay : s'.display = s.display) (hself : s'.held holder = 0)
    (hothers : ∀ other, other ≠ holder → s'.held other = s.held other) : Owned n s' := by
  refine ⟨?_, ?_, fun other => ?_, fun other other' => ?_⟩
  · rw [hdisplay]
    exact h.numbered
  · rw [hdisplay]
    exact h.tracked
  · by_cases hother : other = holder
    · rw [hother]
      exact .inl hself
    · rw [hothers other hother]
      exact h.given other
  · by_cases hother : other = holder
    · rw [hother, hself]
      exact fun _ hne => absurd rfl hne
    · by_cases hother' : other' = holder
      · rw [hother', hself]
        exact fun heq hne => absurd heq hne
      · rw [hothers other hother, hothers other' hother']
        exact h.distinct other other'

/-! ### A call -/

/-- The X window a call makes is not that of a live window. -/
def Fresh (e : Event (App F) (Call F) Unit) : Prop :=
  ∀ xwin, e.action.xwin = some xwin → FreshFor e.before xwin

/-- A call that makes no window. -/
theorem fresh_of_none {e : Event (App F) (Call F) Unit} (h : e.action.xwin = none) : Fresh e := by
  intro xwin hxwin
  rw [h] at hxwin
  cases hxwin

theorem FreshFor.initDisplay {s : App F} {xwin : Window} (h : FreshFor s xwin)
    (display : Option Atom) : FreshFor (s.onDisplay (.initDisplay display)) xwin := by
  intro ds id win hds hwin
  cases hold : s.display with
  | some old =>
    have heq : some old = some ds := by
      rw [← hds]
      simp only [App.onDisplay, hold]
      rfl
    rw [Option.some.inj heq] at hold
    exact h ds id win hold hwin
  | none =>
    have hopened : (Ws.Windows.step none (.initDisplay display)).1 = some ds := by
      rw [← hds]
      simp only [App.onDisplay, hold]
    cases display with
    | none => cases hopened
    | some wmDelete =>
      obtain rfl := Option.some.inj hopened
      cases hwin

theorem owned_graftedSwiftuiCreateWindow (image : CGContextRef → Bool) {n : Nat} {s : App F}
    (h : Owned n s) (hn : n < 2 ^ 32) (display : Option Atom) {xwin : Window}
    (hfresh : FreshFor s xwin) (ctx : CGContextRef) :
    ∃ n', n ≤ n' ∧ n' ≤ n + 1 ∧ Owned n' (graftedSwiftuiCreateWindow image s display xwin ctx) := by
  have hopen : Owned n (s.onDisplay (.initDisplay display)) := h.onDisplay _ rfl
  have hfresh' := hfresh.initDisplay display
  generalize hs' : s.onDisplay (.initDisplay display) = s' at hopen hfresh'
  have hothers (other : Option Id) (hother : other ≠ none) :
      App.held {(s'.createWindow xwin).1 with
        mainWindowId := (s'.createWindow xwin).2.getD s'.mainWindowId} other = s'.held other := by
    cases other with
    | none => exact absurd rfl hother
    | some o => rfl
  have hcreate : ∃ n', n ≤ n' ∧ n' ≤ n + 1 ∧ Owned n' {(s'.createWindow xwin).1 with
      mainWindowId := (s'.createWindow xwin).2.getD s'.mainWindowId} :=
    hopen.create hn hfresh' none rfl rfl hothers
  obtain ⟨n', hle, hle', hmade⟩ := hcreate
  refine ⟨n', hle, hle', ?_⟩
  unfold graftedSwiftuiCreateWindow
  rw [hs']
  cases hid : (s'.createWindow xwin).2 with
  | none =>
    rw [hid] at hmade
    simp only [hid]
    refine SameWindows.owned ⟨rfl, fun holder => ?_⟩ hmade
    cases holder <;> rfl
  | some wid =>
    rw [hid] at hmade
    simp only [hid]
    generalize (s'.createWindow xwin).1 = made at hmade
    have hmade' : Owned n' {made with mainWindowId := wid} := hmade
    unfold showMain
    split_ifs
    · have hsame : SameWindows {made with mainWindowId := wid}
          {made with mainWindowId := wid, mainWindowCtx := ctx} :=
        ⟨rfl, fun holder => by cases holder <;> rfl⟩
      exact hsame.owned hmade'
    · have hshown := hmade'.onDisplay (.showWindow wid) rfl
      have hflush := sameWindows_flushWindow image (made.onDisplay (.showWindow wid)) wid ctx
      have hsame : SameWindows (App.onDisplay {made with mainWindowId := wid} (.showWindow wid))
          {flushWindow image (made.onDisplay (.showWindow wid)) wid ctx with
            mainWindowId := wid, mainWindowCtx := ctx} := by
        refine ⟨hflush.display, fun holder => ?_⟩
        cases holder with
        | none => rfl
        | some o => exact hflush.held (some o)
      exact hsame.owned hshown

/-- Every call keeps what is held. -/
theorem owned_step [Zero F] (image : CGContextRef → Bool) {n : Nat} {s : App F} (h : Owned n s)
    {call : Call F} (hn : call.makes → n < 2 ^ 32)
    (hfresh : ∀ xwin, call.xwin = some xwin → FreshFor s xwin) :
    ∃ n', n ≤ n' ∧ n' ≤ n + (if call.makes then 1 else 0) ∧ Owned n' (step image s call) := by
  have same {s' : App F} (howned : Owned n s') :
      ∃ n', n ≤ n' ∧ n' ≤ n + 0 ∧ Owned n' s' := ⟨n, Nat.le_refl n, Nat.le_refl n, howned⟩
  cases call with
  | sharedApplication obj display =>
    refine same ?_
    show Owned n (nsApplicationShared s obj display)
    unfold nsApplicationShared
    split_ifs
    · exact h
    · have hset : SameWindows s {s with sharedApp := obj} :=
        ⟨rfl, fun holder => by cases holder <;> rfl⟩
      exact (hset.owned h).onDisplay _ rfl
  | alloc self_ =>
    exact same (h.forget (some self_) rfl (held_withObject_self s self_ _)
      fun other hother => held_withObject_of_ne s _ hother)
  | initWithContentRect self_ rect mask xwin ctx =>
    refine h.create (hn rfl) (hfresh xwin rfl) (some self_) rfl
      (held_withObject_self _ self_ _) fun other hother => ?_
    exact (held_withObject_of_ne _ _ hother).trans (held_onDisplay s _ other)
  | setTitle self_ title => exact same ((sameWindows_setTitle s self_ title).owned h)
  | makeKeyAndOrderFront self_ => exact same (h.onDisplay _ rfl)
  | orderOut self_ => exact same (h.onDisplay _ rfl)
  | close self_ => exact same (h.onDisplay _ rfl)
  | display self_ =>
    refine same ?_
    show Owned n (nsWindowDisplay image s self_)
    unfold nsWindowDisplay
    dsimp only
    split_ifs
    · exact h
    · exact (sameWindows_flushWindow image s _ _).owned h
  | setContentView self_ view =>
    have hsame := sameWindows_withObject s self_ {s.objects self_ with contentView := view} rfl
    exact same (hsame.owned h)
  | terminate =>
    have hset : SameWindows s {s with terminated := true} :=
      ⟨rfl, fun holder => by cases holder <;> rfl⟩
    exact same (hset.owned h)
  | graftedSwiftuiCreateWindow display xwin ctx =>
    exact owned_graftedSwiftuiCreateWindow image h (hn rfl) display (hfresh xwin rfl) ctx
  | handleEvents pending => exact same ((sameWindows_foldl image s _).owned h)

/-! ### Runs -/

theorem owned_launched [Zero F] : Owned 1 (launched : App F) := by
  have hheld (holder : Option Id) : (launched : App F).held holder = 0 := by
    cases holder <;> rfl
  refine ⟨rfl, fun _ h => ?_, fun holder => .inl (hheld holder), fun holder _ _ hne => ?_⟩
  · cases h
  · exact absurd (hheld holder) hne

/-- The first part of a run, and what is held then. -/
theorem owned_run [Zero F] (image : CGContextRef → Bool) {n : Nat} {s : App F} (h : Owned n s)
    {calls : List (Call F)} (hcount : n + calls.countP Call.makes ≤ 2 ^ 32)
    (hfresh : (app image).Along Fresh s calls) :
    ∃ n', n ≤ n' ∧ n' ≤ n + calls.countP Call.makes ∧ Owned n' ((app image).run s calls) := by
  induction calls generalizing n s with
  | nil => exact ⟨n, Nat.le_refl n, Nat.le_refl n, h⟩
  | cons call rest ih =>
    obtain ⟨hfirst, hrest⟩ := along_cons.mp hfresh
    rw [List.countP_cons] at hcount ⊢
    have hn (hmakes : call.makes) : n < 2 ^ 32 := by
      rw [if_pos hmakes] at hcount
      omega
    obtain ⟨n', hle, hle', hnext⟩ := owned_step image h hn fun xwin => hfirst xwin
    obtain ⟨n'', hle'', hend, howned⟩ := ih hnext (by omega) hrest
    exact ⟨n'', by omega, by omega, howned⟩

end Holding

end Grafted.Appkit.Window
