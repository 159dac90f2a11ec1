import Grafted.Appkit.WindowOwners

/-! No two objects are on one window.

Whatever is called, no two objects, and no object and the application, are on one X window, and a
call on one of them leaves the windows of all others as they were (`windows_isolated`). -/
namespace Grafted.Appkit.Window
open ByteMemory PartialMaps Cg.Context Transition Transition.System
open Ws.Windows (WindowID Window Atom ManagedWindow)

section Holding
variable {F : Type}

/-! ### What isolation is -/

/-- A call leaves what others hold, and their windows, and paints its own. -/
structure Isolated (e : Event (App F) (Call F) Unit) : Prop where
  objects : ∀ o, e.action.holder ≠ some (some o) → e.after.objects o = e.before.objects o
  windows : ∀ holder, e.action.holder ≠ some holder →
    e.after.held holder = e.before.held holder ∧ e.after.windowOf holder = e.before.windowOf holder
  put : ∀ holder, e.action.holder = some holder → ∃ new, e.after.put = e.before.put ++ new ∧
    ∀ image ∈ new, ∃ win, e.after.windowOf holder = some win ∧ image.1 = win.x11Window

/-- Two holders are never on one X window. -/
def Separate (s : App F) : Prop :=
  ∀ holder holder' win win', holder ≠ holder' → s.windowOf holder = some win →
    s.windowOf holder' = some win' → win.x11Window ≠ win'.x11Window

theorem Owned.separate {n : Nat} {s : App F} (h : Owned n s) (hn : n ≤ 2 ^ 32) : Separate s := by
  intro holder holder' win win' hne hwin hwin' hx
  cases hds : s.display with
  | none =>
    rw [App.windowOf, findWindow_closed hds] at hwin
    cases hwin
  | some ds =>
    have hinverse := h.tracked ds hds
    have hfind (holder : Option Id) : s.windowOf holder = ds.windows (s.held holder) := by
      simp only [App.windowOf, App.findWindow, hds]
      rfl
    have hof (holder : Option Id) {win : ManagedWindow} (hwin : s.windowOf holder = some win) :
        ds.x11ToId win.x11Window = some (s.held holder) := by
      rw [hfind] at hwin
      refine (hinverse _ _).mp ?_
      show Option.map ManagedWindow.x11Window (ds.windows (s.held holder)) = _
      rw [hwin]
      rfl
    have hsame := hof holder hwin
    rw [hx, hof holder' hwin'] at hsame
    have heq : s.held holder = s.held holder' := (Option.some.inj hsame).symm
    refine hne (h.distinct holder holder' heq fun hzero => ?_)
    rw [App.windowOf, hzero, findWindow_zero h hn] at hwin
    cases hwin

/-- Where only the window one holder has is changed, the others keep theirs. -/
theorem Owned.windowOf_of_ne {n : Nat} {s s' : App F} (h : Owned n s) (h' : Owned n s')
    (hn : n ≤ 2 ^ 32) (holder : Option Id) {other : Option Id}
    (hheld : s'.held other = s.held other)
    (hfind : ∀ id, id ≠ s.held holder → s'.findWindow id = s.findWindow id)
    (hne : other ≠ holder) : s'.windowOf other = s.windowOf other := by
  unfold App.windowOf
  rw [hheld]
  by_cases heq : s.held other = s.held holder
  · by_cases hzero : s.held other = 0
    · rw [hzero, findWindow_zero h hn, findWindow_zero h' hn]
    · exact absurd (h.distinct other holder heq hzero) hne
  · exact hfind _ heq

/-! ### Calls on an object -/

/-- What changes one object, and no window. -/
theorem isolated_withObject (image : CGContextRef → Bool) [Zero F] {s : App F} {call : Call F}
    {self_ : Id} {data : NSWindowData F} (hholder : call.holder = some (some self_))
    (hstep : step image s call = s.withObject self_ data) :
    Isolated ((app image).event s call) := by
  have hother {holder : Option Id} (h : call.holder ≠ some holder) : holder ≠ some self_ := by
    rintro rfl
    exact h hholder
  refine ⟨fun o ho => ?_, fun holder h => ?_, fun holder _ => ⟨[], ?_, fun _ h => nomatch h⟩⟩
  · show (step image s call).objects o = _
    rw [hstep]
    exact objects_withObject_of_ne s data fun heq => hother ho (congrArg some heq)
  · show (step image s call).held holder = _ ∧ (step image s call).windowOf holder = _
    rw [hstep]
    have hheld := held_withObject_of_ne s data (hother h)
    refine ⟨hheld, ?_⟩
    unfold App.windowOf
    rw [hheld]
    rfl
  · show (step image s call).put = _
    rw [hstep]
    exact (List.append_nil _).symm

/-- A call of the display on the window an object holds. -/
theorem isolated_onDisplay (image : CGContextRef → Bool) [Zero F] {n : Nat} {s : App F}
    (h : Owned n s) (hn : n ≤ 2 ^ 32) {call : Call F} {self_ : Id} {action : Ws.Windows.Action}
    (hholder : call.holder = some (some self_)) (hstep : step image s call = s.onDisplay action)
    (haction : action = .showWindow (s.held (some self_)) ∨
      action = .hideWindow (s.held (some self_)) ∨ action = .destroyWindow (s.held (some self_))) :
    Isolated ((app image).event s call) := by
  have hcreate : action.isCreate = false := by
    obtain rfl | rfl | rfl := haction <;> rfl
  refine ⟨fun o _ => ?_, fun holder hne => ?_, fun holder _ => ⟨[], ?_, fun _ h => nomatch h⟩⟩
  · show (step image s call).objects o = _
    rw [hstep]
    rfl
  · show (step image s call).held holder = _ ∧ (step image s call).windowOf holder = _
    rw [hstep]
    refine ⟨held_onDisplay s action holder, ?_⟩
    refine h.windowOf_of_ne (h.onDisplay _ hcreate) hn (some self_)
      (held_onDisplay s action holder) (fun id hid => findWindow_other s haction hid) ?_
    rintro rfl
    exact hne hholder
  · show (step image s call).put = _
    rw [hstep]
    exact (List.append_nil _).symm

/-- What changes nothing about windows or objects. -/
theorem isolated_same (image : CGContextRef → Bool) [Zero F] {s : App F} {call : Call F}
    (hsame : SameWindows s (step image s call))
    (hobjects : (step image s call).objects = s.objects)
    (hput : ∀ holder, call.holder = some holder → ∃ new, (step image s call).put = s.put ++ new ∧
      ∀ p ∈ new, ∃ win, s.windowOf holder = some win ∧ p.1 = win.x11Window) :
    Isolated ((app image).event s call) := by
  refine ⟨fun o _ => congrFun hobjects o, fun holder _ => ⟨hsame.held holder, ?_⟩,
    fun holder hholder => ?_⟩
  · exact hsame.windowOf holder
  · obtain ⟨new, heq, hnew⟩ := hput holder hholder
    refine ⟨new, heq, fun p hp => ?_⟩
    obtain ⟨win, hwin, hx⟩ := hnew p hp
    exact ⟨win, (hsame.windowOf holder).trans hwin, hx⟩

/-- A window of its own for an object. -/
theorem isolated_nsWindowInit (image : CGContextRef → Bool) [Zero F] {n : Nat} {s : App F}
    (h : Owned n s) (hn : n < 2 ^ 32) (self_ : Id) (rect : CGRect F) (mask : BitVec 64)
    (xwin : Window) (ctx : CGContextRef) :
    Isolated ((app image).event s (.initWithContentRect self_ rect mask xwin ctx)) := by
  have hholder : (Call.initWithContentRect self_ rect mask xwin ctx).holder =
      some (some self_) := rfl
  refine ⟨fun o ho => ?_, fun holder hne => ?_, fun holder _ => ⟨[], ?_, fun _ h => nomatch h⟩⟩
  · refine (objects_withObject_of_ne _ _ fun heq => ho ?_).trans rfl
    rw [heq]
    exact hholder
  · have hother : holder ≠ some self_ := by
      rintro rfl
      exact hne hholder
    have hheld : (nsWindowInit s self_ rect mask xwin ctx).held holder = s.held holder :=
      (held_withObject_of_ne _ _ hother).trans (held_onDisplay s _ holder)
    refine ⟨hheld, ?_⟩
    show (nsWindowInit s self_ rect mask xwin ctx).findWindow
      ((nsWindowInit s self_ rect mask xwin ctx).held holder) = _
    rw [hheld]
    cases hds : s.display with
    | none =>
      have hclosed : (nsWindowInit s self_ rect mask xwin ctx).display = none := by
        show (s.createWindow xwin).1.display = none
        simp only [App.createWindow, App.onDisplay, hds]
        rfl
      rw [findWindow_closed hclosed]
      exact (findWindow_closed hds _).symm
    | some ds =>
      exact findWindow_createWindow h xwin (h.held_ne_next (h.next hds).1 hn holder)
  · exact (List.append_nil _).symm

/-! ### Calls of the application -/

/-- A main window is made. The one before it is not touched. -/
theorem isolated_graftedSwiftuiCreateWindow (image : CGContextRef → Bool) [Zero F] {n : Nat}
    {s : App F} (h : Owned n s) (hn : n < 2 ^ 32) (display : Option Atom) (xwin : Window)
    (ctx : CGContextRef) :
    Isolated ((app image).event s (.graftedSwiftuiCreateWindow display xwin ctx)) := by
  cases hds : (s.onDisplay (.initDisplay display)).display with
  | none =>
    obtain ⟨hsame, hobjects, hput⟩ :=
      sameWindows_graftedSwiftuiCreateWindow image hds xwin ctx
    refine isolated_same image hsame hobjects fun _ _ => ⟨[], ?_, fun _ h => nomatch h⟩
    exact hput.trans (List.append_nil _).symm
  | some ds =>
    have hopen : Owned n (s.onDisplay (.initDisplay display)) := h.onDisplay _ rfl
    have hfind := findWindow_initDisplay s display
    have hid : ((s.onDisplay (.initDisplay display)).createWindow xwin).2 =
        some (BitVec.ofNat 32 n) := by
      rw [← (hopen.next hds).2]
      simp only [App.createWindow, hds]
      rfl
    have hobjects : ((s.onDisplay (.initDisplay display)).createWindow xwin).1.objects =
        s.objects := rfl
    have hput : ((s.onDisplay (.initDisplay display)).createWindow xwin).1.put = s.put := rfl
    have hstep : step image s (.graftedSwiftuiCreateWindow display xwin ctx) = _ :=
      graftedSwiftuiCreateWindow_some image rfl hid ctx
    refine ⟨fun o _ => ?_, fun holder hne => ?_, fun holder hholder => ?_⟩
    · show (step image s _).objects o = _
      rw [hstep, objects_showMain, hobjects]
      rfl
    · cases holder with
      | none => exact absurd rfl hne
      | some o =>
        have hsame : (step image s (.graftedSwiftuiCreateWindow display xwin ctx)).held (some o) =
            s.held (some o) := by
          rw [hstep]
          show ((showMain image _ _ ctx).objects o).windowId = _
          rw [objects_showMain, hobjects]
          rfl
        refine ⟨hsame, ?_⟩
        show (step image s _).findWindow ((step image s _).held (some o)) = _
        have hother := h.held_ne_next (hopen.next hds).1 hn (some o)
        rw [hsame, hstep, findWindow_showMain image _ ctx hother,
          findWindow_createWindow hopen xwin hother, hfind]
        rfl
    · obtain rfl : none = holder := Option.some.inj hholder
      show ∃ new, (step image s _).put = s.put ++ new ∧
        ∀ p ∈ new, ∃ win, (step image s _).windowOf none = some win ∧ p.1 = win.x11Window
      rw [hstep, ← hput]
      exact put_showMain image _ _ ctx

theorem isolated_nsApplicationShared (image : CGContextRef → Bool) [Zero F] (s : App F) (obj : Id)
    (display : Option Atom) : Isolated ((app image).event s (.sharedApplication obj display)) := by
  have hcases : nsApplicationShared s obj display = s ∨ nsApplicationShared s obj display =
      App.onDisplay {s with sharedApp := obj} (.initDisplay display) := by
    unfold nsApplicationShared
    split_ifs
    · exact .inl rfl
    · exact .inr rfl
  refine ⟨fun o _ => ?_, fun holder _ => ?_, fun holder heq => nomatch heq⟩
  · show (nsApplicationShared s obj display).objects o = s.objects o
    obtain heq | heq := hcases <;> rw [heq]
    rfl
  · have hheld : (nsApplicationShared s obj display).held holder = s.held holder := by
      obtain heq | heq := hcases <;> rw [heq]
      cases holder <;> rfl
    refine ⟨hheld, ?_⟩
    show (nsApplicationShared s obj display).findWindow
      ((nsApplicationShared s obj display).held holder) = _
    rw [hheld]
    obtain heq | heq := hcases <;> rw [heq]
    · rfl
    · exact findWindow_initDisplay {s with sharedApp := obj} display _

theorem isolated_step (image : CGContextRef → Bool) [Zero F] {n : Nat} {s : App F}
    (h : Owned n s) (hn : n ≤ 2 ^ 32) {call : Call F} (hmakes : call.makes → n < 2 ^ 32) :
    Isolated ((app image).event s call) := by
  cases call with
  | sharedApplication obj display => exact isolated_nsApplicationShared image s obj display
  | alloc self_ => exact isolated_withObject image rfl rfl
  | initWithContentRect self_ rect mask xwin ctx =>
    exact isolated_nsWindowInit image h (hmakes rfl) self_ rect mask xwin ctx
  | setTitle self_ title =>
    cases title with
    | none =>
      exact isolated_same image (.refl s) rfl fun _ _ =>
        ⟨[], (List.append_nil _).symm, fun _ h => nomatch h⟩
    | some bytes => exact isolated_withObject image rfl rfl
  | makeKeyAndOrderFront self_ => exact isolated_onDisplay image h hn rfl rfl (.inl rfl)
  | orderOut self_ => exact isolated_onDisplay image h hn rfl rfl (.inr (.inl rfl))
  | close self_ => exact isolated_onDisplay image h hn rfl rfl (.inr (.inr rfl))
  | display self_ =>
    have hstep : step image s (.display self_) = if (s.objects self_).context = 0 then s
        else flushWindow image s (s.held (some self_)) (s.objects self_).context := rfl
    by_cases hctx : (s.objects self_).context = 0
    · rw [if_pos hctx] at hstep
      refine isolated_same image ?_ ?_ ?_ <;> rw [hstep]
      · exact .refl s
      · exact fun _ _ => ⟨[], (List.append_nil _).symm, fun _ h => nomatch h⟩
    · rw [if_neg hctx] at hstep
      refine isolated_same image ?_ ?_ ?_ <;> rw [hstep]
      · exact sameWindows_flushWindow image s _ _
      · exact objects_flushWindow image s _ _
      · intro holder hholder
        obtain rfl : some self_ = holder := Option.some.inj hholder
        exact put_flushWindow image s _ _
  | setContentView self_ view => exact isolated_withObject image rfl rfl
  | terminate =>
    have hset : SameWindows s {s with terminated := true} :=
      ⟨rfl, fun holder => by cases holder <;> rfl⟩
    exact isolated_same image hset rfl fun holder heq => nomatch heq
  | graftedSwiftuiCreateWindow display xwin ctx =>
    exact isolated_graftedSwiftuiCreateWindow image h (hmakes rfl) display xwin ctx
  | handleEvents pending =>
    refine isolated_same image (sameWindows_foldl image s _) (objects_foldl image s _) ?_
    exact fun holder heq => nomatch heq

/-! ### Runs -/

/-- Whatever is called in whatever order, no two objects, and no object and the application,
are on one X window, and a call on one of them leaves the others' windows as they were and
paints no window but its own. -/
theorem windows_isolated [Zero F] (image : CGContextRef → Bool) {calls : List (Call F)}
    (hcount : calls.countP Call.makes < 2 ^ 32) (hfresh : (app image).Along Fresh launched calls) :
    (app image).Along (fun e => Isolated e ∧ Separate e.after) launched calls := by
  rw [along_iff_split]
  rintro before call after rfl
  obtain ⟨hbefore, hrest⟩ := along_append.mp hfresh
  obtain ⟨hfirst, -⟩ := along_cons.mp hrest
  rw [List.countP_append, List.countP_cons] at hcount
  obtain ⟨n, -, hle, howned⟩ := owned_run image owned_launched (by omega) hbefore
  have hn (hmakes : call.makes) : n < 2 ^ 32 := by
    rw [if_pos hmakes] at hcount
    omega
  refine ⟨isolated_step image howned (by omega) hn, ?_⟩
  obtain ⟨n', -, hle', hafter⟩ := owned_step image howned hn fun xwin => hfirst xwin
  exact hafter.separate (by omega)

/-- Two objects, each with a window. -/
def opened : List (Call ℕ) :=
  [.sharedApplication 16 (some 9), .alloc 32,
    .initWithContentRect 32 ⟨⟨0, 0⟩, ⟨640, 480⟩⟩ 1 5 64, .alloc 48,
    .initWithContentRect 48 ⟨⟨0, 0⟩, ⟨320, 200⟩⟩ 1 6 80, .makeKeyAndOrderFront 48]

/-- The first window is closed, and the second painted. -/
theorem fresh_opened (image : CGContextRef → Bool) :
    (app image).Along Fresh launched (opened ++ [.close 32, .display 48, .terminate]) := by
  simp only [opened, List.cons_append, List.nil_append, along_cons]
  refine ⟨fresh_of_none rfl, fresh_of_none rfl, ?_, fresh_of_none rfl, ?_, fresh_of_none rfl,
    fresh_of_none rfl, fresh_of_none rfl, fresh_of_none rfl, along_nil _ _⟩
  · intro xwin hxwin ds id win hds hwin
    obtain rfl := Option.some.inj hds
    cases hwin
  · intro xwin hxwin ds id win hds hwin
    obtain rfl : 6 = xwin := Option.some.inj hxwin
    obtain rfl := Option.some.inj hds
    rcases insertAt_eq_some.mp hwin with ⟨-, rfl⟩ | ⟨-, hnone⟩
    · show (5 : BitVec 64) ≠ 6
      decide
    · cases hnone

theorem windows_isolated_opened : (app fun _ => true).Along (fun e => Isolated e ∧ Separate e.after)
    launched (opened ++ [.close 32, .display 48, .terminate]) :=
  windows_isolated (fun _ => true) (by decide) (fresh_opened fun _ => true)

end Holding

end Grafted.Appkit.Window
