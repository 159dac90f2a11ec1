import Mathlib.Data.Finset.Card
import Grafted.Base.Transition

/-! NSPasteboard: the change count and the poller.

`setString:forType:` writes the clipboard, bumps the count and stores the text for the
poller; the poller reads the clipboard, compares it with what is stored, and bumps the
count if they differ. Only the compare and its store are one step, so a run is any order
of the steps of the threads and of the poller. The count is the calls and the comparisons
that differed (`account_step`), and it is the calls alone exactly when the poller never
compares what was read under an older or a newer text than the stored one
(`counts_calls`). -/
namespace Grafted.Appkit.Pasteboard
open Transition

/-- Where a thread is in `ns_pasteboard_set_string`. -/
inductive SetString where
  | idle
  /-- The clipboard is written. -/
  | written (text : String)
  | bumped (text : String)
  deriving DecidableEq

/-- Where the poll thread is. -/
inductive Poll where
  | sleeping
  | current (content : Option String)
  /-- The comparison differed; the count is not bumped yet. -/
  | changed
  deriving DecidableEq

structure State where
  /-- What `read_clipboard_text` gives. -/
  clipboard : Option String
  lastContent : Option String
  changeCount : Int
  setString : Nat → SetString
  poll : Poll
  /-- The calls made so far, and the comparisons that differed. -/
  calls : Nat
  differed : Nat
  /-- What the last call to return stored, or the content at the start. -/
  stored : Option String

/-- The poller starts with the content of the clipboard stored. -/
def State.new (content : Option String) (count : Int) : State :=
  ⟨content, content, count, fun _ => .idle, .sleeping, 0, 0, content⟩

def State.setThread (s : State) (thread : Nat) (phase : SetString) : State :=
  {s with setString := Function.update s.setString thread phase}

/-- `bump_change_count`. -/
def State.bumpChangeCount (s : State) : State := {s with changeCount := s.changeCount + 1}

inductive Action where
  /-- A thread that is in no call makes one: it writes the clipboard. -/
  | setString (thread : Nat) (text : String)
  /-- The next step of the thread's call. -/
  | resume (thread : Nat)
  /-- The next step of the poller. -/
  | poll
  deriving DecidableEq

/-- The call up to its write. `readBack` is what the host's clipboard tool reads after it
was given a text. -/
def writeClipboardText (readBack : String → Option String) (s : State) (thread : Nat)
    (text : String) : State :=
  match s.setString thread with
  | .idle => {s.setThread thread (.written text) with clipboard := readBack text, calls := s.calls + 1}
  | _ => s

def resume (s : State) (thread : Nat) : State :=
  match s.setString thread with
  | .idle => s
  | .written text => (s.setThread thread (.bumped text)).bumpChangeCount
  | .bumped text => {s.setThread thread .idle with lastContent := some text, stored := some text}

/-- The poll thread, its compare and store under the lock. -/
def pollStep (s : State) : State :=
  match s.poll with
  | .sleeping => {s with poll := .current s.clipboard}
  | .current content =>
    if s.lastContent ≠ content then
      {s with lastContent := content, poll := .changed, differed := s.differed + 1}
    else {s with poll := .sleeping}
  | .changed => {s.bumpChangeCount with poll := .sleeping}

def perform (readBack : String → Option String) (s : State) : Action → State
  | .setString thread text => writeClipboardText readBack s thread text
  | .resume thread => resume s thread
  | .poll => pollStep s

def pasteboardSystem (readBack : String → Option String) : System State Action Unit :=
  ⟨fun s a => (perform readBack s a, ())⟩

/-- The poller compares what it has read only while that is what the last call to return
stored. -/
def Agrees (e : Event State Action Unit) : Prop :=
  e.action = .poll → ∀ content, e.before.poll = .current content → content = e.before.stored

/-- Every call has returned, and the poller sleeps. -/
structure Quiet (s : State) : Prop where
  calls : ∀ thread, s.setString thread = .idle
  poll : s.poll = .sleeping

/-! ### The step -/

/-- What a step is. -/
inductive Stepped (readBack : String → Option String) (s : State) : Action → State → Prop where
  | wrote {thread : Nat} {text : String} : s.setString thread = .idle →
    Stepped readBack s (.setString thread text)
      {s.setThread thread (.written text) with clipboard := readBack text, calls := s.calls + 1}
  | bumped {thread : Nat} {text : String} : s.setString thread = .written text →
    Stepped readBack s (.resume thread) (s.setThread thread (.bumped text)).bumpChangeCount
  | stored {thread : Nat} {text : String} : s.setString thread = .bumped text →
    Stepped readBack s (.resume thread)
      {s.setThread thread .idle with lastContent := some text, stored := some text}
  | read : s.poll = .sleeping → Stepped readBack s .poll {s with poll := .current s.clipboard}
  | differs {content : Option String} : s.poll = .current content → s.lastContent ≠ content →
    Stepped readBack s .poll
      {s with lastContent := content, poll := .changed, differed := s.differed + 1}
  | same : s.poll = .current s.lastContent → Stepped readBack s .poll {s with poll := .sleeping}
  | counted : s.poll = .changed → Stepped readBack s .poll {s.bumpChangeCount with poll := .sleeping}
  | nothing {a : Action} : a ≠ .poll → Stepped readBack s a s

theorem stepped (readBack : String → Option String) (s : State) (a : Action) :
    Stepped readBack s a (perform readBack s a) := by
  cases a with
  | setString thread text =>
    show Stepped readBack s _ (writeClipboardText readBack s thread text)
    unfold writeClipboardText
    cases hphase : s.setString thread with
    | idle => exact .wrote hphase
    | written _ => exact .nothing fun h => nomatch h
    | bumped _ => exact .nothing fun h => nomatch h
  | resume thread =>
    show Stepped readBack s _ (resume s thread)
    unfold resume
    cases hphase : s.setString thread with
    | idle => exact .nothing fun h => nomatch h
    | written text => exact .bumped hphase
    | bumped text => exact .stored hphase
  | poll =>
    show Stepped readBack s _ (pollStep s)
    unfold pollStep
    cases hpoll : s.poll with
    | sleeping => exact .read hpoll
    | current content =>
      by_cases hdiffers : s.lastContent ≠ content
      · simp only [if_pos hdiffers]
        exact .differs hpoll hdiffers
      · simp only [if_neg hdiffers]
        exact .same (by rw [not_not.mp hdiffers, hpoll])
    | changed => exact .counted hpoll

section Threads
variable {s : State} {thread : Nat} {phase : SetString}

@[simp] theorem setThread_same : (s.setThread thread phase).setString thread = phase :=
  Function.update_self ..

@[simp] theorem setThread_other {other : Nat} (h : other ≠ thread) :
    (s.setThread thread phase).setString other = s.setString other := Function.update_of_ne h ..

/-- The threads that have written and not bumped, after one of them moved. -/
theorem waiting_setThread {waiting : Finset Nat}
    (h : ∀ other, other ∈ waiting ↔ ∃ text, s.setString other = .written text) (other : Nat) :
    (∃ text, (s.setThread thread phase).setString other = .written text) ↔
      if other = thread then ∃ text, phase = .written text else other ∈ waiting := by
  by_cases ho : other = thread
  · rw [if_pos ho, ho, setThread_same]
  · rw [if_neg ho, setThread_other ho, h]

end Threads

/-- The count after the steps in progress are done: the calls, and the comparisons that
differed. -/
def Account (count : Int) (s : State) : Prop :=
  ∃ waiting : Finset Nat, (∀ thread, thread ∈ waiting ↔ ∃ text, s.setString thread = .written text) ∧
    s.changeCount + waiting.card + (if s.poll = .changed then 1 else 0) =
      count + s.calls + s.differed

theorem account_step {readBack : String → Option String} {count : Int} (s : State) (a : Action)
    (h : Account count s) : Account count ((pasteboardSystem readBack).step s a).1 := by
  show Account count (perform readBack s a)
  obtain ⟨waiting, hwaiting, hcount⟩ := h
  have hstep := stepped readBack s a
  generalize perform readBack s a = s' at hstep
  cases hstep with
  | @wrote thread text hidle =>
    have hnot : thread ∉ waiting := by
      rw [hwaiting, hidle]
      exact fun ⟨_, h⟩ => nomatch h
    refine ⟨insert thread waiting, fun other => ?_, ?_⟩
    · rw [Finset.mem_insert]
      refine Iff.trans ?_ (waiting_setThread hwaiting other).symm
      by_cases ho : other = thread <;> simp [ho]
    · rw [Finset.card_insert_of_notMem hnot]
      show s.changeCount + ((waiting.card + 1 : Nat) : Int) + (if s.poll = .changed then 1 else 0) =
        count + ((s.calls + 1 : Nat) : Int) + s.differed
      omega
  | @bumped thread text hwritten =>
    have hmem : thread ∈ waiting := (hwaiting thread).mpr ⟨text, hwritten⟩
    refine ⟨waiting.erase thread, fun other => ?_, ?_⟩
    · rw [Finset.mem_erase]
      refine Iff.trans ?_ (waiting_setThread hwaiting other).symm
      by_cases ho : other = thread <;> simp [ho]
    · have hcard := Finset.card_erase_add_one hmem
      show s.changeCount + 1 + ((waiting.erase thread).card : Int) +
        (if s.poll = .changed then 1 else 0) = count + s.calls + s.differed
      omega
  | @stored thread text hbumped =>
    have hnot : thread ∉ waiting := by
      rw [hwaiting, hbumped]
      exact fun ⟨_, h⟩ => nomatch h
    refine ⟨waiting, fun other => ?_, hcount⟩
    refine Iff.trans ?_ (waiting_setThread hwaiting other).symm
    by_cases ho : other = thread
    · simp [ho, hnot]
    · simp [ho]
  | read hsleeping =>
    refine ⟨waiting, hwaiting, ?_⟩
    rw [hsleeping] at hcount
    exact hcount
  | differs hcurrent _ =>
    refine ⟨waiting, hwaiting, ?_⟩
    rw [hcurrent] at hcount
    simp only [reduceCtorEq, if_false, if_true] at hcount ⊢
    omega
  | same hcurrent =>
    refine ⟨waiting, hwaiting, ?_⟩
    rw [hcurrent] at hcount
    exact hcount
  | counted hchanged =>
    refine ⟨waiting, hwaiting, ?_⟩
    rw [hchanged] at hcount
    simp only [reduceCtorEq, if_false, if_true, State.bumpChangeCount] at hcount ⊢
    omega
  | nothing => exact ⟨waiting, hwaiting, hcount⟩

/-! ### The run -/

theorem account_run (readBack : String → Option String) (content : Option String) (count : Int)
    (actions : List Action) : Account count ((pasteboardSystem readBack).run (.new content count) actions) :=
  System.run_invariant account_step ⟨∅, fun _ => by simp [State.new], by simp [State.new]⟩ actions

/-- As long as no comparison has differed, what is stored is what the last call stored. -/
def Undisturbed (s : State) : Prop := s.differed = 0 ∧ s.lastContent = s.stored

theorem undisturbed_step {readBack : String → Option String} (s : State) (a : Action)
    (h : Undisturbed s) (hagrees : Agrees ((pasteboardSystem readBack).event s a)) :
    Undisturbed ((pasteboardSystem readBack).step s a).1 := by
  show Undisturbed (perform readBack s a)
  have hstep := stepped readBack s a
  generalize perform readBack s a = s' at hstep
  cases hstep with
  | differs hcurrent hdiffers =>
    have hcontent := hagrees rfl _ hcurrent
    exact absurd (h.2.trans hcontent.symm) hdiffers
  | stored _ => exact ⟨h.1, rfl⟩
  | _ => exact h

/-- A comparison that differed is not forgotten. -/
theorem differed_pos_step {readBack : String → Option String} (s : State) (a : Action)
    (h : 0 < s.differed) : 0 < ((pasteboardSystem readBack).step s a).1.differed := by
  show 0 < (perform readBack s a).differed
  have hstep := stepped readBack s a
  generalize perform readBack s a = s' at hstep
  cases hstep with
  | differs => exact Nat.succ_pos _
  | _ => exact h

theorem disturbed_or_stored_step {readBack : String → Option String} (s : State) (a : Action)
    (h : 0 < s.differed ∨ s.lastContent = s.stored) :
    0 < ((pasteboardSystem readBack).step s a).1.differed ∨
      ((pasteboardSystem readBack).step s a).1.lastContent =
        ((pasteboardSystem readBack).step s a).1.stored := by
  rcases h with hpos | hstored
  · exact .inl (differed_pos_step s a hpos)
  show 0 < (perform readBack s a).differed ∨ (perform readBack s a).lastContent =
    (perform readBack s a).stored
  have hstep := stepped readBack s a
  generalize perform readBack s a = s' at hstep
  cases hstep with
  | differs => exact .inl (Nat.succ_pos _)
  | stored => exact .inr rfl
  | _ => exact .inr hstored

/-- A step at which the poller does not agree is a comparison that differs, or comes after
one. -/
theorem disturbed_of_not_agrees {readBack : String → Option String} {s : State} {a : Action}
    (h : 0 < s.differed ∨ s.lastContent = s.stored)
    (hbad : ¬ Agrees ((pasteboardSystem readBack).event s a)) :
    0 < ((pasteboardSystem readBack).step s a).1.differed := by
  rcases h with hpos | hstored
  · exact differed_pos_step s a hpos
  obtain ⟨haction, hbad⟩ := Classical.not_imp.mp hbad
  obtain ⟨content, hbad⟩ := Classical.not_forall.mp hbad
  obtain ⟨hcurrent, hne⟩ := Classical.not_imp.mp hbad
  have haction' : a = .poll := haction
  have hpoll : s.poll = .current content := hcurrent
  have hdiffers : s.lastContent ≠ content := fun heq => hne (heq.symm.trans hstored)
  subst haction'
  show 0 < (pollStep s).differed
  simp only [pollStep, hpoll, if_pos hdiffers]
  exact Nat.succ_pos _

/-- **The change count is the number of calls** exactly when the poller compares what it
has read only while that is what the last call to return stored. -/
theorem counts_calls (readBack : String → Option String) (content : Option String) (count : Int)
    (actions : List Action)
    (hquiet : Quiet ((pasteboardSystem readBack).run (.new content count) actions)) :
    ((pasteboardSystem readBack).run (.new content count) actions).changeCount - count =
        ((pasteboardSystem readBack).run (.new content count) actions).calls ↔
      (pasteboardSystem readBack).Along Agrees (.new content count) actions := by
  obtain ⟨waiting, hwaiting, haccount⟩ := account_run readBack content count actions
  have hempty : waiting = ∅ := by
    apply Finset.eq_empty_of_forall_notMem
    intro thread hmem
    obtain ⟨text, hwritten⟩ := (hwaiting thread).mp hmem
    rw [hquiet.calls] at hwritten
    exact nomatch hwritten
  rw [hempty, Finset.card_empty, hquiet.poll, if_neg (by decide)] at haccount
  constructor
  · intro hcount
    by_contra hnot
    obtain ⟨before, a, after, rfl, hbad⟩ := System.exists_of_not_along hnot
    have hstart : 0 < (State.new content count).differed ∨
      (State.new content count).lastContent = (State.new content count).stored := .inr rfl
    have hbefore := System.run_invariant (M := pasteboardSystem readBack)
      disturbed_or_stored_step hstart before
    have hlater : 0 < ((pasteboardSystem readBack).run ((pasteboardSystem readBack).run
        (.new content count) before) (a :: after)).differed :=
      System.run_invariant differed_pos_step (disturbed_of_not_agrees hbefore hbad) after
    rw [System.run_append] at hcount haccount
    omega
  · intro hagrees
    have hundisturbed : Undisturbed ((pasteboardSystem readBack).run (.new content count) actions) :=
      System.Along.run_invariant undisturbed_step ⟨rfl, rfl⟩ hagrees
    have hnone := hundisturbed.1
    omega

/-- A call, and then a poll that finds its text. -/
theorem counts_calls_one_call : (pasteboardSystem some).Along Agrees (.new none 0)
    [.setString 0 "a", .resume 0, .resume 0, .poll, .poll] := by
  refine (counts_calls some none 0 _ ⟨fun thread => ?_, rfl⟩).mp (by decide)
  by_cases hthread : thread = 0
  · subst hthread
    rfl
  · exact (setThread_other hthread).trans
      ((setThread_other hthread).trans (setThread_other hthread))

/-- The poller compares between the write of a call and its store: the one call is counted
twice. -/
theorem one_call_counted_twice :
    ((pasteboardSystem some).run (.new none 0)
      [.setString 0 "a", .poll, .poll, .poll, .resume 0, .resume 0]).changeCount = 2 ∧
    Quiet ((pasteboardSystem some).run (.new none 0)
      [.setString 0 "a", .poll, .poll, .poll, .resume 0, .resume 0]) := by
  refine ⟨by decide, fun thread => ?_, rfl⟩
  by_cases hthread : thread = 0
  · subst hthread
    rfl
  · exact (setThread_other hthread).trans
      ((setThread_other hthread).trans (setThread_other hthread))

end Grafted.Appkit.Pasteboard
