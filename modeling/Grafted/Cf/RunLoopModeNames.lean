import Grafted.Cf.RunLoopModes
import Grafted.Cf.RunLoopStop

/-! Mode names, in and out.

A mode goes in as a pointer to a name, of which 64 bytes are read, and comes out
as a pointer to one of the names the library itself has. While the callbacks of
an activation run, the mode on top of the stack is the one it was entered with
(`exec_onTop`). So for each of the names that the library tells apart, what comes
out names the mode that went in, and names of no more than 64 bytes are never
taken for each other (`modeNames_kept`). -/
namespace Grafted.Cf.RunLoop
open Traced

variable {T : Type} [CFTime T]

/-! ### Reading a name -/

/-- A name of a mode: not empty, and printable ASCII. -/
structure IsModeName (name : String) : Prop where
  nonempty : name.toList ≠ []
  printable : ∀ c ∈ name.toList, 0x20 ≤ c.toNat ∧ c.toNat ≤ 0x7e

theorem IsModeName.of_check {name : String} (hne : name.toList ≠ [])
    (h : name.toList.all (fun c => 0x20 ≤ c.toNat && c.toNat ≤ 0x7e) = true) : IsModeName name := by
  refine ⟨hne, fun c hc => ?_⟩
  have hprintable := List.all_eq_true.mp h c hc
  rwa [Bool.and_eq_true, decide_eq_true_iff, decide_eq_true_iff] at hprintable

/-- At the pointer are the bytes of the name and a NUL. -/
structure PointsTo (p : Nat → BitVec 8) (name : String) : Prop where
  bytes : ∀ i c, name.toList[i]? = some c → p i = BitVec.ofNat 8 c.toNat
  nul : p name.toList.length = 0

theorem asPtr_pointsTo (name : String) : ∃ p, asPtr name = some p ∧ PointsTo p name := by
  refine ⟨_, rfl, fun i c hc => ?_, ?_⟩
  · show (name.toList[i]?.map _).getD 0 = _
    rw [hc]
    rfl
  · show (name.toList[name.toList.length]?.map _).getD 0 = _
    rw [List.getElem?_eq_none (Nat.le_refl _)]
    rfl

/-- A byte of a printable name is read back as its character. -/
theorem printable_byte {c : Char} (h : 0x20 ≤ c.toNat ∧ c.toNat ≤ 0x7e) :
    let b := BitVec.ofNat 8 c.toNat
    b ≠ 0 ∧ isPrintable b = true ∧ Char.ofNat b.toNat = c := by
  intro b
  have hb : b.toNat = c.toNat := by
    rw [BitVec.toNat_ofNat]
    omega
  refine ⟨fun hzero => ?_, ?_, by rw [hb, Char.ofNat_toNat]⟩
  · rw [hzero] at hb
    have hz : (0 : BitVec 8).toNat = 0 := rfl
    omega
  · unfold isPrintable
    rw [Bool.and_eq_true, decide_eq_true_iff, decide_eq_true_iff, BitVec.le_def, BitVec.le_def, hb]
    exact h

theorem readName_take {p : Nat → BitVec 8} {cs : List Char}
    (hcs : ∀ c ∈ cs, 0x20 ≤ c.toNat ∧ c.toNat ≤ 0x7e) (n room : Nat)
    (hbytes : ∀ i c, cs[i]? = some c → p (n + i) = BitVec.ofNat 8 c.toNat)
    (hnul : p (n + cs.length) = 0) : readName p n room = some (cs.take room) := by
  induction room generalizing cs n with
  | zero => rfl
  | succ room ih =>
    cases cs with
    | nil =>
      have hfirst : p n = 0 := hnul
      rw [readName, if_pos hfirst, List.take_nil]
    | cons c cs =>
      have hfirst : p n = BitVec.ofNat 8 c.toNat := hbytes 0 c rfl
      obtain ⟨hne, hprintable, hchar⟩ := printable_byte (hcs c List.mem_cons_self)
      have hrest := ih (fun d hd => hcs d (List.mem_cons_of_mem c hd)) (n + 1)
        (fun i d hd => by
          have h := hbytes (i + 1) d hd
          rwa [← Nat.add_assoc, Nat.add_right_comm] at h)
        (by
          rw [List.length_cons, ← Nat.add_assoc, Nat.add_right_comm] at hnul
          exact hnul)
      rw [readName, hfirst, if_neg hne, if_pos hprintable, hrest, hchar]
      rfl

/-- Of a name at most 64 bytes count. -/
theorem modeNameFromPtr_take {p : Nat → BitVec 8} {name : String} (h : IsModeName name)
    (hp : PointsTo p name) : modeNameFromPtr (some p) = String.ofList (name.toList.take 64) := by
  have hread : readName p 0 64 = some (name.toList.take 64) :=
    readName_take h.printable 0 64 (fun i c hc => by rw [Nat.zero_add]; exact hp.bytes i c hc)
      (by rw [Nat.zero_add]; exact hp.nul)
  obtain ⟨c, rest, hname⟩ := List.exists_cons_of_ne_nil h.nonempty
  rw [hname, List.take_succ_cons] at hread ⊢
  rw [modeNameFromPtr, hread]

theorem modeNameFromPtr_short {p : Nat → BitVec 8} {name : String} (h : IsModeName name)
    (hp : PointsTo p name) (hlen : name.toList.length ≤ 64) : modeNameFromPtr (some p) = name := by
  rw [modeNameFromPtr_take h hp, List.take_of_length_le hlen, String.ofList_toList]

/-! ### The mode on top -/

/-- A call from a callback finds the mode of the callback's activation on top. -/
def InnermostOnTop (e : Ev T) : Prop :=
  ∀ call a, e.what = .api call → issuer e.frames = some a → e.world.rl.modeStack.head? = some a.mode

/-- Code of activation `i`, started under its mode, leaves the stack as it is, and
every call in it is made under the mode of the activation it is made in. -/
def KeepsTop (i : Option Activation) (w : World T) (t : List (Ev T)) (w' : World T) : Prop :=
  (∀ a, i = some a → w.rl.modeStack.head? = some a.mode) →
    w'.rl.modeStack = w.rl.modeStack ∧ ∀ e ∈ t, InnermostOnTop e

theorem KeepsTop.composes (i : Option Activation) : Composes (KeepsTop (T := T) i) where
  refl w _ := ⟨rfl, fun _ h => (nomatch h)⟩
  trans h h' hw := by
    obtain ⟨hstack, htop⟩ := h hw
    obtain ⟨hstack', htop'⟩ := h' (hstack ▸ hw)
    exact ⟨hstack'.trans hstack, fun e he => (List.mem_append.mp he).elim (htop e) (htop' e)⟩

theorem InnermostOnTop.of_owned {e : Ev T} {a : Activation} (h : e.what.activation = some a) :
    InnermostOnTop e := by
  intro call b hcall
  rw [hcall] at h
  exact nomatch h

theorem KeepsTop.record {a : Activation} (frames : List Frame) {what : What T}
    (h : what.activation = some a) : Keeps (KeepsTop (some a)) (RunLoop.record frames what) := by
  intro w _
  refine ⟨rfl, fun e he => ?_⟩
  cases List.mem_singleton.mp he
  exact InnermostOnTop.of_owned h

theorem KeepsTop.move {i : Option Activation} {f : World T → World T} (h : PhaseMove f) :
    Keeps (KeepsTop i) (modify f) := by
  intro w _
  refine ⟨?_, fun _ he => nomatch he⟩
  cases h <;> rfl

/-- A run of the loop, whatever it is started under. -/
theorem cfRunLoopRunInMode_onTop {frames : List Frame} {callee : List Frame → Invocation → Act T Unit}
    (hcallee : ∀ a inv, Keeps (KeepsTop (some a)) (callee (⟨a, inv⟩ :: frames) inv))
    (mode : CFRunLoopMode) (seconds : T) (returnAfterSource : Bool) (w : World T) :
    let r := cfRunLoopRunInMode frames callee mode seconds returnAfterSource w
    r.state.rl.modeStack = w.rl.modeStack ∧ ∀ e ∈ r.trace, InnermostOnTop e := by
  cases hstopped : w.rl.stopped with
  | true =>
    rw [cfRunLoopRunInMode_refused frames callee mode seconds returnAfterSource hstopped]
    refine ⟨rfl, fun e he => ?_⟩
    rcases List.mem_cons.mp he with rfl | he
    · exact .of_owned rfl
    · cases List.mem_singleton.mp he
      exact .of_owned rfl
  | false =>
    rw [cfRunLoopRunInMode_entered frames callee mode seconds returnAfterSource hstopped,
      enterMode_apply]
    set a : Activation := ⟨w.activations, modeNameFromPtr mode⟩
    obtain ⟨hfire, hphase⟩ := phases_keep (KeepsTop.composes (some a))
      (fun _ h => KeepsTop.record frames h) (fun _ h => KeepsTop.move h) (hcallee a) seconds
      returnAfterSource
    set entered := (w.started mode).pushMode a.mode with hentered
    have htop : ∀ u : World T, u.rl.modeStack = entered.rl.modeStack →
        ∀ b, some a = some b → u.rl.modeStack.head? = some b.mode := by
      rintro u hu b ⟨⟩
      rw [hu]
      rfl
    obtain ⟨hstack₁, hcalls₁⟩ := hfire K_CF_RUNLOOP_ENTRY entered (htop _ rfl)
    set entry := fireObservers frames callee a K_CF_RUNLOOP_ENTRY entered
    obtain ⟨hstack₂, hcalls₂⟩ := hphase entry.state (htop _ hstack₁)
    set middle := sourcePhase frames callee a seconds returnAfterSource entry.state
    obtain ⟨hstack₃, hcalls₃⟩ := hfire K_CF_RUNLOOP_EXIT middle.state (htop _ (hstack₂.trans hstack₁))
    set exit := fireObservers frames callee a K_CF_RUNLOOP_EXIT middle.state
    refine ⟨?_, fun e he => ?_⟩
    · show List.tail exit.state.rl.modeStack = _
      rw [hstack₃, hstack₂, hstack₁]
      rfl
    · rcases List.mem_cons.mp he with rfl | he
      · exact .of_owned rfl
      rcases List.mem_append.mp he with he | he
      · exact hcalls₁ e he
      rcases List.mem_append.mp he with he | he
      · exact hcalls₂ e he
      rcases List.mem_append.mp he with he | he
      · exact hcalls₃ e he
      · cases List.mem_singleton.mp he
        exact .of_owned rfl

theorem exec_onTop (p : Prog T) (frames : List Frame) : Keeps (KeepsTop (issuer frames)) (exec p frames) := by
  refine exec_keeps (R := fun frames => KeepsTop (issuer frames)) (fun frames => KeepsTop.composes _)
    ?_ ?_ p frames
  · intro frames call w hw
    refine ⟨(w.perform_undisturbed call).modeStack, fun e he call' a hcall hissuer => ?_⟩
    cases List.mem_singleton.mp he
    exact hw a hissuer
  · intro frames callee mode seconds returnAfterSource hcallee w _
    exact cfRunLoopRunInMode_onTop hcallee mode seconds returnAfterSource w

/-! ### The name that comes out -/

/-- The modes that `CFRunLoopCopyCurrentMode` tells apart. -/
def reportedModes : List String :=
  [kCFRunLoopDefaultMode, NSEventTrackingRunLoopMode, NSModalPanelRunLoopMode, UITrackingRunLoopMode]

/-- Of an activation entered with the pointer, every callback that asks for the
current mode is given a pointer to a name that is read as `name`. -/
def Reports (T : Type) [CFTime T] (p : Nat → BitVec 8) (name : String) : Prop :=
  ∀ (callee : Invocation → World T → Prog T) (frames : List Frame) (seconds : T)
    (returnAfterSource : Bool) (w : World T),
    let a : Activation := ⟨w.activations, modeNameFromPtr (some p)⟩
    let r := cfRunLoopRunInMode frames (answers callee) (some p) seconds returnAfterSource w
    ∀ e ∈ r.trace, e.what = .api (.copyCurrentMode true) → issuer e.frames = some a →
      ∃ m, (e.world.perform (.copyCurrentMode true)).2 = .modeName (some m) ∧
        modeNameFromPtr (asPtr m) = name

theorem copyCurrentMode_reported {w : World T} {name : String} (hname : name ∈ reportedModes)
    (htop : w.rl.modeStack.head? = some name) : w.cfRunLoopCopyCurrentMode true = some name := by
  unfold World.cfRunLoopCopyCurrentMode
  rw [if_pos rfl, htop]
  simp only [reportedModes, List.mem_cons, List.not_mem_nil, or_false] at hname
  rcases hname with rfl | hname
  · rfl
  · exact if_pos hname

theorem reportedModes_names {name : String} (h : name ∈ reportedModes) :
    IsModeName name ∧ name.toList.length ≤ 64 := by
  simp only [reportedModes, List.mem_cons, List.not_mem_nil, or_false] at h
  rcases h with rfl | rfl | rfl | rfl <;> exact ⟨.of_check (by decide) (by decide), by decide⟩

/-- **Modes in and out.** A pointer to a name denotes the mode of its first 64 bytes,
so two names denote the same mode exactly when they agree in these, and names of
no more than 64 bytes only when they are equal. For each mode that
`CFRunLoopCopyCurrentMode` tells apart, in every activation entered with a pointer
to its name, the pointer that a callback is given denotes that mode. -/
theorem modeNames_kept :
    (∀ p p' name name', IsModeName name → IsModeName name' → PointsTo p name → PointsTo p' name' →
      modeNameFromPtr (some p) = String.ofList (name.toList.take 64) ∧
      (modeNameFromPtr (some p) = modeNameFromPtr (some p') ↔
        name.toList.take 64 = name'.toList.take 64) ∧
      (name.toList.length ≤ 64 → modeNameFromPtr (some p) = name) ∧
      (name.toList.length ≤ 64 → name'.toList.length ≤ 64 → name ≠ name' →
        modeNameFromPtr (some p) ≠ modeNameFromPtr (some p'))) ∧
    ∀ p name, name ∈ reportedModes → PointsTo p name → Reports T p name := by
  refine ⟨fun p p' name name' h h' hp hp' =>
    ⟨modeNameFromPtr_take h hp, ?_, modeNameFromPtr_short h hp, ?_⟩, ?_⟩
  · rw [modeNameFromPtr_take h hp, modeNameFromPtr_take h' hp', String.ofList_inj]
  · intro hlen hlen' hne
    rw [modeNameFromPtr_short h hp hlen, modeNameFromPtr_short h' hp' hlen']
    exact hne
  · intro p name hname hp callee frames seconds returnAfterSource w a r e he hwhat hissuer
    obtain ⟨hmode, hlen⟩ := reportedModes_names hname
    have hcallee : ∀ b inv, Keeps (KeepsTop (some b)) (answers (T := T) callee (⟨b, inv⟩ :: frames) inv) :=
      fun b inv u => exec_onTop (callee inv u) (⟨b, inv⟩ :: frames) u
    have htop : e.world.rl.modeStack.head? = some a.mode :=
      (cfRunLoopRunInMode_onTop hcallee (some p) seconds returnAfterSource w).2 e he _ a hwhat hissuer
    have ha : a.mode = name := modeNameFromPtr_short hmode hp hlen
    obtain ⟨q, hq, hpoints⟩ := asPtr_pointsTo name
    refine ⟨name, ?_, ?_⟩
    · show Answer.modeName (e.world.cfRunLoopCopyCurrentMode true) = _
      rw [copyCurrentMode_reported hname (ha ▸ htop)]
    · rw [hq, modeNameFromPtr_short hmode hpoints hlen]

/-- A run loop with an ENTRY observer in a mode. -/
def watchedIn (mode : String) : World Nat :=
  ((World.new midnight).cfRunLoopObserverCreate K_CF_RUNLOOP_ENTRY true 0 (some 1) 0).cfRunLoopAddObserver
    true (some 0) (asPtr mode)

/-- A callback that asks for the current mode. -/
def asksForMode (_ : Invocation) (_ : World Nat) : Prog Nat :=
  .api (.copyCurrentMode true) fun _ => .done

/-- The run in which a callback of the event tracking mode asks for its mode. -/
theorem modeNames_kept_tracking :
    let r := cfRunLoopRunInMode [] (answers asksForMode) (asPtr NSEventTrackingRunLoopMode) 0 false
      (watchedIn NSEventTrackingRunLoopMode)
    ∃ e ∈ r.trace, ∃ m, (e.world.perform (.copyCurrentMode true)).2 = .modeName (some m) ∧
      modeNameFromPtr (asPtr m) = NSEventTrackingRunLoopMode := by
  intro r
  obtain ⟨p, hp, hpoints⟩ := asPtr_pointsTo NSEventTrackingRunLoopMode
  have hreports := (modeNames_kept (T := Nat)).2 p NSEventTrackingRunLoopMode (by decide) hpoints
  unfold Reports at hreports
  rw [← hp] at hreports
  have hmem : r.trace.get ⟨3, by decide⟩ ∈ r.trace := List.get_mem _ _
  exact ⟨_, hmem, hreports asksForMode [] 0 false (watchedIn NSEventTrackingRunLoopMode) _ hmem rfl rfl⟩

def longName (last : Char) : String := String.ofList (List.replicate 64 'a' ++ [last])

theorem longName_toList (last : Char) : (longName last).toList = List.replicate 64 'a' ++ [last] :=
  String.toList_ofList

theorem longName_isModeName {last : Char} (h : 0x20 ≤ last.toNat ∧ last.toNat ≤ 0x7e) :
    IsModeName (longName last) := by
  refine ⟨?_, fun c hc => ?_⟩
  · rw [longName_toList]
    exact List.append_ne_nil_of_right_ne_nil _ (List.cons_ne_nil _ _)
  · rw [longName_toList] at hc
    rcases List.mem_append.mp hc with hc | hc
    · rw [List.eq_of_mem_replicate hc]
      decide
    · rw [List.mem_singleton.mp hc]
      exact h

/-- A mode of the program's own is not the one its callbacks are told, and two names
that differ after 64 bytes are one mode. -/
theorem modeNames_not_kept :
    (¬ ∀ p name, IsModeName name → PointsTo p name → Reports Nat p name) ∧
    ¬ ∀ p p' name name', IsModeName name → IsModeName name' → PointsTo p name → PointsTo p' name' →
      name ≠ name' → modeNameFromPtr (some p) ≠ modeNameFromPtr (some p') := by
  constructor
  · intro h
    obtain ⟨p, hp, hpoints⟩ := asPtr_pointsTo "MyMode"
    have hreports := h p "MyMode" (.of_check (by decide) (by decide)) hpoints
    unfold Reports at hreports
    rw [← hp] at hreports
    obtain ⟨m, hanswer, hname⟩ := hreports asksForMode [] 0 false (watchedIn "MyMode")
      ((cfRunLoopRunInMode [] (answers asksForMode) (asPtr "MyMode") 0 false
        (watchedIn "MyMode")).trace.get ⟨3, by decide⟩) (List.get_mem _ _) rfl rfl
    cases hanswer
    exact absurd hname (by decide)
  · intro h
    obtain ⟨p, -, hp⟩ := asPtr_pointsTo (longName 'b')
    obtain ⟨p', -, hp'⟩ := asPtr_pointsTo (longName 'c')
    have hb : IsModeName (longName 'b') := longName_isModeName (by decide)
    have hc : IsModeName (longName 'c') := longName_isModeName (by decide)
    refine h p p' (longName 'b') (longName 'c') hb hc hp hp' (fun heq => ?_) ?_
    · have hlists := congrArg String.toList heq
      rw [longName_toList, longName_toList] at hlists
      exact absurd hlists (by decide)
    · rw [modeNameFromPtr_take hb hp, modeNameFromPtr_take hc hp', longName_toList, longName_toList]
      rfl

end Grafted.Cf.RunLoop
