import Grafted.Dyld.MachIpc

/-! What one operation does to the port space.

One lemma for each operation says everything it can do to the table: the entry
it makes or replaces, and what it leaves. Sending and receiving are settled here
too; the runs are in `MachNames` and `MachMessages`. -/
namespace Grafted.Dyld.MachIpc
namespace PortSpace

def Live (s : PortSpace) (name : PortName) : Prop := s.ports name ≠ none

instance (s : PortSpace) (name : PortName) : Decidable (s.Live name) :=
  inferInstanceAs (Decidable (¬ s.ports name = none))

def queueOf (s : PortSpace) (name : PortName) : List MachMessage :=
  match s.ports name with
  | some port => port.queue
  | none => []

theorem queueOf_some {s : PortSpace} {name : PortName} {port : Port}
    (h : s.ports name = some port) : s.queueOf name = port.queue := by
  simp only [queueOf, h]

theorem queueOf_set_other (s : PortSpace) {name n : PortName} (entry : Option Port) (h : n ≠ name) :
    (s.set name entry).queueOf n = s.queueOf n := by
  simp only [queueOf, set_other s entry h]

theorem queueOf_set_same (s : PortSpace) (name : PortName) (port : Port) :
    (s.set name (some port)).queueOf name = port.queue := by
  simp only [queueOf, set_same]

theorem live_set {s : PortSpace} {name n : PortName} {entry : Option Port}
    (h : (s.set name entry).Live n) : n = name ∨ s.Live n := by
  by_cases hn : n = name
  · exact .inl hn
  · exact .inr (by simpa only [Live, set_other s entry hn] using h)

/-! ### What one operation does -/

/-- An allocation answers the name the counter left and puts a new port there, or
changes no entry. -/
theorem allocate_cases (s : PortSpace) (right : BitVec 32) :
    (s.allocate right).1.nextName = s.nextName + 1 ∧
    ((∃ port, port.queue = [] ∧ (s.allocate right).2 = .ok s.nextName ∧
        (s.allocate right).1.ports = (s.set s.nextName (some port)).ports) ∨
      (∃ k, (s.allocate right).2 = .error k ∧ (s.allocate right).1.ports = s.ports)) := by
  unfold allocate
  by_cases hspace : 0xFFFFFFFE < s.nextName + 1
  · simp only [if_pos hspace]
    exact ⟨trivial, .inr ⟨_, rfl, trivial⟩⟩
  · simp only [if_neg hspace]
    cases hport : portFor right with
    | none => exact ⟨rfl, .inr ⟨_, rfl, rfl⟩⟩
    | some port =>
      refine ⟨rfl, .inl ⟨port, ?_, rfl, rfl⟩⟩
      unfold portFor at hport
      split_ifs at hport <;> cases hport <;> rfl

/-- The port left under a name by an operation on its rights keeps its queue. -/
structure Reworks (s s' : PortSpace) (name : PortName) : Prop where
  nextName : s'.nextName = s.nextName
  other : ∀ n, n ≠ name → s'.ports n = s.ports n
  queue : ∀ old new, s.ports name = some old → s'.ports name = some new → new.queue = old.queue

theorem Reworks.refl (s : PortSpace) (name : PortName) : Reworks s s name :=
  ⟨rfl, fun _ _ => rfl, fun _ _ ho hn => by rw [ho] at hn; cases hn; rfl⟩

theorem Reworks.set {s : PortSpace} {name : PortName} {old : Port} {entry : Option Port}
    (h : s.ports name = some old) (hq : ∀ new, entry = some new → new.queue = old.queue) :
    Reworks s (s.set name entry) name := by
  refine ⟨rfl, fun n hn => set_other s entry hn, fun o new ho hn => ?_⟩
  rw [h] at ho
  cases ho
  exact hq new (by rw [← hn, set_same])

theorem Reworks.live {s s' : PortSpace} {name : PortName} (hr : Reworks s s' name)
    (hdead : s.ports name = none → s' = s) {n : PortName} (h : s'.Live n) : s.Live n := by
  intro hnone
  by_cases hn : n = name
  · subst hn
    rw [hdead hnone] at h
    exact h hnone
  · exact h ((hr.other n hn).trans hnone)

theorem deallocate_reworks (s : PortSpace) (name : PortName) :
    Reworks s (s.deallocate name).1 name ∧
      (s.ports name = none → (s.deallocate name).1 = s) := by
  unfold deallocate
  cases h : s.ports name with
  | none => exact ⟨.refl s name, fun _ => rfl⟩
  | some port =>
    refine ⟨.set h fun new hnew => ?_, fun hnone => nomatch hnone⟩
    split_ifs at hnew <;> cases hnew <;> rfl

theorem modified_queue (port : Port) (right delta : BitVec 32) :
    (modified port right delta).queue = port.queue := by
  unfold modified
  split_ifs
  · simp only
    split_ifs <;> rfl
  · rfl
  · rfl
  · rfl

theorem modRefs_reworks (s : PortSpace) (name right delta : BitVec 32) :
    Reworks s (s.modRefs name right delta).1 name ∧
      (s.ports name = none → (s.modRefs name right delta).1 = s) := by
  unfold modRefs
  cases h : s.ports name with
  | none => exact ⟨.refl s name, fun _ => rfl⟩
  | some port =>
    refine ⟨.set h fun new hnew => ?_, fun hnone => nomatch hnone⟩
    split_ifs at hnew
    cases hnew
    exact modified_queue port right delta

/-- Inserting a right reworks a live entry; a dead name gets the port the type
creates, if it creates one. -/
theorem insertRight_cases (s : PortSpace) (name poly polyType : BitVec 32) :
    Reworks s (s.insertRight name poly polyType).1 name ∧
    (s.ports name = none →
      (∃ port, createdBy polyType = some port ∧ port.queue = [] ∧
        (s.insertRight name poly polyType).1 = s.set name (some port)) ∨
      (s.insertRight name poly polyType).1 = s) := by
  unfold insertRight
  cases h : s.ports name with
  | none =>
    cases hc : createdBy polyType with
    | none => exact ⟨.refl s name, fun _ => .inr rfl⟩
    | some port =>
      refine ⟨⟨rfl, fun n hn => set_other s _ hn, fun old _ ho => ?_⟩, fun _ => .inl ⟨port, rfl, ?_, rfl⟩⟩
      · rw [h] at ho
        cases ho
      · unfold createdBy at hc
        split_ifs at hc <;> cases hc <;> rfl
  | some port =>
    refine ⟨?_, fun hnone => nomatch hnone⟩
    simp only
    split_ifs
    · exact .set h fun _ hnew => by cases hnew; rfl
    · exact .set h fun _ hnew => by cases hnew; rfl
    · exact .set h fun _ hnew => by cases hnew; rfl
    · exact .refl s name
    · exact .refl s name

/-- A send appends to the queue of its destination, or answers an error and
changes nothing. -/
theorem sendMsg_cases (s : PortSpace) (dest : PortName) (msg : MachMessage) :
    (∃ port, s.ports dest = some port ∧ (s.sendMsg dest msg).2 = MACH_MSG_SUCCESS ∧
      (s.sendMsg dest msg).1 = s.set dest (some {port with queue := port.queue ++ [msg]})) ∨
    ((s.sendMsg dest msg).2 = MACH_SEND_INVALID_DEST ∧ (s.sendMsg dest msg).1 = s) := by
  unfold sendMsg
  cases h : s.ports dest with
  | none => exact .inr ⟨rfl, rfl⟩
  | some port =>
    simp only
    split_ifs
    · exact .inr ⟨rfl, rfl⟩
    · exact .inl ⟨port, rfl, rfl, rfl⟩

/-- A receive takes the oldest message of the queue, or finds none and changes
nothing. -/
theorem recvMsg_cases (s : PortSpace) (name : PortName) :
    (∃ port msg rest, s.ports name = some port ∧ port.queue = msg :: rest ∧
      (s.recvMsg name).2 = some msg ∧
      (s.recvMsg name).1 = s.set name (some {port with queue := rest})) ∨
    ((s.recvMsg name).2 = none ∧ (s.recvMsg name).1 = s) := by
  unfold recvMsg
  cases h : s.ports name with
  | none => exact .inr ⟨rfl, rfl⟩
  | some port =>
    simp only
    cases hq : port.queue with
    | nil => exact .inr ⟨rfl, rfl⟩
    | cons msg rest => exact .inl ⟨port, msg, rest, rfl, hq, rfl, rfl⟩

end PortSpace

open PortSpace

/-- The call answered `name` as newly allocated. -/
def Allocates (name : PortName) (e : PortEvent) : Prop :=
  (∃ right, e.action.op = .portAllocate right) ∧ e.answer = .name (.ok name)

/-- Setting an entry that there is makes no name live. -/
theorem live_of_set {s : PortSpace} {name n : PortName} {port : Port} {entry : Option Port}
    (hport : s.ports name = some port) (h : (s.set name entry).Live n) : s.Live n := by
  rcases live_set h with rfl | h
  · exact fun hnone => nomatch hport.symm.trans hnone
  · exact h

theorem sendMsg_live (s : PortSpace) (dest : PortName) (msg : MachMessage) :
    (s.sendMsg dest msg).1.nextName = s.nextName ∧
      ∀ n, (s.sendMsg dest msg).1.Live n → s.Live n := by
  rcases sendMsg_cases s dest msg with ⟨port, hport, -, hset⟩ | ⟨-, hset⟩
  · rw [hset]
    exact ⟨rfl, fun n hn => live_of_set hport hn⟩
  · rw [hset]
    exact ⟨rfl, fun _ => id⟩

theorem recvMsg_live (s : PortSpace) (name : PortName) :
    (s.recvMsg name).1.nextName = s.nextName ∧
      ∀ n, (s.recvMsg name).1.Live n → s.Live n := by
  rcases recvMsg_cases s name with ⟨port, _, _, hport, -, -, hset⟩ | ⟨-, hset⟩
  · rw [hset]
    exact ⟨rfl, fun n hn => live_of_set hport hn⟩
  · rw [hset]
    exact ⟨rfl, fun _ => id⟩

/-- A call receives or does not, and a receive takes a message of the port or
finds none. -/
theorem receivePhase_cases (s : PortSpace) (buffer : MsgBuffer)
    (option rcvSize rcvName : BitVec 32) (sent : Option (PortName × MachMessage)) :
    let name := if option &&& MACH_SEND_MSG ≠ 0 then buffer.header.msghLocalPort else rcvName
    (¬ option &&& MACH_RCV_MSG ≠ 0 ∧ receivePhase s buffer option rcvSize rcvName sent =
      (s, ⟨MACH_MSG_SUCCESS, some buffer, sent, none⟩)) ∨
    (option &&& MACH_RCV_MSG ≠ 0 ∧ ∃ msg, (s.recvMsg name).2 = some msg ∧
      receivePhase s buffer option rcvSize rcvName sent =
        ((s.recvMsg name).1,
          ⟨MACH_MSG_SUCCESS, some (deliver buffer msg rcvSize), sent, some (name, msg)⟩)) ∨
    (option &&& MACH_RCV_MSG ≠ 0 ∧ (s.recvMsg name).2 = none ∧
      receivePhase s buffer option rcvSize rcvName sent =
        ((s.recvMsg name).1, ⟨MACH_RCV_TIMED_OUT, some buffer, sent, none⟩)) := by
  unfold receivePhase
  dsimp only
  generalize (if option &&& MACH_SEND_MSG ≠ 0 then buffer.header.msghLocalPort else rcvName) = name
  by_cases hrcv : option &&& MACH_RCV_MSG ≠ 0
  · rw [if_pos hrcv]
    rcases s.recvMsg name with ⟨s', _ | msg⟩
    · exact .inr (.inr ⟨hrcv, rfl, rfl⟩)
    · exact .inr (.inl ⟨hrcv, msg, rfl, rfl⟩)
  · rw [if_neg hrcv]
    exact .inl ⟨hrcv, rfl⟩

theorem receivePhase_live (s : PortSpace) (buffer : MsgBuffer) (option rcvSize rcvName : BitVec 32)
    (sent : Option (PortName × MachMessage)) :
    (receivePhase s buffer option rcvSize rcvName sent).1.nextName = s.nextName ∧
      ∀ n, (receivePhase s buffer option rcvSize rcvName sent).1.Live n → s.Live n := by
  rcases receivePhase_cases s buffer option rcvSize rcvName sent with
    ⟨-, h⟩ | ⟨-, msg, -, h⟩ | ⟨-, -, h⟩ <;> rw [h]
  · exact ⟨rfl, fun _ => id⟩
  · exact recvMsg_live s _
  · exact recvMsg_live s _

/-- A call sends or does not, and the send of a call that sends fails or not;
unless it fails the call is its receive phase. -/
theorem machMsg_cases (s : PortSpace) (buffer : MsgBuffer)
    (option sendSize rcvSize rcvName : BitVec 32) :
    let dest := buffer.header.msghRemotePort
    let msg := outgoing buffer sendSize
    (¬ option &&& MACH_SEND_MSG ≠ 0 ∧ machMsg s (some buffer) option sendSize rcvSize rcvName =
      receivePhase s buffer option rcvSize rcvName none) ∨
    (option &&& MACH_SEND_MSG ≠ 0 ∧ (s.sendMsg dest msg).2 ≠ MACH_MSG_SUCCESS ∧
      machMsg s (some buffer) option sendSize rcvSize rcvName =
        ((s.sendMsg dest msg).1, ⟨(s.sendMsg dest msg).2, some buffer, none, none⟩)) ∨
    (option &&& MACH_SEND_MSG ≠ 0 ∧ (s.sendMsg dest msg).2 = MACH_MSG_SUCCESS ∧
      machMsg s (some buffer) option sendSize rcvSize rcvName =
        receivePhase (s.sendMsg dest msg).1 buffer option rcvSize rcvName (some (dest, msg))) := by
  intro dest msg
  have hcall : machMsg s (some buffer) option sendSize rcvSize rcvName =
      if option &&& MACH_SEND_MSG ≠ 0 then
        if (s.sendMsg dest msg).2 ≠ MACH_MSG_SUCCESS then
          ((s.sendMsg dest msg).1, ⟨(s.sendMsg dest msg).2, some buffer, none, none⟩)
        else receivePhase (s.sendMsg dest msg).1 buffer option rcvSize rcvName (some (dest, msg))
      else receivePhase s buffer option rcvSize rcvName none := rfl
  by_cases hopt : option &&& MACH_SEND_MSG ≠ 0
  · rw [if_pos hopt] at hcall
    by_cases hcode : (s.sendMsg dest msg).2 = MACH_MSG_SUCCESS
    · rw [if_neg (not_not.mpr hcode)] at hcall
      exact .inr (.inr ⟨hopt, hcode, hcall⟩)
    · rw [if_pos hcode] at hcall
      exact .inr (.inl ⟨hopt, hcode, hcall⟩)
  · rw [if_neg hopt] at hcall
    exact .inl ⟨hopt, hcall⟩

theorem machMsg_live (s : PortSpace) (msg : Option MsgBuffer)
    (option sendSize rcvSize rcvName : BitVec 32) :
    (machMsg s msg option sendSize rcvSize rcvName).1.nextName = s.nextName ∧
      ∀ n, (machMsg s msg option sendSize rcvSize rcvName).1.Live n → s.Live n := by
  cases msg with
  | none => exact ⟨rfl, fun _ => id⟩
  | some buffer =>
    obtain ⟨hnext, hlive⟩ := sendMsg_live s buffer.header.msghRemotePort (outgoing buffer sendSize)
    rcases machMsg_cases s buffer option sendSize rcvSize rcvName with
      ⟨-, h⟩ | ⟨-, -, h⟩ | ⟨-, -, h⟩ <;> rw [h]
    · exact receivePhase_live ..
    · exact ⟨hnext, hlive⟩
    · obtain ⟨hnext', hlive'⟩ := receivePhase_live
        (s.sendMsg buffer.header.msghRemotePort (outgoing buffer sendSize)).1 buffer option rcvSize
        rcvName (some (buffer.header.msghRemotePort, outgoing buffer sendSize))
      exact ⟨hnext'.trans hnext, fun n hn => hlive n (hlive' n hn)⟩

end Grafted.Dyld.MachIpc
