import Mathlib.Tactic.IntervalCases
import Grafted.Base.ByteMemory
import Grafted.Dyld.MachMessages

/-! Calls that fail, and receives that ought to.

Every operation but `allocate` asks before it changes anything, so a call that
fails leaves the space as it was (`failed_unchanged_iff`). A receive never fails
for its size: it takes the message off the queue, stores the header whatever the
buffer's size is, and cuts the body to what is left (`receive_contained_iff`). -/
namespace Grafted.Dyld.MachIpc
open Transition PortSpace

/-! ### What a failed call leaves -/

/-- The answer is not a success. -/
def Answer.Fails : Answer → Prop
  | .name result => ∃ k, result = .error k
  | .code ret => ret ≠ KERN_SUCCESS
  | .type ret _ => ret ≠ KERN_SUCCESS
  | .message ret => ret.code ≠ MACH_MSG_SUCCESS

/-- The call sends and receives. -/
def Combined : Op → Prop
  | .machMsg _ option _ _ _ => option &&& MACH_SEND_MSG ≠ 0 ∧ option &&& MACH_RCV_MSG ≠ 0
  | _ => False

/-- A call other than a combined one that fails leaves the space as it was, with
its counter. -/
def FailsUnchanged (e : PortEvent) : Prop :=
  ¬ Combined e.action.op → e.answer.Fails → e.after = e.before

/-- An allocation asks for a right that can be allocated, and there is a name. -/
def Allocatable (e : PortEvent) : Prop :=
  ∀ right, e.action.op = .portAllocate right →
    portFor right ≠ none ∧ e.before.nextName ≠ 0xFFFFFFFE

theorem allocate_ok {s : PortSpace} {right : BitVec 32} (hright : portFor right ≠ none)
    (hname : s.nextName ≠ 0xFFFFFFFE) : (s.allocate right).2 = .ok s.nextName := by
  have hspace : ¬ 0xFFFFFFFE < s.nextName + 1 := by bv_omega
  obtain ⟨port, hport⟩ := Option.ne_none_iff_exists'.mp hright
  simp only [allocate, if_neg hspace, hport]

theorem allocate_fails {s : PortSpace} {right : BitVec 32}
    (h : portFor right = none ∨ s.nextName = 0xFFFFFFFE) : ∃ k, (s.allocate right).2 = .error k := by
  unfold allocate
  by_cases hspace : 0xFFFFFFFE < s.nextName + 1
  · simp only [if_pos hspace]
    exact ⟨_, rfl⟩
  · have hright : portFor right = none := h.resolve_right fun hlast => hspace (by bv_omega)
    simp only [if_neg hspace, hright]
    exact ⟨_, rfl⟩

theorem deallocate_fails (s : PortSpace) (name : PortName)
    (h : (s.deallocate name).2 ≠ KERN_SUCCESS) : (s.deallocate name).1 = s := by
  unfold deallocate at h ⊢
  cases hname : s.ports name with
  | none => rfl
  | some port =>
    rw [hname] at h
    exact absurd rfl h

theorem insertRight_fails (s : PortSpace) (name poly polyType : BitVec 32)
    (h : (s.insertRight name poly polyType).2 ≠ KERN_SUCCESS) :
    (s.insertRight name poly polyType).1 = s := by
  unfold insertRight at h ⊢
  cases hname : s.ports name with
  | none =>
    rw [hname] at h
    simp only at h ⊢
    cases hmakes : createdBy polyType with
    | none => rfl
    | some port =>
      rw [hmakes] at h
      exact absurd rfl h
  | some port =>
    rw [hname] at h
    simp only at h ⊢
    split_ifs at h ⊢ <;> first | rfl | exact absurd rfl h

theorem modRefs_fails (s : PortSpace) (name right delta : BitVec 32)
    (h : (s.modRefs name right delta).2 ≠ KERN_SUCCESS) : (s.modRefs name right delta).1 = s := by
  unfold modRefs at h ⊢
  cases hname : s.ports name with
  | none => rfl
  | some port =>
    rw [hname] at h
    exact absurd rfl h

theorem receivePhase_fails (s : PortSpace) (buffer : MsgBuffer) (option rcvSize rcvName : BitVec 32)
    (sent : Option (PortName × MachMessage))
    (h : (receivePhase s buffer option rcvSize rcvName sent).2.code ≠ MACH_MSG_SUCCESS) :
    (receivePhase s buffer option rcvSize rcvName sent).1 = s := by
  rcases receivePhase_cases s buffer option rcvSize rcvName sent with
    ⟨-, hphase⟩ | ⟨-, msg, -, hphase⟩ | ⟨-, hnone, hphase⟩ <;> rw [hphase] at h ⊢
  · exact absurd rfl h
  -- a receive that finds no message leaves the port space
  rcases recvMsg_cases s _ with ⟨_, msg, _, -, -, hmsg, -⟩ | ⟨-, hsame⟩
  · cases hnone.symm.trans hmsg
  · exact hsame

/-- A call that does not both send and receive and fails moves no message. -/
theorem machMsg_fails (s : PortSpace) (msg : Option MsgBuffer)
    (option sendSize rcvSize rcvName : BitVec 32)
    (hsingle : ¬ (option &&& MACH_SEND_MSG ≠ 0 ∧ option &&& MACH_RCV_MSG ≠ 0))
    (h : (machMsg s msg option sendSize rcvSize rcvName).2.code ≠ MACH_MSG_SUCCESS) :
    (machMsg s msg option sendSize rcvSize rcvName).1 = s := by
  cases msg with
  | none => rfl
  | some buffer =>
    rcases machMsg_cases s buffer option sendSize rcvSize rcvName with
      ⟨-, hcall⟩ | ⟨-, hcode, hcall⟩ | ⟨hsend, -, hcall⟩ <;> rw [hcall] at h ⊢
    · exact receivePhase_fails s buffer option rcvSize rcvName none h
    · rcases sendMsg_cases s buffer.header.msghRemotePort (outgoing buffer sendSize) with
        ⟨_, -, hok, -⟩ | ⟨-, hsame⟩
      · exact absurd hok hcode
      · exact hsame
    · -- the message was sent, so the call receives nothing and succeeds
      have hrcv : ¬ option &&& MACH_RCV_MSG ≠ 0 := fun hrcv => hsingle ⟨hsend, hrcv⟩
      rcases receivePhase_cases _ buffer option rcvSize rcvName _ with
        ⟨-, hphase⟩ | ⟨hrcv', -⟩ | ⟨hrcv', -⟩
      · rw [hphase] at h
        exact absurd rfl h
      · exact absurd hrcv' hrcv
      · exact absurd hrcv' hrcv

theorem step_unchanged_iff (s : PortSpace) (call : Call) :
    FailsUnchanged (portSystem.event s call) ↔ Allocatable (portSystem.event s call) := by
  obtain ⟨caller, op⟩ := call
  cases op with
  | portAllocate right =>
    have hmoves : (s.allocate right).1 ≠ s := by
      intro hsame
      have hnext := (allocate_cases s right).1
      rw [hsame] at hnext
      bv_omega
    constructor
    · rintro h _ ⟨⟩
      by_contra hno
      have hwhy : portFor right = none ∨ s.nextName = 0xFFFFFFFE := by
        by_contra hboth
        exact hno ⟨fun hn => hboth (.inl hn), fun hn => hboth (.inr hn)⟩
      obtain ⟨k, hk⟩ := allocate_fails hwhy
      exact hmoves (h (fun hc => hc) ⟨k, hk⟩)
    · rintro h - ⟨k, hk⟩
      obtain ⟨hright, hname⟩ := h right rfl
      exact nomatch (allocate_ok hright hname).symm.trans hk
  | portDeallocate name =>
    exact iff_of_true (fun _ => deallocate_fails s name) fun _ hop => nomatch hop
  | portInsertRight name poly polyType =>
    exact iff_of_true (fun _ => insertRight_fails s name poly polyType) fun _ hop => nomatch hop
  | portModRefs name right delta =>
    exact iff_of_true (fun _ => modRefs_fails s name right delta) fun _ hop => nomatch hop
  | portType name => exact iff_of_true (fun _ _ => rfl) fun _ hop => nomatch hop
  | machMsg msg option sendSize rcvSize rcvName =>
    exact iff_of_true (machMsg_fails s msg option sendSize rcvSize rcvName) fun _ hop => nomatch hop

/-- **A failed call leaves the space as it was, unless it is an allocation.** -/
theorem failed_unchanged_iff (calls : List Call) :
    ∀ e ∈ portSystem.events .new calls, FailsUnchanged e ↔ Allocatable e :=
  System.along_of_forall (P := fun e => FailsUnchanged e ↔ Allocatable e) step_unchanged_iff
    PortSpace.new calls

theorem failed_unchanged_iff_first :
    FailsUnchanged (portSystem.event .new ⟨0, .portAllocate MACH_PORT_RIGHT_RECEIVE⟩) ↔
      Allocatable (portSystem.event .new ⟨0, .portAllocate MACH_PORT_RIGHT_RECEIVE⟩) :=
  failed_unchanged_iff [⟨0, .portAllocate MACH_PORT_RIGHT_RECEIVE⟩] _ List.mem_cons_self

/-- An allocation of a right there is not takes a name. -/
theorem failed_allocation_moves :
    ¬ ∀ calls, ∀ e ∈ portSystem.events .new calls, FailsUnchanged e := by
  intro h
  obtain ⟨hstep, -⟩ := System.along_cons.mp (h [⟨0, .portAllocate 9⟩])
  have hsame : ((PortSpace.new).allocate 9).1 = .new := hstep (fun hc => hc) ⟨_, rfl⟩
  exact absurd (congrArg PortSpace.nextName hsame) (by decide)

/-! ### What a receive writes

The caller's buffer is one block of bytes from the message pointer on: the header
field after field, then the body. A receive copies into it three times. -/

open ByteMemory (Byte byteLE bytesLE)

def headerBytes (h : MachMsgHeader) : List Byte :=
  bytesLE h.msghBits.toNat 4 ++ bytesLE h.msghSize.toNat 4 ++ bytesLE h.msghRemotePort.toNat 4 ++
    bytesLE h.msghLocalPort.toNat 4 ++ bytesLE h.msghVoucherPort.toNat 4 ++ bytesLE h.msghId.toNat 4

/-- The buffer as the caller's pointer sees it. -/
def MsgBuffer.flat (b : MsgBuffer) (i : Nat) : Byte :=
  if i < headerSize then (headerBytes b.header).getD i 0 else b.bytes (i - headerSize)

/-- Bytes copied to an offset of the buffer. -/
structure Copy where
  offset : Nat
  bytes : List Byte

def Copy.store (c : Copy) (flat : Nat → Byte) (i : Nat) : Byte :=
  if c.offset ≤ i ∧ i < c.offset + c.bytes.length then c.bytes.getD (i - c.offset) 0 else flat i

theorem Copy.store_inside {c : Copy} {flat : Nat → Byte} {i : Nat}
    (h : c.offset ≤ i ∧ i < c.offset + c.bytes.length) :
    c.store flat i = c.bytes.getD (i - c.offset) 0 := if_pos h

theorem Copy.store_outside {c : Copy} {flat : Nat → Byte} {i : Nat}
    (h : ¬ (c.offset ≤ i ∧ i < c.offset + c.bytes.length)) : c.store flat i = flat i := if_neg h

/-- How much of the body is copied: `rcv_size - 24` wraps. -/
def copyLen (msg : MachMessage) (rcvSize : BitVec 32) : Nat :=
  min msg.body.length (rcvSize.setWidth 64 - BitVec.ofNat 64 headerSize).toNat

/-- The header back, the body after it, and the size into the header. -/
def receiveCopies (msg : MachMessage) (rcvSize : BitVec 32) : List Copy :=
  [⟨0, headerBytes msg.header⟩] ++
    (if 0 < copyLen msg rcvSize then [⟨headerSize, msg.body.take (copyLen msg rcvSize)⟩] else []) ++
    [⟨4, bytesLE (BitVec.ofNat 32 (headerSize + copyLen msg rcvSize)).toNat 4⟩]

theorem headerBytes_length (h : MachMsgHeader) : (headerBytes h).length = headerSize := rfl

/-- The bytes of the size field are the only ones that depend on it. -/
theorem headerBytes_resized (h : MachMsgHeader) (size : BitVec 32) {i : Nat} (hi : i < headerSize) :
    (headerBytes {h with msghSize := size}).getD i 0 =
      if 4 ≤ i ∧ i < 8 then (bytesLE size.toNat 4).getD (i - 4) 0 else (headerBytes h).getD i 0 := by
  have hlt : i < 24 := hi
  interval_cases i <;> rfl

theorem body_store (msg : MachMessage) {n : Nat} (hn : n ≤ msg.body.length) (flat : Nat → Byte)
    (i : Nat) :
    ((if 0 < n then [⟨headerSize, msg.body.take n⟩] else []).foldl
      (fun flat (c : Copy) => c.store flat) flat) i =
    if headerSize ≤ i ∧ i < headerSize + n then msg.body.getD (i - headerSize) 0 else flat i := by
  have hlen : (msg.body.take n).length = n := by rw [List.length_take, Nat.min_eq_left hn]
  by_cases hpos : 0 < n
  · simp only [if_pos hpos, List.foldl_cons, List.foldl_nil, Copy.store, hlen]
    by_cases hi : headerSize ≤ i ∧ i < headerSize + n
    · have hlt : i - headerSize < n := by omega
      simp only [if_pos hi, List.getD_eq_getElem?_getD, List.getElem?_take_of_lt hlt]
    · simp only [if_neg hi]
  · have hi : ¬ (headerSize ≤ i ∧ i < headerSize + n) := by omega
    simp only [if_neg hpos, if_neg hi, List.foldl_nil]

/-- The buffer after a receive is the one before it with the three copies made. -/
theorem deliver_flat (buffer : MsgBuffer) (msg : MachMessage) (rcvSize : BitVec 32) :
    (deliver buffer msg rcvSize).flat =
      (receiveCopies msg rcvSize).foldl (fun flat c => c.store flat) buffer.flat := by
  funext i
  have hn : copyLen msg rcvSize ≤ msg.body.length := Nat.min_le_left ..
  have hsize : (bytesLE (BitVec.ofNat 32 (headerSize + copyLen msg rcvSize)).toNat 4).length = 4 := rfl
  have hheader : headerSize = 24 := rfl
  have hleft : (deliver buffer msg rcvSize).flat i =
      if i < headerSize then (headerBytes {msg.header with
        msghSize := BitVec.ofNat 32 (headerSize + copyLen msg rcvSize)}).getD i 0
      else if i - headerSize < copyLen msg rcvSize then msg.body.getD (i - headerSize) 0
      else buffer.bytes (i - headerSize) := rfl
  rw [hleft]
  simp only [receiveCopies, List.foldl_append, List.foldl_cons, List.foldl_nil]
  by_cases hi : i < headerSize
  · have hbody : ¬ (headerSize ≤ i ∧ i < headerSize + copyLen msg rcvSize) := by omega
    rw [if_pos hi, headerBytes_resized _ _ hi]
    by_cases hfield : 4 ≤ i ∧ i < 8
    · rw [if_pos hfield, Copy.store_inside ⟨hfield.1, by rw [hsize]; exact hfield.2⟩]
    · rw [if_neg hfield, Copy.store_outside (by rw [hsize]; exact hfield), body_store msg hn,
        if_neg hbody, Copy.store_inside ⟨Nat.zero_le i, by rw [headerBytes_length]; omega⟩]
      rfl
  · rw [if_neg hi, Copy.store_outside (by rw [hsize]; show ¬ (4 ≤ i ∧ i < 4 + 4); omega),
      body_store msg hn]
    by_cases hbody : i - headerSize < copyLen msg rcvSize
    · rw [if_pos hbody, if_pos ⟨by omega, by omega⟩]
    · rw [if_neg hbody, if_neg (by omega), Copy.store_outside, MsgBuffer.flat, if_neg hi]
      rw [headerBytes_length]
      show ¬ (0 ≤ i ∧ i < 0 + 24)
      omega

/-- A receive as `mach_msg` gets to it: the space the send phase left, and the port. -/
structure Receive where
  space : PortSpace
  port : PortName
  buffer : MsgBuffer
  rcvSize : BitVec 32

/-- The receive of a call that has one. -/
def receiveOf (s : PortSpace) : Op → Option Receive
  | .machMsg (some buffer) option sendSize rcvSize rcvName =>
    let r := s.sendMsg buffer.header.msghRemotePort (outgoing buffer sendSize)
    if option &&& MACH_RCV_MSG ≠ 0 then
      if option &&& MACH_SEND_MSG ≠ 0 then
        if r.2 ≠ MACH_MSG_SUCCESS then none
        else some ⟨r.1, buffer.header.msghLocalPort, buffer, rcvSize⟩
      else some ⟨s, rcvName, buffer, rcvSize⟩
    else none
  | _ => none

/-- What the receive of a call copies into the caller's buffer. -/
def Receive.copies (r : Receive) : List Copy :=
  match (r.space.recvMsg r.port).2 with
  | some msg => receiveCopies msg r.rcvSize
  | none => []

/-- The outcome of a call with a receive is that of its receive. -/
theorem perform_receive {s : PortSpace} {op : Op} {r : Receive} (h : receiveOf s op = some r) :
    ∃ ret, perform s op = ((r.space.recvMsg r.port).1, .message ret) ∧
      match (r.space.recvMsg r.port).2 with
      | some msg => ret.code = MACH_MSG_SUCCESS ∧ ret.buffer = some (deliver r.buffer msg r.rcvSize)
      | none => ret.code = MACH_RCV_TIMED_OUT ∧ ret.buffer = some r.buffer := by
  cases op with
  | machMsg msg option sendSize rcvSize rcvName =>
    cases msg with
    | none => exact nomatch h
    | some buffer =>
      have hphase : ∀ (s' : PortSpace) (sent : Option (PortName × MachMessage)) (port : PortName),
          option &&& MACH_RCV_MSG ≠ 0 →
          (if option &&& MACH_SEND_MSG ≠ 0 then buffer.header.msghLocalPort else rcvName) = port →
          ∃ ret, receivePhase s' buffer option rcvSize rcvName sent = ((s'.recvMsg port).1, ret) ∧
            match (s'.recvMsg port).2 with
            | some msg => ret.code = MACH_MSG_SUCCESS ∧ ret.buffer = some (deliver buffer msg rcvSize)
            | none => ret.code = MACH_RCV_TIMED_OUT ∧ ret.buffer = some buffer := by
        intro s' sent port hrcv hport
        rcases receivePhase_cases s' buffer option rcvSize rcvName sent with
          ⟨hno, -⟩ | ⟨-, msg, hmsg, hphase⟩ | ⟨-, hnone, hphase⟩
        · exact absurd hrcv hno
        · rw [hport] at hmsg hphase
          rw [hmsg]
          exact ⟨_, hphase, rfl, rfl⟩
        · rw [hport] at hnone hphase
          rw [hnone]
          exact ⟨_, hphase, rfl, rfl⟩
      unfold receiveOf at h
      simp only at h
      split_ifs at h with hrcv hsend hcode
      · cases h
        rcases machMsg_cases s buffer option sendSize rcvSize rcvName with
          ⟨hno, -⟩ | ⟨-, hno, -⟩ | ⟨-, -, hcall⟩
        · exact absurd hsend hno
        · exact absurd (not_not.mp hcode) hno
        · obtain ⟨ret, hret, hcopied⟩ := hphase _ (some (buffer.header.msghRemotePort,
            outgoing buffer sendSize)) buffer.header.msghLocalPort hrcv (if_pos hsend)
          exact ⟨ret, by simp only [perform, hcall, hret], hcopied⟩
      · cases h
        rcases machMsg_cases s buffer option sendSize rcvSize rcvName with
          ⟨-, hcall⟩ | ⟨hno, -, -⟩ | ⟨hno, -, -⟩
        · obtain ⟨ret, hret, hcopied⟩ := hphase s none rcvName hrcv (if_neg hsend)
          exact ⟨ret, by simp only [perform, hcall, hret], hcopied⟩
        · exact absurd hno hsend
        · exact absurd hno hsend
  | portAllocate right => exact nomatch h
  | portDeallocate name => exact nomatch h
  | portInsertRight name poly polyType => exact nomatch h
  | portModRefs name right delta => exact nomatch h
  | portType name => exact nomatch h

/-- What a receive leaves in the caller's buffer is what its copies make of it. -/
theorem Receive.copies_flat {s : PortSpace} {op : Op} {r : Receive} (h : receiveOf s op = some r) :
    ∃ ret b, (perform s op).2 = .message ret ∧ ret.buffer = some b ∧
      b.flat = r.copies.foldl (fun flat c => c.store flat) r.buffer.flat := by
  obtain ⟨ret, hcall, hcopied⟩ := perform_receive h
  unfold Receive.copies
  rw [hcall]
  cases hmsg : (r.space.recvMsg r.port).2 with
  | none =>
    rw [hmsg] at hcopied
    exact ⟨ret, _, rfl, hcopied.2, rfl⟩
  | some msg =>
    rw [hmsg] at hcopied
    exact ⟨ret, _, rfl, hcopied.2, deliver_flat r.buffer msg r.rcvSize⟩

/-- The whole message is in the buffer, and the header says how long it is. -/
structure Whole (b : MsgBuffer) (msg : MachMessage) : Prop where
  header : ∃ size, b.header = {msg.header with msghSize := size}
  size : b.header.msghSize.toNat = headerSize + msg.body.length
  body : ∀ i (h : i < msg.body.length), b.bytes i = msg.body[i]

/-- What is copied lies in the first `rcv_size` bytes of the buffer; and the oldest
message of the queue is received whole, or the call says that it is too large and
leaves it where it is. -/
def ReceiveContained (e : PortEvent) : Prop :=
  ∀ r, receiveOf e.before e.action.op = some r →
    (∀ c ∈ r.copies, c.offset + c.bytes.length ≤ r.rcvSize.toNat) ∧
    ∀ msg rest, r.space.queueOf r.port = msg :: rest → ∃ ret, e.answer = .message ret ∧
      ((ret.code = MACH_MSG_SUCCESS ∧ (∃ b, ret.buffer = some b ∧ Whole b msg) ∧
          e.after.queueOf r.port = rest) ∨
        (ret.code = MACH_RCV_TOO_LARGE ∧ e.after.queueOf r.port = msg :: rest))

/-- The message a call receives fits into its buffer. -/
def MessageFits (e : PortEvent) : Prop :=
  ∀ r msg rest, receiveOf e.before e.action.op = some r → r.space.queueOf r.port = msg :: rest →
    headerSize + msg.body.length ≤ r.rcvSize.toNat

theorem recvMsg_queue (s : PortSpace) (name : PortName) :
    (s.recvMsg name).2 = (s.queueOf name).head? ∧
      (s.recvMsg name).1.queueOf name = (s.queueOf name).tail := by
  unfold recvMsg
  cases hport : s.ports name with
  | none => simp [queueOf, hport]
  | some port =>
    simp only [queueOf_some hport]
    cases hqueue : port.queue with
    | nil => exact ⟨rfl, by simp [queueOf_some hport, hqueue]⟩
    | cons msg rest => exact ⟨rfl, queueOf_set_same s name _⟩

/-- With room for the header, the body is cut to what is left of the buffer. -/
theorem copyLen_room (msg : MachMessage) {rcvSize : BitVec 32} (h : headerSize ≤ rcvSize.toNat) :
    copyLen msg rcvSize = min msg.body.length (rcvSize.toNat - headerSize) := by
  have hheader : headerSize = 24 := rfl
  have hlt := rcvSize.isLt
  have hroom : (rcvSize.setWidth 64 - BitVec.ofNat 64 headerSize).toNat =
      rcvSize.toNat - headerSize := by
    rw [BitVec.toNat_sub, BitVec.toNat_setWidth, BitVec.toNat_ofNat]
    omega
  rw [copyLen, hroom]

theorem receiveCopies_inside_iff (msg : MachMessage) (rcvSize : BitVec 32) :
    (∀ c ∈ receiveCopies msg rcvSize, c.offset + c.bytes.length ≤ rcvSize.toNat) ↔
      headerSize ≤ rcvSize.toNat := by
  have hheader : headerSize = 24 := rfl
  constructor
  · intro h
    have hfirst := h ⟨0, headerBytes msg.header⟩ (by simp [receiveCopies])
    rw [headerBytes_length] at hfirst
    omega
  · intro h c hc
    have hcopied := copyLen_room msg h
    simp only [receiveCopies, List.mem_append, List.mem_singleton] at hc
    rcases hc with (rfl | hc) | rfl
    · rw [headerBytes_length]
      show 0 + headerSize ≤ _
      omega
    · split_ifs at hc with hpos
      · rw [List.mem_singleton.mp hc]
        simp only [List.length_take]
        omega
      · exact nomatch hc
    · show 4 + 4 ≤ _
      omega

/-- What is delivered is the whole message just when the body was not cut. -/
theorem deliver_whole_iff (buffer : MsgBuffer) (msg : MachMessage) {rcvSize : BitVec 32}
    (h : headerSize ≤ rcvSize.toNat) :
    Whole (deliver buffer msg rcvSize) msg ↔ headerSize + msg.body.length ≤ rcvSize.toNat := by
  have hheader : headerSize = 24 := rfl
  have hlt := rcvSize.isLt
  have hcopied := copyLen_room msg h
  have hsize : (deliver buffer msg rcvSize).header.msghSize.toNat = headerSize + copyLen msg rcvSize := by
    show (BitVec.ofNat 32 (headerSize + copyLen msg rcvSize)).toNat = _
    rw [BitVec.toNat_ofNat]
    omega
  constructor
  · intro hwhole
    have := hwhole.size
    omega
  · intro hfits
    refine ⟨⟨_, rfl⟩, by rw [hsize]; omega, fun i hi => ?_⟩
    have hcut : i < copyLen msg rcvSize := by omega
    show (if i < copyLen msg rcvSize then msg.body.getD i 0 else buffer.bytes i) = msg.body[i]
    rw [if_pos hcut, List.getD_eq_getElem?_getD, List.getElem?_eq_getElem hi]
    rfl

theorem step_contained_iff (s : PortSpace) (call : Call) :
    ReceiveContained (portSystem.event s call) ↔ MessageFits (portSystem.event s call) := by
  constructor
  · intro h r msg rest hr hqueue
    obtain ⟨hinside, houtcome⟩ := h r hr
    obtain ⟨hhead, htail⟩ := recvMsg_queue r.space r.port
    obtain ⟨ret', hcall, hcopied⟩ := perform_receive hr
    rw [hqueue] at hhead
    rw [Receive.copies, hhead] at hinside
    rw [hhead] at hcopied
    have hroom := (receiveCopies_inside_iff msg r.rcvSize).mp hinside
    obtain ⟨ret, hret, hdelivered | hlarge⟩ := houtcome msg rest hqueue
    · obtain ⟨-, ⟨b, hb, hwhole⟩, -⟩ := hdelivered
      have hsame : ret' = ret := Answer.message.inj ((congrArg Prod.snd hcall).symm.trans hret)
      rw [← hsame, hcopied.2] at hb
      cases hb
      exact (deliver_whole_iff r.buffer msg hroom).mp hwhole
    · have hsame : ret' = ret := Answer.message.inj ((congrArg Prod.snd hcall).symm.trans hret)
      rw [← hsame, hcopied.1] at hlarge
      exact absurd hlarge.1 (by decide)
  · intro h r hr
    obtain ⟨hhead, htail⟩ := recvMsg_queue r.space r.port
    obtain ⟨ret, hcall, hcopied⟩ := perform_receive hr
    constructor
    · intro c hc
      cases hqueue : r.space.queueOf r.port with
      | nil =>
        rw [hqueue] at hhead
        rw [Receive.copies, hhead] at hc
        exact nomatch hc
      | cons msg rest =>
        have hfits := h r msg rest hr hqueue
        rw [hqueue] at hhead
        rw [Receive.copies, hhead] at hc
        exact (receiveCopies_inside_iff msg r.rcvSize).mpr (by omega) c hc
    · intro msg rest hqueue
      have hfits := h r msg rest hr hqueue
      rw [hqueue] at hhead htail
      rw [hhead] at hcopied
      refine ⟨ret, congrArg Prod.snd hcall, .inl ⟨hcopied.1, ⟨_, hcopied.2, ?_⟩, ?_⟩⟩
      · exact (deliver_whole_iff r.buffer msg (by omega)).mpr hfits
      · have hafter : (portSystem.event s call).after = (r.space.recvMsg r.port).1 :=
          congrArg Prod.fst hcall
        rw [hafter]
        exact htail

/-- **A receive stays in the buffer and loses nothing just when the message fits.** -/
theorem receive_contained_iff (calls : List Call) :
    ∀ e ∈ portSystem.events .new calls, ReceiveContained e ↔ MessageFits e :=
  System.along_of_forall (P := fun e => ReceiveContained e ↔ MessageFits e) step_contained_iff
    PortSpace.new calls

/-- A message for the first port there is. -/
def toFirst : MsgBuffer := ⟨⟨0, 0, 0x1000, 0, 0, 0⟩, fun _ => 0⟩

/-- A port with that message in its queue. -/
def oneQueued : List Call := [⟨0, .portAllocate MACH_PORT_RIGHT_RECEIVE⟩,
  ⟨0, .machMsg (some toFirst) MACH_SEND_MSG 32 0 0⟩]

theorem receive_contained_iff_queued :
    let e := portSystem.event (portSystem.run .new oneQueued)
      ⟨0, .machMsg (some toFirst) MACH_RCV_MSG 0 32 0x1000⟩
    ReceiveContained e ↔ MessageFits e :=
  receive_contained_iff (oneQueued ++ [⟨0, .machMsg (some toFirst) MACH_RCV_MSG 0 32 0x1000⟩]) _
    (.tail _ (.tail _ (.head _)))

/-- Eight bytes of body, received into a buffer with room for none, are lost. -/
theorem receive_cuts : ¬ ∀ calls, ∀ e ∈ portSystem.events .new calls, ReceiveContained e := by
  intro h
  have hrun := h (oneQueued ++ [⟨0, .machMsg (some toFirst) MACH_RCV_MSG 0 24 0x1000⟩])
  obtain ⟨-, hrun⟩ := System.along_cons.mp hrun
  obtain ⟨-, hrun⟩ := System.along_cons.mp hrun
  obtain ⟨hlast, -⟩ := System.along_cons.mp hrun
  have hfits := (step_contained_iff _ _).mp hlast _ (outgoing toFirst 32) [] rfl rfl
  exact absurd hfits (by decide)

end Grafted.Dyld.MachIpc
