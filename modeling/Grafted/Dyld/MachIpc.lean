import Mathlib.Logic.Function.Basic
import Grafted.Base.Transition

/-! Mach IPC: the in-process port namespace and its message queues.

`PortSpace` is the table behind the mutex and its operations are the source's,
one definition each, in a release build: the counters wrap. A call is atomic
under the mutex, so what any number of callers do is a list of `Call`s, and
`portSystem` runs it.

`MsgReturn.sent` and `MsgReturn.received` are what the two phases of `mach_msg`
queued and took, locals of the source function that the statements about
queues speak of. -/
namespace Grafted.Dyld.MachIpc

abbrev PortName := BitVec 32

def MACH_PORT_NULL : PortName := 0
def MACH_PORT_DEAD : PortName := 0xFFFFFFFF

def MACH_PORT_RIGHT_SEND : BitVec 32 := 0
def MACH_PORT_RIGHT_RECEIVE : BitVec 32 := 1
def MACH_PORT_RIGHT_PORT_SET : BitVec 32 := 3
def MACH_PORT_RIGHT_DEAD_NAME : BitVec 32 := 4

def KERN_SUCCESS : Int := 0
def KERN_INVALID_ARGUMENT : Int := 4
def KERN_NO_SPACE : Int := 3
def KERN_INVALID_NAME : Int := 15

def MACH_SEND_MSG : BitVec 32 := 0x00000001
def MACH_RCV_MSG : BitVec 32 := 0x00000002

def MACH_MSG_TYPE_MOVE_RECEIVE : BitVec 32 := 16
def MACH_MSG_TYPE_MOVE_SEND : BitVec 32 := 17
def MACH_MSG_TYPE_MOVE_SEND_ONCE : BitVec 32 := 18
def MACH_MSG_TYPE_COPY_SEND : BitVec 32 := 19
def MACH_MSG_TYPE_MAKE_SEND : BitVec 32 := 20
def MACH_MSG_TYPE_MAKE_SEND_ONCE : BitVec 32 := 21

def MACH_MSG_SUCCESS : Int := 0
def MACH_SEND_INVALID_DEST : Int := 0x10000002
def MACH_RCV_TIMED_OUT : Int := 0x10000003
def MACH_RCV_TOO_LARGE : Int := 0x10000004

def SPECIAL_PORT_TASK_SELF : PortName := 0x103
def SPECIAL_PORT_THREAD_SELF : PortName := 0x203
def SPECIAL_PORT_HOST_SELF : PortName := 0x303
def SPECIAL_PORT_REPLY : PortName := 0x307
def SPECIAL_PORT_BOOTSTRAP : PortName := 0x40b

structure MachMsgHeader where
  msghBits : BitVec 32
  msghSize : BitVec 32
  msghRemotePort : PortName
  msghLocalPort : PortName
  msghVoucherPort : PortName
  msghId : BitVec 32
  deriving DecidableEq

/-- `size_of::<MachMsgHeader>()`. -/
def headerSize : Nat := 24

structure MachMessage where
  header : MachMsgHeader
  /-- Inline body after the header. -/
  body : List (BitVec 8)
  deriving DecidableEq

structure Port where
  sendCount : BitVec 32
  hasReceive : Bool
  isDead : Bool
  queue : List MachMessage

namespace Port

def newWithReceive : Port := ⟨0, true, false, []⟩
def newSendOnly : Port := ⟨1, false, false, []⟩
def newWithSendReceive : Port := ⟨1, true, false, []⟩

/-- No right is left: the entry is dropped. -/
def unused (p : Port) : Bool := p.sendCount == 0 && !p.hasReceive

end Port

/-! ### The port space -/

structure PortSpace where
  ports : PortName → Option Port
  nextName : PortName

namespace PortSpace

/-- `ports.insert` or `ports.remove`. -/
def set (s : PortSpace) (name : PortName) (entry : Option Port) : PortSpace :=
  {s with ports := Function.update s.ports name entry}

@[simp] theorem set_same (s : PortSpace) (name : PortName) (entry : Option Port) :
    (s.set name entry).ports name = entry := Function.update_self ..

@[simp] theorem set_other (s : PortSpace) {name n : PortName} (entry : Option Port) (h : n ≠ name) :
    (s.set name entry).ports n = s.ports n := Function.update_of_ne h ..

@[simp] theorem set_nextName (s : PortSpace) (name : PortName) (entry : Option Port) :
    (s.set name entry).nextName = s.nextName := rfl

/-- User ports start at 0x1000; the special ports are allocated with both rights. -/
def new : PortSpace :=
  let s : PortSpace := ⟨fun _ => none, 0x1000⟩
  let s := s.set SPECIAL_PORT_TASK_SELF (some .newWithSendReceive)
  let s := s.set SPECIAL_PORT_THREAD_SELF (some .newWithSendReceive)
  let s := s.set SPECIAL_PORT_HOST_SELF (some .newWithSendReceive)
  let s := s.set SPECIAL_PORT_REPLY (some .newWithSendReceive)
  s.set SPECIAL_PORT_BOOTSTRAP (some .newWithSendReceive)

/-- The port a right allocates, if the right is one. -/
def portFor (right : BitVec 32) : Option Port :=
  if right = MACH_PORT_RIGHT_RECEIVE then some .newWithReceive
  else if right = MACH_PORT_RIGHT_SEND then some .newSendOnly
  else if right = MACH_PORT_RIGHT_PORT_SET then some .newWithReceive
  else if right = MACH_PORT_RIGHT_DEAD_NAME then some {Port.newSendOnly with isDead := true}
  else none

/-- The counter moves before anything is checked, and nothing asks whether the
name it leaves is in the table. -/
def allocate (s : PortSpace) (right : BitVec 32) : PortSpace × Except Int PortName :=
  let name := s.nextName
  let s := {s with nextName := s.nextName + 1}
  if 0xFFFFFFFE < s.nextName then (s, .error KERN_NO_SPACE)
  else
    match portFor right with
    | some port => (s.set name (some port), .ok name)
    | none => (s, .error KERN_INVALID_ARGUMENT)

def deallocate (s : PortSpace) (name : PortName) : PortSpace × Int :=
  match s.ports name with
  | some port =>
    let port := if 0 < port.sendCount then {port with sendCount := port.sendCount - 1} else port
    (s.set name (if port.unused then none else some port), KERN_SUCCESS)
  | none => (s, KERN_INVALID_NAME)

/-- What `insert_right` puts under a name that is not in the table. -/
def createdBy (polyType : BitVec 32) : Option Port :=
  if polyType = MACH_MSG_TYPE_MAKE_SEND ∨ polyType = MACH_MSG_TYPE_COPY_SEND ∨
      polyType = MACH_MSG_TYPE_MOVE_SEND then some .newSendOnly
  else if polyType = MACH_MSG_TYPE_MOVE_RECEIVE then some .newWithReceive
  else none

def insertRight (s : PortSpace) (name _poly polyType : BitVec 32) : PortSpace × Int :=
  match s.ports name with
  | none =>
    match createdBy polyType with
    | some port => (s.set name (some port), KERN_SUCCESS)
    | none => (s, KERN_INVALID_ARGUMENT)
  | some port =>
    if polyType = MACH_MSG_TYPE_MAKE_SEND ∨ polyType = MACH_MSG_TYPE_COPY_SEND then
      (s.set name (some {port with sendCount := port.sendCount + 1}), KERN_SUCCESS)
    else if polyType = MACH_MSG_TYPE_MOVE_SEND then
      (s.set name (some {port with sendCount := port.sendCount + 1}), KERN_SUCCESS)
    else if polyType = MACH_MSG_TYPE_MOVE_RECEIVE then
      (s.set name (some {port with hasReceive := true}), KERN_SUCCESS)
    else if polyType = MACH_MSG_TYPE_MAKE_SEND_ONCE ∨ polyType = MACH_MSG_TYPE_MOVE_SEND_ONCE then
      (s, KERN_SUCCESS)
    else (s, KERN_INVALID_ARGUMENT)

/-- The port after its references are modified, before it is dropped if unused. -/
def modified (port : Port) (right delta : BitVec 32) : Port :=
  if right = MACH_PORT_RIGHT_SEND then
    let newCount := port.sendCount + delta
    if newCount.slt 0 then {port with sendCount := 0} else {port with sendCount := newCount}
  else if right = MACH_PORT_RIGHT_RECEIVE then
    if delta.slt 0 then {port with hasReceive := false} else port
  else port

def modRefs (s : PortSpace) (name right delta : BitVec 32) : PortSpace × Int :=
  match s.ports name with
  | some port =>
    let port := modified port right delta
    (s.set name (if port.unused then none else some port), KERN_SUCCESS)
  | none => (s, KERN_INVALID_NAME)

def sendMsg (s : PortSpace) (dest : PortName) (msg : MachMessage) : PortSpace × Int :=
  match s.ports dest with
  | some port =>
    if port.isDead then (s, MACH_SEND_INVALID_DEST)
    else (s.set dest (some {port with queue := port.queue ++ [msg]}), MACH_MSG_SUCCESS)
  | none => (s, MACH_SEND_INVALID_DEST)

def recvMsg (s : PortSpace) (name : PortName) : PortSpace × Option MachMessage :=
  match s.ports name with
  | some port =>
    match port.queue with
    | msg :: rest => (s.set name (some {port with queue := rest}), some msg)
    | [] => (s, none)
  | none => (s, none)

/-- The bits of `port_type`: receive, send, dead name. -/
def portType (s : PortSpace) (name : PortName) : BitVec 32 :=
  match s.ports name with
  | some port =>
    (if port.hasReceive then 1 <<< 17 else 0) ||| (if 0 < port.sendCount then 1 <<< 16 else 0) |||
      (if port.isDead then 1 <<< 20 else 0)
  | none => 0

end PortSpace

/-! ### `mach_msg` -/

/-- The caller's message buffer: the header and the bytes after it. -/
structure MsgBuffer where
  header : MachMsgHeader
  bytes : Nat → BitVec 8

structure MsgReturn where
  code : Int
  /-- The buffer as the call leaves it. -/
  buffer : Option MsgBuffer
  sent : Option (PortName × MachMessage)
  received : Option (PortName × MachMessage)

/-- The message the send phase copies out of the caller's buffer. -/
def outgoing (buffer : MsgBuffer) (sendSize : BitVec 32) : MachMessage :=
  ⟨buffer.header, (List.range (sendSize.toNat - headerSize)).map buffer.bytes⟩

/-- The buffer after a message is copied into it. The room for the body is a
`usize` subtraction: below the header's size it wraps. -/
def deliver (buffer : MsgBuffer) (msg : MachMessage) (rcvSize : BitVec 32) : MsgBuffer :=
  let maxBody := (rcvSize.setWidth 64 - BitVec.ofNat 64 headerSize).toNat
  let copyLen := min msg.body.length maxBody
  { header := {msg.header with msghSize := BitVec.ofNat 32 (headerSize + copyLen)}
    bytes := fun i => if i < copyLen then msg.body.getD i 0 else buffer.bytes i }

/-- The receive phase. A combined call receives on the reply port of its header;
an empty queue answers timed out whether or not a timeout was asked for. -/
def receivePhase (s : PortSpace) (buffer : MsgBuffer) (option rcvSize rcvName : BitVec 32)
    (sent : Option (PortName × MachMessage)) : PortSpace × MsgReturn :=
  if option &&& MACH_RCV_MSG ≠ 0 then
    let port := if option &&& MACH_SEND_MSG ≠ 0 then buffer.header.msghLocalPort else rcvName
    match s.recvMsg port with
    | (s, some msg) =>
      (s, ⟨MACH_MSG_SUCCESS, some (deliver buffer msg rcvSize), sent, some (port, msg)⟩)
    | (s, none) => (s, ⟨MACH_RCV_TIMED_OUT, some buffer, sent, none⟩)
  else (s, ⟨MACH_MSG_SUCCESS, some buffer, sent, none⟩)

def machMsg (s : PortSpace) (msg : Option MsgBuffer) (option sendSize rcvSize rcvName : BitVec 32) :
    PortSpace × MsgReturn :=
  match msg with
  | none => (s, ⟨KERN_INVALID_ARGUMENT, none, none, none⟩)
  | some buffer =>
    if option &&& MACH_SEND_MSG ≠ 0 then
      let dest := buffer.header.msghRemotePort
      let (s, ret) := s.sendMsg dest (outgoing buffer sendSize)
      if ret ≠ MACH_MSG_SUCCESS then (s, ⟨ret, some buffer, none, none⟩)
      else receivePhase s buffer option rcvSize rcvName (some (dest, outgoing buffer sendSize))
    else receivePhase s buffer option rcvSize rcvName none

/-! ### Calls -/

inductive Op where
  | portAllocate (right : BitVec 32)
  | portDeallocate (name : PortName)
  | portInsertRight (name poly polyType : BitVec 32)
  | portModRefs (name right delta : BitVec 32)
  | portType (name : PortName)
  | machMsg (msg : Option MsgBuffer) (option sendSize rcvSize rcvName : BitVec 32)

/-- One call, and who makes it: the port space does not ask. -/
structure Call where
  caller : Nat
  op : Op

inductive Answer where
  | name (result : Except Int PortName)
  | code (ret : Int)
  | type (ret : Int) (ptype : BitVec 32)
  | message (ret : MsgReturn)

def perform (s : PortSpace) : Op → PortSpace × Answer
  | .portAllocate right => ((s.allocate right).1, .name (s.allocate right).2)
  | .portDeallocate name => ((s.deallocate name).1, .code (s.deallocate name).2)
  | .portInsertRight name poly polyType =>
    ((s.insertRight name poly polyType).1, .code (s.insertRight name poly polyType).2)
  | .portModRefs name right delta =>
    ((s.modRefs name right delta).1, .code (s.modRefs name right delta).2)
  | .portType name =>
    (s, if s.portType name = 0 then .type KERN_INVALID_NAME 0 else .type KERN_SUCCESS (s.portType name))
  | .machMsg msg option sendSize rcvSize rcvName =>
    let r := machMsg s msg option sendSize rcvSize rcvName
    (r.1, .message r.2)

/-- The port space under its mutex: one call at a time. -/
def portSystem : Transition.System PortSpace Call Answer := ⟨fun s call => perform s call.op⟩

abbrev PortEvent := Transition.Event PortSpace Call Answer

end Grafted.Dyld.MachIpc
