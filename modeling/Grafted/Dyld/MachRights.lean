import Mathlib.Algebra.Group.Nat.Defs
import Grafted.Dyld.MachMessages

/-! Rights.

Every way an entry can come to be what it is after a call is a case of `Became`. From
it, no entry is without a right in a run that is too short for a count to wrap, so that
all operations agree on which names there are (`entries_carry_rights`). -/
namespace Grafted.Dyld.MachIpc
open Transition PortSpace

/-! ### What an entry was -/

/-- How the call makes the entry of `name` what it is after it. -/
inductive Became (s : PortSpace) : Op → PortName → Port → Prop where
  | same {op : Op} {name : PortName} {port : Port} : s.ports name = some port → Became s op name port
  | allocated {right : BitVec 32} {port : Port} : s.nextName + 1 ≤ 0xFFFFFFFE →
    portFor right = some port → Became s (.portAllocate right) s.nextName port
  | inserted {name poly polyType : BitVec 32} {port : Port} : s.ports name = none →
    createdBy polyType = some port → Became s (.portInsertRight name poly polyType) name port
  | lowered {name : PortName} {port : Port} : s.ports name = some port → 0 < port.sendCount →
    Port.unused {port with sendCount := port.sendCount - 1} = false →
    Became s (.portDeallocate name) name {port with sendCount := port.sendCount - 1}
  | raised {name poly polyType : BitVec 32} {port : Port} : s.ports name = some port →
    Became s (.portInsertRight name poly polyType) name {port with sendCount := port.sendCount + 1}
  | receiving {name poly : BitVec 32} {port : Port} : s.ports name = some port →
    Became s (.portInsertRight name poly MACH_MSG_TYPE_MOVE_RECEIVE) name {port with hasReceive := true}
  | modified {name right delta : BitVec 32} {port : Port} : s.ports name = some port →
    Port.unused (PortSpace.modified port right delta) = false →
    Became s (.portModRefs name right delta) name (PortSpace.modified port right delta)
  /-- A dead name only loses messages. -/
  | messages {msg : Option MsgBuffer} {option sendSize rcvSize rcvName : BitVec 32} {name : PortName}
    {port : Port} {queue : List MachMessage} : s.ports name = some port →
    (port.isDead = true → queue <:+ port.queue) →
    Became s (.machMsg msg option sendSize rcvSize rcvName) name {port with queue := queue}

/-- An entry of the table after one was set. -/
theorem set_entry {s : PortSpace} {name n : PortName} {entry : Option Port} {port : Port}
    (h : (s.set name entry).ports n = some port) :
    (n = name ∧ entry = some port) ∨ s.ports n = some port := by
  by_cases hn : n = name
  · subst hn
    rw [set_same] at h
    exact .inl ⟨rfl, h⟩
  · rw [set_other s entry hn] at h
    exact .inr h

section Steps
variable {s : PortSpace} {n : PortName} {port' : Port}

/-- Of the entries after one was set, only that one needs a reason. -/
theorem set_became {op : Op} {name : PortName} {entry : Option Port}
    (h : (s.set name entry).ports n = some port')
    (hset : entry = some port' → Became s op name port') : Became s op n port' := by
  rcases set_entry h with ⟨rfl, hentry⟩ | hsame
  · exact hset hentry
  · exact .same hsame

theorem allocate_became {right : BitVec 32} (h : (s.allocate right).1.ports n = some port') :
    Became s (.portAllocate right) n port' := by
  unfold allocate at h
  by_cases hspace : 0xFFFFFFFE < s.nextName + 1
  · simp only [if_pos hspace] at h
    exact .same h
  · simp only [if_neg hspace] at h
    cases hport : portFor right with
    | none =>
      rw [hport] at h
      exact .same h
    | some port =>
      rw [hport] at h
      refine set_became h fun hentry => ?_
      cases hentry
      exact .allocated (BitVec.not_lt.mp hspace) hport

theorem deallocate_became {name : PortName} (h : (s.deallocate name).1.ports n = some port') :
    Became s (.portDeallocate name) n port' := by
  unfold deallocate at h
  cases hport : s.ports name with
  | none =>
    rw [hport] at h
    exact .same h
  | some port =>
    rw [hport] at h
    refine set_became h fun hentry => ?_
    by_cases hpos : 0 < port.sendCount
    · simp only [if_pos hpos] at hentry
      split_ifs at hentry with hunused
      cases hentry
      exact .lowered hport hpos (Bool.eq_false_iff.mpr hunused)
    · simp only [if_neg hpos] at hentry
      split_ifs at hentry
      cases hentry
      exact .same hport

theorem insertRight_became {name poly polyType : BitVec 32}
    (h : (s.insertRight name poly polyType).1.ports n = some port') :
    Became s (.portInsertRight name poly polyType) n port' := by
  unfold insertRight at h
  cases hport : s.ports name with
  | none =>
    rw [hport] at h
    cases hcreated : createdBy polyType with
    | none =>
      rw [hcreated] at h
      exact .same h
    | some port =>
      rw [hcreated] at h
      refine set_became h fun hentry => ?_
      cases hentry
      exact .inserted hport hcreated
  | some port =>
    rw [hport] at h
    dsimp only at h
    split_ifs at h with hmake hmove hreceive
    · refine set_became h fun hentry => ?_
      cases hentry
      exact .raised hport
    · refine set_became h fun hentry => ?_
      cases hentry
      exact .raised hport
    · refine set_became h fun hentry => ?_
      cases hentry
      rw [hreceive]
      exact .receiving hport
    · exact .same h
    · exact .same h

theorem modRefs_became {name right delta : BitVec 32}
    (h : (s.modRefs name right delta).1.ports n = some port') :
    Became s (.portModRefs name right delta) n port' := by
  unfold modRefs at h
  cases hport : s.ports name with
  | none =>
    rw [hport] at h
    exact .same h
  | some port =>
    rw [hport] at h
    refine set_became h fun hentry => ?_
    split_ifs at hentry with hunused
    cases hentry
    exact .modified hport (Bool.eq_false_iff.mpr hunused)

/-- What a send or a receive makes of an entry: another queue. -/
def Requeued (s s' : PortSpace) : Prop :=
  ∀ n port', s'.ports n = some port' → ∃ port, s.ports n = some port ∧
    ∃ queue, port' = {port with queue := queue} ∧ (port.isDead = true → queue <:+ port.queue)

theorem Requeued.refl (s : PortSpace) : Requeued s s :=
  fun _ port' h => ⟨port', h, port'.queue, rfl, fun _ => List.suffix_rfl⟩

theorem Requeued.trans {s s' s'' : PortSpace} (h : Requeued s s') (h' : Requeued s' s'') :
    Requeued s s'' := by
  intro n port'' hport''
  obtain ⟨port', hport', queue', rfl, hsuffix'⟩ := h' n port'' hport''
  obtain ⟨port, hport, queue, rfl, hsuffix⟩ := h n port' hport'
  exact ⟨port, hport, queue', rfl, fun hdead => (hsuffix' hdead).trans (hsuffix hdead)⟩

theorem Requeued.set {name : PortName} {port : Port} {queue : List MachMessage}
    (hport : s.ports name = some port) (hsuffix : port.isDead = true → queue <:+ port.queue) :
    Requeued s (s.set name (some {port with queue := queue})) := by
  intro m port'' h
  rcases set_entry h with ⟨rfl, hentry⟩ | hsame
  · cases hentry
    exact ⟨port, hport, queue, rfl, hsuffix⟩
  · exact Requeued.refl s m port'' hsame

theorem sendMsg_requeued (s : PortSpace) (dest : PortName) (msg : MachMessage) :
    Requeued s (s.sendMsg dest msg).1 := by
  unfold sendMsg
  cases hport : s.ports dest with
  | none => exact .refl s
  | some port =>
    dsimp only
    split_ifs with hdead
    · exact .refl s
    · exact .set hport fun h => absurd h hdead

theorem recvMsg_requeued (s : PortSpace) (name : PortName) : Requeued s (s.recvMsg name).1 := by
  rcases recvMsg_cases s name with ⟨port, msg, rest, hport, hqueue, -, hset⟩ | ⟨-, hset⟩
  · rw [hset]
    refine .set hport fun _ => ?_
    rw [hqueue]
    exact List.suffix_cons msg rest
  · rw [hset]
    exact .refl s

theorem receivePhase_requeued (s : PortSpace) (buffer : MsgBuffer)
    (option rcvSize rcvName : BitVec 32) (sent : Option (PortName × MachMessage)) :
    Requeued s (receivePhase s buffer option rcvSize rcvName sent).1 := by
  rcases receivePhase_cases s buffer option rcvSize rcvName sent with
    ⟨-, h⟩ | ⟨-, msg, -, h⟩ | ⟨-, -, h⟩ <;> rw [h]
  · exact .refl s
  · exact recvMsg_requeued s _
  · exact recvMsg_requeued s _

theorem machMsg_requeued (s : PortSpace) (msg : Option MsgBuffer)
    (option sendSize rcvSize rcvName : BitVec 32) :
    Requeued s (machMsg s msg option sendSize rcvSize rcvName).1 := by
  cases msg with
  | none => exact .refl s
  | some buffer =>
    have hsend := sendMsg_requeued s buffer.header.msghRemotePort (outgoing buffer sendSize)
    rcases machMsg_cases s buffer option sendSize rcvSize rcvName with
      ⟨-, h⟩ | ⟨-, -, h⟩ | ⟨-, -, h⟩
    · rw [h]
      exact receivePhase_requeued s buffer option rcvSize rcvName none
    · rw [h]
      exact hsend
    · rw [h]
      exact hsend.trans (receivePhase_requeued _ buffer option rcvSize rcvName _)

/-- Every entry after a call is a case of `Became`. -/
theorem perform_became {op : Op} (h : (perform s op).1.ports n = some port') : Became s op n port' := by
  cases op with
  | portAllocate right => exact allocate_became h
  | portDeallocate name => exact deallocate_became h
  | portInsertRight name poly polyType => exact insertRight_became h
  | portModRefs name right delta => exact modRefs_became h
  | portType name => exact .same h
  | machMsg msg option sendSize rcvSize rcvName =>
    obtain ⟨port, hport, queue, rfl, hsuffix⟩ :=
      machMsg_requeued s msg option sendSize rcvSize rcvName n port' h
    exact .messages hport hsuffix

end Steps

/-! ### No entry without a right -/

/-- Every entry has a right, and no count has come near its end in `n` calls. -/
def Counted (n : Nat) (s : PortSpace) : Prop :=
  ∀ name port, s.ports name = some port → port.unused = false ∧ port.sendCount.toNat < 2 ^ 31 + n

theorem unused_eq_false {port : Port} :
    port.unused = false ↔ 0 < port.sendCount ∨ port.hasReceive = true := by
  have hcount : port.sendCount ≠ 0 ↔ 0 < port.sendCount := by
    constructor
    · intro h
      bv_omega
    · intro h heq
      rw [heq] at h
      exact absurd h (by decide)
  rw [← hcount]
  cases hreceive : port.hasReceive <;> simp [Port.unused, hreceive]

theorem set_special {s : PortSpace} {name n : PortName}
    (hs : ∀ port, s.ports n = some port → port = .newWithSendReceive) (port : Port)
    (h : (s.set name (some .newWithSendReceive)).ports n = some port) :
    port = .newWithSendReceive := by
  rcases set_entry h with ⟨-, h⟩ | h
  · exact (Option.some.inj h).symm
  · exact hs port h

/-- The special ports are all the initial space has. -/
theorem new_special {name : PortName} {port : Port} (h : PortSpace.new.ports name = some port) :
    port = .newWithSendReceive := by
  unfold PortSpace.new at h
  refine set_special (set_special (set_special (set_special (set_special ?_)))) port h
  exact fun _ hnone => nomatch hnone

theorem counted_new : Counted 0 .new := by
  intro name port hport
  rw [new_special hport]
  decide

theorem portFor_count {right : BitVec 32} {port : Port} (h : portFor right = some port) :
    port.unused = false ∧ port.sendCount.toNat < 2 ^ 31 := by
  unfold portFor at h
  split_ifs at h
  all_goals cases h
  all_goals decide

theorem createdBy_count {polyType : BitVec 32} {port : Port} (h : createdBy polyType = some port) :
    port.unused = false ∧ port.sendCount.toNat < 2 ^ 31 := by
  unfold createdBy at h
  split_ifs at h
  all_goals cases h
  all_goals decide

theorem modified_count (port : Port) (right delta : BitVec 32) :
    (modified port right delta).sendCount = port.sendCount ∨
      (modified port right delta).sendCount.toNat < 2 ^ 31 := by
  unfold modified
  split_ifs
  · right
    dsimp only
    split_ifs with hneg
    · exact (by decide : (0 : BitVec 32).toNat < 2 ^ 31)
    · have hnonneg : ¬ (port.sendCount + delta).toInt < 0 := by
        rw [BitVec.slt_iff_toInt_lt] at hneg
        exact hneg
      rw [BitVec.toInt_eq_toNat_cond] at hnonneg
      dsimp only
      omega
  · exact .inl rfl
  · exact .inl rfl
  · exact .inl rfl

theorem counted_step {n : Nat} (hn : n + 1 < 2 ^ 31) {s : PortSpace} (h : Counted n s) (call : Call) :
    Counted (n + 1) (portSystem.step s call).1 := by
  intro name after hafter
  obtain ⟨caller, op⟩ := call
  cases perform_became hafter with
  | same hport =>
    obtain ⟨hright, hsmall⟩ := h name after hport
    exact ⟨hright, by omega⟩
  | allocated _ hmade =>
    obtain ⟨hright, hsmall⟩ := portFor_count hmade
    exact ⟨hright, by omega⟩
  | inserted _ hmade =>
    obtain ⟨hright, hsmall⟩ := createdBy_count hmade
    exact ⟨hright, by omega⟩
  | lowered hport hpos hunused =>
    obtain ⟨-, hsmall⟩ := h _ _ hport
    refine ⟨hunused, ?_⟩
    show (_ - 1 : BitVec 32).toNat < _
    bv_omega
  | @raised _ _ _ port hport =>
    obtain ⟨-, hsmall⟩ := h _ _ hport
    have hraised : (port.sendCount + 1).toNat = port.sendCount.toNat + 1 := by
      bv_omega
    refine ⟨unused_eq_false.mpr (.inl ?_), ?_⟩
    · show 0 < port.sendCount + 1
      bv_omega
    · show (port.sendCount + 1).toNat < _
      omega
  | receiving hport =>
    obtain ⟨-, hsmall⟩ := h _ _ hport
    exact ⟨unused_eq_false.mpr (.inr rfl), Nat.lt_of_lt_of_le hsmall (by omega)⟩
  | @modified _ right delta port hport hunused =>
    obtain ⟨-, hsmall⟩ := h _ _ hport
    refine ⟨hunused, ?_⟩
    rcases modified_count port right delta with hsame | hless
    · rw [hsame]
      omega
    · omega
  | messages hport _ =>
    obtain ⟨hright, hsmall⟩ := h _ _ hport
    exact ⟨hright, Nat.lt_of_lt_of_le hsmall (by omega)⟩

theorem counted_run {n : Nat} {s : PortSpace} (h : Counted n s) {calls : List Call}
    (hlen : n + calls.length < 2 ^ 31) : Counted (n + calls.length) (portSystem.run s calls) := by
  induction calls generalizing n s with
  | nil => exact h
  | cons call rest ih =>
    rw [List.length_cons] at hlen
    have hstep := counted_step (by omega) h call
    have hrest := ih hstep (by omega)
    rw [List.length_cons, Nat.add_comm rest.length 1, ← Nat.add_assoc]
    exact hrest

/-- What the operations answer for a name, in the table or not. A send-once right needs
the name and changes nothing. -/
structure Answers (s : PortSpace) (name : PortName) : Prop where
  live : s.Live name →
    (∃ ptype, ptype ≠ 0 ∧ (perform s (.portType name)).2 = .type KERN_SUCCESS ptype) ∧
    (s.deallocate name).2 = KERN_SUCCESS ∧
    (∀ right delta, (s.modRefs name right delta).2 = KERN_SUCCESS) ∧
    ∀ poly, (s.insertRight name poly MACH_MSG_TYPE_MAKE_SEND_ONCE).2 = KERN_SUCCESS
  dead : ¬ s.Live name →
    (perform s (.portType name)).2 = .type KERN_INVALID_NAME 0 ∧
    (s.deallocate name).2 = KERN_INVALID_NAME ∧
    (∀ right delta, (s.modRefs name right delta).2 = KERN_INVALID_NAME) ∧
    ∀ poly, (s.insertRight name poly MACH_MSG_TYPE_MAKE_SEND_ONCE).2 = KERN_INVALID_ARGUMENT

/-- An entry with a right has a type. -/
theorem portType_ne_zero {s : PortSpace} {name : PortName} {port : Port}
    (hport : s.ports name = some port) (h : port.unused = false) : s.portType name ≠ 0 := by
  unfold portType
  rw [hport]
  dsimp only
  rcases unused_eq_false.mp h with hsend | hreceive
  · rw [if_pos hsend]
    cases port.hasReceive <;> cases port.isDead <;> decide
  · rw [if_pos hreceive]
    by_cases hsend : 0 < port.sendCount
    · rw [if_pos hsend]
      cases port.isDead <;> decide
    · rw [if_neg hsend]
      cases port.isDead <;> decide

theorem answers {s : PortSpace} {name : PortName}
    (h : ∀ port, s.ports name = some port → port.unused = false) : Answers s name := by
  constructor
  · intro hlive
    obtain ⟨port, hport⟩ := Option.ne_none_iff_exists'.mp hlive
    have htype := portType_ne_zero hport (h port hport)
    refine ⟨⟨s.portType name, htype, ?_⟩, ?_, fun right delta => ?_, fun poly => ?_⟩
    · exact if_neg htype
    · simp only [deallocate, hport]
    · simp only [modRefs, hport]
    · simp only [insertRight, hport]
      rfl
  · intro hdead
    have hnone : s.ports name = none := not_not.mp hdead
    refine ⟨?_, ?_, fun right delta => ?_, fun poly => ?_⟩
    · simp only [perform, portType, hnone, if_true]
    · simp only [deallocate, hnone]
    · simp only [modRefs, hnone]
    · simp only [insertRight, hnone]
      rfl

/-- **No entry is without a right.** In a run of fewer than 2^31 calls every entry has
a send right or the receive right, so `port_type` and the operations that need a name
agree on which names there are. -/
theorem entries_carry_rights (calls : List Call) (hlen : calls.length < 2 ^ 31) :
    (∀ name port, (portSystem.run .new calls).ports name = some port →
      0 < port.sendCount ∨ port.hasReceive = true) ∧
    ∀ name, Answers (portSystem.run .new calls) name := by
  have hcounted : Counted (0 + calls.length) (portSystem.run .new calls) :=
    counted_run counted_new (by omega)
  have hright : ∀ name port, (portSystem.run .new calls).ports name = some port →
      port.unused = false := fun name port hport => (hcounted name port hport).1
  exact ⟨fun name port hport => unused_eq_false.mp (hright name port hport),
    fun name => answers (hright name)⟩

/-- The task port after its send right is given back: the receive right is left. -/
theorem entries_carry_rights_task_self : Answers
    (portSystem.run .new [⟨0, .portDeallocate SPECIAL_PORT_TASK_SELF⟩]) SPECIAL_PORT_TASK_SELF :=
  (entries_carry_rights [⟨0, .portDeallocate SPECIAL_PORT_TASK_SELF⟩] (by decide)).2 _

end Grafted.Dyld.MachIpc
