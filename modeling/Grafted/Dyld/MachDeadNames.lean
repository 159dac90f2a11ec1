import Grafted.Dyld.MachRights

/-! Dead names.

A send asks for an entry that is not dead and a receive for a message; neither asks for
the receive right, and only an allocation of a dead name marks an entry dead. As long as
no call leaves a name with send rights alone (`Grounded`) the two cannot tell, and a name
whose receive right is dropped is dead. The first call that does leave one is followed by
a send that should have failed (`rights_obeyed`). -/
namespace Grafted.Dyld.MachIpc
open Transition PortSpace

/-- The entry of `p` is there with the receive right. -/
def HasReceive (s : PortSpace) (p : PortName) : Prop :=
  ∃ port, s.ports p = some port ∧ port.hasReceive = true

/-- A call takes a message from `p`, or queues one there, only while the receive right
for `p` exists. -/
structure Obeys (p : PortName) (e : PortEvent) : Prop where
  receive : receivedFrom p e ≠ [] → HasReceive e.before p
  send : sentTo p e ≠ [] → HasReceive e.before p

/-- What a dead name is to the calls. -/
structure DeadName (s : PortSpace) (p : PortName) : Prop where
  reported : s.portType p &&& (1 <<< 20) ≠ 0
  discarded : s.queueOf p = []
  refused : ∀ (buffer : MsgBuffer) (option sendSize rcvSize rcvName : BitVec 32),
    option &&& MACH_SEND_MSG ≠ 0 → buffer.header.msghRemotePort = p →
    (MachIpc.machMsg s (some buffer) option sendSize rcvSize rcvName).2.code = MACH_SEND_INVALID_DEST

/-- The call drops the receive right for `p` and leaves send rights. -/
structure Drops (p : PortName) (e : PortEvent) : Prop where
  drop : ∃ delta, e.action.op = .portModRefs p MACH_PORT_RIGHT_RECEIVE delta ∧ delta.slt 0 = true
  before : HasReceive e.before p
  after : e.after.Live p

/-- The types `insert_right` counts as a send right. -/
def IsSend (polyType : BitVec 32) : Prop :=
  polyType = MACH_MSG_TYPE_MAKE_SEND ∨ polyType = MACH_MSG_TYPE_COPY_SEND ∨
    polyType = MACH_MSG_TYPE_MOVE_SEND

/-- The call leaves no name with send rights alone: it allocates no send right, inserts
none under a name that is not in the table, and does not drop the receive right of an
entry with send rights, unless it is dead. -/
def Grounded (e : PortEvent) : Prop :=
  match e.action.op with
  | .portAllocate right => right = MACH_PORT_RIGHT_SEND → 0xFFFFFFFE < e.before.nextName + 1
  | .portInsertRight name _ polyType => IsSend polyType → e.before.Live name
  | .portModRefs name right delta => right = MACH_PORT_RIGHT_RECEIVE → delta.slt 0 = true →
    ∀ port, e.before.ports name = some port → port.hasReceive = true → 0 < port.sendCount →
      port.isDead = true
  | _ => True

/-- An entry without the receive right is dead, and nothing is queued on a dead one. -/
def Held (s : PortSpace) : Prop :=
  ∀ name port, s.ports name = some port →
    (port.hasReceive = true ∨ port.isDead = true) ∧ (port.isDead = true → port.queue = [])

/-- The entry of `p` is there with send rights alone, and not dead. -/
def Orphan (s : PortSpace) (p : PortName) : Prop :=
  ∃ port, s.ports p = some port ∧ port.hasReceive = false ∧ port.isDead = false

/-! ### The step -/

theorem held_new : Held .new := by
  intro name port hport
  rw [new_special hport]
  decide

theorem portFor_held {right : BitVec 32} {port : Port} (h : portFor right = some port)
    (hsend : right ≠ MACH_PORT_RIGHT_SEND) :
    (port.hasReceive = true ∨ port.isDead = true) ∧ (port.isDead = true → port.queue = []) := by
  unfold portFor at h
  rw [if_neg hsend] at h
  split_ifs at h
  all_goals cases h
  all_goals decide

theorem createdBy_held {polyType : BitVec 32} {port : Port} (h : createdBy polyType = some port)
    (hsend : ¬ IsSend polyType) :
    (port.hasReceive = true ∨ port.isDead = true) ∧ (port.isDead = true → port.queue = []) := by
  unfold createdBy at h
  unfold IsSend at hsend
  rw [if_neg hsend] at h
  split_ifs at h
  cases h
  decide

/-- What `mod_refs` leaves of the flags: it can only drop the receive right. -/
theorem modified_flags (port : Port) (right delta : BitVec 32) :
    (modified port right delta).isDead = port.isDead ∧
    ((modified port right delta).hasReceive = port.hasReceive ∨
      (right = MACH_PORT_RIGHT_RECEIVE ∧ delta.slt 0 = true ∧
        modified port right delta = {port with hasReceive := false})) := by
  unfold modified
  split_ifs with hsend hreceive hneg
  · dsimp only
    split_ifs <;> exact ⟨rfl, .inl rfl⟩
  · exact ⟨rfl, .inr ⟨hreceive, hneg, rfl⟩⟩
  · exact ⟨rfl, .inl rfl⟩
  · exact ⟨rfl, .inl rfl⟩

theorem held_step (s : PortSpace) (call : Call) (h : Held s)
    (hgrounded : Grounded (portSystem.event s call)) : Held (portSystem.step s call).1 := by
  intro name after hafter
  obtain ⟨caller, op⟩ := call
  cases perform_became hafter with
  | same hport => exact h _ _ hport
  | allocated hspace hmade =>
    exact portFor_held hmade fun hsend => absurd (hgrounded hsend) (BitVec.not_lt.mpr hspace)
  | inserted hnone hmade =>
    exact createdBy_held hmade fun hsend => hgrounded hsend hnone
  | lowered hport _ _ =>
    obtain ⟨hflag, hqueue⟩ := h _ _ hport
    exact ⟨hflag, hqueue⟩
  | raised hport =>
    obtain ⟨hflag, hqueue⟩ := h _ _ hport
    exact ⟨hflag, hqueue⟩
  | receiving hport => exact ⟨.inl rfl, (h _ _ hport).2⟩
  | @modified _ right delta port hport hunused =>
    obtain ⟨hflag, hqueue⟩ := h _ _ hport
    obtain ⟨hdead, hkept | ⟨hright, hneg, hdropped⟩⟩ := modified_flags port right delta
    · rw [hdead, hkept, modified_queue]
      exact ⟨hflag, hqueue⟩
    · -- the entry stays, so its send rights do
      have hcount : 0 < port.sendCount := by
        rw [hdropped, unused_eq_false] at hunused
        rcases hunused with hcount | hfalse
        · exact hcount
        · exact nomatch hfalse
      have hport_dead : port.isDead = true := by
        rcases hflag with hreceive | hport_dead
        · exact hgrounded hright hneg port hport hreceive hcount
        · exact hport_dead
      rw [hdead, modified_queue]
      exact ⟨.inr hport_dead, hqueue⟩
  | messages hport hsuffix =>
    obtain ⟨hflag, hqueue⟩ := h _ _ hport
    refine ⟨hflag, fun hdead => ?_⟩
    have hshort := hsuffix hdead
    rw [hqueue hdead] at hshort
    exact List.suffix_nil.mp hshort

theorem held_run {s : PortSpace} {calls : List Call} (h : Held s)
    (hgrounded : portSystem.Along Grounded s calls) : Held (portSystem.run s calls) :=
  System.Along.run_invariant held_step h hgrounded

/-! ### Sends and receives -/

theorem messageOf_ne_nil {p : PortName} {moved : Option (PortName × MachMessage)}
    (h : messageOf p moved ≠ []) : ∃ msg, moved = some (p, msg) := by
  unfold messageOf at h
  cases moved with
  | none => exact absurd rfl h
  | some pair =>
    obtain ⟨name, msg⟩ := pair
    by_cases hname : name = p
    · exact ⟨msg, by rw [hname]⟩
    · exact absurd (if_neg hname) h

/-- Where nothing is left with send rights alone, a call moves messages only through a
port that has its receive right. -/
theorem held_obeys {s : PortSpace} (h : Held s) (call : Call) (p : PortName) :
    Obeys p (portSystem.event s call) := by
  obtain ⟨caller, op⟩ := call
  have hmsg : ∀ msg option sendSize rcvSize rcvName,
      Obeys p (portSystem.event s ⟨caller, .machMsg msg option sendSize rcvSize rcvName⟩) := by
    intro msg option sendSize rcvSize rcvName
    have hsend : messageOf p (MachIpc.machMsg s msg option sendSize rcvSize rcvName).2.sent ≠ [] →
        HasReceive s p := by
      intro hsent
      obtain ⟨m, hm⟩ := messageOf_ne_nil hsent
      cases msg with
      | none => exact nomatch hm
      | some buffer =>
        obtain ⟨-, -, -, port, hport, hdead⟩ := (sent_iff ..).mp hm
        rcases (h p port hport).1 with hreceive | htrue
        · exact ⟨port, hport, hreceive⟩
        · rw [hdead] at htrue
          exact nomatch htrue
    refine ⟨fun hreceived => ?_, hsend⟩
    by_contra hnot
    -- nothing was queued, and nothing was sent now
    have hempty : s.queueOf p = [] := by
      cases hport : s.ports p with
      | none => simp only [queueOf, hport]
      | some port =>
        rw [queueOf_some hport]
        obtain ⟨hflag, hqueue⟩ := h p port hport
        exact hqueue (hflag.resolve_left fun hreceive => hnot ⟨port, hport, hreceive⟩)
    have haccount := machMsg_account s msg option sendSize rcvSize rcvName p
    dsimp only at haccount
    rw [hempty, not_not.mp (mt hsend hnot)] at haccount
    exact hreceived (List.append_eq_nil_iff.mp haccount.symm).1
  cases op with
  | machMsg msg option sendSize rcvSize rcvName => exact hmsg ..
  | portAllocate right => exact ⟨fun h => absurd rfl h, fun h => absurd rfl h⟩
  | portDeallocate name => exact ⟨fun h => absurd rfl h, fun h => absurd rfl h⟩
  | portInsertRight name poly polyType => exact ⟨fun h => absurd rfl h, fun h => absurd rfl h⟩
  | portModRefs name right delta => exact ⟨fun h => absurd rfl h, fun h => absurd rfl h⟩
  | portType name =>
    obtain ⟨hsent, hreceived⟩ := portType_moves s caller name p
    exact ⟨fun h => absurd hreceived h, fun h => absurd hsent h⟩

/-- A call that is not grounded leaves a name with send rights alone. -/
theorem not_grounded {s : PortSpace} {call : Call} (h : ¬ Grounded (portSystem.event s call)) :
    ∃ p, Orphan (portSystem.step s call).1 p := by
  obtain ⟨caller, op⟩ := call
  cases op with
  | portAllocate right =>
    obtain ⟨hsend, hfull⟩ := Classical.not_imp.mp h
    have hspace : ¬ 0xFFFFFFFE < s.nextName + 1 := hfull
    have hmade : portFor right = some .newSendOnly := by
      rw [hsend]
      rfl
    refine ⟨s.nextName, .newSendOnly, ?_, rfl, rfl⟩
    show (s.allocate right).1.ports s.nextName = _
    simp only [allocate, if_neg hspace, hmade, set_same]
  | portInsertRight name poly polyType =>
    obtain ⟨hsend, hlive⟩ := Classical.not_imp.mp h
    have hnone : s.ports name = none := not_not.mp hlive
    have hmade : createdBy polyType = some .newSendOnly := if_pos hsend
    refine ⟨name, .newSendOnly, ?_, rfl, rfl⟩
    show (s.insertRight name poly polyType).1.ports name = _
    simp only [insertRight, hnone, hmade, set_same]
  | portModRefs name right delta =>
    obtain ⟨hright, h⟩ := Classical.not_imp.mp h
    obtain ⟨hneg, h⟩ := Classical.not_imp.mp h
    obtain ⟨port, h⟩ := Classical.not_forall.mp h
    obtain ⟨hport, h⟩ := Classical.not_imp.mp h
    obtain ⟨-, h⟩ := Classical.not_imp.mp h
    obtain ⟨hcount, hdead⟩ := Classical.not_imp.mp h
    have hentry : s.ports name = some port := hport
    refine ⟨name, {port with hasReceive := false}, ?_, rfl, Bool.eq_false_iff.mpr hdead⟩
    have hunused : Port.unused {port with hasReceive := false} = false :=
      unused_eq_false.mpr (.inl hcount)
    have hmodified : modified port right delta = {port with hasReceive := false} := by
      rw [hright]
      exact if_pos hneg
    show (s.modRefs name right delta).1.ports name = _
    simp only [modRefs, hentry, hmodified, hunused, set_same]
    rfl
  | portDeallocate name => exact absurd trivial h
  | portType name => exact absurd trivial h
  | machMsg msg option sendSize rcvSize rcvName => exact absurd trivial h

/-- A message to `p` that is a header alone. -/
def headerTo (p : PortName) : MsgBuffer := ⟨⟨0, 24, p, 0, 0, 0⟩, fun _ => 0⟩

def sendTo (p : PortName) : Call := ⟨0, .machMsg (some (headerTo p)) MACH_SEND_MSG 24 0 0⟩

/-- A send to a name with send rights alone succeeds. -/
theorem orphan_sends {s : PortSpace} {p : PortName} (h : Orphan s p) :
    ¬ Obeys p (portSystem.event s (sendTo p)) := by
  intro hobeys
  obtain ⟨port, hport, hreceive, hdead⟩ := h
  have hsent := (sent_iff s (headerTo p) MACH_SEND_MSG 24 0 0 p _).mpr
    ⟨by decide, rfl, rfl, port, hport, hdead⟩
  have hmoved : sentTo p (portSystem.event s (sendTo p)) ≠ [] := by
    show messageOf p (MachIpc.machMsg s _ MACH_SEND_MSG 24 0 0).2.sent ≠ []
    rw [hsent, messageOf, if_pos rfl]
    exact List.cons_ne_nil _ _
  obtain ⟨port', hport', hreceive'⟩ := hobeys.send hmoved
  have hsame : port = port' := Option.some.inj (hport.symm.trans hport')
  rw [← hsame, hreceive] at hreceive'
  exact Bool.false_ne_true hreceive'

/-! ### The run -/

/-- A dead entry with an empty queue is a dead name. -/
theorem deadName {s : PortSpace} {p : PortName} {port : Port} (hport : s.ports p = some port)
    (hdead : port.isDead = true) (hqueue : port.queue = []) : DeadName s p := by
  refine ⟨?_, by rw [queueOf_some hport, hqueue], ?_⟩
  · simp only [portType, hport, hdead, if_true]
    cases port.hasReceive <;> by_cases hsend : 0 < port.sendCount
    all_goals simp only [hsend, if_true, if_false, Bool.false_eq_true]
    all_goals decide
  · intro buffer option sendSize rcvSize rcvName hoption hdest
    have hrefused : (s.sendMsg buffer.header.msghRemotePort (outgoing buffer sendSize)).2 =
        MACH_SEND_INVALID_DEST := by
      simp only [PortSpace.sendMsg, hdest, hport, hdead, if_true]
    rcases machMsg_cases s buffer option sendSize rcvSize rcvName with
      ⟨hnone, -⟩ | ⟨-, -, h⟩ | ⟨-, hcode, -⟩
    · exact absurd hoption hnone
    · rw [h, hrefused]
    · rw [hrefused] at hcode
      exact absurd hcode (by decide)

/-- A kept entry that was dead stays dead. -/
theorem dead_kept {s : PortSpace} {call : Call} {p : PortName}
    (hkeep : Keeps p (portSystem.event s call))
    (h : ∀ port, s.ports p = some port → port.isDead = true) :
    ∀ port, (portSystem.step s call).1.ports p = some port → port.isDead = true := by
  intro after hafter
  obtain ⟨caller, op⟩ := call
  cases perform_became hafter with
  | same hport => exact h _ hport
  | @allocated right port hspace hmade =>
    refine absurd ⟨⟨right, rfl⟩, ?_⟩ hkeep.notReplaced
    show Answer.name (s.allocate right).2 = _
    simp only [allocate, if_neg (BitVec.not_lt.mpr hspace), hmade]
  | inserted hnone _ => exact absurd hnone hkeep.before
  | lowered hport _ _ => exact (h _ hport :)
  | raised hport => exact (h _ hport :)
  | receiving hport => exact (h _ hport :)
  | @modified _ right delta port hport _ =>
    rw [(modified_flags port right delta).1]
    exact h _ hport
  | messages hport _ => exact (h _ hport :)

theorem dead_kept_run {s : PortSpace} {calls : List Call} {p : PortName}
    (hkeep : portSystem.Along (Keeps p) s calls)
    (h : ∀ port, s.ports p = some port → port.isDead = true) :
    ∀ port, (portSystem.run s calls).ports p = some port → port.isDead = true := by
  induction calls generalizing s with
  | nil => exact h
  | cons call rest ih =>
    obtain ⟨hcall, hrest⟩ := System.along_cons.mp hkeep
    exact ih hrest (dead_kept hcall h)

theorem kept_live {s : PortSpace} {calls : List Call} {p : PortName}
    (hkeep : portSystem.Along (Keeps p) s calls) (h : s.Live p) : (portSystem.run s calls).Live p := by
  induction calls generalizing s with
  | nil => exact h
  | cons call rest ih =>
    obtain ⟨hcall, hrest⟩ := System.along_cons.mp hkeep
    exact ih hrest hcall.after

/-- A grounded call drops the receive right of an entry with send rights only if it is
dead. -/
theorem drops_dead {s : PortSpace} {call : Call} {p : PortName}
    (hdrops : Drops p (portSystem.event s call)) (hgrounded : Grounded (portSystem.event s call)) :
    ∀ port, (portSystem.step s call).1.ports p = some port → port.isDead = true := by
  intro after hafter
  obtain ⟨⟨delta, hop, hneg⟩, ⟨port, hport, hreceive⟩, -⟩ := hdrops
  obtain ⟨caller, op⟩ := call
  cases hop
  have hentry : s.ports p = some port := hport
  have hmodified : modified port MACH_PORT_RIGHT_RECEIVE delta = {port with hasReceive := false} :=
    if_pos hneg
  have hset : (s.modRefs p MACH_PORT_RIGHT_RECEIVE delta).1.ports p = some after := hafter
  simp only [modRefs, hentry, hmodified, set_same] at hset
  split_ifs at hset with hunused
  cases hset
  have hcount : 0 < port.sendCount := by
    rcases unused_eq_false.mp (Bool.eq_false_iff.mpr hunused) with hcount | hfalse
    · exact hcount
    · exact absurd hfalse Bool.false_ne_true
  exact hgrounded rfl hneg port hport hreceive hcount

/-- The receive right stands behind every message of the run, and a name whose receive
right is dropped while send rights remain dies. -/
structure RightsHold (calls : List Call) : Prop where
  /-- Whenever `mach_msg` is called. -/
  obeyed : ∀ before after, calls = before ++ after → ∀ caller msg option sendSize rcvSize rcvName p,
    Obeys p (portSystem.event (portSystem.run .new before)
      ⟨caller, .machMsg msg option sendSize rcvSize rcvName⟩)
  /-- For as long as its entry is kept. -/
  dies : ∀ p before call during after, calls = before ++ call :: (during ++ after) →
    Drops p (portSystem.event (portSystem.run .new before) call) →
    portSystem.Along (Keeps p) (portSystem.run .new (before ++ [call])) during →
    DeadName (portSystem.run .new (before ++ call :: during)) p

/-- **The receive right stands behind every message** in exactly the runs whose calls are
all grounded. -/
theorem rights_obeyed (calls : List Call) :
    portSystem.Along Grounded .new calls ↔ RightsHold calls := by
  constructor
  · intro hgrounded
    constructor
    · intro before after heq caller msg option sendSize rcvSize rcvName p
      rw [heq, System.along_append] at hgrounded
      exact held_obeys (held_run held_new hgrounded.1) _ p
    · intro p before call during after heq hdrops hkeep
      have hsplit : calls = (before ++ call :: during) ++ after := by
        rw [heq, List.append_assoc, List.cons_append]
      rw [hsplit, System.along_append] at hgrounded
      have hheld := held_run held_new hgrounded.1
      obtain ⟨-, hrest⟩ := System.along_append.mp hgrounded.1
      obtain ⟨hcall, -⟩ := System.along_cons.mp hrest
      rw [System.run_append] at hkeep hheld ⊢
      have hlive : (portSystem.run (portSystem.step (portSystem.run .new before) call).1
          during).Live p := kept_live hkeep hdrops.after
      obtain ⟨port, hport⟩ := Option.ne_none_iff_exists'.mp hlive
      have hdead := dead_kept_run hkeep (drops_dead hdrops hcall) port hport
      exact deadName hport hdead ((hheld p port hport).2 hdead)
  · intro hhold
    by_contra hnot
    obtain ⟨before, call, after, heq, hcall⟩ := System.exists_of_not_along hnot
    obtain ⟨p, horphan⟩ := not_grounded hcall
    have hsplit : calls = (before ++ [call]) ++ after := by
      rw [heq, List.append_assoc]
      rfl
    have hobeys := hhold.obeyed (before ++ [call]) after hsplit 0 (some (headerTo p)) MACH_SEND_MSG 24 0 0 p
    rw [System.run_append] at hobeys
    exact orphan_sends horphan hobeys

/-- The receive right is dropped after a send right was made: the port takes the next
message, and is no dead name. -/
theorem dropped_right_still_sends :
    ∃ before call, Drops 0x1000 (portSystem.event (portSystem.run .new before) call) ∧
      ¬ Obeys 0x1000 (portSystem.event (portSystem.run .new (before ++ [call])) (sendTo 0x1000)) ∧
      ¬ DeadName (portSystem.run .new (before ++ [call])) 0x1000 := by
  refine ⟨[⟨0, .portAllocate MACH_PORT_RIGHT_RECEIVE⟩,
    ⟨0, .portInsertRight 0x1000 0 MACH_MSG_TYPE_MAKE_SEND⟩],
    ⟨0, .portModRefs 0x1000 MACH_PORT_RIGHT_RECEIVE (-1)⟩, ?_, ?_, ?_⟩
  · exact ⟨⟨_, rfl, by decide⟩, ⟨⟨1, true, false, []⟩, rfl, rfl⟩, by decide⟩
  · exact orphan_sends ⟨⟨1, false, false, []⟩, rfl, rfl, rfl⟩
  · exact fun h => h.reported (by decide)

end Grafted.Dyld.MachIpc
