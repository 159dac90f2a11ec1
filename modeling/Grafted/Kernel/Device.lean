import Grafted.Base.CLayout
import Grafted.Base.Ioctl

/-! `/dev/grafted`: the module's ioctls, and the crate that calls them.

The numbers and the record of a trap are declared twice, in C and in Rust. What the crate
sends is what the module expects: a trap comes back with its own number and arguments and the
module's result, and no other byte of the caller changes (`machTrap_answered`). Whatever
number and address a process passes, the module writes only where the number says
(`graftedIoctl_confined`). -/
namespace Grafted.Kernel.Device
open ByteMemory X86 CLayout Ioctl

/-! ### The module -/

/-- `struct grafted_mach_trap` -/
def graftedMachTrap : List Field := [u32, u64, u64, u64, u64, u64, u64, u64]

/-- Where `result` is. -/
def resultOffset : Nat := 56

/-- `'G'` -/
def GRAFTED_IOC_MAGIC : Nat := 0x47
def GRAFTED_IOC_PING : BitVec 32 := ior GRAFTED_IOC_MAGIC 0 8
def GRAFTED_IOC_REGISTER : BitVec 32 := iow GRAFTED_IOC_MAGIC 1 4
def GRAFTED_IOC_UNREGISTER : BitVec 32 := io GRAFTED_IOC_MAGIC 2
def GRAFTED_IOC_MACH_TRAP : BitVec 32 := iowr GRAFTED_IOC_MAGIC 3 (CLayout.sizeOf graftedMachTrap)
def GRAFTED_VERSION : Nat := 0x00010000

def EFAULT : Int := 14
def ENOTTY : Int := 25

/-- What `dispatch_mach_trap` puts into `result`. The sums are of `int`. -/
def dispatchMachTrap (pid : BitVec 32) (trapNumber : Nat) : Word :=
  match trapNumber with
  | 26 => (0x1000 + pid).signExtend 64
  | 27 => (0x2000 + pid).signExtend 64
  | 28 => 1
  | _ => -1

/-- A `copy_to_user` at the end of an arm. -/
def answer (u : UserSpace) (arg : Address) (bytes : List Byte) : UserSpace × Int :=
  ((copyToUser u arg bytes).1, if (copyToUser u arg bytes).2 then 0 else -EFAULT)

def graftedIoctl (pid : BitVec 32) (u : UserSpace) (cmd : BitVec 32) (arg : Address) :
    UserSpace × Int :=
  if cmd = GRAFTED_IOC_PING then answer u arg (bytesLE GRAFTED_VERSION 8)
  else if cmd = GRAFTED_IOC_REGISTER then (u, 0)
  else if cmd = GRAFTED_IOC_UNREGISTER then (u, 0)
  else if cmd = GRAFTED_IOC_MACH_TRAP then
    match copyFromUser u arg (CLayout.sizeOf graftedMachTrap) with
    | none => (u, -EFAULT)
    | some trap =>
      answer u arg (store trap resultOffset 8 (dispatchMachTrap pid (load trap 0 4)).toNat)
  else (u, -ENOTTY)

/-! ### The crate -/

/-- `GraftedMachTrap` -/
structure GraftedMachTrap where
  trapNumber : BitVec 32
  args : Vector Word 6
  result : Word

namespace GraftedMachTrap

/-- `#[repr(C)]`, by the types of the fields. -/
def fields : List Field := u32 :: (List.replicate 6 u64 ++ [u64])

def values (trap : GraftedMachTrap) : List Nat :=
  trap.trapNumber.toNat :: (trap.args.toList.map BitVec.toNat ++ [trap.result.toNat])

/-- A record at an address, its padding what was there. -/
def write (trap : GraftedMachTrap) (u : UserSpace) (a : Address) : UserSpace :=
  u.write a (encodeFrom 0 fields trap.values (readBytes u.memory a (CLayout.sizeOf fields)))

/-- The record there. -/
def readAt (u : UserSpace) (a : Address) : GraftedMachTrap :=
  let bytes := readBytes u.memory a (CLayout.sizeOf fields)
  let word (k : Nat) : Word := BitVec.ofNat 64 ((decodeFrom 0 fields bytes)[k]?.getD 0)
  { trapNumber := BitVec.ofNat 32 ((decodeFrom 0 fields bytes)[0]?.getD 0)
    args := Vector.ofFn fun i => word (i.val + 1)
    result := word 7 }

end GraftedMachTrap

/-- The commands of the `nix` macros. -/
def graftedPing : BitVec 32 := ior 0x47 0 8
def graftedRegister : BitVec 32 := iow 0x47 1 4
def graftedUnregister : BitVec 32 := io 0x47 2
def graftedMachTrapCmd : BitVec 32 := iowr 0x47 3 (CLayout.sizeOf GraftedMachTrap.fields)

section Client
variable (pid : BitVec 32)

/-- A negative result is an error, its number the error. -/
def checked {α : Type} (call : UserSpace × Int) (value : UserSpace → α) :
    UserSpace × Except Int α :=
  (call.1, if call.2 < 0 then .error (-call.2) else .ok (value call.1))

/-- With the address of the local `version`. -/
def ping (u : UserSpace) (version : Address) : UserSpace × Except Int Word :=
  checked (graftedIoctl pid (u.write version (bytesLE 0 8)) graftedPing version)
    fun u => BitVec.ofNat 64 (fromLE (readBytes u.memory version 8))

/-- With the address of the parameter `pid`. -/
def register (u : UserSpace) (param : Address) (value : BitVec 32) : UserSpace × Except Int Unit :=
  checked (graftedIoctl pid (u.write param (bytesLE value.toNat 4)) graftedRegister param)
    fun _ => ()

def unregister (u : UserSpace) : UserSpace × Except Int Unit :=
  checked (graftedIoctl pid u graftedUnregister 0) fun _ => ()

def machTrap (u : UserSpace) (a : Address) (trap : GraftedMachTrap) :
    UserSpace × Except Int GraftedMachTrap :=
  checked (graftedIoctl pid (trap.write u a) graftedMachTrapCmd a) fun u => .readAt u a

end Client

/-! ### What the module writes -/

theorem answer_off {u : UserSpace} {arg x : Address} {bytes : List Byte}
    (hlength : bytes.length ≤ 2 ^ 64) (hx : ¬Within arg bytes.length x) :
    (answer u arg bytes).1.memory x = u.memory x := copyToUser_off hlength hx

theorem answer_result (u : UserSpace) (arg : Address) (bytes : List Byte) :
    (answer u arg bytes).2 = 0 ∨ (answer u arg bytes).2 = -EFAULT := by
  unfold answer
  dsimp only
  split_ifs
  · exact .inl rfl
  · exact .inr rfl

theorem length_copyFromUser {u : UserSpace} {a : Address} {n : Nat} {bytes : List Byte}
    (h : copyFromUser u a n = some bytes) : bytes.length = n := by
  unfold copyFromUser at h
  split_ifs at h
  obtain rfl := Option.some.inj h
  exact length_readBytes u.memory a n

/-- What a call may do with the caller's memory, by its number. -/
structure Confined (cmd : BitVec 32) (arg : Address) (u : UserSpace) (result : UserSpace × Int) :
    Prop where
  range : ∀ x, ¬Within arg (Ioctl.sizeOf cmd) x → result.1.memory x = u.memory x
  direction : directionOf cmd < READ → result.1.memory = u.memory
  answer : result.2 = 0 ∨ result.2 = -EFAULT ∨ (result.2 = -ENOTTY ∧ result.1 = u)

theorem confined_same {cmd : BitVec 32} {arg : Address} {u : UserSpace} {ret : Int}
    (h : ret = 0 ∨ ret = -EFAULT ∨ ret = -ENOTTY) : Confined cmd arg u (u, ret) :=
  ⟨fun _ _ => rfl, fun _ => rfl, h.imp_right fun h' => h'.imp_right fun heq => ⟨heq, rfl⟩⟩

theorem confined_answer {cmd : BitVec 32} {arg : Address} {u : UserSpace} {bytes : List Byte}
    (hsize : Ioctl.sizeOf cmd = bytes.length) (hlength : bytes.length ≤ 2 ^ 64)
    (hread : READ ≤ directionOf cmd) : Confined cmd arg u (answer u arg bytes) := by
  refine ⟨fun x hx => ?_, fun hdirection => ?_, (answer_result u arg bytes).imp_right .inl⟩
  · rw [hsize] at hx
    exact answer_off hlength hx
  · exact absurd hread (Nat.not_le.mpr hdirection)

/-- Whatever a process passes, the module writes only as many bytes as the number of the call
says, and none where the number says that nothing is read. -/
theorem graftedIoctl_confined (pid : BitVec 32) (u : UserSpace) (cmd : BitVec 32) (arg : Address) :
    Confined cmd arg u (graftedIoctl pid u cmd arg) := by
  unfold graftedIoctl
  split_ifs with hping hregister hunregister htrap
  · rw [hping]
    have hbytes : (bytesLE GRAFTED_VERSION 8).length = 8 := length_bytesLE _ 8
    exact confined_answer (hbytes.symm ▸ by decide) (by omega) (by decide)
  · exact confined_same (.inl rfl)
  · exact confined_same (.inl rfl)
  · rw [htrap]
    cases hcopy : copyFromUser u arg (CLayout.sizeOf graftedMachTrap) with
    | none => exact confined_same (.inr (.inl rfl))
    | some trap =>
      have hlength : trap.length = 64 := length_copyFromUser hcopy
      have hstore (n : Nat) : (store trap resultOffset 8 n).length = 64 :=
        (length_store (by rw [hlength]; decide) n).trans hlength
      refine confined_answer ?_ (by rw [hstore]; decide) (by decide)
      rw [hstore]
      decide
  · exact confined_same (.inr (.inr rfl))

/-! ### A trap and its answer -/

namespace GraftedMachTrap

theorem fits_words {words : List Word} {n : Nat} (h : words.length = n) :
    Fits (List.replicate n u64) (words.map BitVec.toNat) := by
  induction words generalizing n with
  | nil =>
    obtain rfl : n = 0 := h.symm
    trivial
  | cons w rest ih =>
    obtain ⟨m, rfl⟩ : ∃ m, n = m + 1 := ⟨rest.length, h.symm⟩
    exact ⟨w.isLt, ih (Nat.succ.inj h)⟩

theorem fits_values (trap : GraftedMachTrap) : Fits fields trap.values := by
  have hwords : (trap.args.toList ++ [trap.result]).length = 7 := by
    rw [List.length_append, Vector.length_toList, List.length_singleton]
  have hrest := fits_words hwords
  rw [List.map_append] at hrest
  exact ⟨trap.trapNumber.isLt, hrest⟩

/-- The record with another result. -/
theorem values_set (trap : GraftedMachTrap) (result : Word) :
    trap.values.set 7 result.toNat = values {trap with result := result} := by
  have hlength : (trap.args.toList.map BitVec.toNat).length = 6 := by
    rw [List.length_map, Vector.length_toList]
  unfold values
  rw [List.set_cons_succ, List.set_append_right _ _ (by omega), hlength]
  rfl

/-- Fields that hold a record's values are the record. -/
theorem readAt_eq {u : UserSpace} {a : Address} {trap : GraftedMachTrap}
    (h : decodeFrom 0 fields (readBytes u.memory a (CLayout.sizeOf fields)) = trap.values) :
    readAt u a = trap := by
  obtain ⟨trapNumber, args, result⟩ := trap
  have hlength : (args.toList.map BitVec.toNat).length = 6 := by
    rw [List.length_map, Vector.length_toList]
  unfold readAt
  dsimp only
  rw [h]
  congr 1
  · show BitVec.ofNat 32 trapNumber.toNat = trapNumber
    rw [BitVec.ofNat_toNat, BitVec.setWidth_eq]
  · refine Vector.ext fun i hi => ?_
    rw [Vector.getElem_ofFn]
    show BitVec.ofNat 64 ((values _)[i + 1]?.getD 0) = args[i]
    unfold values
    dsimp only
    rw [List.getElem?_cons_succ, List.getElem?_append_left (by omega), List.getElem?_map,
      Vector.getElem?_toList, Vector.getElem?_eq_getElem hi]
    show BitVec.ofNat 64 args[i].toNat = args[i]
    rw [BitVec.ofNat_toNat, BitVec.setWidth_eq]
  · show BitVec.ofNat 64 ((values _)[7]?.getD 0) = result
    unfold values
    dsimp only
    rw [List.getElem?_cons_succ, List.getElem?_append_right (by omega), hlength]
    show BitVec.ofNat 64 result.toNat = result
    rw [BitVec.ofNat_toNat, BitVec.setWidth_eq]

end GraftedMachTrap

section Client
open GraftedMachTrap

/-- The bytes the crate writes. -/
def written (trap : GraftedMachTrap) (u : UserSpace) (a : Address) : List Byte :=
  encodeFrom 0 fields trap.values (readBytes u.memory a 64)

theorem endFrom_le (u : UserSpace) (a : Address) :
    endFrom 0 fields ≤ (readBytes u.memory a 64).length := by
  rw [length_readBytes]
  decide

theorem length_written (trap : GraftedMachTrap) (u : UserSpace) (a : Address) :
    (written trap u a).length = 64 :=
  (length_encodeFrom (endFrom_le u a)).trans (length_readBytes u.memory a 64)

theorem readBytes_write (trap : GraftedMachTrap) (u : UserSpace) (a : Address) :
    readBytes (trap.write u a).memory a 64 = written trap u a := by
  have hlength := length_written trap u a
  have hread : readBytes (u.memory.writeBytes a (written trap u a)) a (written trap u a).length =
      written trap u a := Memory.readBytes_writeBytes u.memory a (by omega)
  rw [hlength] at hread
  exact hread

theorem write_off (trap : GraftedMachTrap) (u : UserSpace) {a x : Address} (hx : ¬Within a 64 x) :
    (trap.write u a).memory x = u.memory x := by
  have hlength := length_written trap u a
  have hout : ¬Within a (written trap u a).length x := by
    rw [hlength]
    exact hx
  have hoff : u.memory.writeBytes a (written trap u a) x = u.memory x :=
    Memory.writeBytes_off (by omega) hout
  exact hoff

/-- A trap comes back with the module's result, and nothing else of the caller's memory
changes. -/
theorem machTrap_answered (pid : BitVec 32) {u : UserSpace} {a : Address}
    (h : u.Accessible a 64) (trap : GraftedMachTrap) :
    (machTrap pid u a trap).2 =
        .ok {trap with result := dispatchMachTrap pid trap.trapNumber.toNat} ∧
      ∀ x, ¬Within a 64 x → (machTrap pid u a trap).1.memory x = u.memory x := by
  have hlength := length_written trap u a
  have hdecode : decodeFrom 0 fields (written trap u a) = trap.values :=
    decodeFrom_encodeFrom (endFrom_le u a) trap.fits_values
  have hread := readBytes_write trap u a
  have hwritten : (trap.write u a).Accessible a 64 := h
  generalize written trap u a = bytes at *
  -- the module finds the number the crate put first
  have hnumber : load bytes 0 4 = trap.trapNumber.toNat := (List.cons.inj hdecode).1
  generalize hresult : dispatchMachTrap pid trap.trapNumber.toNat = result
  have hstored : (store bytes resultOffset 8 result.toNat).length = 64 :=
    (length_store (by rw [hlength]; decide) _).trans hlength
  have hcopy : copyToUser (trap.write u a) a (store bytes resultOffset 8 result.toNat) =
      ((trap.write u a).write a (store bytes resultOffset 8 result.toNat), true) :=
    copyToUser_accessible (by omega) fun x hx => (hwritten x (hstored ▸ hx)).2
  have hioctl : graftedIoctl pid (trap.write u a) graftedMachTrapCmd a =
      ((trap.write u a).write a (store bytes resultOffset 8 result.toNat), 0) := by
    have hfrom : copyFromUser (trap.write u a) a (CLayout.sizeOf graftedMachTrap) = some bytes :=
      (copyFromUser_accessible (by decide) hwritten).trans (congrArg some hread)
    have hcmd : graftedIoctl pid (trap.write u a) graftedMachTrapCmd a =
        answer (trap.write u a) a (store bytes resultOffset 8 result.toNat) := by
      unfold graftedIoctl
      rw [if_neg (by decide), if_neg (by decide), if_neg (by decide), if_pos (by decide), hfrom]
      dsimp only
      rw [hnumber, hresult]
    rw [hcmd, answer, hcopy]
    rfl
  have hback : readBytes ((trap.write u a).write a
      (store bytes resultOffset 8 result.toNat)).memory a 64 =
        store bytes resultOffset 8 result.toNat := by
    have hrange : readBytes ((trap.write u a).memory.writeBytes a
        (store bytes resultOffset 8 result.toNat)) a
          (store bytes resultOffset 8 result.toNat).length =
            store bytes resultOffset 8 result.toNat :=
      Memory.readBytes_writeBytes (trap.write u a).memory a (by omega)
    rw [hstored] at hrange
    exact hrange
  unfold machTrap checked
  rw [hioctl]
  refine ⟨?_, fun x hx => ?_⟩
  · show Except.ok (readAt _ a) = _
    congr 1
    refine readAt_eq ?_
    have hend : endFrom 0 fields ≤ bytes.length := by
      rw [hlength]
      decide
    have hset : decodeFrom 0 fields (store bytes resultOffset u64.size result.toNat) =
        (decodeFrom 0 fields bytes).set 7 result.toNat := decodeFrom_store hend rfl rfl result.isLt
    show decodeFrom 0 fields (readBytes _ a 64) = _
    rw [hback, ← trap.values_set result, ← hdecode]
    exact hset
  · show (trap.write u a).memory.writeBytes a _ x = _
    rw [Memory.writeBytes_off (by omega) (by rw [hstored]; exact hx), write_off trap u hx]

/-- The version is read where the module wrote it. -/
theorem ping_answered (pid : BitVec 32) {u : UserSpace} {version : Address}
    (h : u.Accessible version 8) :
    (ping pid u version).2 = .ok (BitVec.ofNat 64 GRAFTED_VERSION) := by
  have hbytes : (bytesLE GRAFTED_VERSION 8).length = 8 := length_bytesLE _ 8
  have hcopy : copyToUser (u.write version (bytesLE 0 8)) version (bytesLE GRAFTED_VERSION 8) =
      ((u.write version (bytesLE 0 8)).write version (bytesLE GRAFTED_VERSION 8), true) :=
    copyToUser_accessible (by omega) fun x hx => (h x (hbytes ▸ hx)).2
  have hioctl : graftedIoctl pid (u.write version (bytesLE 0 8)) graftedPing version =
      ((u.write version (bytesLE 0 8)).write version (bytesLE GRAFTED_VERSION 8), 0) := by
    unfold graftedIoctl
    rw [if_pos (by decide), answer, hcopy]
    rfl
  have hread : readBytes ((u.write version (bytesLE 0 8)).memory.writeBytes version
      (bytesLE GRAFTED_VERSION 8)) version (bytesLE GRAFTED_VERSION 8).length =
        bytesLE GRAFTED_VERSION 8 := Memory.readBytes_writeBytes _ version (by omega)
  unfold ping checked
  rw [hioctl]
  show Except.ok (BitVec.ofNat 64 (fromLE (readBytes _ version 8))) = _
  rw [hbytes] at hread
  have hversion : fromLE (bytesLE GRAFTED_VERSION 8) = GRAFTED_VERSION := fromLE_bytesLE _ 8
  exact congrArg (fun bytes => Except.ok (BitVec.ofNat 64 (fromLE bytes))) hread |>.trans
    (congrArg (fun n => Except.ok (BitVec.ofNat 64 n)) hversion)

end Client

/-- A process whose memory is all its own. -/
def wholeMemory : UserSpace := ⟨fun _ => 0, fun _ => true, fun _ => true⟩

/-- Process 5 asks for its reply port. -/
theorem machTrap_answered_replyPort :
    (machTrap 5 wholeMemory 0x7000 ⟨26, Vector.replicate 6 1, 0⟩).2 =
        .ok ⟨26, Vector.replicate 6 1, dispatchMachTrap 5 26⟩ ∧
      ∀ x, ¬Within 0x7000 64 x →
        (machTrap 5 wholeMemory 0x7000 ⟨26, Vector.replicate 6 1, 0⟩).1.memory x = 0 :=
  machTrap_answered 5 (fun _ _ => ⟨rfl, rfl⟩) ⟨26, Vector.replicate 6 1, 0⟩

end Grafted.Kernel.Device
