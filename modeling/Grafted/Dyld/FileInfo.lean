import Grafted.Base.Records
import Grafted.Base.Transition

/-! What a process is told of files.

A record of Linux's `stat` is copied field by field into Darwin's, some fields cut. What the
program reads is the record of Linux exactly where nothing was cut off (`stat_told`). Entries of
directories are all copied into one buffer: each stream tells its entries in order, and every
pointer that was handed out reads the entry that was told last (`readdir_told`). -/
namespace Grafted.Dyld.FileInfo
open ByteMemory CLayout Transition Transition.System
open X86 (Within)

/-! ### The source -/

structure Time where
  sec : BitVec 64
  nsec : BitVec 64

/-- `libc::stat` -/
@[ext] structure LinuxStat where
  st_dev : BitVec 64
  st_ino : BitVec 64
  st_nlink : BitVec 64
  st_mode : BitVec 32
  st_uid : BitVec 32
  st_gid : BitVec 32
  st_rdev : BitVec 64
  st_size : BitVec 64
  st_blksize : BitVec 64
  st_blocks : BitVec 64
  st_atime : Time
  st_mtime : Time
  st_ctime : Time

structure DarwinStat where
  st_dev : BitVec 32
  st_mode : BitVec 16
  st_nlink : BitVec 16
  st_ino : BitVec 64
  st_uid : BitVec 32
  st_gid : BitVec 32
  st_rdev : BitVec 32
  pad0 : BitVec 32
  st_atim : Time
  st_mtim : Time
  st_ctim : Time
  st_birthtim : Time
  st_size : BitVec 64
  st_blocks : BitVec 64
  st_blksize : BitVec 32
  st_flags : BitVec 32
  st_gen : BitVec 32
  pad1 : BitVec 32
  reserved : Time

namespace DarwinStat

/-- `#[repr(C)]`, by the types of the fields. -/
def fields : List Field :=
  [u32, u16, u16, u64, u32, u32, u32, u32] ++ List.replicate 8 u64 ++
    [u64, u64, u32, u32, u32, u32, u64, u64]

def values (s : DarwinStat) : List Nat :=
  [s.st_dev.toNat, s.st_mode.toNat, s.st_nlink.toNat, s.st_ino.toNat, s.st_uid.toNat,
    s.st_gid.toNat, s.st_rdev.toNat, s.pad0.toNat, s.st_atim.sec.toNat, s.st_atim.nsec.toNat,
    s.st_mtim.sec.toNat, s.st_mtim.nsec.toNat, s.st_ctim.sec.toNat, s.st_ctim.nsec.toNat,
    s.st_birthtim.sec.toNat, s.st_birthtim.nsec.toNat, s.st_size.toNat, s.st_blocks.toNat,
    s.st_blksize.toNat, s.st_flags.toNat, s.st_gen.toNat, s.pad1.toNat, s.reserved.sec.toNat,
    s.reserved.nsec.toNat]

/-- The record at an address. -/
def readAt (m : Memory) (a : Address) : DarwinStat :=
  let n {w : Nat} (k : Nat) : BitVec w := BitVec.ofNat w ((m.readRecord a fields)[k]?.getD 0)
  ⟨n 0, n 1, n 2, n 3, n 4, n 5, n 6, n 7, ⟨n 8, n 9⟩, ⟨n 10, n 11⟩, ⟨n 12, n 13⟩,
    ⟨n 14, n 15⟩, n 16, n 17, n 18, n 19, n 20, n 21, ⟨n 22, n 23⟩⟩

end DarwinStat

/-- Linux has no time of birth. -/
def linuxToDarwinStat (linux : LinuxStat) : DarwinStat where
  st_dev := linux.st_dev.setWidth 32
  st_mode := linux.st_mode.setWidth 16
  st_nlink := linux.st_nlink.setWidth 16
  st_ino := linux.st_ino
  st_uid := linux.st_uid
  st_gid := linux.st_gid
  st_rdev := linux.st_rdev.setWidth 32
  pad0 := 0
  st_atim := linux.st_atime
  st_mtim := linux.st_mtime
  st_ctim := linux.st_ctime
  st_birthtim := linux.st_ctime
  st_size := linux.st_size
  st_blocks := linux.st_blocks
  st_blksize := linux.st_blksize.setWidth 32
  st_flags := 0
  st_gen := 0
  pad1 := 0
  reserved := ⟨0, 0⟩

/-- `shim_stat`, `shim_fstat` and `shim_lstat`, with what the function of the C library answers
and fills in. -/
def shimStat (libc : BitVec 32 × LinuxStat) (buf : Address) (m : Memory) : BitVec 32 × Memory :=
  if libc.1 = 0 then
    (libc.1, m.writeRecord buf DarwinStat.fields (linuxToDarwinStat libc.2).values)
  else (libc.1, m)

/-- What `libc::readdir` finds: the name is what is before the zero byte. -/
structure LinuxDirent where
  d_ino : BitVec 64
  d_type : BitVec 8
  d_name : List Byte
  name_ok : 0 ∉ d_name

/-- The fields of `DarwinDirent` before the name. -/
def direntFields : List Field := [u64, u64, u16, u16, u8]

/-- How many bytes of a name are copied. -/
def namlen (ent : LinuxDirent) : Nat := min ent.d_name.length 1023

/-- `d_ino`, `d_seekoff`, `d_reclen`, `d_namlen`, `d_type` -/
def direntValues (ent : LinuxDirent) : List Nat :=
  [ent.d_ino.toNat, 0, 21 + namlen ent + 1, namlen ent, ent.d_type.toNat]

/-- With the address of `DARWIN_DIRENT_BUF`, and the entry of `libc::readdir`. -/
def shimReaddir (buf : Address) (linuxEnt : Option LinuxDirent) (m : Memory) : Address × Memory :=
  match linuxEnt with
  | none => (0, m)
  | some ent =>
    let m := m.writeRecord buf direntFields (direntValues ent)
    let m := m.writeBytes (buf + 21) (ent.d_name.take (namlen ent))
    (buf, m.writeByte (buf + 21 + BitVec.ofNat 64 (namlen ent)) 0)

/-! ### Stat -/

namespace DarwinStat

theorem fits_values (s : DarwinStat) : Fits fields s.values :=
  ⟨s.st_dev.isLt, s.st_mode.isLt, s.st_nlink.isLt, s.st_ino.isLt, s.st_uid.isLt, s.st_gid.isLt,
    s.st_rdev.isLt, s.pad0.isLt, s.st_atim.sec.isLt, s.st_atim.nsec.isLt, s.st_mtim.sec.isLt,
    s.st_mtim.nsec.isLt, s.st_ctim.sec.isLt, s.st_ctim.nsec.isLt, s.st_birthtim.sec.isLt,
    s.st_birthtim.nsec.isLt, s.st_size.isLt, s.st_blocks.isLt, s.st_blksize.isLt, s.st_flags.isLt,
    s.st_gen.isLt, s.pad1.isLt, s.reserved.sec.isLt, s.reserved.nsec.isLt, trivial⟩

theorem readAt_writeRecord (m : Memory) (a : Address) (s : DarwinStat) :
    readAt (m.writeRecord a fields s.values) a = s := by
  have hread : (m.writeRecord a fields s.values).readRecord a fields = s.values :=
    Memory.readRecord_writeRecord m a (by decide) s.fits_values
  simp only [readAt, hread]
  simp [values]

/-- What the record says in Linux's types: Darwin's devices and block size are signed. -/
def asLinux (s : DarwinStat) : LinuxStat where
  st_dev := s.st_dev.signExtend 64
  st_ino := s.st_ino
  st_nlink := s.st_nlink.setWidth 64
  st_mode := s.st_mode.setWidth 32
  st_uid := s.st_uid
  st_gid := s.st_gid
  st_rdev := s.st_rdev.signExtend 64
  st_size := s.st_size
  st_blksize := s.st_blksize.signExtend 64
  st_blocks := s.st_blocks
  st_atime := s.st_atim
  st_mtime := s.st_mtim
  st_ctime := s.st_ctim

end DarwinStat

/-- A number that a signed one of 32 bits can be. -/
def InI32 (x : BitVec 64) : Prop := -0x80000000 ≤ x.toInt ∧ x.toInt < 0x80000000

instance (x : BitVec 64) : Decidable (InI32 x) := inferInstanceAs (Decidable (_ ∧ _))

/-- Every field is a number of its field in Darwin's record. -/
structure LinuxStat.InDarwin (s : LinuxStat) : Prop where
  dev : InI32 s.st_dev
  nlink : s.st_nlink.toNat < 2 ^ 16
  mode : s.st_mode.toNat < 2 ^ 16
  rdev : InI32 s.st_rdev
  blksize : InI32 s.st_blksize

theorem signExtend_setWidth (x : BitVec 64) : (x.setWidth 32).signExtend 64 = x ↔ InI32 x := by
  have hint : ((x.setWidth 32).signExtend 64).toInt = x.toInt.bmod (2 ^ 32) := by
    rw [BitVec.toInt_signExtend_of_le (by omega), BitVec.toInt_setWidth, BitVec.toInt_eq_toNat_bmod,
      Int.bmod_bmod_of_dvd (by decide)]
  rw [← BitVec.toInt_inj, hint]
  unfold InI32
  constructor
  · intro h
    have hlow := Int.le_bmod (x := x.toInt) (m := 2 ^ 32) (by decide)
    have hhigh := Int.bmod_lt (x := x.toInt) (m := 2 ^ 32) (by decide)
    omega
  · intro h
    exact Int.bmod_eq_of_le (by omega) (by omega)

theorem setWidth_setWidth_16 {w : Nat} (x : BitVec w) :
    (x.setWidth 16).setWidth w = x ↔ x.toNat < 2 ^ 16 := by
  have hx := x.isLt
  rw [← BitVec.toNat_inj, BitVec.toNat_setWidth, BitVec.toNat_setWidth]
  constructor
  · intro h
    rw [← h]
    exact Nat.lt_of_le_of_lt (Nat.mod_le _ _) (Nat.mod_lt _ (by decide))
  · intro h
    rw [Nat.mod_eq_of_lt h, Nat.mod_eq_of_lt hx]

/-- The translation loses nothing exactly where nothing is cut off. -/
theorem asLinux_linuxToDarwinStat (linux : LinuxStat) :
    (linuxToDarwinStat linux).asLinux = linux ↔ linux.InDarwin := by
  simp only [DarwinStat.asLinux, linuxToDarwinStat, LinuxStat.ext_iff, signExtend_setWidth,
    setWidth_setWidth_16, true_and, and_true]
  constructor
  · rintro ⟨hdev, hnlink, hmode, hrdev, hblksize⟩
    exact ⟨hdev, hnlink, hmode, hrdev, hblksize⟩
  · intro h
    exact ⟨h.dev, h.nlink, h.mode, h.rdev, h.blksize⟩

/-- A call of `stat`, `fstat` or `lstat`, and what the function of the C library does. -/
structure StatCall where
  libc : BitVec 32 × LinuxStat
  buf : Address

def StatCall.block (c : StatCall) : Block := ⟨c.buf, 144⟩

def stats : System Memory StatCall (BitVec 32) where
  step m c := ((shimStat c.libc c.buf m).2, (shimStat c.libc c.buf m).1)

/-- A failed call writes nothing. -/
theorem shimStat_failed {c : StatCall} (h : c.libc.1 ≠ 0) (m : Memory) :
    shimStat c.libc c.buf m = (c.libc.1, m) :=
  if_neg h

theorem shimStat_ok {c : StatCall} (h : c.libc.1 = 0) (m : Memory) :
    shimStat c.libc c.buf m =
      (0, m.writeRecord c.buf DarwinStat.fields (linuxToDarwinStat c.libc.2).values) := by
  unfold shimStat
  rw [if_pos h, h]

theorem readAt_shimStat {c : StatCall} (h : c.libc.1 = 0) (m : Memory) :
    DarwinStat.readAt (shimStat c.libc c.buf m).2 c.buf = linuxToDarwinStat c.libc.2 := by
  simp only [shimStat_ok h, DarwinStat.readAt_writeRecord]

/-- Other memory stays as it was. -/
theorem keeps_stats (m : Memory) {c : StatCall} {b : Block} (hfits : c.block.Fits)
    (hoff : c.libc.1 = 0 → Block.Off c.block b) : m.Keeps (stats.step m c).1 b := by
  by_cases h : c.libc.1 = 0
  · have hlength : (m.recordBytes c.buf DarwinStat.fields
        (linuxToDarwinStat c.libc.2).values).length = 144 := Memory.length_recordBytes ..
    simp only [stats, shimStat_ok h]
    refine Memory.keeps_writeBytes ?_ ?_
    · rw [hlength]
      exact hfits
    · rw [hlength]
      exact hoff h
  · simp only [stats, shimStat_failed h]
    exact Memory.Keeps.refl m b

theorem keeps_run (m : Memory) {calls : List StatCall} {b : Block}
    (hfits : ∀ c ∈ calls, c.block.Fits)
    (hoff : ∀ c ∈ calls, c.libc.1 = 0 → Block.Off c.block b) :
    m.Keeps (stats.run m calls) b := by
  induction calls generalizing m with
  | nil => exact Memory.Keeps.refl m b
  | cons c rest ih =>
    have hfirst := keeps_stats m (hfits c List.mem_cons_self) (hoff c List.mem_cons_self)
    have hrest := ih (stats.step m c).1 (fun c' hc => hfits c' (List.mem_cons_of_mem c hc))
      fun c' hc => hoff c' (List.mem_cons_of_mem c hc)
    exact hfirst.trans hrest

/-- However many calls come before and after, as long as no later one that succeeds writes over
the record: the program reads what Linux told, and in Linux's types it is Linux's record exactly
where each field has room. -/
theorem stat_told (m : Memory) (before after : List StatCall) (c : StatCall) (h : c.libc.1 = 0)
    (hfits : ∀ c' ∈ c :: after, c'.block.Fits)
    (hoff : ∀ c' ∈ after, c'.libc.1 = 0 → Block.Off c'.block c.block) :
    let s := DarwinStat.readAt (stats.run m (before ++ c :: after)) c.buf
    s = linuxToDarwinStat c.libc.2 ∧ (s.asLinux = c.libc.2 ↔ c.libc.2.InDarwin) := by
  intro s
  have hs : s = linuxToDarwinStat c.libc.2 := by
    have hkeeps := keeps_run (stats.step (stats.run m before) c).1
      (fun c' hc => hfits c' (List.mem_cons_of_mem c hc)) hoff
    have hread : (stats.run (stats.step (stats.run m before) c).1 after).readRecord c.buf
        DarwinStat.fields =
          (stats.step (stats.run m before) c).1.readRecord c.buf DarwinStat.fields :=
      hkeeps.readRecord (hfits c List.mem_cons_self) (Nat.le_refl _) (Nat.le_refl _)
    have hrun : stats.run m (before ++ c :: after) =
        stats.run (stats.step (stats.run m before) c).1 after := run_append stats ..
    have hsame : s = DarwinStat.readAt (stats.step (stats.run m before) c).1 c.buf := by
      simp only [s, DarwinStat.readAt, hrun, hread]
    exact hsame.trans (readAt_shimStat h _)
  rw [hs]
  exact ⟨rfl, asLinux_linuxToDarwinStat c.libc.2⟩

/-- A call for the same buffer that fails, and one for another. -/
theorem stat_told_apart :
    let linux : LinuxStat :=
      ⟨2049, 11, 1, 33188, 501, 20, 0, 5, 4096, 8, ⟨1, 2⟩, ⟨3, 4⟩, ⟨5, 6⟩⟩
    let m := stats.run (fun _ => 0)
      [⟨(0, linux), 0x1000⟩, ⟨(-1, linux), 0x1000⟩, ⟨(0, linux), 0x2000⟩]
    (DarwinStat.readAt m 0x1000).asLinux = linux := by
  intro linux m
  have h := stat_told (fun _ => 0) [] [⟨(-1, linux), 0x1000⟩, ⟨(0, linux), 0x2000⟩]
    ⟨(0, linux), 0x1000⟩ rfl (by simp [StatCall.block, Block.Fits])
    (by simp [StatCall.block, Block.Off])
  exact h.2.mpr ⟨by decide, by decide, by decide, by decide, by decide⟩

/-! ### Entries of directories -/

/-- A directory is what its `DIR` has still to give. -/
structure Directories where
  streams : Nat → List LinuxDirent
  memory : Memory

/-- `readdir` of one directory after another; `buf` is the one buffer of all of them. -/
def directories (buf : Address) : System Directories Nat Address where
  step s dirp :=
    let answer := shimReaddir buf (s.streams dirp).head? s.memory
    (⟨Function.update s.streams dirp (s.streams dirp).tail, answer.2⟩, answer.1)

/-- What the program finds through a pointer to an entry. -/
structure Tells (m : Memory) (buf : Address) (ent : LinuxDirent) : Prop where
  fields : m.readRecord buf direntFields = direntValues ent
  name : m.CString (buf + 21) (ent.d_name.take 1023)

theorem fits_direntValues (ent : LinuxDirent) : Fits direntFields (direntValues ent) := by
  have hlen : namlen ent ≤ 1023 := Nat.min_le_right _ _
  refine ⟨ent.d_ino.isLt, by decide, ?_, ?_, ent.d_type.isLt, trivial⟩
  · change 21 + namlen ent + 1 < 65536
    omega
  · change namlen ent < 65536
    omega

theorem take_namlen (ent : LinuxDirent) :
    ent.d_name.take (namlen ent) = ent.d_name.take 1023 := by
  unfold namlen
  rw [Nat.min_comm, ← List.take_take, List.take_length]

theorem length_take_namlen (ent : LinuxDirent) :
    (ent.d_name.take (namlen ent)).length = namlen ent := by
  have hlen : namlen ent ≤ ent.d_name.length := Nat.min_le_left _ _
  rw [List.length_take, Nat.min_eq_left hlen]

theorem toNat_name {buf : Address} (hbuf : Block.Fits ⟨buf, 1045⟩) :
    (buf + 21).toNat = buf.toNat + 21 := by
  unfold Block.Fits at hbuf
  dsimp only at hbuf
  exact toNat_add_ofNat (n := 21) (by omega)

theorem toNat_nul {buf : Address} (hbuf : Block.Fits ⟨buf, 1045⟩) (ent : LinuxDirent) :
    (buf + 21 + BitVec.ofNat 64 (namlen ent)).toNat = buf.toNat + 21 + namlen ent := by
  have hlen : namlen ent ≤ 1023 := Nat.min_le_right _ _
  have hname := toNat_name hbuf
  unfold Block.Fits at hbuf
  dsimp only at hbuf
  rw [toNat_add_ofNat (by omega), hname]

/-- The name is behind the other fields, and leaves them. -/
theorem shimReaddir_tells {buf : Address} (hbuf : Block.Fits ⟨buf, 1045⟩) (ent : LinuxDirent)
    (m : Memory) : Tells (shimReaddir buf (some ent) m).2 buf ent := by
  have hlength := length_take_namlen ent
  have hlen : namlen ent ≤ 1023 := Nat.min_le_right _ _
  have hname := toNat_name hbuf
  have hnul := toNat_nul hbuf ent
  unfold Block.Fits at hbuf
  dsimp only at hbuf
  constructor
  · have hheader : Block.Fits ⟨buf, 21⟩ := by
      unfold Block.Fits
      dsimp only
      omega
    let mHeader := m.writeRecord buf direntFields (direntValues ent)
    let mName := mHeader.writeBytes (buf + 21) (ent.d_name.take (namlen ent))
    have hbytes : mHeader.Keeps mName ⟨buf, 21⟩ :=
      Memory.keeps_writeBytes (by omega) (.inr (Nat.le_of_eq hname.symm))
    have hzero : mName.Keeps (shimReaddir buf (some ent) m).2 ⟨buf, 21⟩ :=
      Memory.keeps_writeByte (.inr (by rw [hnul]; exact Nat.le_add_right _ _))
    have hread : (shimReaddir buf (some ent) m).2.readRecord buf direntFields =
        mHeader.readRecord buf direntFields :=
      (hbytes.trans hzero).readRecord hheader (Nat.le_refl _) (Nat.le_refl _)
    rw [hread]
    exact Memory.readRecord_writeRecord m buf (by decide) (fits_direntValues ent)
  · have hzero : 0 ∉ ent.d_name.take (namlen ent) :=
      fun h => ent.name_ok (List.mem_of_mem_take h)
    have hwritten := Memory.cString_written
      (m.writeRecord buf direntFields (direntValues ent)) (a := buf + 21) hzero (by omega)
    rw [hlength] at hwritten
    rw [← take_namlen]
    exact hwritten

/-- Nothing is written outside the buffer. -/
theorem keeps_shimReaddir {buf : Address} (hbuf : Block.Fits ⟨buf, 1045⟩) {b : Block}
    (hoff : Block.Off ⟨buf, 1045⟩ b) (linuxEnt : Option LinuxDirent) (m : Memory) :
    m.Keeps (shimReaddir buf linuxEnt m).2 b := by
  cases linuxEnt with
  | none => exact Memory.Keeps.refl m b
  | some ent =>
    have hpart {a : Address} {n : Nat} (hlo : buf.toNat ≤ a.toNat)
        (hhi : a.toNat + n ≤ buf.toNat + 1045) : Block.Off ⟨a, n⟩ b := hoff.part hlo hhi
    have hrecord : (m.recordBytes buf direntFields (direntValues ent)).length = 21 :=
      Memory.length_recordBytes ..
    have hlength := length_take_namlen ent
    have hlen : namlen ent ≤ 1023 := Nat.min_le_right _ _
    have hname := toNat_name hbuf
    have hnul := toNat_nul hbuf ent
    unfold Block.Fits at hbuf
    dsimp only at hbuf
    have hheader : m.Keeps (m.writeRecord buf direntFields (direntValues ent)) b :=
      Memory.keeps_writeBytes (by omega) (hpart (Nat.le_refl _) (by omega))
    have hbytes : Memory.Keeps _ ((m.writeRecord buf direntFields (direntValues ent)).writeBytes
        (buf + 21) (ent.d_name.take (namlen ent))) b :=
      Memory.keeps_writeBytes (by omega) (hpart (by omega) (by omega))
    exact (hheader.trans hbytes).trans (Memory.keeps_writeByte (hpart (by omega) (by omega)))

/-! ### Runs -/

/-- The entry that a call is to tell. -/
def told (e : Event Directories Nat Address) : Option LinuxDirent :=
  (e.before.streams e.action).head?

/-- What a call tells of one directory. -/
def toldOf (dirp : Nat) (e : Event Directories Nat Address) : List LinuxDirent :=
  if e.action = dirp then (told e).toList else []

/-- The end of a directory is the null pointer; everything else is told in the buffer. -/
structure Answered (buf : Address) (e : Event Directories Nat Address) : Prop where
  none : told e = none → e.answer = 0 ∧ e.after.memory = e.before.memory
  some : ∀ ent, told e = some ent → e.answer = buf ∧ Tells e.after.memory buf ent

theorem answered {buf : Address} (hbuf : Block.Fits ⟨buf, 1045⟩) (s : Directories)
    (dirp : Nat) : Answered buf ((directories buf).event s dirp) := by
  constructor
  · intro h
    have hhead : (s.streams dirp).head? = none := h
    simp only [System.event, directories, hhead, shimReaddir]
    exact ⟨trivial, trivial⟩
  · intro ent h
    have hhead : (s.streams dirp).head? = some ent := h
    simp only [System.event, directories, hhead]
    exact ⟨rfl, shimReaddir_tells hbuf ent s.memory⟩

/-- One call takes the first entry of its directory and of no other. -/
theorem streams_step (buf : Address) (s : Directories) (dirp dirp' : Nat) :
    s.streams dirp' =
      toldOf dirp' ((directories buf).event s dirp) ++
        ((directories buf).step s dirp).1.streams dirp' := by
  by_cases h : dirp = dirp'
  · subst h
    have hself : ((directories buf).step s dirp).1.streams dirp = (s.streams dirp).tail :=
      Function.update_self ..
    have htold : toldOf dirp ((directories buf).event s dirp) = (s.streams dirp).head?.toList :=
      if_pos rfl
    rw [hself, htold]
    cases s.streams dirp <;> rfl
  · have hother : ((directories buf).step s dirp).1.streams dirp' = s.streams dirp' :=
      Function.update_of_ne (Ne.symm h) ..
    have htold : toldOf dirp' ((directories buf).event s dirp) = [] := if_neg h
    rw [hother, htold, List.nil_append]

theorem streams_run (buf : Address) (s : Directories) (calls : List Nat) (dirp : Nat) :
    s.streams dirp = ((directories buf).events s calls).flatMap (toldOf dirp) ++
      ((directories buf).run s calls).streams dirp := by
  have hstep (s : Directories) (a : Nat) : s.streams dirp ++ [] =
      toldOf dirp ((directories buf).event s a) ++
        ((directories buf).event s a).after.streams dirp := by
    rw [List.append_nil]
    exact streams_step buf s a dirp
  have hrun := queue_conserved (fun s : Directories => s.streams dirp) (fun _ => []) (toldOf dirp)
    (along_of_forall hstep s calls)
  have hnone : ((directories buf).events s calls).flatMap (fun _ => ([] : List LinuxDirent)) = [] :=
    List.flatMap_eq_nil_iff.mpr fun _ _ => rfl
  rwa [hnone, List.append_nil] at hrun

/-- An entry that was told stays in the buffer until the next one is. -/
theorem tells_last {buf : Address} (hbuf : Block.Fits ⟨buf, 1045⟩) {s : Directories}
    (last : Option LinuxDirent) (hlast : ∀ ent, last = some ent → Tells s.memory buf ent)
    (calls : List Nat) {ent : LinuxDirent}
    (h : (((directories buf).events s calls).filterMap told).getLast?.or last = some ent) :
    Tells ((directories buf).run s calls).memory buf ent := by
  induction calls generalizing s last with
  | nil => exact hlast ent h
  | cons dirp rest ih =>
    have hanswered := answered hbuf s dirp
    cases htold : told ((directories buf).event s dirp) with
    | none =>
      have hsame : ((directories buf).step s dirp).1.memory = s.memory := (hanswered.none htold).2
      refine ih last ?_ ?_
      · rw [hsame]
        exact hlast
      · rwa [System.events, List.filterMap_cons_none htold] at h
    | some first =>
      refine ih (some first) ?_ ?_
      · intro ent hent
        cases hent
        exact (hanswered.some first htold).2
      · rw [System.events, List.filterMap_cons_some htold, List.getLast?_cons] at h
        cases hrest : (((directories buf).events ((directories buf).step s dirp).1 rest).filterMap
            told).getLast? with
        | none => simpa [hrest] using h
        | some ent' => simpa [hrest] using h

/-- In any order of calls: of each directory the entries are told from the first on, each once;
what is found in the buffer is what was told last, of whichever directory; and other memory
stays as it was. -/
theorem readdir_told {buf : Address} (hbuf : Block.Fits ⟨buf, 1045⟩) (s : Directories)
    (calls : List Nat) :
    let events := (directories buf).events s calls
    let s' := (directories buf).run s calls
    (directories buf).Along (Answered buf) s calls ∧
      (∀ dirp, s.streams dirp = events.flatMap (toldOf dirp) ++ s'.streams dirp) ∧
      (∀ ent, (events.filterMap told).getLast? = some ent → Tells s'.memory buf ent) ∧
      ∀ b, Block.Off ⟨buf, 1045⟩ b → s.memory.Keeps s'.memory b := by
  refine ⟨along_of_forall (answered hbuf) s calls, streams_run buf s calls, ?_, ?_⟩
  · intro ent h
    refine tells_last hbuf none (fun ent hent => by cases hent) calls ?_
    rw [h]
    rfl
  · intro b hoff
    have hstep (s' : Directories) (dirp : Nat) (hkeeps : s.memory.Keeps s'.memory b) :
        s.memory.Keeps ((directories buf).step s' dirp).1.memory b :=
      hkeeps.trans (keeps_shimReaddir hbuf hoff _ _)
    exact run_invariant hstep (Memory.Keeps.refl _ b) calls

/-- A directory with one entry, of one byte. -/
def lone (ino : BitVec 64) (b : Byte) (hb : 0 ∉ [b]) : List LinuxDirent := [⟨ino, 4, [b], hb⟩]

theorem nul_not_dot : (0 : Byte) ∉ [(46 : Byte)] := by decide

theorem nul_not_a : (0 : Byte) ∉ [(97 : Byte)] := by decide

/-- Two directories in turn: the pointer to the entry of the first reads that of the second. -/
theorem readdir_told_two :
    let buf : Address := 0x1000
    let name : LinuxDirent := ⟨7, 4, [97], nul_not_a⟩
    let streams : Nat → List LinuxDirent := fun dirp =>
      if dirp = 0 then lone 2 46 nul_not_dot else lone 7 97 nul_not_a
    Tells ((directories buf).run ⟨streams, fun _ => 0xff⟩ [0, 1, 0]).memory buf name := by
  intro buf name streams
  have hbuf : Block.Fits ⟨buf, 1045⟩ := by
    decide
  have h := readdir_told hbuf ⟨streams, fun _ => 0xff⟩ [0, 1, 0]
  exact h.2.2.1 name rfl

end Grafted.Dyld.FileInfo
