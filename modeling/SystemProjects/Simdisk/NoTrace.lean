import SystemProjects.Simdisk.Accounting
import SystemProjects.Simdisk.Creat
import SystemProjects.Simdisk.DirCodec
import SystemProjects.Simdisk.Failure

/-!
# A file that is not created

From the point where `my_creat` has the inode of the directory.
-/

open SystemProjects.Memory

namespace SystemProjects.Simdisk

variable {w w' : World} {d d' : Device} {cur bits : Mem} {name : CString} {junk : CreatJunk} {fd : Nat → Int}
  {inum r : Int}

/-! ## What is claimed -/

/-- The maps, the inodes, the blocks and the file descriptors are as before. -/
structure Unchanged (w w' : World) : Prop where
  file : ∀ x, blockMapStart * blocksize ≤ x → w'.dev.file x = w.dev.file x
  fd : w'.fd = w.fd

/-- Every call that fails leaves the disk and the descriptors as they were. -/
def NoTrace (w : World) : Prop :=
  ∀ cur name junk w', inodeType cur = dirType → (∀ c ∈ name, c ≠ 0) → name.length < maxFileNameLength →
    creatIn w cur name junk = some (w', -1) → Unchanged w w'

def HasFreeFd (fd : Nat → Int) : Prop := ∃ i < maxOpenFiles, fd i = -1 ∨ fd i = 0

/-! ## The descriptors -/

theorem openFd_free (h : HasFreeFd fd) (inum : Int) : 0 ≤ (openFd fd inum).2 := by
  unfold openFd
  cases hfind : (List.range maxOpenFiles).find? fun i => fd i = -1 ∨ fd i = 0 with
  | some i => exact Int.natCast_nonneg i
  | none =>
    obtain ⟨i, hi, hfree⟩ := h
    have hno := List.find?_eq_none.mp hfind i (List.mem_range.mpr hi)
    simp [hfree] at hno

theorem openFd_taken (h : ¬ HasFreeFd fd) (inum : Int) : openFd fd inum = (fd, -1) := by
  have hfind : ((List.range maxOpenFiles).find? fun i => fd i = -1 ∨ fd i = 0) = none := by
    apply List.find?_eq_none.mpr
    intro i hi hfree
    exact h ⟨i, List.mem_range.mp hi, by simpa using hfree⟩
  unfold openFd
  rw [hfind]

/-! ## Taking a block and an inode -/

/-- The number is never -1, on any disk. -/
theorem getInode_ne (h : getInode d bits = some (d', r)) : r ≠ -1 := by
  rintro rfl
  rw [getInode, acquire, show inodeTableStart - inodeMapStart = 1 + 1 from rfl, List.range'_succ,
    scanMap_cons,
    Option.bind_some] at h
  simp only at h
  have hle := scanBit_le ((readBlock d inodeMapStart bits).1 0)
  split at h
  case isTrue hge =>
    unfold inodeTableStart maxFileNum at hge
    omega
  case isFalse =>
    split at h
    · have hr := (Prod.mk.inj (Option.some.inj h)).2
      omega
    · cases h

theorem getBlock_takes (hd : d.devsize = 102400) (bits : Mem) :
    ∃ d', getBlock d bits = some (d', ((scanBit (blockMap d 0) + blockTableStart : Nat) : Int)) ∧
      d'.devsize = 102400 ∧ ∀ x, inodeTableStart * blocksize ≤ x → d'.file x = d.file x := by
  have hle := scanBit_le (blockMap d 0)
  obtain ⟨d', h, hdev, -, hother⟩ := acquire_spec inodeMapStart blockTableStart 102400 bits (d := d)
    (by decide : blockMapStart < inodeMapStart) (by rw [hd]; decide) rfl
    (by unfold blockTableStart; exact Nat.lt_of_le_of_lt (Nat.add_le_add_right hle 2516) (by decide))
    (by unfold blockTableStart; exact Nat.lt_of_le_of_lt (Nat.add_le_add_right hle 2516) (by decide))
  refine ⟨d', h, hdev.trans hd, fun x hx => hother x (.inr ?_)⟩
  unfold blockMapStart inodeTableStart blocksize at *
  omega

theorem getInode_takes (hd : d.devsize = 102400) (bits : Mem) :
    ∃ d', getInode d bits = some (d', ((scanBit (inodeMap d 0) + inodeTableStart : Nat) : Int)) ∧
      d'.devsize = 102400 ∧ ∀ x, inodeTableStart * blocksize ≤ x → d'.file x = d.file x := by
  have hle := scanBit_le (inodeMap d 0)
  obtain ⟨d', h, hdev, -, hother⟩ := acquire_spec inodeTableStart inodeTableStart maxFileNum bits (d := d)
    (by decide : inodeMapStart < inodeTableStart) (by rw [hd]; decide) rfl
    (by unfold inodeTableStart; exact Nat.lt_of_le_of_lt (Nat.add_le_add_right hle 16) (by decide))
    (by unfold inodeTableStart; exact Nat.lt_of_le_of_lt (Nat.add_le_add_right hle 16) (by decide))
  refine ⟨d', h, hdev.trans hd, fun x hx => hother x (.inr ?_)⟩
  unfold inodeMapStart inodeTableStart blocksize at *
  omega

/-! ## With a free descriptor -/

/-- Then the call fails only where the name is taken. -/
theorem creatIn_failed (hfd : HasFreeFd w.fd) (h : creatIn w cur name junk = some (w', -1)) : w' = w := by
  obtain ⟨⟨found, direc⟩, -, h⟩ := Option.bind_eq_some_iff.mp h
  dsimp only at h
  split at h
  case isTrue => exact ((Prod.mk.inj (Option.some.inj h)).1).symm
  case isFalse =>
    obtain ⟨⟨dev, block, k, direc⟩, -, h⟩ := Option.bind_eq_some_iff.mp h
    obtain ⟨⟨dev, inum⟩, hinode, h⟩ := Option.bind_eq_some_iff.mp h
    dsimp only at h
    rw [if_neg (getInode_ne hinode)] at h
    obtain ⟨dev, -, h⟩ := Option.bind_eq_some_iff.mp h
    obtain ⟨⟨inode, s⟩, -, h⟩ := Option.bind_eq_some_iff.mp h
    obtain ⟨⟨dev, fileBlock⟩, -, h⟩ := Option.bind_eq_some_iff.mp h
    obtain ⟨⟨dev, s⟩, -, h⟩ := Option.map_eq_some_iff.mp h
    have hret := openFd_free hfd inum
    have hr := (Prod.mk.inj h).2
    omega

/-! ## Without one -/

def emptyDirectory : Mem := fun x => if x < 4 then (if x = 0 then 2 else 0) else 0xff

theorem emptyDirectory_type : inodeType emptyDirectory = dirType := by
  have hload : load32 emptyDirectory 0 = 2 := by decide
  have htwo : (BitVec.ofNat 32 2).toInt = dirType := by decide
  rw [inodeType, loadInt, hload, htwo]

theorem emptyDirectory_block (j : Nat) : inodeBlock emptyDirectory j = -1 := by
  have hbyte : ∀ x, 4 ≤ x → emptyDirectory x = 0xff := fun x hx => if_neg (by omega)
  rw [inodeBlock, loadInt, load32, hbyte _ (by omega), hbyte _ (by omega), hbyte _ (by omega),
    hbyte _ (by omega)]
  rfl

theorem hasFileInBlocks_none {js : List Nat} (h : ∀ j ∈ js, inodeBlock cur j = -1) (direc : Mem) :
    hasFileInBlocks d cur name js direc = some (false, direc) := by
  induction js with
  | nil => rfl
  | cons j js ih =>
    rw [hasFileInBlocks, if_pos (h j List.mem_cons_self)]
    exact ih fun i hi => h i (List.mem_cons_of_mem j hi)

theorem newDentry_name (direc : Mem) (inum : Int) (c : Byte) (cs : CString) :
    newDentry direc 0 inum (c :: cs) 12 = c := by
  unfold newDentry
  exact memcpy_self (x := 0) (Nat.succ_pos _)

theorem emptyDentry_new {i : Nat} {is : List Nat} (h : inodeBlock cur i = -1) (direc : Mem) :
    emptyDentry d cur bits (i :: is) direc =
      (getBlock d bits).bind fun (dev, block) => (readBlockAt dev block direc).map fun direc =>
        (dev, block, 0, direc) := by
  rw [emptyDentry, if_neg (fun hne => hne h)]

/-- In a directory without a block, the call takes one and writes the entry to it before it fails. -/
theorem creatIn_emptyDirectory (hd : w.dev.devsize = 102400) (hfd : ¬ HasFreeFd w.fd) (c : Byte)
    (junk : CreatJunk) :
    ∃ w', creatIn w emptyDirectory [c] junk = some (w', -1) ∧
      w'.dev.file ((scanBit (blockMap w.dev 0) + blockTableStart) * blocksize + 12) = c := by
  have hle := scanBit_le (blockMap w.dev 0)
  obtain ⟨d1, hblock, hd1, -⟩ := getBlock_takes hd junk.slotBits
  obtain ⟨d2, hinode, hd2, -⟩ := getInode_takes hd1 junk.inodeBits
  have hle2 := scanBit_le (inodeMap d1 0)
  generalize hb : scanBit (blockMap w.dev 0) + blockTableStart = b at hblock
  generalize hn : scanBit (inodeMap d1 0) + inodeTableStart = inum at hinode
  unfold blockTableStart at hb
  unfold inodeTableStart at hn
  have hread := readBlockAt_of_lt (d := d1) (b := b) (by omega) junk.direc
  generalize hdirec : newDentry (readBlock d1 b junk.direc).1 0 inum [c] = direc
  have hwrite := writeBlockAt_of_lt (d := d2) (b := b) (by omega) direc
  have hd3 : (writeBlock d2 b direc).1.devsize = 102400 := (devsize_writeBlock d2 b direc).trans hd2
  have hinodeRead := readInode_eq (d := (writeBlock d2 b direc).1) (i :=
    inum) (by omega) (by unfold maxFileNum; omega) junk.inode
  obtain ⟨d4, hfile, hd4, hdata⟩ := getBlock_takes hd3 junk.blockBits
  generalize ((scanBit (blockMap (writeBlock d2 b direc).1 0) + blockTableStart : Nat) : Int) =
    fileBlock at hfile
  have hrecord := writeInode_eq (d := d4) (by omega : 0 < inum) (by omega) (by omega)
  have hrange : List.range 10 = 0 :: List.range' 1 9 := rfl
  have hcreat : ∃ record, creatIn w emptyDirectory [c] junk =
      some ({ w with dev := d4.write (inodeTableStart * blocksize + inum * 256) 256 record }, -1) := by
    refine ⟨newInode ((writeBlock d2 b direc).1.read (inodeTableStart * blocksize + inum * 256) 256
      junk.inode)
      inum fileBlock, ?_⟩
    rw [creatIn, hasFileInBlocks_none (fun j _ => emptyDirectory_block j), Option.bind_some]
    dsimp only
    rw [if_neg (by decide), hrange, emptyDentry_new (emptyDirectory_block 0), hblock, Option.bind_some]
    dsimp only
    rw [hread, Option.map_some, Option.bind_some]
    dsimp only
    rw [hinode, Option.bind_some]
    dsimp only
    rw [if_neg (by omega), hdirec, hwrite, Option.bind_some, hinodeRead, Option.bind_some]
    dsimp only
    rw [hfile, Option.bind_some]
    dsimp only
    rw [hrecord, Option.map_some, openFd_taken hfd]
  obtain ⟨record, hcreat⟩ := hcreat
  refine ⟨_, hcreat, ?_⟩
  have htable : inodeTableStart * blocksize = 16384 := by decide
  have hsize : blocksize = 1024 := rfl
  have hname := newDentry_name (readBlock d1 b junk.direc).1 inum c []
  rw [hdirec] at hname
  calc (d4.write (inodeTableStart * blocksize + inum * 256) 256 record).file (b * blocksize + 12)
      = d4.file (b * blocksize + 12) := write_other (.inr (by rw [htable, hsize]; omega))
    _ = (writeBlock d2 b direc).1.file (b * blocksize + 12) := hdata _ (by rw [htable, hsize]; omega)
    _ = direc 12 := writeBlock_self (by omega) (by decide)
    _ = c := hname

/-! ## When nothing is left behind -/

theorem other_byte (b : Byte) : ∃ c : Byte, c ≠ 0 ∧ c ≠ b := by
  by_cases h : b = 1
  · exact ⟨2, by decide, by rw [h]; decide⟩
  · exact ⟨1, by decide, fun heq => h heq.symm⟩

/-- Without a free descriptor, the call that fails in a directory without a block has written to a new one. -/
theorem leaves_trace (hd : w.dev.devsize = 102400) (hfd : ¬ HasFreeFd w.fd) : ¬ NoTrace w := by
  intro h
  obtain ⟨c, hc, hne⟩ := other_byte (w.dev.file
    ((scanBit (blockMap w.dev 0) + blockTableStart) * blocksize + 12))
  obtain ⟨w', hcreat, hbyte⟩ := creatIn_emptyDirectory hd hfd c
    ⟨⟨fun _ => 0, fun _ => 0, fun _ => 0, 0⟩, fun _ => 0, fun _ => 0, fun _ => 0, fun _ => 0, fun _ => 0⟩
  have hname : ∀ x ∈ [c], x ≠ 0 := by
    intro x hx
    rwa [List.mem_singleton.mp hx]
  have hsame := h _ _ _ w' emptyDirectory_type hname (by simp [maxFileNameLength]) hcreat
  refine hne (hbyte.symm.trans (hsame.file _ ?_))
  unfold blockMapStart blockTableStart blocksize
  omega

theorem noTrace_iff (w : World) (hd : w.dev.devsize = 102400) : NoTrace w ↔ HasFreeFd w.fd := by
  constructor
  · intro h
    by_contra hfd
    exact leaves_trace hd hfd h
  · intro hfd cur name junk w' _ _ _ hcreat
    rw [creatIn_failed hfd hcreat]
    exact ⟨fun _ _ => rfl, rfl⟩

theorem newWorld_noTrace : NoTrace newWorld :=
  (noTrace_iff newWorld newWorld_formatted.devsize).mpr ⟨0, by decide, .inl rfl⟩

def openWorld : World := { newWorld with fd := fun _ => 5 }

/-- `a` is not created, and the root directory has an entry of that name. -/
theorem newWorld_open_leaves_trace : ¬ NoTrace openWorld := by
  intro h
  have hcreat : (creatIn openWorld (inodeAt newWorld.dev 1) [0x61]
      ⟨⟨fun _ => 0, fun _ => 0, fun _ => 0, 0⟩, fun _ => 0, fun _ => 0, fun _ => 0, fun _ => 0,
        fun _ => 0⟩).map
        (fun r => (r.2, r.1.dev.file (blockTableStart * blocksize + 140))) = some (-1, 0x61) ∧
      openWorld.dev.file (blockTableStart * blocksize + 140) = 0 := by decide +kernel
  obtain ⟨⟨w', ret⟩, hrun, heq⟩ := Option.map_eq_some_iff.mp hcreat.1
  obtain ⟨rfl, hbyte⟩ := Prod.mk.inj heq
  have hsame := (h _ _ _ w' (by decide +kernel) (by decide) (by decide) hrun).file
    (blockTableStart * blocksize + 140) (by decide)
  rw [hsame, hcreat.2] at hbyte
  exact absurd hbyte (by decide)

end SystemProjects.Simdisk
