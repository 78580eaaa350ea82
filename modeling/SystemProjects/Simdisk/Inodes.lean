import SystemProjects.Simdisk.Proofs

/-!
# The inode table

`read_inode` and `write_inode` guard their numbers separately.
-/

open SystemProjects.Memory

namespace SystemProjects.Simdisk

variable {d : Device} {inum : Int}

/-! ## What is claimed -/

/-- The record is in its slot, and nothing else has changed. -/
structure SlotWritten (d d' : Device) (inum : Int) (record : Mem) : Prop where
  same : d' = { d with file := d'.file }
  others : ∀ x : Nat, (x : Int) < inodeTableStart * blocksize + inum * 256 ∨
    inodeTableStart * blocksize + inum * 256 + 256 ≤ x → d'.file x = d.file x
  back : ∀ buffer, ∃ buffer', readInode d' inum buffer = some (buffer', 0) ∧ ∀ x < 256, buffer' x = record x
  inodes : ∀ j, j ≠ inum → ∀ buffer, readInode d' j buffer = readInode d j buffer
  blocks : ∀ b, b < inodeTableStart ∨ blockTableStart ≤ b → ∀ buffer, readBlock d' b buffer =
    readBlock d b buffer

def Separated (d : Device) (inum : Int) (record : Mem) : Prop :=
  if 1 ≤ inum ∧ inum < maxFileNum then
    ∃ d', writeInode d inum record = some (d', 0) ∧ SlotWritten d d' inum record
  else
    writeInode d inum record = some (d, -1) ∧ ∀ buffer, readInode d inum buffer = some (buffer, -1)

/-! ## Offsets -/

theorem inodeOffset_eq_some {offset : Int} (h : inodeOffset inum = some offset) :
    offset = inodeTableStart * blocksize + inum * 256 := by
  unfold inodeOffset at h
  split at h
  · exact (Option.some.inj h).symm
  · cases h

theorem inodeOffset_of_negative (h : -2 ^ 23 ≤ inum) (hneg : inum < -64) :
    ∃ offset < 0, inodeOffset inum = some offset := by
  refine ⟨inodeTableStart * blocksize + inum * 256, ?_, ?_⟩
  · unfold inodeTableStart blocksize
    omega
  · unfold inodeOffset inodeTableStart blocksize
    rw [if_pos (by omega)]

theorem inodeOffset_of_overflow (h : inum < -2 ^ 23) : inodeOffset inum = none := by
  unfold inodeOffset
  rw [if_neg (by omega)]

/-! ## Writing -/

theorem read_congr {d' : Device} {offset n : Nat} (h : ∀ x < n, d'.file (offset + x) = d.file (offset + x))
    (buffer : Mem) : d'.read offset n buffer = d.read offset n buffer := by
  funext x
  unfold Device.read memcpy
  split
  · rename_i hx
    exact h _ (by omega)
  · rfl

theorem readInode_eq {i : Nat} (hi : 1 ≤ i) (hmax : i < maxFileNum) (buffer : Mem) :
    readInode d i buffer = some (d.read (inodeTableStart * blocksize + i * 256) 256 buffer, 0) := by
  rw [readInode, if_neg (by omega), inodeOffset_of_slot (by unfold maxFileNum at hmax; omega),
    Option.map_some, if_neg (by omega)]
  rfl

theorem read_self {offset n x : Nat} (hx : x < n) (buffer : Mem) :
    d.read offset n buffer x = d.file (offset + x) := by
  have h : memcpy buffer 0 (fun x => d.file (offset + x)) n (0 + x) = d.file (offset + x) := memcpy_self hx
  rwa [Nat.zero_add] at h

theorem slotWritten {i : Nat} (hi : 1 ≤ i) (hmax : i < maxFileNum) (record : Mem) :
    SlotWritten d (d.write (inodeTableStart * blocksize + i * 256) 256 record) i record := by
  have hsize : inodeTableStart * blocksize = 16384 := by decide
  have hother : ∀ x : Nat, (x : Int) < inodeTableStart * blocksize + (i : Int) * 256 ∨
      inodeTableStart * blocksize + (i : Int) * 256 + 256 ≤ x →
      (d.write (inodeTableStart * blocksize + i * 256) 256 record).file x = d.file x := by
    intro x hx
    apply write_other
    omega
  refine ⟨rfl, hother, fun buffer => ?_, fun j hj buffer => ?_, fun b hb buffer => ?_⟩
  · refine ⟨_, readInode_eq hi hmax buffer, fun x hx => ?_⟩
    rw [read_self hx]
    exact memcpy_self hx
  · unfold readInode
    split
    · rfl
    · cases hoff : inodeOffset j with
      | none => rfl
      | some offset =>
        have heq := inodeOffset_eq_some hoff
        rw [Option.map_some, Option.map_some]
        split
        · rfl
        · rw [read_congr]
          intro x hx
          apply hother
          omega
  · unfold readBlock
    rw [devsize_write]
    split
    · rfl
    · rw [read_congr]
      intro x hx
      apply hother
      unfold maxFileNum at hmax
      unfold blocksize inodeTableStart blockTableStart at *
      omega

/-! ## Every number -/

/-- **Separation.** The law holds but for the numbers between the size of the table and that of the disk,
the negative numbers whose offset lies in the blocks before the table, and those whose offset overflows. -/
theorem separated_iff (d : Device) (hd : d.devsize = 102400) (inum : Int) (record : Mem) :
    Separated d inum record ↔
      0 ≤ inum ∧ inum < maxFileNum ∨ 102400 ≤ inum ∨ -2 ^ 23 ≤ inum ∧ inum < -64 := by
  unfold Separated
  by_cases hin : 1 ≤ inum ∧ inum < maxFileNum
  · rw [if_pos hin]
    refine iff_of_true ?_ (.inl ⟨by omega, hin.2⟩)
    obtain ⟨i, rfl⟩ : ∃ i : Nat, inum = i := ⟨inum.toNat, by omega⟩
    have hmax : i < maxFileNum := by omega
    refine ⟨_, writeInode_eq (by omega) ?_ ?_ record, slotWritten (by omega) hmax record⟩
    · rw [hd]
      unfold maxFileNum at hmax
      omega
    · unfold maxFileNum at hmax
      omega
  · rw [if_neg hin]
    unfold maxFileNum at *
    by_cases hzero : inum = 0
    · subst hzero
      refine iff_of_true ⟨?_, fun buffer => ?_⟩ (.inl (by omega))
      · rw [writeInode, if_pos (.inr rfl)]
      · rw [readInode, if_pos (.inr rfl)]
    by_cases hbig : 102400 ≤ inum
    · refine iff_of_true ⟨?_, fun buffer => ?_⟩ (.inr (.inl hbig))
      · rw [writeInode, if_pos (by omega)]
      · rw [readInode, if_pos (by unfold maxFileNum; omega)]
    have hwrite : writeInode d inum record = (inodeOffset inum).map fun offset =>
        if offset < 0 then (d, -1) else (d.write offset.toNat 256 record, 0) := by
      rw [writeInode, if_neg (by omega)]
    by_cases hneg : -2 ^ 23 ≤ inum ∧ inum < -64
    · obtain ⟨offset, hlt, hoff⟩ := inodeOffset_of_negative hneg.1 hneg.2
      refine iff_of_true ⟨?_, fun buffer => ?_⟩ (.inr (.inr hneg))
      · rw [hwrite, hoff, Option.map_some, if_pos hlt]
      · rw [readInode, if_neg (by unfold maxFileNum; omega), hoff, Option.map_some, if_pos hlt]
    · refine iff_of_false (fun h => ?_) (by omega)
      rw [hwrite] at h
      by_cases hover : inum < -2 ^ 23
      · rw [inodeOffset_of_overflow hover] at h
        cases h.1
      · have hoff : inodeOffset inum = some (inodeTableStart * blocksize + inum * 256) := by
          unfold inodeOffset inodeTableStart blocksize
          rw [if_pos (by omega)]
        have hpos : ¬ (inodeTableStart * blocksize + inum * 256 : Int) < 0 := by
          unfold inodeTableStart blocksize
          omega
        rw [hoff, Option.map_some, if_neg hpos] at h
        exact absurd (Prod.mk.inj (Option.some.inj h.1)).2 (by decide)

theorem newDisk_separated_iff :
    Separated { newDisk with isOpen := true, devsize := 102400 } 5 (fun _ => 7) ↔
      (0 : Int) ≤ 5 ∧ (5 : Int) < maxFileNum ∨ (102400 : Int) ≤ 5 ∨ (-2 ^ 23 : Int) ≤ 5 ∧ (5 : Int) < -64 :=
  separated_iff _ rfl 5 _

/-- Inode 10000 is past the table, in the first data block. -/
theorem newDisk_10000_not_separated :
    ¬ Separated { newDisk with isOpen := true, devsize := 102400 } 10000 fun _ => 7 := by
  rintro ⟨hwrite, -⟩
  exact absurd (Prod.mk.inj (Option.some.inj hwrite)).2 (by decide)

end SystemProjects.Simdisk
