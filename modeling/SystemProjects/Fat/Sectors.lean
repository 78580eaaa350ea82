import SystemProjects.Fat.Geometry

/-!
# The sectors of a cluster
-/

open SystemProjects.Memory

namespace SystemProjects.Fat

variable {b : BootSector} {cluster x : Int} {device device' : Device} {buffer buffer' : Mem}
    {mode : Mode} {i a left : Nat}

/-! ## What is claimed -/

/-- The cluster is the bytes of the device from `pos` on. -/
structure CoversCluster (b : BootSector) (cluster : Int) (pos : Nat) : Prop where
  read : ∀ device buffer, ∃ device' buffer', fatRwCluster b device cluster buffer .read =
    some (device', buffer') ∧
    device'.bytes = device.bytes ∧
    (∀ i < b.sectorsPerCluster, ∀ x < b.bytesPerSector,
      buffer' (i * b.bytesPerSector + x) = device.bytes (pos + i * b.bytesPerSector + x)) ∧
    ∀ x, clusterSize b ≤ x → buffer' x = buffer x
  write : ∀ device buffer, ∃ device', fatRwCluster b device cluster buffer .write = some (device', buffer) ∧
    (∀ i < b.sectorsPerCluster, ∀ x < b.bytesPerSector,
      device'.bytes (pos + i * b.bytesPerSector + x) = buffer (i * b.bytesPerSector + x)) ∧
    ∀ y, y < pos ∨ pos + clusterSize b ≤ y → device'.bytes y = device.bytes y
  back : ∀ device device' buffer buffer1, fatRwCluster b device cluster buffer .write =
    some (device', buffer) →
    ∃ device2 buffer2, fatRwCluster b device' cluster buffer1 .read = some (device2, buffer2) ∧
      ∀ x < clusterSize b, buffer2 x = buffer x

/-- There is an entry in a sector, and no `int` on the way to the position of the cluster overflows. -/
def Seekable (b : BootSector) (cluster : Int) : Prop :=
  32 ≤ b.bytesPerSector ∧ InInt (cluster * b.sectorsPerCluster) ∧
    ∃ block, fatCluster2block b cluster = some block ∧ InInt (block * b.bytesPerSector) ∧
      InInt (block * b.bytesPerSector + 1)

/-! ## The seek -/

theorem int_of_inInt (h : InInt x) : int x = some x := if_pos h

theorem int_eq_some {y : Int} (h : int x = some y) : InInt x ∧ y = x := by
  unfold int at h
  split at h
  case isTrue hin => exact ⟨hin, (Option.some.inj h).symm⟩
  case isFalse => contradiction

theorem fatCluster2block_eq_some {block : Int} (h : fatCluster2block b cluster = some block) :
    32 ≤ b.bytesPerSector ∧ InInt (cluster * b.sectorsPerCluster) := by
  obtain ⟨first, hfirst, h⟩ := Option.bind_eq_some_iff.mp h
  refine ⟨?_, (int_eq_some hfirst).1⟩
  dsimp only at h
  split at h
  case isTrue => contradiction
  case isFalse hper =>
    unfold entrySize at hper
    omega

theorem clusterOffset_iff :
    (∃ offset, clusterOffset b cluster = some offset) ↔ Seekable b cluster := by
  constructor
  · rintro ⟨offset, h⟩
    obtain ⟨block, hblock, h⟩ := Option.bind_eq_some_iff.mp h
    obtain ⟨bytes, hbytes, h⟩ := Option.bind_eq_some_iff.mp h
    obtain ⟨hsector, hfirst⟩ := fatCluster2block_eq_some hblock
    obtain ⟨hin, rfl⟩ := int_eq_some hbytes
    exact ⟨hsector, hfirst, block, hblock, hin, (int_eq_some h).1⟩
  · rintro ⟨-, -, block, hblock, hin, hin1⟩
    refine ⟨block * b.bytesPerSector + 1, ?_⟩
    rw [clusterOffset, hblock]
    simp only [Option.bind_eq_bind, Option.bind_some, int_of_inInt hin, int_of_inInt hin1]

/-! ## The loop -/

theorem rwSectors_fits (h : rwSectors mode b (left + 1) i a device buffer = some (device', buffer')) :
    a + b.bytesPerSector * i + b.bytesPerSector ≤ clusterSize b ∧ ∃ device1 buffer1,
      rwSectors mode b left (i + 1) (a + b.bytesPerSector * i) device1 buffer1 = some (device', buffer') := by
  cases mode <;>
    rw [rwSectors] at h <;>
    split at h
  case read.isTrue hfit => exact ⟨hfit, _, _, h⟩
  case write.isTrue hfit => exact ⟨hfit, _, _, h⟩
  all_goals contradiction

theorem rwSectors_last (left : Nat) : ∀ {i a : Nat} {device : Device} {buffer : Mem},
    rwSectors mode b (left + 2) i a device buffer = some (device', buffer') →
    a + b.bytesPerSector * (i + left) + b.bytesPerSector * (i + left + 1) + b.bytesPerSector ≤ clusterSize b := by
  induction left with
  | zero =>
    intro i a device buffer h
    obtain ⟨-, device1, buffer1, h⟩ := rwSectors_fits h
    exact (rwSectors_fits h).1
  | succ left ih =>
    intro i a device buffer h
    obtain ⟨-, device1, buffer1, h⟩ := rwSectors_fits h
    have hle := ih h
    rw [show i + (left + 1) = i + 1 + left by omega]
    omega

theorem rwSectors_undefined (hbytes : 1 ≤ b.bytesPerSector) (hsectors : 3 ≤ b.sectorsPerCluster) :
    rwSectors mode b b.sectorsPerCluster 0 0 device buffer = none := by
  obtain ⟨left, hleft⟩ := Nat.exists_eq_add_of_le hsectors
  rw [Option.eq_none_iff_forall_ne_some]
  rintro ⟨device', buffer'⟩ h
  rw [hleft, show 3 + left = left + 1 + 2 by omega] at h
  have hle := rwSectors_last _ h
  rw [clusterSize, hleft] at hle
  have hlt : b.bytesPerSector * (3 + left) <
      b.bytesPerSector * (0 + (left + 1)) + b.bytesPerSector * (0 + (left + 1) + 1) + b.bytesPerSector := by
    rw [← Nat.mul_add, ← Nat.mul_add_one]
    exact Nat.mul_lt_mul_of_pos_left (by omega) hbytes
  omega

theorem rwSectors_read (hone : 1 ≤ b.sectorsPerCluster) (htwo : b.sectorsPerCluster ≤ 2)
    (device : Device) (buffer : Mem) :
    ∃ device' buffer', rwSectors .read b b.sectorsPerCluster 0 0 device buffer = some (device', buffer') ∧
      device'.bytes = device.bytes ∧ (∀ x < clusterSize b, buffer' x = device.bytes (device.pos + x)) ∧
      ∀ x, clusterSize b ≤ x → buffer' x = buffer x := by
  obtain hs | hs : b.sectorsPerCluster = 1 ∨ b.sectorsPerCluster = 2 := by omega
  · rw [clusterSize, hs, rwSectors, if_pos (by rw [clusterSize, hs]; omega)]
    dsimp only
    rw [rwSectors]
    refine ⟨_, _, rfl, rfl, fun x hx => ?_, fun x hx => ?_⟩
    · simp only [vfsRead, memcpy]
      rw [if_pos (by omega)]
      congr 2
    · simp only [vfsRead, memcpy]
      rw [if_neg (by omega)]
  · rw [clusterSize, hs, rwSectors, if_pos (by rw [clusterSize, hs]; omega)]
    dsimp only
    rw [rwSectors, if_pos (by rw [clusterSize, hs]; omega)]
    dsimp only
    rw [rwSectors]
    refine ⟨_, _, rfl, rfl, fun x hx => ?_, fun x hx => ?_⟩
    · simp only [vfsRead, memcpy]
      by_cases hfirst : x < b.bytesPerSector
      · rw [if_neg (by omega), if_pos (by omega)]
        congr 2
      · rw [if_pos (by omega)]
        congr 1
        omega
    · simp only [vfsRead, memcpy]
      rw [if_neg (by omega), if_neg (by omega)]

theorem rwSectors_write (hone : 1 ≤ b.sectorsPerCluster) (htwo : b.sectorsPerCluster ≤ 2)
    (device : Device) (buffer : Mem) :
    ∃ device', rwSectors .write b b.sectorsPerCluster 0 0 device buffer = some (device', buffer) ∧
      (∀ x < clusterSize b, device'.bytes (device.pos + x) = buffer x) ∧
      ∀ y, y < device.pos ∨ device.pos + clusterSize b ≤ y → device'.bytes y = device.bytes y := by
  obtain hs | hs : b.sectorsPerCluster = 1 ∨ b.sectorsPerCluster = 2 := by omega
  · rw [clusterSize, hs, rwSectors, if_pos (by rw [clusterSize, hs]; omega)]
    rw [rwSectors]
    refine ⟨_, rfl, fun x hx => ?_, fun y hy => ?_⟩
    · simp only [vfsWrite, memcpy]
      rw [if_pos (by omega)]
      congr 1
      omega
    · simp only [vfsWrite, memcpy]
      rw [if_neg (by omega)]
  · rw [clusterSize, hs, rwSectors, if_pos (by rw [clusterSize, hs]; omega)]
    rw [rwSectors, if_pos (by rw [clusterSize, hs]; omega)]
    rw [rwSectors]
    refine ⟨_, rfl, fun x hx => ?_, fun y hy => ?_⟩
    · simp only [vfsWrite, memcpy]
      by_cases hfirst : x < b.bytesPerSector
      · rw [if_neg (by omega), if_pos (by omega)]
        congr 1
        omega
      · rw [if_pos (by omega)]
        congr 1
        omega
    · simp only [vfsWrite, memcpy]
      rw [if_neg (by omega), if_neg (by omega)]

/-! ## The cluster -/

theorem fatRwCluster_eq {offset : Int} (h : clusterOffset b cluster = some offset) :
    fatRwCluster b device cluster buffer mode =
      rwSectors mode b b.sectorsPerCluster 0 0 (vfsSeek device offset) buffer := by
  rw [fatRwCluster, h]
  rfl

theorem inside_cluster {i x : Nat} (hi : i < b.sectorsPerCluster) (hx : x < b.bytesPerSector) :
    i * b.bytesPerSector + x < clusterSize b := by
  have hle : (i + 1) * b.bytesPerSector ≤ b.sectorsPerCluster * b.bytesPerSector := Nat.mul_le_mul_right _ hi
  rw [clusterSize, Nat.mul_comm b.bytesPerSector]
  rw [Nat.add_mul] at hle
  omega

theorem coversCluster {offset : Int} (hone : 1 ≤ b.sectorsPerCluster) (htwo : b.sectorsPerCluster ≤ 2)
    (hoffset : clusterOffset b cluster = some offset) : CoversCluster b cluster (offset % 2 ^ 32).toNat where
  read device buffer := by
    rw [fatRwCluster_eq hoffset]
    obtain ⟨device', buffer', heq, hbytes, hread, hrest⟩ :=
      rwSectors_read hone htwo (vfsSeek device offset) buffer
    refine ⟨device', buffer', heq, hbytes, fun i hi x hx => ?_, hrest⟩
    rw [hread _ (inside_cluster hi hx), ← Nat.add_assoc]
    rfl
  write device buffer := by
    rw [fatRwCluster_eq hoffset]
    obtain ⟨device', heq, hwrite, hrest⟩ := rwSectors_write hone htwo (vfsSeek device offset) buffer
    refine ⟨device', heq, fun i hi x hx => ?_, hrest⟩
    rw [← hwrite _ (inside_cluster hi hx), ← Nat.add_assoc]
    rfl
  back device device' buffer buffer1 h := by
    rw [fatRwCluster_eq hoffset] at h ⊢
    obtain ⟨device1, heq, hwrite, -⟩ := rwSectors_write hone htwo (vfsSeek device offset) buffer
    obtain rfl : device1 = device' := (Prod.ext_iff.mp (Option.some.inj (heq.symm.trans h))).1
    obtain ⟨device2, buffer2, heq2, -, hread, -⟩ := rwSectors_read hone htwo (vfsSeek device1 offset) buffer1
    refine ⟨device2, buffer2, heq2, fun x hx => ?_⟩
    rw [hread x hx]
    exact hwrite x hx

/-- **Cluster transfers.** They cover the cluster just when it has at most two sectors, for the buffer pointer moves on
by one sector more each time. -/
theorem fatRwCluster_covers_iff (b : BootSector) (cluster : Int) (hbytes : 1 ≤ b.bytesPerSector)
    (hsectors : 1 ≤ b.sectorsPerCluster) :
    (∃ offset, clusterOffset b cluster = some offset ∧ CoversCluster b cluster (offset % 2 ^ 32).toNat) ↔
      b.sectorsPerCluster ≤ 2 ∧ Seekable b cluster := by
  constructor
  · rintro ⟨offset, hoffset, hcovers⟩
    refine ⟨Nat.le_of_not_lt fun hthree => ?_, clusterOffset_iff.mp ⟨offset, hoffset⟩⟩
    obtain ⟨device', buffer', heq, -⟩ := hcovers.read ⟨fun _ => 0, 0⟩ fun _ => 0
    rw [fatRwCluster_eq hoffset, rwSectors_undefined hbytes hthree] at heq
    contradiction
  · rintro ⟨htwo, hseek⟩
    obtain ⟨offset, hoffset⟩ := clusterOffset_iff.mpr hseek
    exact ⟨offset, hoffset, coversCluster hsectors htwo hoffset⟩

/-- The boot sector of a floppy disk of 2880 sectors, with a given number of sectors in a cluster. -/
def floppy (sectorsPerCluster : Nat) : BootSector := fun x =>
  match x with
  | 12 => 0x02
  | 13 => BitVec.ofNat 8 sectorsPerCluster
  | 14 => 0x01
  | 16 => 0x02
  | 17 => 0xE0
  | 19 => 0x40
  | 20 => 0x0B
  | 22 => 0x09
  | 510 => 0x55
  | 511 => 0xAA
  | _ => 0x00

theorem floppy_seekable : Seekable (floppy 1) 2 := ⟨by decide, by decide, 33, by decide, by decide, by decide⟩

/-- The first cluster of the data, in a sector of its own. -/
theorem floppy_covers :
    ∃ offset, clusterOffset (floppy 1) 2 = some offset ∧ CoversCluster (floppy 1) 2 (offset % 2 ^ 32).toNat :=
  (fatRwCluster_covers_iff (floppy 1) 2 (by decide) (by decide)).mpr ⟨by decide, floppy_seekable⟩

/-- The third of four sectors goes behind a gap of one, and the last behind the buffer. -/
theorem floppy_four :
    ¬ ∀ (b : BootSector) (cluster : Int), 1 ≤ b.bytesPerSector → 1 ≤ b.sectorsPerCluster →
      ∃ offset, clusterOffset b cluster = some offset ∧ CoversCluster b cluster (offset % 2 ^ 32).toNat := by
  intro h
  obtain ⟨offset, hoffset, hcovers⟩ := h (floppy 4) 2 (by decide) (by decide)
  obtain ⟨device', buffer', heq, -⟩ := hcovers.read ⟨fun _ => 0, 0⟩ fun _ => 0
  rw [fatRwCluster_eq hoffset, rwSectors_undefined (by decide) (by decide)] at heq
  contradiction

end SystemProjects.Fat
