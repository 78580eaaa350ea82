import SystemProjects.Fat.Code
import SystemProjects.Fat.Codec

/-!
# The boot sector of `fat.c`

What `fat_mount` takes from the boot sector, and the way from a cluster to its sectors. A device gives a byte for every
position that `vfs_seek` can set, and a read or write moves on from there. `none` is a division by zero, an `int` that
overflows or a transfer outside a buffer.
-/

open SystemProjects.Memory

namespace SystemProjects.Fat

/-- The 512 bytes of a packed `struct FAT_BOOTSECTOR`. -/
abbrev BootSector := Mem

namespace BootSector

def bytesPerSector (b : BootSector) : Nat := load16 b 11

def sectorsPerCluster (b : BootSector) : Nat := (b 13).toNat

def reservedSectors (b : BootSector) : Nat := load16 b 14

def numFats (b : BootSector) : Nat := (b 16).toNat

def numRootDirEnts (b : BootSector) : Nat := load16 b 17

def totalSectors (b : BootSector) : Nat := load16 b 19

def sectorsPerFat (b : BootSector) : Nat := load16 b 22

def hiddenSectors (b : BootSector) : Nat := load32 b 28

def totalSectorsLarge (b : BootSector) : Nat := load32 b 32

/-- `bs32.BPB_FATSz32`. -/
def fatsz32 (b : BootSector) : Nat := load32 b 36

def magic (b : BootSector) : Nat := load16 b 510

end BootSector

def fatMagic : Nat := 0xAA55

/-- What an `int` can be. -/
def InInt (x : Int) : Prop := -2 ^ 31 ≤ x ∧ x < 2 ^ 31

instance : DecidablePred InInt := fun _ => inferInstanceAs (Decidable (_ ∧ _))

/-- The value of an `int` expression. -/
def int (x : Int) : Option Int := if InInt x then some x else none

/-! ## Devices -/

structure Device where
  bytes : Mem
  pos : Nat

/-- `offset` is the `int` that is passed for the `DWORD`. -/
def vfsSeek (device : Device) (offset : Int) : Device := { device with pos := (offset % 2 ^ 32).toNat }

/-- `n` bytes are read to offset `a` of a buffer. -/
def vfsRead (device : Device) (buffer : Mem) (a n : Nat) : Device × Mem :=
  ({ device with pos := device.pos + n }, memcpy buffer a (fun x => device.bytes (device.pos + x)) n)

def vfsWrite (device : Device) (buffer : Mem) (a n : Nat) : Device :=
  { bytes := memcpy device.bytes device.pos (fun x => buffer (a + x)) n, pos := device.pos + n }

/-! ## Clusters -/

/-- The sum has a `DWORD` in it, so it wraps. -/
def fatCluster2block (b : BootSector) (cluster : Int) : Option Int := do
  let first ← int (cluster * b.sectorsPerCluster)
  let perSector := b.bytesPerSector / entrySize
  if perSector = 0 then none
  else
    let sum := first + b.hiddenSectors + b.numFats * b.sectorsPerFat + (b.numRootDirEnts / perSector :
      Nat) - 1
    some (toInt (sum % 2 ^ 32).toNat)

def clusterSize (b : BootSector) : Nat := b.bytesPerSector * b.sectorsPerCluster

/-- The loop from sector `i` on, with `clusterBuffer` at offset `a` of the buffer that was passed. -/
def rwSectors (mode : Mode) (b : BootSector) : Nat → Nat → Nat → Device → Mem → Option (Device × Mem)
  | 0, _, _, device, buffer => some (device, buffer)
  | left + 1, i, a, device, buffer =>
    let a := a + b.bytesPerSector * i
    if a + b.bytesPerSector ≤ clusterSize b then
      match mode with
      | .read =>
        let (device, buffer) := vfsRead device buffer a b.bytesPerSector
        rwSectors mode b left (i + 1) a device buffer
      | .write => rwSectors mode b left (i + 1) a (vfsWrite device buffer a b.bytesPerSector) buffer
    else none

/-- What `fat_rwCluster` passes to `vfs_seek`. -/
def clusterOffset (b : BootSector) (cluster : Int) : Option Int := do
  let block ← fatCluster2block b cluster
  let offset ← int (block * b.bytesPerSector)
  int (offset + 1)

def fatRwCluster (b : BootSector) (device : Device) (cluster : Int) (clusterBuffer : Mem) (mode : Mode) :
    Option (Device × Mem) := do
  let offset ← clusterOffset b cluster
  rwSectors mode b b.sectorsPerCluster 0 0 (vfsSeek device offset) clusterBuffer

/-! ## Mounting -/

/-- `total_clusters` and `type`. -/
def fatDetermineType (b : BootSector) : Option (Int × Codec.FatType) :=
  if b.bytesPerSector = 0 then none
  else do
    let rootDirSectors := (b.numRootDirEnts * 32 + (b.bytesPerSector - 1)) / b.bytesPerSector
    let fats : Int := if b.sectorsPerFat ≠ 0 then b.sectorsPerFat else toInt b.fatsz32
    let totalSectors : Int := if b.totalSectors ≠ 0 then b.totalSectors else toInt b.totalSectorsLarge
    let fatSectors ← int (b.numFats * fats)
    let used ← int (b.reservedSectors + fatSectors)
    let used ← int (used + rootDirSectors)
    let dataSectors ← int (totalSectors - used)
    if b.sectorsPerCluster = 0 then none
    else
      let totalClusters := dataSectors.tdiv b.sectorsPerCluster
      some (totalClusters, if totalClusters < 4085 then .fat12 else if totalClusters < 65525 then .fat16 else .fat32)

structure FatMountpoint extends Codec.Mountpoint Device where
  bootsector : BootSector
  rootdir : Mem
  clusterSize : Nat
  totalClusters : Int

def mountFrom (device : Device) (b : BootSector) : Option FatMountpoint := do
  let (totalClusters, type) ← fatDetermineType b
  let fatSize ← int (b.sectorsPerFat * b.bytesPerSector)
  let (device, fatData) := vfsRead device (fun _ => 0) 0 fatSize.toNat
  let fats ← int (b.numFats * fatSize)
  let device := vfsSeek device (fats + Codec.sizeofFatBootsector + 1)
  let (device, rootdir) := vfsRead device (fun _ => 0) 0 (b.numRootDirEnts * entrySize)
  some { device, type, fatData, fatSize := fatSize.toNat, bootsector := b, rootdir,
         clusterSize := clusterSize b, totalClusters }

/-- The device is what `vfs_open` gives. `none` is `NULL`, here and in the result. -/
def fatMount : Option Device → Option (Option FatMountpoint)
  | none => some none
  | some device =>
    let (device, b) := vfsRead device (fun _ => 0) 0 Codec.sizeofFatBootsector
    if BootSector.magic b ≠ fatMagic then some none else (mountFrom device b).map some

end SystemProjects.Fat
