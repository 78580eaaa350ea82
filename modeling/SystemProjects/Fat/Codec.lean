import SystemProjects.Lib.Memory
import Mathlib.Data.Nat.Bitwise
import Mathlib.Tactic.SplitIfs

/-!
# The packed FAT of `fat.c`

`fat_setFATCluster` and `fat_getFATCluster` on the bytes at `fat_data`. What `vfs_seek` and `vfs_write`
do to the device is the parameter `vfsWrite`. `none` is a read or write outside `fat_data`, or an `int`
that overflows.
-/

open SystemProjects.Memory

namespace SystemProjects.Fat.Codec

/-- The `BYTE type` of a mount. -/
inductive FatType where
  | fat12 | fat16 | fat32 | other
  deriving DecidableEq

/-- The part of `struct FAT_MOUNTPOINT` that the two functions use. -/
structure Mountpoint (δ : Type) where
  device : δ
  type : FatType
  fatData : Mem
  /-- The number of bytes at `fat_data`. -/
  fatSize : Nat

def fatCluster12 (c : Nat) : Nat := c &&& 0x00000FFF

def fatCluster16 (c : Nat) : Nat := c &&& 0x0000FFFF

def fatCluster32 (c : Nat) : Nat := c &&& 0x0FFFFFFF

def fatEndofcluster : Nat := 0xFFFFFFFF

/-- `sizeof(struct FAT_BOOTSECTOR)`. -/
def sizeofFatBootsector : Nat := 512

/-- `cluster * 3` as an `int`. -/
def times3 (cluster : Nat) : Option Nat := if cluster * 3 < 2 ^ 31 then some (cluster * 3) else none

variable {δ : Type}

/-! ## The code -/

/-- `fat_data[i] = value`. -/
def Mountpoint.setByte (mount : Mountpoint δ) (i value : Nat) : Option (Mountpoint δ) :=
  if i < mount.fatSize then
    some { mount with fatData := fun x => if x = i then BitVec.ofNat 8 value else mount.fatData x }
  else none

def Mountpoint.commit (vfsWrite : δ → Nat → List Byte → δ) (mount : Mountpoint δ) : Mountpoint δ :=
  let data := (List.range mount.fatSize).map mount.fatData
  { mount with device := vfsWrite mount.device (sizeofFatBootsector + 1) data }

/-- `value` is the bit pattern of the `int`. -/
def fatSetFATCluster (vfsWrite : δ → Nat → List Byte → δ) (mount : Mountpoint δ) (cluster value : Nat)
    (commit : Bool) : Option (Mountpoint δ) :=
  let finish (m : Mountpoint δ) := if commit then m.commit vfsWrite else m
  match mount.type with
  | .fat12 => (times3 cluster).bind fun n => (mount.setByte (n / 2) (fatCluster12 value)).map finish
  | .fat16 => (mount.setByte cluster (fatCluster16 value)).map finish
  | .fat32 => (mount.setByte cluster (fatCluster32 value)).map finish
  | .other => some mount

def Mountpoint.word (mount : Mountpoint δ) (a : Nat) : Option Nat :=
  if a + 2 ≤ mount.fatSize then some (load16 mount.fatData a) else none

def Mountpoint.dword (mount : Mountpoint δ) (a : Nat) : Option Nat :=
  if a + 4 ≤ mount.fatSize then some (load32 mount.fatData a) else none

def fatGetFATCluster (mount : Mountpoint δ) (cluster : Nat) : Option Int :=
  match mount.type with
  | .fat12 => (times3 cluster).bind fun n => (mount.word (n / 2)).map fun next =>
      let nextCluster := if cluster % 2 = 1 then next / 2 ^ 4 else fatCluster12 next
      if nextCluster = fatCluster12 fatEndofcluster then FAIL else toInt nextCluster
  | .fat16 => (mount.word (2 * cluster)).map fun nextCluster =>
      if nextCluster = fatCluster16 fatEndofcluster then FAIL else toInt nextCluster
  | .fat32 => (mount.dword (4 * cluster)).map fun nextCluster =>
      if nextCluster = fatCluster32 fatEndofcluster then FAIL else toInt nextCluster
  | .other => some FAIL

/-! ## What is claimed of it -/

def entryWidth : FatType → Nat
  | .fat12 => 12
  | .fat16 => 16
  | .fat32 => 28
  | .other => 0

/-- The entry of `cluster` lies inside `fat_data`, as the type packs its entries. -/
def EntryInside (mount : Mountpoint δ) (cluster : Nat) : Prop :=
  match mount.type with
  | .fat12 => 3 * cluster / 2 + 2 ≤ mount.fatSize
  | .fat16 => 2 * cluster + 2 ≤ mount.fatSize
  | .fat32 => 4 * cluster + 4 ≤ mount.fatSize
  | .other => False

/-- What a reader is to see of the value `v`. -/
def seen (type : FatType) (v : Nat) : Int := if v = 2 ^ entryWidth type - 1 then FAIL else v

/-- After the write, entry `c` says `v`, and all other entries say what they said. -/
def ReadsBack (vfsWrite : δ → Nat → List Byte → δ) (mount : Mountpoint δ) (c v : Nat) : Prop :=
  ∃ mount', fatSetFATCluster vfsWrite mount c v false = some mount' ∧
    fatGetFATCluster mount' c = some (seen mount.type v) ∧
    ∀ c', c' ≠ c → fatGetFATCluster mount' c' = fatGetFATCluster mount c'

/-- Byte `i` of `fat_data`. -/
def byteAt (mount : Mountpoint δ) (i : Nat) : Nat := (mount.fatData i).toNat

/-- The bytes (or half bytes) of entry `c` that are not written hold their part of `v`, and what is
written into other entries is there already. -/
def BytesFit (mount : Mountpoint δ) (c v : Nat) : Prop :=
  match mount.type with
  | .fat12 => c * 3 < 2 ^ 31 ∧
      if c % 2 = 0 then byteAt mount (3 * c / 2 + 1) % 16 = v / 2 ^ 8
      else byteAt mount (3 * c / 2 + 1) = v / 2 ^ 4 ∧ v / 2 ^ 4 % 16 = v % 16 ∧
        byteAt mount (3 * c / 2) % 16 = v % 16
  | .fat16 =>
      if c = 0 then byteAt mount 1 = v / 2 ^ 8
      else load16 mount.fatData (2 * c) = v ∧ byteAt mount c = v % 2 ^ 8
  | .fat32 =>
      if c = 0 then byteAt mount 1 = v / 2 ^ 8 % 2 ^ 8 ∧ byteAt mount 2 = v / 2 ^ 16 % 2 ^ 8 ∧
        (byteAt mount 3 = v / 2 ^ 24 ∨ v = 2 ^ 28 - 1 ∧ byteAt mount 3 = 0xFF)
      else
        (load32 mount.fatData (4 * c) = v ∨ v = 2 ^ 28 - 1 ∧ load32 mount.fatData (4 * c) = 0xFFFFFFFF) ∧
        (byteAt mount c = v % 2 ^ 8 ∨ c % 4 = 3 ∧
          byteAt mount (c - 3) = 0xFF ∧ byteAt mount (c - 2) = 0xFF ∧ byteAt mount (c - 1) = 0xFF ∧
          (byteAt mount c = 0x0F ∧ v % 2 ^ 8 = 0xFF ∨ byteAt mount c = 0xFF ∧ v % 2 ^ 8 = 0x0F))
  | .other => False

end SystemProjects.Fat.Codec
