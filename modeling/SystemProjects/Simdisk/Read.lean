import SystemProjects.Simdisk.Creat

/-!
# `my_read`

The undeclared `fp`, `tempp` and `fpoff` are 0, and `length` is `len`. A copy of a negative number of
bytes has no outcome. Each call of `read_block` is recorded with its block number.
-/

open SystemProjects.Memory

namespace SystemProjects.Simdisk

/-! ## The code -/

def tempp : Int := 0
def fpoff : Int := 0

def inodeIndBlock (inode : Mem) (i : Nat) : Int := loadInt inode (72 + 4 * i)

/-- `struct ind_block`. -/
def indBlock (ib : Mem) (j : Nat) : Int := loadInt ib (4 * j)

structure ReadState where
  buf : Mem
  tmp : Mem
  len : Int
  flag : Bool
  reads : List Int

/-- `this`, `tmp` and the `ib` of each iteration, before they are read. -/
structure ReadJunk where
  this : Mem
  tmp : Mem
  ib : Nat → Mem

/-- `read_block(block, tmp)` and `memcpy(buf + at, tmp + off, temp)`. -/
def readCopy (d : Device) (block dst off temp : Int) (s : ReadState) : Option ReadState :=
  (readBlockAt d block s.tmp).bind fun tmp =>
    if temp < 0 ∨ dst < 0 then none
    else some { s with
      buf := memcpy s.buf dst.toNat (fun x => tmp (off.toNat + x)) temp.toNat
      tmp := tmp
      reads := s.reads ++ [block] }

def copyBlock (d : Device) (block temp : Int) (s : ReadState) : Option ReadState :=
  if s.flag then
    (readCopy d block (s.len - tempp) 0 temp s).map fun s => { s with len := s.len + temp }
  else if s.len + temp ≥ tempp then
    let temp := temp - fpoff
    if temp > 0 then
      (readCopy d block 0 fpoff temp s).map fun s => { s with len := s.len + fpoff + temp, flag := true }
    else some { s with len := s.len + temp, flag := true }
  else some { s with len := s.len + temp }

def readDirect (d : Device) (this : Mem) (temp : Int) : List Nat → ReadState → Option ReadState
  | [], s => some s
  | i :: is, s =>
    (readCopy d (inodeBlock this i) s.len 0 temp s).bind fun s =>
      readDirect d this temp is { s with len := s.len + temp }

def copyDirect (d : Device) (this : Mem) : List Nat → ReadState → Option ReadState
  | [], s => some s
  | i :: is, s => (copyBlock d (inodeBlock this i) 1024 s).bind (copyDirect d this is)

def copyPointers (d : Device) (ib : Mem) (count blknum : Int) (i : Nat) :
    List Nat → ReadState → Option ReadState
  | [], s => some s
  | j :: js, s =>
    let temp := if 1024 + s.len > count then count - s.len else 1024
    (copyBlock d (indBlock ib j) temp s).bind fun s =>
      if blknum = j + i * 256 then some s else copyPointers d ib count blknum i js s

def copyIndirect (d : Device) (this : Mem) (junk : Nat → Mem) (count blknum : Int) :
    List Nat → ReadState → Option ReadState
  | [], s => some s
  | i :: is, s =>
    if 30 ≤ i then none
    else
      (readBlockAt d (inodeIndBlock this i) (junk i)).bind fun ib =>
        (copyPointers d ib count blknum i (List.range 256)
          { s with reads := s.reads ++ [inodeIndBlock this i] }).bind
          (copyIndirect d this junk count blknum is)

/-- The value returned, the buffer, and the blocks that were read. -/
def myRead (w : World) (fdd : Nat) (buf : Mem) (cnt : Int) (junk : ReadJunk) :
    Option (Int × Mem × List Int) :=
  let count := cnt
  let blknum := (count - 1).tdiv 1024 + 1
  (readInode w.dev (w.fd fdd) junk.this).bind fun (this, _) =>
    let s : ReadState := { buf := buf, tmp := junk.tmp, len := 0, flag := false, reads := [] }
    (if blknum ≤ 10 then
      readDirect w.dev this (if count > 1024 then 1024 else count) (List.range blknum.toNat) s
    else some s).bind fun s =>
      (copyDirect w.dev this (List.range 10) s).bind fun s =>
        let blknum := blknum - 10
        let indnum := blknum.tdiv 256 + 1
        (copyIndirect w.dev this junk.ib count blknum (List.range indnum.toNat) s).map fun s =>
          (s.len - tempp, s.buf, s.reads)

/-! ## What is claimed -/

/-- How many blocks `n` bytes take up. -/
def blocksOf (n : Nat) : Nat := (n + 1023) / 1024

def blockAt (d : Device) (b : Int) : Mem := fun x => d.file (b.toNat * blocksize + x)

/-- The number of block `e` of the file. -/
def filePointer (d : Device) (inode : Mem) (e : Nat) : Int :=
  if e < 10 then inodeBlock inode e
  else indBlock (blockAt d (inodeIndBlock inode ((e - 10) / 256))) ((e - 10) % 256)

def fileByteAt (d : Device) (inode : Mem) (x : Nat) : Byte :=
    blockAt d (filePointer d inode (x / 1024)) (x % 1024)

def DataBlock (d : Device) (b : Int) : Prop := (blockTableStart : Int) ≤ b ∧ b < d.devsize

/-- A file of `size` bytes. Its blocks are data blocks, and each has its own. -/
structure StoredFile (d : Device) (inode : Mem) (size : Nat) : Prop where
  type_eq : inodeType inode = fileType
  size_eq : inodeSize inode = size
  size_le : size ≤ (10 + 30 * 256) * 1024
  data : ∀ e < blocksOf size, DataBlock d (filePointer d inode e)
  indirect : ∀ i, 10 + 256 * i < blocksOf size → DataBlock d (inodeIndBlock inode i)
  apart : ∀ e < blocksOf size, ∀ e' < blocksOf size, filePointer d inode e = filePointer d inode e' → e = e'
  apart_indirect : ∀ i, 10 + 256 * i < blocksOf size → ∀ e < blocksOf size,
    inodeIndBlock inode i ≠ filePointer d inode e

/-- The blocks that the first `n` bytes are in. -/
def neededBlocks (d : Device) (inode : Mem) (n : Nat) : List Int :=
    (List.range (blocksOf n)).map (filePointer d inode)

/-- The first bytes of the file are put into the buffer, and nothing behind `cnt`. -/
structure ReadsRight (d : Device) (inode : Mem) (cnt m : Nat) (buf : Mem)
    (out : Int × Mem × List Int) : Prop where
  ret : out.1 = m
  bytes : ∀ x < m, out.2.1 x = fileByteAt d inode x
  behind : ∀ x, cnt ≤ x → out.2.1 x = buf x
  once : out.2.2.filter (fun b => b ∈ neededBlocks d inode m) = neededBlocks d inode m

def ReadsFile (w : World) (fdd : Nat) (inode : Mem) (size cnt : Nat) : Prop :=
  ∀ buf junk, ∃ out, myRead w fdd buf cnt junk = some out ∧ ReadsRight w.dev inode cnt (min cnt size) buf out

/-- The block after the last one needed can be looked up and read, and is none of these. So it is if the file has
one more block. -/
structure NextHarmless (d : Device) (inode : Mem) (cnt : Nat) : Prop where
  inTable : blocksOf cnt < 10 + 30 * 256
  indirect : (blocksOf cnt - 10) % 256 = 0 →
    0 ≤ inodeIndBlock inode ((blocksOf cnt - 10) / 256) ∧
      inodeIndBlock inode ((blocksOf cnt - 10) / 256) < d.devsize ∧
      inodeIndBlock inode ((blocksOf cnt - 10) / 256) ∉ neededBlocks d inode cnt
  readable : -2 ^ 31 ≤ filePointer d inode (blocksOf cnt) * blocksize
  other : filePointer d inode (blocksOf cnt) ∉ neededBlocks d inode cnt

end SystemProjects.Simdisk
