import SystemProjects.Lib.Bitmap
import SystemProjects.Lib.Run

/-!
# The simulated disk of `simdisk.c` and `block.c`

The disk is a file of bytes. Calls on a file that is open and long enough succeed. Buffers that are
not initialised come in as parameters. An index past a buffer has no outcome.
-/

open SystemProjects.Memory SystemProjects.Bitmap

namespace SystemProjects.Simdisk

def maxFileNum : Nat := 10000
def blockMapStart : Nat := 1
def inodeMapStart : Nat := 14
def inodeTableStart : Nat := 16
def blockTableStart : Nat := 2516
def blocksize : Nat := 1024

def dirType : Nat := 2

/-- `-1` in four bytes. -/
def minusOne : Nat := 2 ^ 32 - 1

/-- The file, and the two variables of `block.c`. -/
structure Device where
  file : Mem
  stSize : Nat
  /-- `f` is not negative. -/
  isOpen : Bool
  devsize : Nat

/-! ## Blocks and inodes -/

def devOpen (d : Device) : Device × Nat :=
  let d := if d.isOpen then d else { d with isOpen := true, devsize := d.stSize / blocksize }
  (d, d.devsize)

def Device.read (d : Device) (offset n : Nat) (buffer : Mem) : Mem :=
  memcpy buffer 0 (fun x => d.file (offset + x)) n

def Device.write (d : Device) (offset n : Nat) (buffer : Mem) : Device :=
  { d with file := memcpy d.file offset buffer n }

def readBlock (d : Device) (blockNum : Nat) (block : Mem) : Mem × Int :=
  if blockNum ≥ d.devsize then (block, -1) else (d.read (blockNum * blocksize) blocksize block, 0)

def writeBlock (d : Device) (blockNum : Nat) (block : Mem) : Device × Int :=
  if blockNum ≥ d.devsize then (d, -1) else (d.write (blockNum * blocksize) blocksize block, 0)

/-- The offset of an inode, unless the `int` arithmetic overflows. `lseek` fails on a negative one. -/
def inodeOffset (inum : Int) : Option Int :=
  if -2 ^ 31 ≤ inum * 256 ∧ inodeTableStart * blocksize + inum * 256 < 2 ^ 31 then
    some (inodeTableStart * blocksize + inum * 256)
  else none

def readInode (d : Device) (inum : Int) (inode : Mem) : Option (Mem × Int) :=
  if inum ≥ maxFileNum ∨ inum = 0 then some (inode, -1)
  else (inodeOffset inum).map fun offset =>
    if offset < 0 then (inode, -1) else (d.read offset.toNat 256 inode, 0)

def writeInode (d : Device) (inum : Int) (inode : Mem) : Option (Device × Int) :=
  if inum ≥ d.devsize ∨ inum = 0 then some (d, -1)
  else (inodeOffset inum).map fun offset =>
    if offset < 0 then (d, -1) else (d.write offset.toNat 256 inode, 0)

/-! ## `my_mkfs` -/

def strcpy (m : Mem) (a : Nat) (s : String) : Mem := fun x =>
  if a ≤ x ∧ x ≤ a + s.length then BitVec.ofNat 8 ((s.toList.map Char.toNat)[x - a]?.getD 0) else m x

/-- `struct super_block` in a block that is zero otherwise. -/
def superBlock (blockNum : Nat) : Mem :=
  let sb := store32 (fun _ => 0) 0 2018
  let sb := store32 sb 4 blockNum
  let sb := store32 sb 8 maxFileNum
  let sb := store32 sb 12 99883
  store32 sb 16 2499

/-- `struct inode` of the root, in memory that is not cleared. It has no member for the `"/"`. -/
def rootInode (root : Mem) : Mem :=
  let root := store32 root 0 dirType
  let root := store32 root 4 1
  let root := store32 root 8 1
  let root := store32 root 12 0
  let root := store32 root 16 0
  let root := strcpy root 20 "rwxr-xr-x"
  let root := store32 root 32 blockTableStart
  let root := (List.range' 1 9).foldl (fun m i => store32 m (32 + 4 * i) minusOne) root
  (List.range 30).foldl (fun m i => store32 m (72 + 4 * i) minusOne) root

def setDirEntry (m : Mem) (a inode type length : Nat) (name : String) : Mem :=
  strcpy (store32 (store32 (store32 m a inode) (a + 4) type) (a + 8) length) (a + 12) name

/-- `struct dir` of the root, in memory that is not cleared. -/
def rootDir (rootBlock : Mem) : Mem :=
  setDirEntry (setDirEntry rootBlock 0 1 dirType 32 ".") 64 1 dirType 32 ".."

def firstByte (m : Mem) (b : Byte) : Mem := fun x => if x = 0 then b else m x

/-- `root` and `rootBlock` are what `malloc` gives. -/
def myMkfs (d : Device) (root rootBlock : Mem) : Device :=
  let tmp := (readBlock d 0 fun _ => 0).1
  if load32 tmp 0 = 2018 then d
  else
    let (d, blockNum) := devOpen d
    let d := (writeBlock d 0 (superBlock blockNum)).1
    let tmp := firstByte tmp 0x80
    let d := (writeBlock d blockMapStart tmp).1
    let tmp := firstByte tmp 0xc0
    let d := (writeBlock d inodeMapStart tmp).1
    -- The offset of inode 1 does not overflow.
    let d := (writeInode d 1 (rootInode root)).elim d Prod.fst
    (writeBlock d blockTableStart (rootDir rootBlock)).1

/-! ## `get_block` and `get_inode` -/

/-- The first byte that differs from `0xff`. A `char` is signed. -/
def scanByte (bits : Mem) : Option Nat := (List.range blocksize).find? fun j => (bits j).toInt ≠ 0xff

/-- The first block of the map and the byte in it, with the buffer they are read in. -/
def scanMap (d : Device) (bits : Mem) : List Nat → Option (Nat × Nat × Mem)
  | [] => none
  | i :: is =>
    let bits := (readBlock d i bits).1
    ((scanByte bits).map fun j => (i, j, bits)) <|> scanMap d bits is

/-- The first bit from the left that is clear, and 8 when there is none. -/
def scanBit (bitb : Byte) : Nat :=
  ((List.range 8).find? fun k => ~~~(bitb.setWidth 32 <<< k) &&& 0x80#32 ≠ 0).getD 8

/-- What the two functions share: the map is in the blocks from `start` up to `stop`. After a scan
without success the code goes on with a byte past the buffer. -/
def acquire (start stop table limit : Nat) (d : Device) (bits : Mem) : Option (Device × Int) :=
  (scanMap d bits (List.range' start (stop - start))).bind fun (i, j, bits) =>
    let retval := scanBit (bits j) + j * 8 + (i - start) * 8192 + table
    if retval ≥ limit then some (d, -1)
    else if retval / 8 < blocksize then some ((writeBlock d i (setBit bits retval)).1, retval)
    else none

def getBlock : Device → Mem → Option (Device × Int) :=
  acquire blockMapStart inodeMapStart blockTableStart 102400

def getInode : Device → Mem → Option (Device × Int) :=
  acquire inodeMapStart inodeTableStart inodeTableStart maxFileNum

/-- A call, with what is in its buffer. -/
inductive Call where
  | getBlock (bits : Mem)
  | getInode (bits : Mem)

def step (d : Device) : Call → Option (Device × Int)
  | .getBlock bits => getBlock d bits
  | .getInode bits => getInode d bits

/-! ## What is claimed of a run -/

/-- Bit `x` is about block `x` of the data blocks. -/
def blockMap (d : Device) : Mem := fun x => d.file (blockMapStart * blocksize + x)

def inodeMap (d : Device) : Mem := fun x => d.file (inodeMapStart * blocksize + x)

/-- The bits of both maps are as before, but for the bit of the number returned. -/
def Marks (t : Run.Transition Device Call Int) : Prop :=
  let newBlock (x : Nat) : Bool := match t.act with
    | .getBlock _ => t.out = x + blockTableStart
    | .getInode _ => false
  let newInode (x : Nat) : Bool := match t.act with
    | .getBlock _ => false
    | .getInode _ => t.out = x
  (∀ x < (inodeMapStart - blockMapStart) * 8192,
    isSet (blockMap t.post) x = (newBlock x || isSet (blockMap t.pre) x)) ∧
  ∀ x < (inodeTableStart - inodeMapStart) * 8192,
    isSet (inodeMap t.post) x = (newInode x || isSet (inodeMap t.pre) x)

/-- The number in its range. -/
def InRange (t : Run.Transition Device Call Int) : Prop :=
  match t.act with
  | .getBlock _ => (blockTableStart : Int) < t.out ∧ t.out < 102400
  | .getInode _ => 2 ≤ t.out ∧ t.out < (maxFileNum : Int)

def Call.isBlock : Call → Bool
  | .getBlock _ => true
  | .getInode _ => false

/-- The numbers returned by the calls of one kind. -/
def numbers (block : Bool) (ts : List (Run.Transition Device Call Int)) : List Int :=
  (ts.filter fun t => t.act.isBlock = block ∧ t.out ≠ -1).map (·.out)

structure Exclusive (ts : List (Run.Transition Device Call Int)) : Prop where
  inRange : ∀ t ∈ ts, t.out ≠ -1 → InRange t
  blocks : (numbers true ts).Nodup
  inodes : (numbers false ts).Nodup
  marks : ∀ t ∈ ts, Marks t

/-- All zero, with 102400 blocks. It may be open already. -/
structure Blank (d : Device) : Prop where
  zero : ∀ x, d.file x = 0
  stSize : d.stSize = 102400 * blocksize
  devsize : d.devsize = if d.isOpen then 102400 else 0

end SystemProjects.Simdisk
