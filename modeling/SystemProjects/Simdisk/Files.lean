import SystemProjects.Simdisk.Code

/-!
# `find` and `my_creat`

A record of the inode table has 256 bytes, and the structures that are read have room for them. What
is on the stack or comes from `malloc` is a parameter.
-/

open SystemProjects.Memory

namespace SystemProjects.Simdisk

/-- The bytes of a C string before its `NUL`. -/
abbrev CString := List Byte

def slash : Byte := 0x2f

def maxFileNameLength : Nat := 50
def maxLevel : Nat := 10
def maxOpenFiles : Nat := 10

def fileType : Nat := 1

/-- The disk, and the globals of `simdisk.h`. -/
structure World where
  dev : Device
  fd : Nat → Int
  cwdInode : Int

/-! ## Records -/

def loadInt (m : Mem) (a : Nat) : Int := (BitVec.ofNat 32 (load32 m a)).toInt

def storeInt (m : Mem) (a : Nat) (v : Int) : Mem := store32 m a (BitVec.ofInt 32 v).toNat

def inodeType (inode : Mem) : Int := loadInt inode 0
def inodeNum (inode : Mem) : Int := loadInt inode 4
def inodeSize (inode : Mem) : Int := loadInt inode 8
def inodeBlock (inode : Mem) (j : Nat) : Int := loadInt inode (32 + 4 * j)

def dentryInode (direc : Mem) (k : Nat) : Int := loadInt direc (64 * k)
def dentryType (direc : Mem) (k : Nat) : Int := loadInt direc (64 * k + 4)
def dentryLength (direc : Mem) (k : Nat) : Int := loadInt direc (64 * k + 8)
def dentryName (direc : Mem) (k : Nat) : Mem := fun x => direc (64 * k + 12 + x)

def cstring (s : CString) : Mem := fun x => s[x]?.getD 0

/-- Whether the strings are equal from `p` on, with `n` bytes left of the arrays. -/
def strEq (a b : Mem) (p : Nat) : Nat → Option Bool
  | 0 => none
  | n + 1 => if a p ≠ b p then some false else if a p = 0 then some true else strEq a b (p + 1) n

/-- A block number is an `int`. The product with the block size may overflow, and `lseek` fails on a
negative one. -/
def readBlockAt (d : Device) (b : Int) (block : Mem) : Option Mem :=
  if b ≥ d.devsize then some block
  else if b * blocksize < -2 ^ 31 then none
  else if b < 0 then some block
  else some (readBlock d b.toNat block).1

def writeBlockAt (d : Device) (b : Int) (block : Mem) : Option Device :=
  if b ≥ d.devsize then some d
  else if b * blocksize < -2 ^ 31 then none
  else if b < 0 then some d
  else some (writeBlock d b.toNat block).1

/-! ## `find` -/

/-- What `find` meets in memory that is not initialised, and in the byte before the path. -/
structure FindJunk where
  root : Mem
  direc : Mem
  arg : Mem
  before : Byte

/-- The loop over the path, with the components put into the rows of `arg`: the number of the last
row, or `NULL` when there are too many. -/
def parse (arg : Mem) (j k : Nat) : CString → Option (Option (Mem × Nat))
  | [] => some (some (arg, j))
  | c :: cs =>
    if j = maxLevel then some none
    else if maxFileNameLength ≤ k then none
    else if c ≠ slash then parse (fun x => if x = maxFileNameLength * j + k then c else arg x) j (k + 1) cs
    else parse (fun x => if x = maxFileNameLength * j + k then 0 else arg x) (j + 1) 0 cs

/-- The first entry from `k` on with the name. `d` is set when a directory is looked for. -/
def findDentry (direc name : Mem) (d : Bool) : Nat → Nat → Option (Option Nat)
  | 0, _ => some none
  | fuel + 1, k =>
    if 32 ≤ k then some none
    else if dentryInode direc k = 0 then findDentry direc name d fuel (k + 1)
    else if d ∧ dentryType direc k = fileType then findDentry direc name d fuel (k + 1)
    else if ¬ d ∧ dentryType direc k = dirType then findDentry direc name d fuel (k + 1)
    else
      (strEq (dentryName direc k) name 0 maxFileNameLength).bind fun eq =>
        if eq then some (some k)
        else findDentry direc name d fuel (if dentryLength direc k = 64 then k + 2 else k + 1)

/-- The inode number that the blocks `js` of the directory have for the name, and the last block read. -/
def findInBlocks (dev : Device) (name : Mem) (d : Bool) (tmp : Mem) :
    List Nat → Mem → Option (Option Int × Mem)
  | [], direc => some (none, direc)
  | j :: js, direc =>
    if inodeBlock tmp j ≤ 0 then findInBlocks dev name d tmp js direc
    else
      (readBlockAt dev (inodeBlock tmp j) direc).bind fun direc =>
        (findDentry direc name d 32 0).bind fun
          | some k => some (some (dentryInode direc k), direc)
          | none => findInBlocks dev name d tmp js direc

/-- The loop over the rows of `arg`. -/
def findRows (dev : Device) (arg : Mem) (d : Bool) : List Nat → Mem → Mem → Option (Option Mem)
  | [], tmp, _ => some (some tmp)
  | i :: is, tmp, direc =>
    (findInBlocks dev (fun x => arg (maxFileNameLength * i + x)) d tmp (List.range 10) direc).bind fun
      | (none, _) => some none
      | (some inum, direc) => (readInode dev inum tmp).bind fun (tmp, _) => findRows dev arg d is tmp direc

/-- The inode, or `NULL`. -/
def find (w : World) (path : CString) (junk : FindJunk) : Option (Option Mem) :=
  if path = [slash] then (readInode w.dev 1 junk.root).map fun r => some r.1
  else
    let absu : Bool := path.head? = some slash
    let d : Bool := path.getLast?.getD junk.before = slash
    (parse junk.arg 0 0 (if absu then path.tail else path)).bind fun
      | none => some none
      | some (arg, j) =>
        (readInode w.dev (if absu then 1 else w.cwdInode) junk.root).bind fun (tmp, _) =>
          findRows w.dev arg d (List.range (if d then j else j + 1)) tmp junk.direc

/-! ## `my_creat` -/

structure CreatJunk where
  find : FindJunk
  direc : Mem
  inode : Mem
  /-- The buffers of the three calls that allocate. -/
  slotBits : Mem
  inodeBits : Mem
  blockBits : Mem

/-- `dir_name` and `file_name`, without the slash between them. -/
def splitPath (path : CString) : Option (CString × CString) :=
  if slash ∈ path then
    let div := (List.range path.length).foldl (fun div i => if path[i]? = some slash then i else div) 0
    if maxFileNameLength * maxLevel < div + 1 ∨ maxFileNameLength ≤ path.length - div - 1 then none
    else some (path.take div, path.drop (div + 1))
  else none

/-- Whether a file has the name, from entry `j` on. -/
def hasFile (direc : Mem) (name : CString) : Nat → Nat → Option Bool
  | 0, _ => some false
  | fuel + 1, j =>
    if dentryInode direc j ≠ 0 ∧ dentryType direc j = fileType then
      (strEq (dentryName direc j) (cstring name) 0 maxFileNameLength).bind fun eq =>
        if eq then some true else hasFile direc name fuel (j + 1)
    else hasFile direc name fuel (j + 1)

def hasFileInBlocks (dev : Device) (cur : Mem) (name : CString) : List Nat → Mem → Option (Bool × Mem)
  | [], direc => some (false, direc)
  | i :: is, direc =>
    if inodeBlock cur i = -1 then hasFileInBlocks dev cur name is direc
    else
      (readBlockAt dev (inodeBlock cur i) direc).bind fun direc =>
        (hasFile direc name 32 0).bind fun found =>
          if found then some (true, direc) else hasFileInBlocks dev cur name is direc

/-- A block with an empty entry, a new one if need be. With ten full blocks the code goes on past `blocks`. -/
def emptyDentry (dev : Device) (cur bits : Mem) : List Nat → Mem → Option (Device × Int × Nat × Mem)
  | [], _ => none
  | i :: is, direc =>
    if inodeBlock cur i ≠ -1 then
      (readBlockAt dev (inodeBlock cur i) direc).bind fun direc =>
        match (List.range 32).find? fun j => dentryInode direc j = 0 with
        | some j => some (dev, inodeBlock cur i, j, direc)
        | none => emptyDentry dev cur bits is direc
    else
      (getBlock dev bits).bind fun (dev, block) =>
        (readBlockAt dev block direc).map fun direc => (dev, block, 0, direc)

/-- `strncpy(name, file_name, strlen(file_name))` does not copy the `NUL`. -/
def newDentry (direc : Mem) (k : Nat) (inum : Int) (name : CString) : Mem :=
  let direc := storeInt direc (64 * k) inum
  let direc := storeInt direc (64 * k + 4) fileType
  let direc := storeInt direc (64 * k + 8) 32
  memcpy direc (64 * k + 12) (cstring name) name.length

/-- `struct inode` has no member for the name. -/
def newInode (inode : Mem) (inum block : Int) : Mem :=
  let inode := storeInt inode 0 fileType
  let inode := storeInt inode 4 inum
  let inode := strcpy inode 20 "rw-rw-r--"
  let inode := storeInt inode 8 0
  let inode := storeInt inode 32 block
  let inode := (List.range' 1 9).foldl (fun m i => store32 m (32 + 4 * i) minusOne) inode
  (List.range 30).foldl (fun m i => store32 m (72 + 4 * i) minusOne) inode

def openFd (fd : Nat → Int) (inum : Int) : (Nat → Int) × Int :=
  match (List.range maxOpenFiles).find? fun i => fd i = -1 ∨ fd i = 0 with
  | some i => (fun x => if x = i then inum else fd x, i)
  | none => (fd, -1)

/-- The rest of `my_creat`, in the directory `cur`. -/
def creatIn (w : World) (cur : Mem) (fileName : CString) (junk : CreatJunk) : Option (World × Int) :=
  (hasFileInBlocks w.dev cur fileName (List.range 10) junk.direc).bind fun (found, direc) =>
    if found then some (w, -1)
    else
      (emptyDentry w.dev cur junk.slotBits (List.range 10) direc).bind fun (dev, block, k, direc) =>
        (getInode dev junk.inodeBits).bind fun (dev, inum) =>
          if inum = -1 then some ({ w with dev := dev }, -1)
          else
            (writeBlockAt dev block (newDentry direc k inum fileName)).bind fun dev =>
              (readInode dev inum junk.inode).bind fun (inode, _) =>
                (getBlock dev junk.blockBits).bind fun (dev, fileBlock) =>
                  (writeInode dev inum (newInode inode inum fileBlock)).map fun (dev, _) =>
                    let (fd, ret) := openFd w.fd inum
                    ({ w with dev := dev, fd := fd }, ret)

/-- `dir_name` loses the slash at its end, since the `NUL` is put in its place. -/
def myCreat (w : World) (path : CString) (junk : CreatJunk) : Option (World × Int) :=
  (splitPath path).bind fun (dirName, fileName) =>
    (find w dirName junk.find).bind fun
      | none => some (w, -1)
      | some cur => if inodeType cur = fileType then some (w, -1) else creatIn w cur fileName junk

/-! ## Calls -/

inductive Op where
  | creat (path : CString) (junk : CreatJunk)
  | getBlock (bits : Mem)
  | getInode (bits : Mem)

def stepWorld (w : World) : Op → Option (World × Int)
  | .creat path junk => myCreat w path junk
  | .getBlock bits => (getBlock w.dev bits).map fun (dev, r) => ({ w with dev := dev }, r)
  | .getInode bits => (getInode w.dev bits).map fun (dev, r) => ({ w with dev := dev }, r)

/-- The state after `my_mkfs` on a disk that has no file system. Nothing sets `cwd_inode`. -/
def mkfsWorld (d : Device) (root rootBlock : Mem) : World :=
  { dev := myMkfs d root rootBlock, fd := fun _ => -1, cwdInode := 0 }

end SystemProjects.Simdisk
