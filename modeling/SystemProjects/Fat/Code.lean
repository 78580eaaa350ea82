import SystemProjects.Lib.Memory

/-!
# Reading and writing files in `fat.c`

The FAT is an array of `int`s and `fat_rwCluster` moves a whole cluster. The end-of-chain mark reads
back as `FAIL`. A `memcpy` past its buffer, or an `int` that overflows, has no outcome.
-/

open SystemProjects.Memory

namespace SystemProjects.Fat

def fatFreecluster : Int := 0

/-- `0xFFFFFFFF` as an `int`, which is what the array gives back for it. -/
def fatEndofcluster : Int := FAIL

/-- `sizeof(struct FAT_ENTRY)`. -/
def entrySize : Nat := 32

/-! ## Directory entries -/

/-- The bytes of a packed `struct FAT_ENTRY`. -/
abbrev FatEntry := Mem

namespace FatEntry

/-- `name[0]`. -/
def name0 (e : FatEntry) : Byte := e 0

def directory (e : FatEntry) : Bool := (e 11).getLsbD 4

def archive (e : FatEntry) : Bool := (e 11).getLsbD 5

def startCluster (e : FatEntry) : Nat := load16 e 26

def fileSize (e : FatEntry) : Nat := load32 e 28

def setFileSize (e : FatEntry) (size : Nat) : FatEntry := store32 e 28 size

end FatEntry

/-- The entry at index `i` of a directory. -/
def entryOf (dir : Mem) (i : Nat) : FatEntry := fun x => dir (entrySize * i + x)

/-! ## Volumes -/

structure Volume where
  fat : Int → Int
  data : Int → Mem
  rootdir : Mem
  numRootDirEnts : Nat
  clusterSize : Nat
  totalClusters : Nat

/-- An open file. `dirIndex` is `none` for `FAIL`. -/
structure FatFile where
  entry : FatEntry
  dirCluster : Int
  dirIndex : Option Nat
  currentPos : Nat

def fatSetFATCluster (v : Volume) (cluster value : Int) : Volume :=
  { v with fat := fun c => if c = cluster then value else v.fat c }

def Volume.setData (v : Volume) (cluster : Int) (block : Mem) : Volume :=
  { v with data := fun c => if c = cluster then block else v.data c }

def fatGetFreeCluster (v : Volume) : Int :=
  match (List.range v.totalClusters).find? fun (i : Nat) => v.fat i = fatFreecluster with
  | some i => i
  | none => FAIL

/-- The next cluster of a chain, unless it is free or there is none. -/
def nextCluster (fat : Int → Int) (cluster : Int) : Option Int :=
  if fat cluster = fatFreecluster ∨ fat cluster = FAIL then none else some (fat cluster)

/-! ## The directory of a file -/

/-- How many entries a cluster has room for. -/
def Volume.slots (v : Volume) : Nat := v.clusterSize / entrySize

/-- The entry copied over entry `i` of the cluster `dir`, which is then written. -/
def writeEntry (v : Volume) (file : FatFile) (dir : Mem) (i : Nat) : Option (Volume × FatFile × Int) :=
  if entrySize * i + entrySize ≤ v.clusterSize then
    some (v.setData file.dirCluster (memcpy dir (entrySize * i) file.entry entrySize),
      { file with dirIndex := some i }, SUCCESS)
  else none

def fatUpdateFileEntry (v : Volume) (file : FatFile) : Option (Volume × FatFile × Int) :=
  let dir := v.data file.dirCluster
  match file.dirIndex with
  | some i => writeEntry v file dir i
  | none =>
    let isEnd (i : Nat) : Bool := (entryOf dir i).fileSize ≠ 0xFFFFFFFF ∧ (entryOf dir i).name0 = 0
    match (List.range v.slots).find? isEnd with
    | some i =>
      if i + 1 ≥ v.slots then some (v, { file with dirIndex := some i }, FAIL)
      else writeEntry v file (memcpy dir (entrySize * (i + 1)) (fun _ => 0) 1) i
    -- The index is then one past the cluster.
    | none => writeEntry v file dir v.slots

/-- `size` is the bit pattern of the `int`. -/
def fatSetFileSize (v : Volume) (file : FatFile) (size : Nat) : Option (Volume × FatFile × Int) :=
  if file.entry.fileSize = size then some (v, file, SUCCESS)
  else fatUpdateFileEntry v { file with entry := file.entry.setFileSize size }

/-! ## Reading and writing -/

inductive Mode where
  | read | write
  deriving DecidableEq

/-- `i` steps along the chain. -/
def walkChain (fat : Int → Int) : Nat → Int → Option Int
  | 0, cluster => some cluster
  | i + 1, cluster => (nextCluster fat cluster).bind (walkChain fat i)

/-- The loop that links new clusters, and the last one of them. -/
def addClusters : Nat → Volume → Int → Volume × Option Int
  | 0, v, prevCluster => (v, some prevCluster)
  | newClusters + 1, v, prevCluster =>
    let next := fatGetFreeCluster v
    if next = FAIL then (v, none)
    else addClusters newClusters (fatSetFATCluster v prevCluster next) next

/-- How many bytes an iteration moves. `pos` is `current_pos`, which the loop does not update. -/
def bytesToRw (clusterSize pos offset size : Nat) : Nat :=
  let bytes := if size > clusterSize then clusterSize else size
  let limit := (pos / clusterSize + 1) * clusterSize
  if offset + bytes > limit then size - (offset + bytes - limit) else bytes

/-- What an iteration moves between the buffer and a cluster. -/
def rwBytes (mode : Mode) (v : Volume) (buffer : Mem) (bytesRw : Nat) (cluster : Int) (offset bytes : Nat) :
    Volume × Mem :=
  match mode with
  | .write =>
    let block := if offset > 0 ∨ bytes < v.clusterSize then v.data cluster else fun _ => 0
    (v.setData cluster (memcpy block offset (fun x => buffer (bytesRw + x)) bytes), buffer)
  | .read => (v, memcpy buffer bytesRw (fun x => v.data cluster (offset + x)) bytes)

/-- The transfer loop, with `buffer` as it was passed in and `bytesRw` bytes of it done. It ends before the
fuel does, for each iteration moves a byte or is the last one. -/
def rwLoop (mode : Mode) (pos : Nat) :
    Nat → Volume → Mem → Nat → Int → Nat → Nat → Option (Volume × Mem × Nat)
  | 0, _, _, _, _, _, _ => none
  | fuel + 1, v, buffer, bytesRw, cluster, offset, size =>
    let bytes := bytesToRw v.clusterSize pos offset size
    if (pos / v.clusterSize + 1) * v.clusterSize ≥ 2 ^ 31 ∨ offset + bytes > v.clusterSize then none
    else
      let (v, buffer) := rwBytes mode v buffer bytesRw cluster offset bytes
      if size - bytes = 0 then some (v, buffer, bytesRw + bytes)
      else match nextCluster v.fat cluster with
        | none => some (v, buffer, bytesRw + bytes)
        | some next => rwLoop mode pos fuel v buffer (bytesRw + bytes) next 0 (size - bytes)

/-- What comes after the chain has been made long enough. -/
def rwFrom (mode : Mode) (v : Volume) (file : FatFile) (buffer : Mem) (cluster : Int) (size : Nat) :
    Option (Volume × FatFile × Mem × Int) :=
  let pos := file.currentPos
  (rwLoop mode pos (size + 1) v buffer 0 cluster (pos % v.clusterSize) size).bind fun (v, buffer, bytesRw) =>
    if pos + bytesRw < 2 ^ 31 then some (v, { file with currentPos := pos + bytesRw }, buffer,
      bytesRw) else none

/-- `fat_rw` on a mount `s` with the volume `v`. `add` links the new clusters behind a cluster, `close` ends the chain,
and `transfer` moves the bytes. -/
def fatRwWith {S : Type} (mode : Mode) (s : S) (v : Volume) (file : FatFile) (buffer : Mem) (size : Nat)
    (add : Int → S × Option Int) (close : S → Int → S)
    (transfer : S → Int → Nat → Option (S × FatFile × Mem × Int)) :
    Option (S × FatFile × Mem × Int) :=
  match walkChain v.fat (file.currentPos / v.clusterSize) file.entry.startCluster with
  | none => some (s, file, buffer, FAIL)
  | some cluster =>
    if dword (file.currentPos + size) > file.entry.fileSize then
      match mode with
      | .write =>
        match add cluster with
        | (s, none) => some (s, file, buffer, FAIL)
        | (s, some last) => transfer (close s last) cluster size
      | .read => transfer s cluster (dword (2 ^ 32 + file.entry.fileSize - file.currentPos))
    else transfer s cluster size

def fatRw (mode : Mode) (v : Volume) (file : FatFile) (buffer : Mem) (size : Nat) :
    Option (Volume × FatFile × Mem × Int) :=
  fatRwWith mode v v file buffer size (addClusters (size / v.clusterSize + 1) v)
    (fun v last => fatSetFATCluster v last fatEndofcluster) fun v => rwFrom mode v file buffer

def fatRead (v : Volume) (file : FatFile) (buffer : Mem) (size : Nat) :
    Option (Volume × FatFile × Mem × Int) :=
  fatRw .read v file buffer size

def fatWrite (v : Volume) (file : FatFile) (buffer : Mem) (size : Nat) : Option (Volume × FatFile × Int) :=
  (fatRw .write v file buffer size).bind fun (v, written, _, bytesWritten) =>
    if bytesWritten ≥ 0 then
      if file.currentPos + bytesWritten > written.entry.fileSize then
        fatSetFileSize v written (file.currentPos + bytesWritten.toNat)
      else some (v, written, SUCCESS)
    else some (v, written, FAIL)

inductive Origin where
  | start | current | fileEnd | other

def fatSeek (file : FatFile) (offset : Nat) (origin : Origin) : FatFile × Int :=
  let seek (pos : Int) : FatFile × Int :=
    let file := if pos > file.entry.fileSize ∨ pos < 0 then file else { file with currentPos := pos.toNat }
    (file, file.currentPos)
  match origin with
  | .start => seek (toInt offset)
  | .current => seek (toInt (dword (file.currentPos + offset)))
  | .fileEnd => seek (toInt (dword (2 ^ 32 + file.entry.fileSize - offset)))
  | .other => (file, FAIL)

end SystemProjects.Fat
