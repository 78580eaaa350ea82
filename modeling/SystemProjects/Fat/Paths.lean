import SystemProjects.Fat.Code

/-!
# Creating, deleting and renaming in `fat.c`

A string is the buffer it stands in: a list of bytes with its end mark and what comes after it. A lookup cuts
the string at its slashes, and a comparison may read on past such a cut. A read past the buffer has no outcome,
and neither has one past the memory of a directory. The `dir_idx` of a lookup is its `dir_index`, and the `res`
of `fat_create` is its `ret`.
-/

open SystemProjects.Memory

namespace SystemProjects.Fat

/-! ## Strings -/

def slash : Byte := 0x2F

def dot : Byte := 0x2E

def toupper (c : Byte) : Byte := if 0x61 ≤ c ∧ c ≤ 0x7A then c - 0x20 else c

def cstr (buffer : List Byte) : List Byte := buffer.takeWhile (· ≠ 0)

def upperString (buffer : List Byte) : List Byte :=
  (cstr buffer).map toupper ++ buffer.drop (cstr buffer).length

def strcpy (buffer s : List Byte) : List Byte := s ++ 0 :: buffer.drop (s.length + 1)

def strrchr : List Byte → Option Nat
  | [] => none
  | b :: s =>
    match strrchr s with
    | some i => some (i + 1)
    | none => if b = slash then some 0 else none

/-- `tmp[1] = 0x00`. -/
def cutAfter (buffer : List Byte) (tmp : Nat) : List Byte := buffer.set (tmp + 1) 0

/-! ## Names -/

def fatPadbyte : Byte := 0x20

def fatEntryDeleted : Byte := 0xE5

def fatNamesize : Nat := 8

def fatExtensionsize : Nat := 3

/-- `char` is signed and `BYTE` is not. -/
def sameChar (c b : Byte) : Bool := c = b ∧ c < 0x80

/-- Compares up to `n` bytes from index `i` of a field with the name from `offset` on, and gives the index at
which it stops, or none where they differ. -/
def compareField (field : Nat → Byte) (name : List Byte) (offset : Nat) : Nat → Nat → Option (Option Nat)
  | 0, i => some (some i)
  | n + 1, i =>
    if field i = fatPadbyte then some (some i)
    else name[offset + i]?.bind fun c =>
      if sameChar c (field i) then compareField field name offset n (i + 1) else some none

def fatCompareName (entry : FatEntry) (name : List Byte) : Option Bool :=
  let name := upperString name
  (compareField entry name 0 fatNamesize 0).bind fun
    | none => some false
    | some i =>
      name[i]?.bind fun c =>
        if c = dot ∨ entry 8 ≠ fatPadbyte then
          (compareField (fun x => entry (8 + x)) name (i + 1) fatExtensionsize 0).map Option.isSome
        else some true

/-- The extension loop never moves on from `extension[0]`. -/
def fatSetFileName (entry : FatEntry) (name : List Byte) : FatEntry :=
  let name := name.map toupper
  let base := (name.take fatNamesize).takeWhile (· ≠ dot)
  let extension := if name[base.length]? = some dot then name.drop (base.length + 1) else []
  fun x =>
    if x < 8 then base[x]?.getD fatPadbyte
    else if x = 8 then extension.getLast?.getD fatPadbyte
    else if x < 11 then fatPadbyte
    else entry x

/-! ## Directories -/

/-- The bytes that a `memcpy` of an entry takes. -/
def FatEntry.copy (e : FatEntry) : FatEntry := memcpy (fun _ => 0) 0 e entrySize

inductive Dir where
  | root | cluster (c : Nat)
  deriving DecidableEq

namespace Volume

def dir (v : Volume) : Dir → Mem
  | .root => v.rootdir
  | .cluster c => v.data c

def dirSlots (v : Volume) : Dir → Nat
  | .root => v.numRootDirEnts
  | .cluster _ => v.slots

def entryAt (v : Volume) (d : Dir) (i : Nat) : FatEntry := (entryOf (v.dir d) i).copy

end Volume

inductive Scan where
  | stop | next | found
  deriving DecidableEq

/-- What an iteration of `fat_getIndex` does at an entry. -/
def scanEntry (e : FatEntry) (name : List Byte) : Option Scan :=
  if e.name0 = 0 then some .stop
  else if e.name0 = fatEntryDeleted then some .next
  else if e.startCluster = fatFreecluster ∧ e.archive = false then some .next
  else (fatCompareName e name).map fun same => if same then .found else .next

/-- The scan from entry `i` on. -/
def getIndexFrom (v : Volume) (d : Dir) (name : List Byte) : Nat → Nat → Option (Option Nat)
  | 0, _ => some none
  | n + 1, i =>
    if i < v.dirSlots d then
      (scanEntry (v.entryAt d i) name).bind fun
        | .stop => some none
        | .next => getIndexFrom v d name n (i + 1)
        | .found => some (some i)
    else none

def fatGetIndex (v : Volume) (d : Dir) (name : List Byte) : Option (Option Nat) := getIndexFrom v d name 32 0

/-! ## Lookups -/

/-- The buffer from a component on, with `rest` after the end of the string. -/
def joinPath (rest : List Byte) : List (List Byte) → List Byte
  | [] => rest
  | [c] => c ++ 0 :: rest
  | c :: cs => c ++ slash :: joinPath rest cs

/-- The loop over the components. `file` has the previous entry, and the directory cluster and the index that
are saved so far. -/
def file2entryLoop (v : Volume) (rest : List Byte) : List (List Byte) → Dir → FatFile →
    Option (Option FatFile)
  | [], _, file => some (some file)
  | c :: cs, d, file =>
    (fatGetIndex v d (c ++ 0 :: joinPath rest cs)).bind fun
      | none => if c = [] then some (some { file with dirIndex := none }) else some none
      | some i =>
        let entry := v.entryAt d i
        file2entryLoop v rest cs (.cluster entry.startCluster)
          { file with entry := entry, dirCluster := file.entry.startCluster, dirIndex := some i }

def dropSlash (path : List Byte) : List Byte := if path.head? = some slash then path.tail else path

def components (path : List Byte) : List (List Byte) := ((dropSlash path).map toupper).splitOn slash

def afterString (buffer : List Byte) : List Byte := buffer.drop ((cstr buffer).length + 1)

/-- `prevEntry` is what the uninitialised variable of that name holds. -/
def fatFile2entry (v : Volume) (prevEntry : FatEntry) (filename : List Byte) : Option (Option FatFile) :=
  file2entryLoop v (afterString filename) (components (cstr filename)) .root
    { entry := prevEntry, dirCluster := FAIL, dirIndex := none, currentPos := 0 }

/-- The string that a lookup leaves behind: the first slash has become its end. -/
def cutString (filename : List Byte) : List Byte :=
  (if (cstr filename).head? = some slash then [slash] else []) ++ (components (cstr filename)).headD []

/-! ## The operations -/

namespace FatEntry

def setDeleted (e : FatEntry) : FatEntry := fun x => if x = 0 then fatEntryDeleted else e x

def setDirectory (e : FatEntry) : FatEntry := fun x => if x = 11 then e 11 ||| 0x10 else e x

def setArchive (e : FatEntry) : FatEntry := fun x => if x = 11 then e 11 ||| 0x20 else e x

def setStartCluster (e : FatEntry) (c : Nat) : FatEntry := fun x =>
  if x = 26 then BitVec.ofNat 8 c else if x = 27 then BitVec.ofNat 8 (c / 2 ^ 8) else e x

end FatEntry

/-- A new entry in the directory cluster. The time and the date stay zero. -/
def createEntry (v : Volume) (dirCluster : Int) (filename : List Byte) (createDir : Bool) :
    Option (Volume × Int) :=
  let entry := fatSetFileName (fun _ => 0) filename
  let update (v : Volume) (entry : FatEntry) : Option (Volume × Int) :=
    (fatUpdateFileEntry v { entry := entry, dirCluster := dirCluster, dirIndex := none, currentPos := 0 }).map
      fun (v, _, ret) => (v, ret)
  if createDir then
    let start : Nat := (fatGetFreeCluster v % 2 ^ 16).toNat
    if start ≠ 0xFFFF then
      update (fatSetFATCluster (v.setData start fun _ => 0) start fatEndofcluster)
        (entry.setDirectory.setStartCluster start)
    else some (v, FAIL)
  else update v entry.setArchive

/-- `fat_create` on a mount `s` with the volume `v`. `create` makes the entry in the parent that was found. -/
def fatCreateWith {S : Type} (s : S) (v : Volume) (create : Int → List Byte → Bool → Option (S × Int))
    (prevEntry : FatEntry)
    (filename : List Byte) : Option (S × Int) :=
  (fatFile2entry v prevEntry filename).bind fun
    | some _ => some (s, FAIL)
    | none =>
      let cut := cutString filename
      let createDir := cut.getLast? = some slash
      let name := if createDir then cut.dropLast else cut
      let dirname := if createDir then strcpy filename name else filename
      -- An empty string is indexed at -1. Without a slash, the copy is from the address that '/' is.
      if cut = [] then none
      else (strrchr (cstr dirname)).bind fun tmp =>
        (fatFile2entry v prevEntry (cutAfter dirname tmp)).bind fun
          | none => some (s, FAIL)
          | some parent =>
            -- Without a slash in the name, this is the address 1.
            (strrchr name).bind fun last => create parent.entry.startCluster (name.drop (last + 1)) createDir

def fatCreate (v : Volume) (prevEntry : FatEntry) (filename : List Byte) : Option (Volume × Int) :=
  fatCreateWith v v (createEntry v) prevEntry filename

def fatDelete (v : Volume) (prevEntry : FatEntry) (filename : List Byte) : Option (Volume × Int) :=
  (fatFile2entry v prevEntry filename).bind fun
    | none => some (v, FAIL)
    | some file =>
      (fatSetFileSize v { file with entry := file.entry.setDeleted } 0).map fun (v, _, ret) => (v, ret)

def fatRename (v : Volume) (prevEntry : FatEntry) (src dst : List Byte) : Option (Volume × Int) :=
  (fatFile2entry v prevEntry src).bind fun
    | none => some (v, FAIL)
    | some file =>
      match strrchr (cstr dst) with
      | none => some (v, FAIL)
      | some last =>
        (fatUpdateFileEntry v
          { file with entry := fatSetFileName file.entry ((cstr dst).drop (last + 1)) }).map
          fun (v, _, ret) => (v, ret)

end SystemProjects.Fat
