import SystemProjects.Fat.Files
import SystemProjects.Fat.Paths

/-!
# The copies of the FAT

The device has `num_fats` copies of the FAT, one after another behind the boot sector. `fat_setFATCluster` changes the
one in memory and, with `commit`, writes it to the device. The copies and the clusters are taken to be apart: no cluster
lies in a copy. On a volume with a small root directory, cluster 0 would.
-/

open SystemProjects.Memory

namespace SystemProjects.Fat

/-- `copies i` is the FAT that copy `i` on the device holds. -/
structure Mounted extends Volume where
  numFats : Nat
  copies : Nat → Int → Int

namespace Mounted

variable {m m' : Mounted} {file : FatFile} {n : Nat}

def setVolume (m : Mounted) (v : Volume) : Mounted := { m with toVolume := v }

/-- The write begins behind the boot sector and is as long as one copy. -/
def fatSetFATCluster (m : Mounted) (cluster value : Int) (commit : Bool) : Mounted :=
  let m := m.setVolume (Fat.fatSetFATCluster m.toVolume cluster value)
  if commit then { m with copies := fun i => if i = 0 then m.fat else m.copies i } else m

def addClusters : Nat → Mounted → Int → Mounted × Option Int
  | 0, m, prevCluster => (m, some prevCluster)
  | newClusters + 1, m, prevCluster =>
    let next := fatGetFreeCluster m.toVolume
    if next = FAIL then (m, none)
    else addClusters newClusters (m.fatSetFATCluster prevCluster next false) next

def rwFrom (mode : Mode) (m : Mounted) (file : FatFile) (buffer : Mem) (cluster : Int) (size : Nat) :
    Option (Mounted × FatFile × Mem × Int) :=
  (Fat.rwFrom mode m.toVolume file buffer cluster size).map fun (v, r) => (m.setVolume v, r)

def fatRw (mode : Mode) (m : Mounted) (file : FatFile) (buffer : Mem) (size : Nat) :
    Option (Mounted × FatFile × Mem × Int) :=
  fatRwWith mode m m.toVolume file buffer size (addClusters (size / m.clusterSize + 1) m)
    (fun m last => m.fatSetFATCluster last fatEndofcluster true) fun m => rwFrom mode m file buffer

def fatWrite (m : Mounted) (file : FatFile) (buffer : Mem) (size : Nat) : Option (Mounted × FatFile × Int) :=
  (fatRw .write m file buffer size).bind fun (m, written, _, bytesWritten) =>
    if bytesWritten ≥ 0 then
      if file.currentPos + bytesWritten > written.entry.fileSize then
        (fatSetFileSize m.toVolume written (file.currentPos + bytesWritten.toNat)).map
          fun (v, file, ret) => (m.setVolume v, file, ret)
      else some (m, written, SUCCESS)
    else some (m, written, FAIL)

def createEntry (m : Mounted) (dirCluster : Int) (filename : List Byte) (createDir : Bool) :
    Option (Mounted × Int) :=
  let entry := fatSetFileName (fun _ => 0) filename
  let update (m : Mounted) (entry : FatEntry) : Option (Mounted × Int) :=
    (fatUpdateFileEntry m.toVolume
      { entry := entry, dirCluster := dirCluster, dirIndex := none, currentPos := 0 }).map
      fun (v, _, ret) => (m.setVolume v, ret)
  if createDir then
    let start : Nat := (fatGetFreeCluster m.toVolume % 2 ^ 16).toNat
    if start ≠ 0xFFFF then
      update ((m.setVolume (m.setData start fun _ => 0)).fatSetFATCluster start fatEndofcluster true)
        (entry.setDirectory.setStartCluster start)
    else some (m, FAIL)
  else update m entry.setArchive

def fatCreate (m : Mounted) (prevEntry : FatEntry) (filename : List Byte) : Option (Mounted × Int) :=
  fatCreateWith m m.toVolume (createEntry m) prevEntry filename

/-- `fat_rename` and `fat_delete` do not come to the FAT. -/
def fatRename (m : Mounted) (prevEntry : FatEntry) (src dst : List Byte) : Option (Mounted × Int) :=
  (Fat.fatRename m.toVolume prevEntry src dst).map fun (v, ret) => (m.setVolume v, ret)

def fatDelete (m : Mounted) (prevEntry : FatEntry) (filename : List Byte) : Option (Mounted × Int) :=
  (Fat.fatDelete m.toVolume prevEntry filename).map fun (v, ret) => (m.setVolume v, ret)

/-! ## The copies forgotten -/

@[simp] theorem toVolume_setVolume (v : Volume) : (m.setVolume v).toVolume = v := rfl

@[simp] theorem toVolume_fatSetFATCluster (cluster value : Int) (commit : Bool) :
    (m.fatSetFATCluster cluster value commit).toVolume = Fat.fatSetFATCluster m.toVolume cluster value := by
  cases commit <;> rfl

theorem addClusters_eq (k : Nat) (m : Mounted) (prev : Int) :
    addClusters k m prev =
      (m.setVolume (Fat.addClusters k m.toVolume prev).1, (Fat.addClusters k m.toVolume prev).2) := by
  induction k generalizing m prev with
  | zero => rfl
  | succ k ih =>
    rw [addClusters, Fat.addClusters]
    split
    · rfl
    · exact ih _ _

theorem rwFrom_toVolume {mode : Mode} {buffer : Mem} {cluster : Int} :
    (rwFrom mode m file buffer cluster n).map (fun r => (r.1.toVolume, r.2)) =
      Fat.rwFrom mode m.toVolume file buffer cluster n := by
  rw [rwFrom, Option.map_map]
  exact Option.map_id' ..

/-- Without the copies, this is the volume of before. -/
theorem fatRw_toVolume {mode : Mode} {buffer : Mem} :
    (fatRw mode m file buffer n).map (fun r => (r.1.toVolume, r.2)) =
      Fat.fatRw mode m.toVolume file buffer n := by
  rw [fatRw, Fat.fatRw, fatRwWith, fatRwWith]
  cases walkChain m.fat (file.currentPos / m.clusterSize) file.entry.startCluster with
  | none => rfl
  | some cluster =>
    dsimp only
    split
    case isFalse => exact rwFrom_toVolume
    case isTrue =>
      cases mode with
      | read => exact rwFrom_toVolume
      | write =>
        dsimp only
        rw [addClusters_eq]
        generalize Fat.addClusters (n / m.clusterSize + 1) m.toVolume cluster = r
        obtain ⟨v, _ | last⟩ := r
        · rfl
        · exact rwFrom_toVolume.trans (by rw [toVolume_fatSetFATCluster, toVolume_setVolume])

theorem fatWrite_toVolume {buffer : Mem} :
    (fatWrite m file buffer n).map (fun r => (r.1.toVolume, r.2)) =
      Fat.fatWrite m.toVolume file buffer n := by
  rw [fatWrite, Fat.fatWrite, ← fatRw_toVolume]
  cases fatRw .write m file buffer n with
  | none => rfl
  | some r =>
    obtain ⟨m', written, buffer', ret⟩ := r
    simp only [Option.bind_some, Option.map_some]
    split
    case isFalse => rfl
    case isTrue =>
      split
      case isFalse => rfl
      case isTrue =>
        rw [Option.map_map]
        exact Option.map_id' ..

theorem createEntry_toVolume {dirCluster : Int} {filename : List Byte} {createDir : Bool} :
    (createEntry m dirCluster filename createDir).map (fun r => (r.1.toVolume, r.2)) =
      Fat.createEntry m.toVolume dirCluster filename createDir := by
  rw [createEntry, Fat.createEntry]
  cases createDir with
  | false => simp [Option.map_map, Function.comp_def]
  | true =>
    simp only [if_true]
    split
    · simp [Option.map_map, Function.comp_def]
    · rfl

theorem fatCreate_toVolume {prevEntry : FatEntry} {filename : List Byte} :
    (fatCreate m prevEntry filename).map (fun r => (r.1.toVolume, r.2)) =
      Fat.fatCreate m.toVolume prevEntry filename := by
  rw [fatCreate, Fat.fatCreate, fatCreateWith, fatCreateWith, Option.map_bind]
  congr 1
  funext found
  cases found with
  | some _ => rfl
  | none =>
    dsimp only [Function.comp_apply]
    split
    case isTrue => rfl
    case isFalse =>
      rw [Option.map_bind]
      congr 1
      funext tmp
      rw [Function.comp_apply, Option.map_bind]
      congr 1
      funext parent
      cases parent with
      | none => rfl
      | some parent =>
        dsimp only [Function.comp_apply]
        rw [Option.map_bind]
        congr 1
        funext last
        exact createEntry_toVolume

end Mounted

end SystemProjects.Fat
