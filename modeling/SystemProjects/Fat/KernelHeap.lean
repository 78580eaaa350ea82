import SystemProjects.Fat.Listing
import SystemProjects.Fat.Open
import SystemProjects.Lib.LiveBlocks

/-!
# A mounted volume in the kernel heap

The mount has the addresses of its root directory, its FAT and its device. A step says where it allocates, which is
where no live block is, and what the memory that it does not initialise holds. A block that an operation allocates
and frees again is left out, but for the directory that `fat_list` frees.
-/

open SystemProjects.Memory SystemProjects.LiveBlocks SystemProjects.Run

namespace SystemProjects.Fat.KernelHeap

/-! ## The state -/

inductive Content where
  | bytes (m : Mem)
  | fatData (fat : Int → Int)
  | device
  | file (file : FatFile)
  | dirlist (entry : Nat → DirlistEntry)

/-- What a `struct FAT_MOUNTPOINT` refers to, and its sizes. -/
structure Mount where
  rootdir : Nat
  fatData : Nat
  device : Nat
  numRootDirEnts : Nat
  clusterSize : Nat
  totalClusters : Nat

structure Kernel where
  heap : Heap Content
  disk : Int → Mem

variable (m : Mount) {k k' : Kernel} {v : Volume} {d : Dir} {prev : FatEntry} {dirname : List Byte}
    {a e dir entry : Nat}
  {slots : Nat → DirlistEntry} {b : Content} {answer : Answer}

/-- The volume that the operations see, while all of it is live. -/
def volume (k : Kernel) : Option Volume :=
  match k.heap m.rootdir, k.heap m.fatData, k.heap m.device with
  | some (.bytes rootdir), some (.fatData fat), some .device =>
    some { fat := fat, data := k.disk, rootdir := rootdir, numRootDirEnts := m.numRootDirEnts,
           clusterSize := m.clusterSize, totalClusters := m.totalClusters }
  | _, _, _ => none

def putVolume (k : Kernel) (v : Volume) : Kernel :=
  { heap := set (set k.heap m.rootdir (some (.bytes v.rootdir))) m.fatData (some (.fatData v.fat)), disk := v.data }

def Kernel.withHeap (k : Kernel) (heap : Option (Heap Content)) : Option Kernel :=
    heap.map fun h => { k with heap := h }

/-! ## The steps -/

inductive Action where
  /-- Any allocation, with what is put there. -/
  | alloc (a : Nat) (b : Mem)
  | open (a : Nat) (prevEntry : FatEntry) (block : FatFile) (mode : Nat) (filename : List Byte)
  | close (a : Nat)
  | read (a : Nat) (buffer : Mem) (size : Nat)
  | write (a : Nat) (buffer : Mem) (size : Nat)
  | seek (a : Nat) (offset : Nat) (origin : Origin)
  | create (prevEntry : FatEntry) (filename : List Byte)
  | delete (prevEntry : FatEntry) (filename : List Byte)
  | rename (prevEntry : FatEntry) (src dst : List Byte)
  /-- The directory is put at `dir` and the result at `entry`. -/
  | list (prevEntry : FatEntry) (dirname : List Byte) (dir entry : Nat)

inductive Answer where
  | done
  | ret (n : Int)
  | opened (found : Bool)
  | data (buffer : Mem) (n : Int)
  | listing (entry : Option (Nat → DirlistEntry))

def onVolume (k : Kernel) (f : Volume → Option (Volume × Answer)) : Option (Kernel × Answer) :=
  (volume m k).bind fun v => (f v).map fun r => (putVolume m k r.1, r.2)

/-- An operation on the open file at `a`. -/
def onFile (k : Kernel) (a : Nat) (f : Volume → FatFile → Option (Volume × FatFile × Answer)) :
    Option (Kernel × Answer) :=
  match k.heap a with
  | some (.file file) =>
    (volume m k).bind fun v => (f v file).bind fun r =>
      (k.withHeap (write k.heap a (.file r.2.1))).map fun k => (putVolume m k r.1, r.2.2)
  | _ => none

/-- `fat_open`, with the memory for the file at `a`. -/
def openAt (k : Kernel) (a : Nat) (prevEntry : FatEntry) (block : FatFile) (mode : Nat)
    (filename : List Byte) :
    Option (Kernel × Answer) :=
  (k.withHeap (alloc k.heap a (.file block))).bind fun k =>
    (volume m k).bind fun v => (fatOpen v prevEntry block ⟨0, mode, none⟩ filename).bind
      fun (v, handle, found) =>
      match found, handle.dataPtr with
      | true, some (_, file) =>
        (k.withHeap (write k.heap a (.file file))).map fun k => (putVolume m k v, .opened true)
      | _, _ => (k.withHeap (free k.heap a)).map fun k => (putVolume m k v, .opened false)

def closeAt (k : Kernel) (a : Nat) : Option (Kernel × Answer) :=
  match k.heap a with
  | some (.file _) => (k.withHeap (free k.heap a)).map fun k => (k, .ret SUCCESS)
  | _ => none

/-- What `fat_list` does once it has the directory `d` in the block at `dir`. -/
def listDir (k : Kernel) (v : Volume) (d : Dir) (dir entry : Nat) : Option (Kernel × Answer) :=
  (k.withHeap (alloc k.heap entry (.dirlist fun _ => zeroDirlistEntry))).bind fun k =>
    (listFrom v d (v.dirSlots d) 0 0 fun _ => zeroDirlistEntry).bind fun slots =>
      (k.withHeap (write k.heap entry (.dirlist slots))).bind fun k =>
        (k.withHeap (free k.heap dir)).map fun k => (k, .listing (some slots))

def fatList (k : Kernel) (prevEntry : FatEntry) (dirname : List Byte) (dir entry : Nat) :
    Option (Kernel × Answer) :=
  (volume m k).bind fun v =>
    if cstr dirname = [] then listDir k v .root m.rootdir entry
    else
      (k.withHeap (alloc k.heap dir (.bytes fun _ => 0))).bind fun k =>
        (fatFile2entry v prevEntry dirname).bind fun
          | none => (k.withHeap (free k.heap dir)).map fun k => (k, .listing none)
          | some file =>
            let cluster := file.entry.startCluster
            (k.withHeap (write k.heap dir (.bytes (v.data cluster)))).bind fun k =>
              listDir k v (.cluster cluster) dir entry

def step (k : Kernel) : Action → Option (Kernel × Answer)
  | .alloc a b => (k.withHeap (alloc k.heap a (.bytes b))).map fun k => (k, .done)
  | .open a prevEntry block mode filename => openAt m k a prevEntry block mode filename
  | .close a => closeAt k a
  | .read a buffer size => onFile m k a fun v file =>
      (fatRead v file buffer size).map fun (v, file, buffer, n) => (v, file, .data buffer n)
  | .write a buffer size => onFile m k a fun v file =>
      (fatWrite v file buffer size).map fun (v, file, n) => (v, file, .ret n)
  | .seek a offset origin => onFile m k a fun v file =>
      let (file, n) := fatSeek file offset origin
      some (v, file, .ret n)
  | .create prevEntry filename => onVolume m k fun v => (fatCreate v prevEntry filename).map fun (v, n) => (v, .ret n)
  | .delete prevEntry filename => onVolume m k fun v => (fatDelete v prevEntry filename).map fun (v, n) => (v, .ret n)
  | .rename prevEntry src dst => onVolume m k fun v => (fatRename v prevEntry src dst).map fun (v, n) => (v, .ret n)
  | .list prevEntry dirname dir entry => fatList m k prevEntry dirname dir entry

/-! ## What is claimed -/

/-- What the mount refers to is the same. -/
structure KeepsMount (k k' : Kernel) : Prop where
  rootdir : k'.heap m.rootdir = k.heap m.rootdir
  fatData : k'.heap m.fatData = k.heap m.fatData
  device : k'.heap m.device = k.heap m.device
  disk : k'.disk = k.disk

/-- The step does not allocate at `e`. -/
def Action.Avoids (e : Nat) : Action → Prop
  | .alloc a _ => a ≠ e
  | .open a _ _ _ _ => a ≠ e
  | .list _ _ dir entry => dir ≠ e ∧ entry ≠ e
  | _ => True

/-- A listing leaves the mount as it is, and all later steps, which cannot allocate where its result lives, answer
what they do without it. -/
def ListReadOnly (k : Kernel) (prev : FatEntry) (dirname : List Byte) (dir entry : Nat) : Prop :=
  ∃ k' answer, fatList m k prev dirname dir entry = some (k', answer) ∧ KeepsMount m k k' ∧
    ∀ as : List Action, ((k'.heap entry).isSome → ∀ a ∈ as, a.Avoids entry) →
      (answers (step m) k' as).map Prod.snd = (answers (step m) k as).map Prod.snd

/-- The name is not empty, and there is no such directory, or its end or 32 entries come before that of its memory. -/
def ListOk (v : Volume) (prev : FatEntry) (dirname : List Byte) : Prop :=
  cstr dirname ≠ [] ∧ (listedDir v prev dirname = some none ∨
    ∃ d, listedDir v prev dirname = some (some d) ∧ (HasEnd v d ∨ 32 ≤ (listed v d).length))

/-! ## A kernel with one more block -/

/-- The second kernel has also a listing at `e`. -/
structure Beside (e : Nat) (slots : Nat → DirlistEntry) (k k' : Kernel) : Prop where
  disk : k'.disk = k.disk
  heap : OneMore e (.dirlist slots) k.heap k'.heap

/-- Both steps are possible and answer the same, or neither is. -/
def SameStep (e : Nat) (slots : Nat → DirlistEntry) : Option (Kernel × Answer) →
    Option (Kernel × Answer) → Prop :=
  Option.Rel fun p q => Beside e slots p.1 q.1 ∧ p.2 = q.2

structure Apart (e : Nat) : Prop where
  rootdir : m.rootdir ≠ e
  fatData : m.fatData ≠ e
  device : m.device ≠ e

variable {m}

theorem Apart.of_volume (hv : volume m k = some v) (he : k.heap e = none) : Apart m e := by
  constructor <;> rintro rfl <;> simp [volume, he] at hv

theorem Beside.volume (hb : Beside e slots k k') (he : Apart m e) : volume m k' = volume m k := by
  unfold KernelHeap.volume
  rw [hb.heap.same _ he.rootdir, hb.heap.same _ he.fatData, hb.heap.same _ he.device, hb.disk]

theorem Beside.putVolume (hb : Beside e slots k k') (he : Apart m e) (v : Volume) :
    Beside e slots (putVolume m k v) (putVolume m k' v) :=
  ⟨rfl, (hb.heap.set he.rootdir _).set he.fatData _⟩

theorem Beside.withHeap (hb : Beside e slots k k') {x y : Option (Heap Content)}
    (h : Option.Rel (OneMore e (.dirlist slots)) x y) :
    Option.Rel (Beside e slots) (k.withHeap x) (k'.withHeap y) :=
  rel_map h fun _ _ hm => ⟨hb.disk, hm⟩

/-! ## The steps of both kernels -/

theorem Beside.onVolume (hb : Beside e slots k k') (he : Apart m e) (f : Volume → Option (Volume × Answer)) :
    SameStep e slots (onVolume m k f) (onVolume m k' f) := by
  unfold KernelHeap.onVolume
  rw [hb.volume he]
  refine rel_bind_same _ fun v => ?_
  cases f v with
  | none => exact .none
  | some r => exact .some ⟨hb.putVolume he r.1, rfl⟩

theorem Beside.onFile (hb : Beside e slots k k') (he : Apart m e) (a : Nat)
    (f : Volume → FatFile → Option (Volume × FatFile × Answer)) :
    SameStep e slots (onFile m k a f) (onFile m k' a f) := by
  unfold KernelHeap.onFile
  by_cases ha : a = e
  · rw [ha, hb.heap.fresh, hb.heap.extra]
    exact .none
  · rw [hb.heap.same a ha, hb.volume he]
    split
    · refine rel_bind_same _ fun v => rel_bind_same _ fun r => ?_
      exact rel_map (hb.withHeap (hb.heap.write ha _)) fun _ _ hb => ⟨hb.putVolume he r.1, rfl⟩
    · exact .none

theorem Beside.openAt (hb : Beside e slots k k') (he : Apart m e) (ha : a ≠ e) (prev : FatEntry)
    (block : FatFile) (mode : Nat) (filename : List Byte) :
    SameStep e slots (openAt m k a prev block mode filename) (openAt m k' a prev block mode filename) := by
  refine rel_bind (hb.withHeap (hb.heap.alloc ha _)) fun k1 k1' hb => ?_
  rw [hb.volume he]
  refine rel_bind_same _ fun v => rel_bind_same _ fun r => ?_
  dsimp only
  split
  · exact rel_map (hb.withHeap (hb.heap.write ha _)) fun _ _ hb => ⟨hb.putVolume he r.1, rfl⟩
  · exact rel_map (hb.withHeap (hb.heap.free ha)) fun _ _ hb => ⟨hb.putVolume he r.1, rfl⟩

theorem Beside.closeAt (hb : Beside e slots k k') (a : Nat) :
    SameStep e slots (closeAt k a) (closeAt k' a) := by
  unfold KernelHeap.closeAt
  by_cases ha : a = e
  · rw [ha, hb.heap.fresh, hb.heap.extra]
    exact .none
  · rw [hb.heap.same a ha]
    split
    · exact rel_map (hb.withHeap (hb.heap.free ha)) fun _ _ hb => ⟨hb, rfl⟩
    · exact .none

theorem Beside.listDir (hb : Beside e slots k k') (v : Volume) (d : Dir) (hdir : dir ≠ e)
    (hentry : entry ≠ e) :
    SameStep e slots (listDir k v d dir entry) (listDir k' v d dir entry) := by
  refine rel_bind (hb.withHeap (hb.heap.alloc hentry _)) fun k1 k1' hb => rel_bind_same _ fun r => ?_
  refine rel_bind (hb.withHeap (hb.heap.write hentry _)) fun k2 k2' hb => ?_
  exact rel_map (hb.withHeap (hb.heap.free hdir)) fun _ _ hb => ⟨hb, rfl⟩

theorem Beside.fatList (hb : Beside e slots k k') (he : Apart m e) (prev : FatEntry) (dirname : List Byte)
    (hdir : dir ≠ e) (hentry : entry ≠ e) :
    SameStep e slots (fatList m k prev dirname dir entry) (fatList m k' prev dirname dir entry) := by
  unfold KernelHeap.fatList
  rw [hb.volume he]
  refine rel_bind_same _ fun v => ?_
  split
  · exact hb.listDir v .root he.rootdir hentry
  · refine rel_bind (hb.withHeap (hb.heap.alloc hdir _)) fun k1 k1' hb => rel_bind_same _ fun found => ?_
    cases found with
    | none => exact rel_map (hb.withHeap (hb.heap.free hdir)) fun _ _ hb => ⟨hb, rfl⟩
    | some file => exact rel_bind (hb.withHeap (hb.heap.write hdir _)) fun k2 k2' hb => hb.listDir v _ hdir hentry

theorem Beside.step (he : Apart m e) (k k' : Kernel) (action : Action) (hb : Beside e slots k k')
    (hok : action.Avoids e) : SameStep e slots (step m k action) (step m k' action) := by
  cases action with
  | alloc a b => exact rel_map (hb.withHeap (hb.heap.alloc hok _)) fun _ _ hb => ⟨hb, rfl⟩
  | «open» a prev block mode filename => exact hb.openAt he hok prev block mode filename
  | close a => exact hb.closeAt a
  | read a buffer size => exact hb.onFile he a _
  | write a buffer size => exact hb.onFile he a _
  | seek a offset origin => exact hb.onFile he a _
  | create prev filename => exact hb.onVolume he _
  | delete prev filename => exact hb.onVolume he _
  | rename prev src dst => exact hb.onVolume he _
  | list prev dirname dir entry => exact hb.fatList he prev dirname hok.1 hok.2

/-- **Two runs.** A listing beside the mount changes no answer of the steps that do not allocate at it. -/
theorem Beside.answers (hb : Beside e slots k k') (he : Apart m e) (as : List Action)
    (hok : ∀ a ∈ as, a.Avoids e) :
    (Run.answers (KernelHeap.step m) k' as).map Prod.snd =
      (Run.answers (KernelHeap.step m) k as).map Prod.snd :=
  (answers_lockstep (Beside.step he) as k k' hb hok).symm

/-! ## What a listing does to the heap -/

theorem listDir_eq (hentry : k.heap entry = none) (hdir : k.heap dir = some b)
    (hslots : listFrom v d (v.dirSlots d) 0 0
      (fun _ => zeroDirlistEntry) = some slots) : listDir k v d dir entry =
    some ({ k with heap := set (set k.heap entry (some (.dirlist slots))) dir none },
      .listing (some slots)) := by
  have hne : dir ≠ entry := by
    rintro rfl
    rw [hentry] at hdir
    contradiction
  rw [listDir, alloc_fresh hentry, Kernel.withHeap, Option.map_some, Option.bind_some, hslots,
    Option.bind_some,
    write_live set_self, set_set, Kernel.withHeap, Option.map_some, Option.bind_some,
    free_live ((set_other hne).trans hdir)]
  rfl

theorem listDir_frees (h : listDir k v d dir entry = some (k', answer)) : k'.heap dir = none := by
  obtain ⟨k1, -, h⟩ := Option.bind_eq_some_iff.mp h
  obtain ⟨slots, -, h⟩ := Option.bind_eq_some_iff.mp h
  obtain ⟨k2, -, h⟩ := Option.bind_eq_some_iff.mp h
  obtain ⟨k3, hfree, heq⟩ := Option.map_eq_some_iff.mp h
  obtain ⟨heap, hheap, rfl⟩ := Option.map_eq_some_iff.mp hfree
  cases heq
  unfold LiveBlocks.free at hheap
  split at hheap
  case isTrue =>
    cases hheap
    exact set_self
  case isFalse => contradiction

theorem fatList_root (h : fatList m k prev dirname dir entry = some (k', answer))
    (hname : cstr dirname = []) :
    volume m k' = none := by
  obtain ⟨v, -, hlist⟩ := Option.bind_eq_some_iff.mp h
  rw [if_pos hname] at hlist
  rw [volume, listDir_frees hlist]

theorem listDir_answer (h : listDir k v d dir entry = some (k', answer)) : ∃ slots,
    listFrom v d (v.dirSlots d) 0 0 (fun _ => zeroDirlistEntry) = some slots ∧
      answer = .listing (some slots) := by
  obtain ⟨k1, -, h⟩ := Option.bind_eq_some_iff.mp h
  obtain ⟨slots, hslots, h⟩ := Option.bind_eq_some_iff.mp h
  obtain ⟨k2, -, h⟩ := Option.bind_eq_some_iff.mp h
  obtain ⟨k3, -, heq⟩ := Option.map_eq_some_iff.mp h
  cases heq
  exact ⟨slots, hslots, rfl⟩

theorem fatList_answer (hv : volume m k = some v)
    (h : fatList m k prev dirname dir entry = some (k', answer)) :
    ∃ r, Fat.fatList v prev dirname = some r ∧ answer = .listing r := by
  rw [fatList, hv, Option.bind_some] at h
  rw [Fat.fatList, listedDir]
  by_cases hname : cstr dirname = []
  · rw [if_pos hname] at h
    obtain ⟨slots, hslots, rfl⟩ := listDir_answer h
    refine ⟨some slots, ?_, rfl⟩
    rw [if_pos hname, Option.bind_some]
    exact congrArg (Option.map some) hslots
  · rw [if_neg hname] at h
    obtain ⟨k1, -, h⟩ := Option.bind_eq_some_iff.mp h
    obtain ⟨found, hfound, h⟩ := Option.bind_eq_some_iff.mp h
    rw [if_neg hname, hfound]
    cases found with
    | none =>
      obtain ⟨k2, -, heq⟩ := Option.map_eq_some_iff.mp h
      cases heq
      exact ⟨none, rfl, rfl⟩
    | some file =>
      obtain ⟨k2, -, h⟩ := Option.bind_eq_some_iff.mp h
      obtain ⟨slots, hslots, rfl⟩ := listDir_answer h
      exact ⟨some slots, congrArg (Option.map some) hslots, rfl⟩

/-! ## When a listing is read-only -/

theorem ListReadOnly.ok (hv : volume m k = some v) (h : ListReadOnly m k prev dirname dir entry) :
    ListOk v prev dirname := by
  obtain ⟨k', answer, hlist, hkeeps, -⟩ := h
  have hne : cstr dirname ≠ [] := by
    intro hnil
    have hgone := fatList_root hlist hnil
    rw [volume, hkeeps.rootdir, hkeeps.fatData, hkeeps.device, hkeeps.disk] at hgone
    rw [volume, hgone] at hv
    contradiction
  refine ⟨hne, ?_⟩
  rw [fatList, hv, Option.bind_some, if_neg hne] at hlist
  obtain ⟨k1, -, hlist⟩ := Option.bind_eq_some_iff.mp hlist
  obtain ⟨found, hfound, hlist⟩ := Option.bind_eq_some_iff.mp hlist
  rw [listedDir, if_neg hne, hfound]
  cases found with
  | none => exact .inl rfl
  | some file =>
    obtain ⟨k2, -, hlist⟩ := Option.bind_eq_some_iff.mp hlist
    obtain ⟨slots, hslots, -⟩ := listDir_answer hlist
    exact .inr ⟨_, rfl, (exists_listFrom v _ _).mp ⟨slots, hslots⟩⟩

theorem fatList_missing (hv : volume m k = some v) (hname : cstr dirname ≠ []) (hdir : k.heap dir = none)
    (hfound : fatFile2entry v prev dirname = some none) :
    fatList m k prev dirname dir entry = some (k, .listing none) := by
  rw [fatList, hv, Option.bind_some, if_neg hname, alloc_fresh hdir, Kernel.withHeap, Option.map_some,
    Option.bind_some,
    hfound, Option.bind_some]
  dsimp only
  rw [free_live set_self, set_none hdir]
  rfl

theorem fatList_found {file : FatFile} (hv : volume m k = some v) (hname : cstr dirname ≠ [])
    (hdir : k.heap dir = none) (hentry : k.heap entry = none) (hne : dir ≠ entry)
    (hfound : fatFile2entry v prev dirname = some (some file))
    (hslots : listFrom v (.cluster file.entry.startCluster)
    (v.dirSlots (.cluster file.entry.startCluster)) 0 0
      (fun _ => zeroDirlistEntry) = some slots) :
    fatList m k prev dirname dir entry =
      some ({ k with heap := set k.heap entry (some (.dirlist slots)) }, .listing (some slots)) := by
  rw [fatList, hv, Option.bind_some, if_neg hname, alloc_fresh hdir, Kernel.withHeap, Option.map_some,
    Option.bind_some,
    hfound, Option.bind_some]
  dsimp only
  rw [write_live set_self, set_set, Kernel.withHeap, Option.map_some, Option.bind_some,
    listDir_eq ((set_other hne.symm).trans hentry) set_self hslots, set_comm hne,
      set_none ((set_other hne).trans hdir)]

theorem ListOk.readOnly (hv : volume m k = some v) (hdir : k.heap dir = none) (hentry : k.heap entry = none)
    (hne : dir ≠ entry) (h : ListOk v prev dirname) : ListReadOnly m k prev dirname dir entry := by
  obtain ⟨hname, hlisted⟩ := h
  rw [listedDir, if_neg hname] at hlisted
  have hfound : fatFile2entry v prev dirname = some none ∨ ∃ file, fatFile2entry v prev dirname =
    some (some file) ∧
      (HasEnd v (.cluster file.entry.startCluster) ∨
        32 ≤ (listed v (.cluster file.entry.startCluster)).length) := by
    cases hlookup : fatFile2entry v prev dirname with
    | none => simp [hlookup] at hlisted
    | some found =>
      cases found with
      | none => exact .inl rfl
      | some file => simpa [hlookup] using hlisted
  rcases hfound with hnone | ⟨file, hfound, hends⟩
  · exact ⟨k, _, fatList_missing hv hname hdir hnone, ⟨rfl, rfl, rfl, rfl⟩, fun _ _ => rfl⟩
  · obtain ⟨slots, hslots⟩ := (exists_listFrom v _ fun _ => zeroDirlistEntry).mpr hends
    have he := Apart.of_volume hv hentry
    refine ⟨_, _, fatList_found hv hname hdir hentry hne hfound hslots, ?_, fun as hok => ?_⟩
    · exact ⟨set_other he.rootdir, set_other he.fatData, set_other he.device, rfl⟩
    · have hbeside : Beside entry slots k { k with heap := set k.heap entry (some (.dirlist slots)) } :=
        ⟨rfl, oneMore_set hentry _⟩
      exact hbeside.answers he as (hok (Option.isSome_iff_exists.mpr ⟨_, set_self⟩))

/-- **Listing is read-only.** It is for each directory but the root, which is freed. -/
theorem fatList_readOnly_iff (m : Mount) (k : Kernel) (v : Volume) (prev : FatEntry)
    (dirname : List Byte) (dir entry : Nat)
    (hv : volume m k = some v) (hdir : k.heap dir = none) (hentry : k.heap entry = none) (hne : dir ≠ entry) :
    ListReadOnly m k prev dirname dir entry ↔ ListOk v prev dirname :=
  ⟨fun h => h.ok hv, fun h => h.readOnly hv hdir hentry hne⟩

/-- The small volume, with its root directory, its FAT and its device in the first blocks. -/
def smallMount : Mount where
  rootdir := 0
  fatData := 1
  device := 2
  numRootDirEnts := 16
  clusterSize := 512
  totalClusters := 8

def smallKernel : Kernel where
  heap
    | 0 => some (.bytes smallVolume.rootdir)
    | 1 => some (.fatData smallVolume.fat)
    | 2 => some .device
    | _ => none
  disk := smallVolume.data

/-- `/D` is listed. -/
theorem smallKernel_lists : ListReadOnly smallMount smallKernel (fun _ => 0) [slash, 0x44, 0] 3 4 :=
  (fatList_readOnly_iff smallMount smallKernel smallVolume (fun _ => 0) [slash, 0x44,
    0] 3 4 rfl rfl rfl (by decide)).mpr
    ⟨by decide, .inr ⟨.cluster 2, by decide, .inl ⟨2, by decide, by decide⟩⟩⟩

/-- A listing of the root frees it. -/
theorem smallKernel_frees : ¬ ∀ (m : Mount) (k : Kernel) (v : Volume) (prev : FatEntry) (dirname : List Byte)
    (dir entry : Nat), volume m k = some v → k.heap dir = none → k.heap entry = none → dir ≠ entry →
      ListReadOnly m k prev dirname dir entry := by
  intro h
  have hlists := h smallMount smallKernel smallVolume (fun _ => 0) [0] 3 4 rfl rfl rfl (by decide)
  exact (hlists.ok rfl).1 rfl

end SystemProjects.Fat.KernelHeap
