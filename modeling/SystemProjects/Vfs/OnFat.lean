import SystemProjects.Fat.Store
import SystemProjects.Vfs.Files

/-!
# Handles on FAT files

`vfs.c` on `fat.c`. What the clients see through open handles are lists of bytes, each with a position, that they read
and write as the modes of the handles allow.
-/

open SystemProjects.Memory SystemProjects.Run

namespace SystemProjects.Vfs

variable {ι : Type} [DecidableEq ι]

/-! ## The hooks of `fat.c` -/

/-- The volume and its open files by their addresses, until an operation has no outcome. -/
abbrev FatEnv : Type := Option (Fat.Files Nat)

def originOf (origin : Nat) : Fat.Origin :=
  if origin = 0 then .start else if origin = 1 then .current else if origin = vfsSeekEnd then .fileEnd else .other

def bufferOf (buffer : List Nat) : Mem := fun x => BitVec.ofNat 8 (buffer.getD x 0)

/-- An operation on the file at `data_ptr`, with what it reads. -/
def fatHook (op : Fat.HandleOp) : HandleHook FatEnv (List Nat × Int) := fun env dataPtr =>
  if dataPtr = 0 then (([], FAIL), env)
  else
    match env.bind fun s => Fat.filesStep s (dataPtr, op) with
    | none => (([], FAIL), none)
    | some (s, ret, data) => ((data.map BitVec.toNat, ret), some s)

def fatHookRet (op : Fat.HandleOp) : HandleHook FatEnv Int := fun env dataPtr =>
  ((fatHook op env dataPtr).1.2, (fatHook op env dataPtr).2)

/-- The call table of `fat_init`, where `rest` has the hooks that no call on an open handle uses. -/
def fatCalltable (rest : Calltable FatEnv) : Calltable FatEnv :=
  { rest with
    clone := some fun env _ => ((0, FAIL), env)
    read := some fun size => fatHook (.read (fun _ => 0) size)
    write := some fun buffer => fatHookRet (.write (bufferOf buffer) buffer.length)
    seek := some fun offset origin => fatHookRet (.seek offset (originOf origin))
    control := some fun _ _ env _ => (FAIL, env) }

/-! ## Calls on handles -/

inductive HandleCall where
  | read (size : Nat)
  | write (buffer : List Nat)
  | seek (offset origin : Nat)
  | control (request arg : Nat)
  | clone (clone : Nat)

/-- Open handles, with their modes, the addresses of their files and the entries of these. -/
structure Clients (ι : Type) where
  handle : ι → Nat
  mode : ι → Nat
  dataPtr : ι → Nat
  entry : ι → Fat.Dir × Nat
  handle_ne : ∀ h, handle h ≠ 0
  dataPtr_ne : ∀ h, dataPtr h ≠ 0
  apart : Function.Injective dataPtr

def seenRead (mode : Nat) (f : Fat.ByteFile) (size : Nat) : Fat.ByteFile × Int × List Nat :=
  if mode &&& vfsModeRead = vfsModeRead then
    ((f.read (dword size)).1, (f.read (dword size)).2.1, (f.read (dword size)).2.2.map BitVec.toNat)
  else (f, FAIL, [])

def seenWrite (mode : Nat) (f : Fat.ByteFile) (buffer : List Nat) : Fat.ByteFile × Int :=
  let written := (f.write (Fat.bufferBytes (bufferOf buffer) (dword buffer.length))).1
  if mode &&& vfsModeWrite = vfsModeWrite then
    (if mode &&& vfsModeAppend = vfsModeAppend then written.moveTo written.bytes.length else written, SUCCESS)
  else (f, FAIL)

def filesAt (ptr : ι → Nat) (s : Fat.Files Nat) : Fat.Files ι := ⟨s.volume, fun h => s.file (ptr h)⟩

/-- The handles are as they were opened, on mount points of FAT. -/
structure OnFat (calls : Drivers FatEnv) (c : Clients ι) (w : World FatEnv) : Prop where
  driver : ∀ h, ∃ fs rest, (w.table.mem (w.handles (c.handle h)).mount).fs = some fs ∧
    calls fs = fatCalltable rest
  mode : ∀ h, (w.handles (c.handle h)).mode = c.mode h
  dataPtr : ∀ h, (w.handles (c.handle h)).dataPtr = c.dataPtr h

/-- The volume has what the clients see. -/
structure Shows (calls : Drivers FatEnv) (c : Clients ι) (w : World FatEnv) (files : ι → Fat.ByteFile) : Prop
    extends OnFat calls c w where
  env : ∃ s, w.table.env = some s ∧ Fat.Represents c.entry (filesAt c.dataPtr s) files

/-- A read or a write that the mode allows goes well. `mm_kmalloc` gives a clone memory that no handle has. -/
def CallWell (c : Clients ι) (w : World FatEnv) : ι × HandleCall → Prop
  | (h, .read size) => c.mode h &&& vfsModeRead = vfsModeRead →
    ∀ s ∈ w.table.env, Fat.ReadsWell s.volume (s.file (c.dataPtr h)) (dword size)
  | (h, .write buffer) => c.mode h &&& vfsModeWrite = vfsModeWrite →
    ∀ s ∈ w.table.env, Fat.WritesWell s.volume (s.file (c.dataPtr h)) (c.entry h).1 (dword buffer.length)
  | (_, .clone clone) => clone ≠ 0 ∧ ∀ h, c.handle h ≠ clone
  | _ => True

variable {calls : Drivers FatEnv} {c : Clients ι} {w : World FatEnv} {files : ι → Fat.ByteFile}
    {s : Fat.Files Nat} {h : ι}
  {op : Fat.HandleOp}

/-! ## The hooks -/

theorem filesAt_put (c : Clients ι) (s : Fat.Files Nat) (h : ι) (v : Fat.Volume) (file : Fat.FatFile) :
    filesAt c.dataPtr (s.put (c.dataPtr h) v file) = (filesAt c.dataPtr s).put h v file := by
  unfold filesAt Fat.Files.put
  simp only [c.apart.eq_iff]

theorem filesStep_filesAt (c : Clients ι) (s : Fat.Files Nat) (h : ι) (op : Fat.HandleOp) :
    Fat.filesStep (filesAt c.dataPtr s) (h, op) =
      (Fat.filesStep s (c.dataPtr h, op)).map fun (s, out) => (filesAt c.dataPtr s, out) := by
  have hput := filesAt_put c s h
  have hvolume : (filesAt c.dataPtr s).volume = s.volume := rfl
  have hfile : (filesAt c.dataPtr s).file h = s.file (c.dataPtr h) := rfl
  cases op with
  | read buffer n =>
    rw [Fat.filesStep, Fat.filesStep, hvolume, hfile]
    cases Fat.fatRead s.volume (s.file (c.dataPtr h)) buffer (dword n) with
    | none => rfl
    | some r => simp [hput]
  | write buffer n =>
    rw [Fat.filesStep, Fat.filesStep, hvolume, hfile]
    cases Fat.fatWrite s.volume (s.file (c.dataPtr h)) buffer (dword n) with
    | none => rfl
    | some r => simp [hput]
  | seek offset origin =>
    rw [Fat.filesStep, Fat.filesStep, hvolume, hfile]
    simp [hput]

theorem fatHook_spec (hs : Fat.Represents c.entry (filesAt c.dataPtr s) files)
    (hop : Fat.Well c.entry (filesAt c.dataPtr s) (h, op)) :
    ∃ s', fatHook op (some s) (c.dataPtr h) =
        ((((files h).step op).2.2.map BitVec.toNat, ((files h).step op).2.1), some s') ∧
      Fat.Represents c.entry (filesAt c.dataPtr s') fun h' =>
        if h' = h then ((files h).step op).1 else files h' := by
  obtain ⟨s1, hstep, hs1⟩ := Fat.filesStep_represents hs hop
  rw [filesStep_filesAt] at hstep
  obtain ⟨⟨s', out⟩, hs', heq⟩ := Option.map_eq_some_iff.mp hstep
  obtain ⟨rfl, rfl⟩ := Prod.mk.inj heq
  refine ⟨s', ?_, hs1⟩
  rw [fatHook, if_neg (c.dataPtr_ne h), Option.bind_some, hs']
  rfl

/-! ## Calls -/

omit [DecidableEq ι] in
theorem OnFat.setEnv (hw : OnFat calls c w) (env : FatEnv) : OnFat calls c (w.setEnv env) :=
    ⟨hw.driver, hw.mode, hw.dataPtr⟩

omit [DecidableEq ι] in
theorem OnFat.of_handles {w' : World FatEnv} (hw : OnFat calls c w) (hmem : w'.table.mem = w.table.mem)
    (hhandles : ∀ h, w'.handles (c.handle h) = w.handles (c.handle h)) : OnFat calls c w' where
  driver h := by
    rw [hmem, hhandles]
    exact hw.driver h
  mode h := by rw [hhandles, hw.mode]
  dataPtr h := by rw [hhandles, hw.dataPtr]

omit [DecidableEq ι] in
theorem OnFat.onHandle {ρ : Type} (hw : OnFat calls c w)
    (hookOf : Calltable FatEnv → Option (HandleHook FatEnv ρ))
    {hook : HandleHook FatEnv ρ} (hhook : ∀ rest, hookOf (fatCalltable rest) = some hook) (fail : ρ) (h : ι) :
    onHandle calls hookOf fail w (c.handle h) =
      some (w.setEnv (hook w.table.env (c.dataPtr h)).2, (hook w.table.env (c.dataPtr h)).1) := by
  obtain ⟨fs, rest, hfs, hcalls⟩ := hw.driver h
  unfold Vfs.onHandle
  rw [hfs, Option.map_some, hcalls, hhook, hw.dataPtr]

theorem Shows.hook (hs : Shows calls c w files) (h : ι) (op : Fat.HandleOp)
    (hop : ∀ s ∈ w.table.env, Fat.Well c.entry (filesAt c.dataPtr s) (h, op)) :
    (fatHook op w.table.env (c.dataPtr h)).1 = (((files h).step op).2.2.map BitVec.toNat,
      ((files h).step op).2.1) ∧
      Shows calls c (w.setEnv (fatHook op w.table.env (c.dataPtr h)).2)
        fun h' => if h' = h then ((files h).step op).1 else files h' := by
  obtain ⟨s, henv, hrep⟩ := hs.env
  obtain ⟨s', hhook, hrep'⟩ := fatHook_spec hrep (hop s henv)
  rw [henv, hhook]
  exact ⟨rfl, hs.setEnv _, s', rfl, hrep'⟩

theorem Shows.same (hs : Shows calls c w files) (h : ι) :
    Shows calls c w fun h' => if h' = h then files h else files h' := by
  have heq : (fun h' => if h' = h then files h else files h') = files := by
    funext h'
    split
    case isTrue heq => rw [heq]
    case isFalse => rfl
  rwa [heq]

theorem Shows.again {f g : Fat.ByteFile}
    (hs : Shows calls c w fun h' => if h' = h then g else if h' = h then f else files h') :
    Shows calls c w fun h' => if h' = h then g else files h' := by
  have heq : (fun h' => if h' = h then g else if h' = h then f else files h') =
      fun h' => if h' = h then g else files h' := by
    funext h'
    split
    case isTrue => rfl
    case isFalse => rfl
  rwa [heq] at hs

theorem Shows.read (hs : Shows calls c w files) {size : Nat} (hop : CallWell c w (h, .read size)) :
    ∃ w', vfsRead calls w (c.handle h) size =
        some (w', (seenRead (c.mode h) (files h) size).2.2, (seenRead (c.mode h) (files h) size).2.1) ∧
      Shows calls c w' fun h' => if h' = h then (seenRead (c.mode h) (files h) size).1 else files h' := by
  unfold vfsRead seenRead
  rw [if_neg (c.handle_ne h), hs.mode]
  by_cases hmode : c.mode h &&& vfsModeRead = vfsModeRead
  · have hon := hs.toOnFat.onHandle (fun c => c.read.map fun hook => hook size) (fun _ => rfl) ([], FAIL) h
    obtain ⟨hret, hshows⟩ := hs.hook h (.read (fun _ => 0) size) fun s hmem => hop hmode s hmem
    rw [if_neg (not_not.mpr hmode), hon, hret, if_pos hmode]
    exact ⟨_, rfl, hshows⟩
  · rw [if_pos hmode, if_neg hmode]
    exact ⟨w, rfl, hs.same h⟩

theorem Shows.seek (hs : Shows calls c w files) (h : ι) (offset origin : Nat) :
    ∃ w', vfsSeek calls w (c.handle h) offset origin =
      some (w', ((files h).seek offset (originOf origin)).2.1) ∧
      Shows calls c w' fun h' => if h' = h then ((files h).seek offset (originOf origin)).1 else files
        h' := by
  have hon := hs.toOnFat.onHandle (fun c => c.seek.map fun hook => hook offset origin) (fun _ => rfl) FAIL h
  obtain ⟨hret, hshows⟩ := hs.hook h (.seek offset (originOf origin)) fun _ _ => trivial
  refine ⟨_, ?_, hshows⟩
  rw [vfsSeek, if_neg (c.handle_ne h), hon]
  dsimp only [fatHookRet]
  rw [hret]
  rfl

omit [DecidableEq ι] in
theorem Shows.seekEnd (hs : Shows calls c w files) (h : ι) :
    ((files h).seek 0 (originOf vfsSeekEnd)).1 = (files h).moveTo (files h).bytes.length := by
  obtain ⟨s, -, hrep⟩ := hs.env
  have hlt : (files h).bytes.length < 2 ^ 32 := (hrep.holds h).size ▸ load32_lt _ _
  have htarget : dword (2 ^ 32 + (files h).bytes.length - dword 0) = (files h).bytes.length := by
    unfold dword
    omega
  rw [show originOf vfsSeekEnd = .fileEnd from rfl, Fat.ByteFile.seek]
  dsimp only
  rw [htarget]

theorem Shows.write (hs : Shows calls c w files) {buffer : List Nat} (hop : CallWell c w (h, .write buffer)) :
    ∃ w', vfsWrite calls w (c.handle h) buffer = some (w', (seenWrite (c.mode h) (files h) buffer).2) ∧
      Shows calls c w' fun h' => if h' = h then (seenWrite (c.mode h) (files h) buffer).1 else files h' := by
  unfold vfsWrite seenWrite
  rw [if_neg (c.handle_ne h), hs.mode]
  by_cases hmode : c.mode h &&& vfsModeWrite = vfsModeWrite
  · have hon := hs.toOnFat.onHandle (fun c => c.write.map fun hook => hook buffer) (fun _ => rfl) FAIL h
    obtain ⟨hret, hshows⟩ := hs.hook h (.write (bufferOf buffer) buffer.length) fun s hmem => hop hmode s hmem
    rw [if_neg (not_not.mpr hmode), hon]
    dsimp only [fatHookRet]
    have hmode' := hshows.mode h
    have hsuccess : ((files h).step (.write (bufferOf buffer) buffer.length)).2.1 ≠ FAIL :=
      fun heq => by cases heq
    rw [hret, if_pos hmode, Option.bind_some]
    dsimp only
    rw [hmode']
    by_cases happend : c.mode h &&& vfsModeAppend = vfsModeAppend
    · obtain ⟨w', hseek, hshows'⟩ := hshows.seek h 0 vfsSeekEnd
      rw [hshows.seekEnd h] at hshows'
      rw [if_pos ⟨hsuccess, happend⟩, hseek, if_pos happend]
      refine ⟨w', rfl, ?_⟩
      rw [if_pos rfl] at hshows'
      exact hshows'.again
    · rw [if_neg fun hboth => happend hboth.2, if_neg happend]
      exact ⟨_, rfl, hshows⟩
  · rw [if_pos hmode, if_neg hmode]
    exact ⟨w, rfl, hs.same h⟩

omit [DecidableEq ι] in
theorem Shows.control (hs : Shows calls c w files) (h : ι) (request arg : Nat) :
    vfsControl calls w (c.handle h) request arg = some (w.setEnv w.table.env, FAIL) := by
  have hon := hs.toOnFat.onHandle (fun c => c.control.map fun hook => hook request arg) (fun _ => rfl) FAIL h
  rw [vfsControl, if_neg (c.handle_ne h), hon]
  rfl

omit [DecidableEq ι] in
/-- The handle for the clone is freed again. -/
theorem Shows.clone (hs : Shows calls c w files) (h : ι) {clone : Nat}
    (hclone : clone ≠ 0 ∧ ∀ h, c.handle h ≠ clone) :
    ∃ w', vfsClone calls w (c.handle h) clone = some (w', 0) ∧ Shows calls c w' files := by
  obtain ⟨fs, rest, hfs, hcalls⟩ := hs.driver h
  rw [vfsClone, if_neg (c.handle_ne h), hfs, Option.bind_some, hcalls]
  dsimp only [fatCalltable]
  rw [if_neg hclone.1]
  refine ⟨_, rfl, hs.toOnFat.of_handles rfl fun x => ?_, hs.env⟩
  exact (setHandle_other _ _ _ (hclone.2 x)).2.trans (setHandle_other _ _ _ (hclone.2 x)).2

end SystemProjects.Vfs
