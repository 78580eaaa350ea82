import SystemProjects.Vfs.Code

/-!
# The file handles of `vfs.c`

A driver like FAT opens its device through `vfs_open` when it is mounted and closes it when it is
unmounted. The hooks of its `Filesystem` are then what it does besides.
-/

namespace SystemProjects.Vfs

variable {ε : Type}

def vfsModeReadwrite : Nat := 3
def vfsModeCreate : Nat := 4
def vfsModeAppend : Nat := 9

/-- What the call table of a driver holds for its files. -/
structure FileHooks (ε : Type) where
  /-- From the `data_ptr` of the mount point, the mode and the name, the `data_ptr` of the handle. -/
  openFile : Option (ε → Nat → Nat → CString → Option Nat × ε)
  close : Option (ε → Nat → Int × ε)
  create : Option (ε → Nat → CString → Int × ε)
  /-- `seek` to the end. -/
  seekEnd : Option (ε → Nat → ε)
  /-- The driver mounts as `fat_mount` does. -/
  opensDevice : Bool
  close_isSome : opensDevice = true → close.isSome = true

/-- `struct VFS_HANDLE`. -/
structure Handle where
  mount : Nat
  mode : Nat
  dataPtr : Nat

structure World (ε : Type) where
  table : State ε
  handles : Nat → Handle
  /-- The handles that `mm_kmalloc` gave and that are not freed. -/
  handleAllocated : Nat → Bool
  /-- `device` of each `struct FAT_MOUNTPOINT`. -/
  fatDevice : Nat → Nat

def World.setEnv (w : World ε) (env : ε) : World ε := { w with table := { w.table with env := env } }

def World.setHandle (w : World ε) (h : Nat) (handle : Handle) (allocated : Bool) : World ε :=
  { w with
    handles := fun x => if x = h then handle else w.handles x
    handleAllocated := fun x => if x = h then allocated else w.handleAllocated x }

def World.freeHandle (w : World ε) (h : Nat) : World ε := w.setHandle h (w.handles h) false

/-! ## `vfs_open` -/

/-- The first structure from `mount` on whose mount point begins the name, or `NULL`. -/
def file2mountpoint (s : State ε) (filename : CString) : Nat → Nat → Option Nat
  | 0, _ => none
  | fuel + 1, mount =>
    if mount = 0 then some 0
    else if (s.mem mount).mountpoint.isPrefixOf filename then some mount
    else file2mountpoint s filename fuel (s.mem mount).next

/-- The handle as it is returned, at the end of the file in append mode. -/
def finishOpen (hooks : FileHooks ε) (w : World ε) (mount mode h dataPtr : Nat) (env : ε) : World ε :=
  let w := (w.setEnv env).setHandle h { mount := mount, mode := mode, dataPtr := dataPtr } true
  if mode &&& vfsModeAppend = vfsModeAppend then
    match hooks.seekEnd with
    | none => w
    | some hook => w.setEnv (hook w.table.env dataPtr)
  else w

/-- What is done when the file is not found: it is created in create mode. -/
def createOpen (hooks : FileHooks ε) (openHook : ε → Nat → Nat → CString → Option Nat × ε) (w : World ε)
    (mount mode : Nat) (name : CString) (h : Nat) (env : ε) : World ε × Nat :=
  match if mode &&& vfsModeCreate = vfsModeCreate then hooks.create else none with
  | none => ((w.setEnv env).freeHandle h, 0)
  | some create =>
    let (r, env) := create env (w.table.mem mount).dataPtr name
    if r = FAIL then ((w.setEnv env).freeHandle h, 0)
    else
      match openHook env (w.table.mem mount).dataPtr mode name with
      | (none, env) => ((w.setEnv env).freeHandle h, 0)
      | (some dataPtr, env) => (finishOpen hooks w mount mode h dataPtr env, h)

/-- `h` is what `mm_kmalloc` returns for the handle. It is written to without a test. -/
def vfsOpen (calls : Filesystem ε → FileHooks ε) (w : World ε) (filename : CString) (mode h : Nat) :
    Option (World ε × Nat) :=
  if vfsMaxfilename ≤ filename.length then none
  else
    (file2mountpoint w.table filename walkFuel w.table.mpTail).bind fun mount =>
      if mount = 0 then some (w, 0)
      else
        (w.table.mem mount).fs.bind fun fs =>
          match (calls fs).openFile with
          | none => some (w, 0)
          | some openHook =>
            if h = 0 then none
            else
              let name := filename.drop (w.table.mem mount).mountpoint.length
              let w := w.setHandle h { mount := mount, mode := mode, dataPtr := 0 } true
              match openHook w.table.env (w.table.mem mount).dataPtr mode name with
              | (some dataPtr, env) => some (finishOpen (calls fs) w mount mode h dataPtr env, h)
              | (none, env) => some (createOpen (calls fs) openHook w mount mode name h env)

def vfsClose (calls : Filesystem ε → FileHooks ε) (w : World ε) (h : Nat) : Option (World ε × Int) :=
  if h = 0 then some (w, FAIL)
  else
    (w.table.mem (w.handles h).mount).fs.bind fun fs =>
      match (calls fs).close with
      | none => some (w, FAIL)
      | some hook =>
        let (r, env) := hook w.table.env (w.handles h).dataPtr
        some ((w.setEnv env).freeHandle h, r)

/-! ## Drivers that open their device -/

/-- `fat_mount`. The rest of it reads the boot sector and the tables through the handle, and returns
`NULL` when the boot sector is not valid. `fat` is what `mm_kmalloc` returns for its structure. -/
def fatMount (calls : Filesystem ε → FileHooks ε) (rest : ε → CString → CString → Int → Nat × ε) (w : World ε)
    (device mountpoint : CString) (fstype : Int) (h fat : Nat) : Option (World ε × Nat) :=
  if fat = 0 then some (w, 0)
  else
    (vfsOpen calls w device vfsModeReadwrite h).bind fun (w, handle) =>
      if handle = 0 then some (w, 0)
      else
        let (r, env) := rest w.table.env device mountpoint fstype
        let w := w.setEnv env
        if r = 0 then (vfsClose calls w handle).map fun (w, _) => (w, 0)
        else some ({ w with fatDevice := fun x => if x = fat then handle else w.fatDevice x }, fat)

def mountHook (calls : Filesystem ε → FileHooks ε) (fs : Filesystem ε)
    (hook : ε → CString → CString → Int → Nat × ε) (w : World ε) (device mountpoint : CString) (fstype : Int)
    (h fat : Nat) : Option (World ε × Nat) :=
  if (calls fs).opensDevice then fatMount calls hook w device mountpoint fstype h fat
  else
    let (dataPtr, env) := hook w.table.env device mountpoint fstype
    some (w.setEnv env, dataPtr)

/-- `fat_unmount` closes the device first. -/
def unmountHook (calls : Filesystem ε → FileHooks ε) (fs : Filesystem ε) (hook : ε → Nat → CString → Int × ε)
    (w : World ε) (dataPtr : Nat) (mountpoint : CString) : Option (World ε) :=
  if (calls fs).opensDevice then
    if dataPtr = 0 then some w
    else
      (vfsClose calls w (w.fatDevice dataPtr)).map fun (w, _) =>
        w.setEnv (hook w.table.env dataPtr mountpoint).2
  else some (w.setEnv (hook w.table.env dataPtr mountpoint).2)

/-! ## `vfs_mount` and `vfs_unmount` with handles -/

def World.mapTable (w : World ε) (f : State ε → State ε) : World ε := { w with table := f w.table }

/-- The new structure with its names, before it is linked. -/
def newMount (s : State ε) (mount : Nat) (fs : Filesystem ε) (device mountpoint : CString) : State ε :=
  (s.alloc mount).set mount
    { (s.alloc mount).mem mount with fs := some fs, mountpoint := mountpoint, device := device }

def vfsMountWith (calls : Filesystem ε → FileHooks ε) (w : World ε) (device mountpoint : CString)
    (fstype : Int)
    (mount h fat : Nat) : Option (World ε × Int) :=
  if mount = 0 then some (w, FAIL)
  else
    match vfsFind w.table.fsHead fstype with
    | none => some (w.mapTable fun s => (s.alloc mount).free mount, FAIL)
    | some fs =>
      (linkMount (newMount w.table mount fs device mountpoint) mount).bind fun s =>
        let w := w.mapTable fun _ => s
        match fs.mount with
        | none => some (w.mapTable (·.free mount), FAIL)
        | some hook =>
          (mountHook calls fs hook w device mountpoint fstype h fat).map fun (w, dataPtr) =>
            let w := w.mapTable fun s => s.set mount { s.mem mount with dataPtr := dataPtr }
            if dataPtr = 0 then (w.mapTable (·.free mount), FAIL) else (w, SUCCESS)

def vfsUnmountWith (calls : Filesystem ε → FileHooks ε) (w : World ε) (mountpoint : CString) :
    Option (World ε × Int) :=
  if vfsMaxfilename ≤ mountpoint.length then none
  else
    (findMount w.table mountpoint walkFuel w.table.mpTail).bind fun mount =>
      if mount = 0 then some (w, FAIL)
      else
        (w.table.mem mount).fs.bind fun fs =>
          match fs.unmount with
          | none => some (w, FAIL)
          | some hook =>
            (unmountHook calls fs hook w (w.table.mem mount).dataPtr mountpoint).bind fun w =>
              (unlinkMount w.table mount).map fun s => (w.mapTable fun _ => s.free mount, SUCCESS)

inductive Call where
  | mount (device mountpoint : CString) (fstype : Int) (mount h fat : Nat)
  | unmount (mountpoint : CString)
  | openFile (filename : CString) (mode h : Nat)
  | close (h : Nat)

def stepWith (calls : Filesystem ε → FileHooks ε) (w : World ε) : Call → Option (World ε)
  | .mount device mountpoint fstype mount h fat =>
    (vfsMountWith calls w device mountpoint fstype mount h fat).map Prod.fst
  | .unmount mountpoint => (vfsUnmountWith calls w mountpoint).map Prod.fst
  | .openFile filename mode h => (vfsOpen calls w filename mode h).map Prod.fst
  | .close h => (vfsClose calls w h).map Prod.fst

def World.init (table : State ε) : World ε :=
  { table := { table with mpHead := 0, mpTail := 0 }
    handles := fun _ => { mount := 0, mode := 0, dataPtr := 0 }
    handleAllocated := fun _ => false
    fatDevice := fun _ => 0 }

end SystemProjects.Vfs
