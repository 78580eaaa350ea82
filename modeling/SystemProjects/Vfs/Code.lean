import SystemProjects.Lib.Run
import SystemProjects.Lib.Memory

/-!
# The mount table of `vfs.c`

Mount structures lie in memory at the addresses `mm_kmalloc` gives. `mm_kfree` leaves what a
structure holds as it is. The strings in it are kept by value. What the drivers' hooks read and
write besides (disks and devices) is the environment `ε`.
-/

namespace SystemProjects.Vfs

/-- The bytes of a C string before its `NUL`. -/
abbrev CString := List Nat

def vfsMaxfilename : Nat := 256

/-- More structures than a 32-bit memory has addresses. -/
def walkFuel : Nat := 2 ^ 32

/-- `struct VFS_FILESYSTEM` with the two hooks of its call table that are used here. The unmount hook
is passed the structure, of which the drivers read `data_ptr`. -/
structure Filesystem (ε : Type) where
  fstype : Int
  mount : Option (ε → CString → CString → Int → Nat × ε)
  unmount : Option (ε → Nat → CString → Int × ε)

/-- `struct VFS_MOUNTPOINT`. -/
structure Mountpoint (ε : Type) where
  fs : Option (Filesystem ε)
  dataPtr : Nat
  mountpoint : CString
  device : CString
  next : Nat

structure State (ε : Type) where
  mem : Nat → Mountpoint ε
  allocated : Nat → Bool
  /-- The drivers in the order of the list at `vfs_fsHead`. -/
  fsHead : List (Filesystem ε)
  mpHead : Nat
  mpTail : Nat
  env : ε

variable {ε : Type}

/-! ## Memory -/

/-- What zero-filled memory says. -/
def zeroMountpoint : Mountpoint ε := { fs := none, dataPtr := 0, mountpoint := [], device := [], next := 0 }

def State.set (s : State ε) (a : Nat) (m : Mountpoint ε) : State ε :=
  { s with mem := fun b => if b = a then m else s.mem b }

def State.setNext (s : State ε) (a next : Nat) : State ε := s.set a { s.mem a with next := next }

def State.alloc (s : State ε) (a : Nat) : State ε :=
  { s.set a zeroMountpoint with allocated := fun b => if b = a then true else s.allocated b }

def State.free (s : State ε) (a : Nat) : State ε :=
  { s with allocated := fun b => if b = a then false else s.allocated b }

/-! ## `vfs_mount` -/

def vfsFind (fsHead : List (Filesystem ε)) (fstype : Int) : Option (Filesystem ε) :=
  fsHead.find? (·.fstype = fstype)

/-- The new structure at the end of the list. Nothing when `vfs_mpHead` is `NULL` and written to. -/
def linkMount (s : State ε) (mount : Nat) : Option (State ε) :=
  if s.mpTail = 0 then some { s with mpTail := mount, mpHead := mount }
  else if s.mpHead = 0 then none
  else some { s.setNext s.mpHead mount with mpHead := mount }

/-- `mount` is what `mm_kmalloc` returns for the structure. -/
def vfsMount (s : State ε) (device mountpoint : CString) (fstype : Int) (mount : Nat) :
    Option (State ε × Int) :=
  if mount = 0 then some (s, FAIL)
  else
    let s := s.alloc mount
    match vfsFind s.fsHead fstype with
    | none => some (s.free mount, FAIL)
    | some fs =>
      let s := s.set mount
        { s.mem mount with fs := some fs, mountpoint := mountpoint, device := device }
      (linkMount s mount).map fun s =>
        match fs.mount with
        | none => (s.free mount, FAIL)
        | some hook =>
          let (dataPtr, env) := hook s.env device mountpoint fstype
          let s := { s.set mount { s.mem mount with dataPtr := dataPtr } with env := env }
          if dataPtr = 0 then (s.free mount, FAIL) else (s, SUCCESS)

/-! ## `vfs_unmount` -/

/-- The first structure from `mount` on with this name, or `NULL`. -/
def findMount (s : State ε) (name : CString) : Nat → Nat → Option Nat
  | 0, _ => none
  | fuel + 1, mount =>
    if mount = 0 then some 0
    else if (s.mem mount).mountpoint = name then some mount
    else findMount s name fuel (s.mem mount).next

/-- The loop for the structure before `mount`. Its test is an assignment, `m->next = mount`. -/
def findPrev (mount : Nat) : Nat → State ε → Nat → Option (State ε × Nat)
  | 0, _, _ => none
  | fuel + 1, s, m =>
    if m = 0 then some (s, 0)
    else
      let s := s.setNext m mount
      if mount ≠ 0 then some (s, m) else findPrev mount fuel s (s.mem m).next

def unlinkMount (s : State ε) (mount : Nat) : Option (State ε) :=
  if mount = s.mpTail then some { s with mpTail := (s.mem mount).next }
  else
    (findPrev mount walkFuel s s.mpTail).bind fun (s, m) =>
      if m = 0 then none else some (s.setNext m (s.mem mount).next)

/-- A name that does not fit the buffer has no outcome. -/
def vfsUnmount (s : State ε) (mountpoint : CString) : Option (State ε × Int) :=
  if vfsMaxfilename ≤ mountpoint.length then none
  else
    (findMount s mountpoint walkFuel s.mpTail).bind fun mount =>
      if mount = 0 then some (s, FAIL)
      else
        (s.mem mount).fs.bind fun fs =>
          match fs.unmount with
          | none => some (s, FAIL)
          | some hook =>
            let s := { s with env := (hook s.env (s.mem mount).dataPtr mountpoint).2 }
            (unlinkMount s mount).map fun s => (s.free mount, SUCCESS)

/-! ## The hooks of `dfs.c` -/

def dfsType : Int := 2

/-- `!NULL` is 1. -/
def dfsMount (env : ε) (_device _mountpoint : CString) (fstype : Int) : Nat × ε :=
  if fstype = dfsType then (1, env) else (0, env)

def dfsUnmount (env : ε) (_mount : Nat) (_mountpoint : CString) : Int × ε := (FAIL, env)

/-- What `dfs_init` registers. -/
def dfsFilesystem : Filesystem ε :=
  { fstype := dfsType, mount := some dfsMount, unmount := some dfsUnmount }

/-! ## Calls -/

inductive Op where
  | mount (device mountpoint : CString) (fstype : Int) (mount : Nat)
  | unmount (mountpoint : CString)

def step (s : State ε) : Op → Option (State ε × Int)
  | .mount device mountpoint fstype mount => vfsMount s device mountpoint fstype mount
  | .unmount mountpoint => vfsUnmount s mountpoint

/-- `vfs_mpHead` and `vfs_mpTail` are `NULL` at the start. -/
def initState (mem : Nat → Mountpoint ε) (allocated : Nat → Bool) (fsHead : List (Filesystem ε)) (env : ε) :
    State ε :=
  { mem := mem, allocated := allocated, fsHead := fsHead, mpHead := 0, mpTail := 0, env := env }

end SystemProjects.Vfs
