import SystemProjects.Vfs.Handles
import SystemProjects.Vfs.TwoPaths

/-!
# The calls on open files and on names

What the hooks of a driver put into a buffer is part of what they return.
-/

namespace SystemProjects.Vfs

variable {ε ρ : Type}

def vfsModeRead : Nat := 1
def vfsModeWrite : Nat := 2

def vfsSeekEnd : Nat := 2

/-- A hook that is passed a handle, of which the drivers read `data_ptr`. -/
abbrev HandleHook (ε ρ : Type) : Type := ε → Nat → ρ × ε

/-- A hook that is passed a mount point, of which the drivers read `data_ptr`, and a name. -/
abbrev NameHook (ε ρ : Type) : Type := ε → Nat → CString → ρ × ε

/-- `struct VFS_DIRLIST_ENTRY`. -/
structure DirlistEntry where
  name : CString
  attributes : Int
  size : Int

/-- `struct VFS_FILESYSTEM_CALLTABLE` without the two hooks of `Filesystem`. -/
structure Calltable (ε : Type) where
  openFile : Option (ε → Nat → Nat → CString → Option Nat × ε)
  close : Option (HandleHook ε Int)
  /-- The `data_ptr` of the clone too. -/
  clone : Option (HandleHook ε (Nat × Int))
  read : Option (Nat → HandleHook ε (List Nat × Int))
  write : Option (List Nat → HandleHook ε Int)
  seek : Option (Nat → Nat → HandleHook ε Int)
  control : Option (Nat → Nat → HandleHook ε Int)
  create : Option (NameHook ε Int)
  delete : Option (NameHook ε Int)
  paths : PathHooks ε
  list : Option (NameHook ε (Option (List DirlistEntry)))
  opensDevice : Bool
  close_isSome : opensDevice = true → close.isSome = true

/-- As `vfs_open` and `vfs_close` use it. -/
def Calltable.files (c : Calltable ε) : FileHooks ε :=
  { openFile := c.openFile
    close := c.close
    create := c.create
    seekEnd := c.seek.map fun hook env dataPtr => (hook 0 vfsSeekEnd env dataPtr).2
    opensDevice := c.opensDevice
    close_isSome := c.close_isSome }

abbrev Drivers (ε : Type) : Type := Filesystem ε → Calltable ε

def Drivers.files (calls : Drivers ε) : Filesystem ε → FileHooks ε := fun fs => (calls fs).files

/-! ## Open files -/

/-- The call of a hook on the `data_ptr` of the handle, or `fail` where the driver has none. -/
def onHandle (calls : Drivers ε) (hookOf : Calltable ε → Option (HandleHook ε ρ)) (fail : ρ)
    (w : World ε) (h : Nat) :
    Option (World ε × ρ) :=
  (w.table.mem (w.handles h).mount).fs.map fun fs =>
    match hookOf (calls fs) with
    | none => (w, fail)
    | some hook =>
      let (r, env) := hook w.table.env (w.handles h).dataPtr
      (w.setEnv env, r)

def vfsSeek (calls : Drivers ε) (w : World ε) (h offset origin : Nat) : Option (World ε × Int) :=
  if h = 0 then some (w, FAIL) else onHandle calls (fun c => c.seek.map (· offset origin)) FAIL w h

/-- The bytes that are put into the buffer, and the value returned. -/
def vfsRead (calls : Drivers ε) (w : World ε) (h size : Nat) : Option (World ε × List Nat × Int) :=
  if h = 0 then some (w, [], FAIL)
  else if (w.handles h).mode &&& vfsModeRead ≠ vfsModeRead then some (w, [], FAIL)
  else onHandle calls (fun c => c.read.map (· size)) ([], FAIL) w h

def vfsWrite (calls : Drivers ε) (w : World ε) (h : Nat) (buffer : List Nat) : Option (World ε × Int) :=
  if h = 0 then some (w, FAIL)
  else if (w.handles h).mode &&& vfsModeWrite ≠ vfsModeWrite then some (w, FAIL)
  else
    (onHandle calls (fun c => c.write.map (· buffer)) FAIL w h).bind fun (w, ret) =>
      if ret ≠ FAIL ∧ (w.handles h).mode &&& vfsModeAppend = vfsModeAppend then
        (vfsSeek calls w h 0 vfsSeekEnd).map fun (w, _) => (w, ret)
      else some (w, ret)

def vfsControl (calls : Drivers ε) (w : World ε) (h request arg : Nat) : Option (World ε × Int) :=
  if h = 0 then some (w, FAIL)
  else (onHandle calls (fun c => c.control.map (· request arg)) FAIL w h).map fun (w, _) => (w, FAIL)

/-- `clone` is what `mm_kmalloc` returns for the new handle. It is written to without a test. -/
def vfsClone (calls : Drivers ε) (w : World ε) (h clone : Nat) : Option (World ε × Nat) :=
  if h = 0 then some (w, 0)
  else
    (w.table.mem (w.handles h).mount).fs.bind fun fs =>
      match (calls fs).clone with
      | none => some (w, 0)
      | some hook =>
        if clone = 0 then none
        else
          let handle := w.handles h
          let ((dataPtr, r), env) := hook w.table.env handle.dataPtr
          let w := (w.setEnv env).setHandle clone
            { mount := handle.mount, mode := handle.mode, dataPtr := dataPtr } true
          if r = FAIL then some (w.freeHandle clone, 0) else some (w, clone)

/-! ## Names -/

/-- The call of a hook on what follows the mount point in the name, or `fail`. -/
def onName (calls : Drivers ε) (hookOf : Calltable ε → Option (NameHook ε ρ)) (fail : ρ) (w : World ε)
    (filename : CString) : Option (World ε × ρ) :=
  if vfsMaxfilename ≤ filename.length then none
  else
    (vfsFile2mountpoint w.table filename).bind fun mount =>
      if mount = 0 then some (w, fail)
      else
        (w.table.mem mount).fs.map fun fs =>
          match hookOf (calls fs) with
          | none => (w, fail)
          | some hook =>
            let (r, env) := hook w.table.env (w.table.mem mount).dataPtr
              (filename.drop (w.table.mem mount).mountpoint.length)
            (w.setEnv env, r)

def vfsCreate (calls : Drivers ε) : World ε → CString → Option (World ε × Int) :=
  onName calls (fun c => c.create) FAIL

def vfsDelete (calls : Drivers ε) : World ε → CString → Option (World ε × Int) :=
  onName calls (fun c => c.delete) FAIL

/-- The last byte of the name is looked at, and an empty one has none. -/
def vfsList (calls : Drivers ε) (w : World ε) (dir : CString) :
    Option (World ε × Option (List DirlistEntry)) :=
  if vfsMaxfilename ≤ dir.length then none
  else
    dir.getLast?.bind fun last =>
      if last ≠ slash then some (w, none) else onName calls (fun c => c.list) none w dir

/-- The call that `vfs_rename` and `vfs_copy` end with. -/
def finishPaths (w : World ε) : Returns ε → World ε × Int
  | .value r => (w, r)
  | .call hook mount src dst =>
    let (r, env) := hook w.table.env mount src dst
    (w.setEnv env, r)

/-! ## The drivers -/

def vfsRegister (s : State ε) (fs : Filesystem ε) : State ε × Int :=
    ({ s with fsHead := fs :: s.fsHead }, SUCCESS)

def vfsUnregister (s : State ε) (_fstype : Int) : State ε × Int := (s, FAIL)

/-- What the IO system does for a device, and what `dfs.c` does with its registry. -/
structure IoHooks (ε : Type) where
  /-- `dfs_find` and `io_open`. -/
  openDevice : ε → CString → Option Nat × ε
  close : HandleHook ε Int
  clone : HandleHook ε (Nat × Int)
  read : Nat → HandleHook ε (List Nat × Int)
  write : List Nat → HandleHook ε Int
  seek : Nat → Nat → HandleHook ε Int
  control : Nat → Nat → HandleHook ε Int
  delete : NameHook ε Int
  paths : PathHooks ε
  list : NameHook ε (Option (List DirlistEntry))

/-- The call table of `dfs_init`. -/
def dfsCalltable (io : IoHooks ε) : Calltable ε :=
  { openFile := some fun env _ _ filename => io.openDevice env filename
    close := some io.close
    clone := some io.clone
    read := some io.read
    write := some io.write
    seek := some io.seek
    control := some io.control
    create := some fun env _ _ => (FAIL, env)
    delete := some io.delete
    paths := io.paths
    list := some io.list
    opensDevice := false
    close_isSome := fun h => Bool.noConfusion h }

/-! ## Calls -/

/-- With what `mm_kmalloc` returns, and what the two arrays of `vfs_rename` and `vfs_copy` held. -/
inductive FileCall (ε : Type) where
  | table (call : Call)
  | clone (h clone : Nat)
  | read (h size : Nat)
  | write (h : Nat) (buffer : List Nat)
  | seek (h offset origin : Nat)
  | control (h request arg : Nat)
  | create (filename : CString)
  | delete (filename : CString)
  | rename (old old' : Nat → Nat) (src dst : CString)
  | copy (old old' : Nat → Nat) (src dst : CString)
  | list (dir : CString)
  | register (fs : Filesystem ε)
  | unregister (fstype : Int)

/-- The handle that the call returns, `NULL` for the calls that return none. -/
def fileStep (calls : Drivers ε) (w : World ε) : FileCall ε → Option (World ε × Nat)
  | .table (.openFile filename mode h) => vfsOpen calls.files w filename mode h
  | .table call => (stepWith calls.files w call).map (·, 0)
  | .clone h clone => vfsClone calls w h clone
  | .read h size => (vfsRead calls w h size).map fun r => (r.1, 0)
  | .write h buffer => (vfsWrite calls w h buffer).map fun r => (r.1, 0)
  | .seek h offset origin => (vfsSeek calls w h offset origin).map fun r => (r.1, 0)
  | .control h request arg => (vfsControl calls w h request arg).map fun r => (r.1, 0)
  | .create filename => (vfsCreate calls w filename).map fun r => (r.1, 0)
  | .delete filename => (vfsDelete calls w filename).map fun r => (r.1, 0)
  | .rename old old' src dst =>
    (vfsRename (fun fs => (calls fs).paths) w.table old old' src dst).map fun r => ((finishPaths w r).1, 0)
  | .copy old old' src dst =>
    (vfsCopy (fun fs => (calls fs).paths) w.table old old' src dst).map fun r => ((finishPaths w r).1, 0)
  | .list dir => (vfsList calls w dir).map fun r => (r.1, 0)
  | .register fs => some (w.mapTable fun s => (vfsRegister s fs).1, 0)
  | .unregister fstype => some (w.mapTable fun s => (vfsUnregister s fstype).1, 0)

end SystemProjects.Vfs
