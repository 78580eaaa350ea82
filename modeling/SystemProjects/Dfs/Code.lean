import SystemProjects.Lib.Memory
import SystemProjects.Lib.Run

/-!
# The device registry of `dfs.c`

The list from `dfs_deviceHead` along `prev`, so the newest device comes first. Every entry has a
name and a call table of its own, and `mm_kmalloc` always finds room. A string is its bytes before
the `NUL`.
-/

open SystemProjects.Memory

namespace SystemProjects.Dfs

abbrev Name := List Byte

/-- `struct DFS_ENTRY`, with the contents of the `struct IO_CALLTABLE` it points to. -/
structure DfsEntry (τ : Type) where
  calltable : τ
  name : Name
  type : Int
deriving DecidableEq

variable {τ : Type}

def dfsAdd (devices : List (DfsEntry τ)) (name : Name) (calltable : τ) (type : Int) :
    List (DfsEntry τ) :=
  { calltable := calltable, name := name, type := type } :: devices

/-- The first entry with the name, or `NULL`. -/
def dfsFind (devices : List (DfsEntry τ)) (name : Name) : Option (DfsEntry τ) :=
  devices.find? fun device => device.name = name

/-! ## `dfs_remove` -/

/-- The walk to the entry `d` whose `prev` is the device that was found. -/
def unlinkInner (name : Name) : List (DfsEntry τ) → List (DfsEntry τ)
  | d :: device :: prev =>
    if device.name = name then d :: prev else d :: unlinkInner name (device :: prev)
  | devices => devices

def unlink (name : Name) : List (DfsEntry τ) → List (DfsEntry τ)
  | device :: prev => if device.name = name then prev else unlinkInner name (device :: prev)
  | [] => []

def dfsRemove (devices : List (DfsEntry τ)) (name : Name) : List (DfsEntry τ) × Int :=
  if (dfsFind devices name).isNone then (devices, FAIL) else (unlink name devices, SUCCESS)

def dfsDelete (devices : List (DfsEntry τ)) (name : Name) : List (DfsEntry τ) × Int :=
  dfsRemove devices name

/-! ## `dfs_copy` and `dfs_rename` -/

/-- The bytes of the block that `mm_kmalloc(strlen(name))` returns. It rounds up by 8. -/
def nameRoom (name : Name) : Nat := (name.length + 7) / 8 * 8

/-- `strcpy` also writes the `NUL`, and where the block has no room for it there is no outcome. On
success the C falls off its end, with a value other than `FAIL`. -/
def dfsCopy (devices : List (DfsEntry τ)) (src dst : Name) : Option (List (DfsEntry τ) × Int) :=
  match dfsFind devices src with
  | none => some (devices, FAIL)
  | some device =>
    if dst.length + 1 ≤ nameRoom dst then
      some (dfsAdd devices dst device.calltable device.type, SUCCESS)
    else none

def dfsRename (devices : List (DfsEntry τ)) (src dst : Name) : Option (List (DfsEntry τ) × Int) :=
  (dfsCopy devices src dst).map fun (devices', r) =>
    if r = FAIL then (devices', FAIL) else dfsDelete devices' src

/-! ## Calls -/

inductive Op (τ : Type) where
  | add (name : Name) (calltable : τ) (type : Int)
  | copy (src dst : Name)
  | rename (src dst : Name)
  | delete (name : Name)

/-- The registry afterwards and the value returned. `dfs_add` returns the entry, never `NULL`, and
that counts as `SUCCESS`. -/
def step (devices : List (DfsEntry τ)) : Op τ → Option (List (DfsEntry τ) × Int)
  | .add name calltable type => some (dfsAdd devices name calltable type, SUCCESS)
  | .copy src dst => dfsCopy devices src dst
  | .rename src dst => dfsRename devices src dst
  | .delete name => some (dfsDelete devices name)

end SystemProjects.Dfs
