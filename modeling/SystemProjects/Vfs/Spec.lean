import SystemProjects.Lib.Links
import SystemProjects.Vfs.Code

/-!
# The mount table as a list

What the linked structures stand for: the mount points in mount order. A call that fails leaves the
table as it is.
-/

open SystemProjects.Lists

namespace SystemProjects.Vfs

variable {ε : Type}

/-- One mount point. -/
structure Entry (ε : Type) where
  fs : Filesystem ε
  dataPtr : Nat
  mountpoint : CString
  device : CString

structure Table (ε : Type) where
  fsHead : List (Filesystem ε)
  entries : List (Entry ε)
  env : ε

def Entry.named (name : CString) (e : Entry ε) : Bool := decide (e.mountpoint = name)

/-- A mount adds at the end, an unmount takes out the first entry with the name. -/
def Table.step (t : Table ε) : Op → Table ε × Int
  | .mount device mountpoint fstype mount =>
    match if mount = 0 then none else vfsFind t.fsHead fstype with
    | none => (t, FAIL)
    | some fs =>
      match fs.mount with
      | none => (t, FAIL)
      | some hook =>
        let (dataPtr, env) := hook t.env device mountpoint fstype
        if dataPtr = 0 then ({ t with env := env }, FAIL)
        else ({ t with entries := t.entries ++ [⟨fs, dataPtr, mountpoint, device⟩], env := env }, SUCCESS)
  | .unmount mountpoint =>
    match t.entries.find? (Entry.named mountpoint) with
    | none => (t, FAIL)
    | some e =>
      match e.fs.unmount with
      | none => (t, FAIL)
      | some hook =>
        let (r, env) := hook t.env e.dataPtr mountpoint
        if r = FAIL then ({ t with env := env }, FAIL)
        else ({ t with entries := t.entries.eraseP (Entry.named mountpoint), env := env }, SUCCESS)

/-! ## What a state stands for -/

/-- The list walked from `vfs_mpTail`. -/
def Walk (s : State ε) (as : List Nat) : Prop := Links (fun a => (s.mem a).next) 0 s.mpTail as

def Agrees (m : Mountpoint ε) (e : Entry ε) : Prop :=
  m.fs = some e.fs ∧ m.dataPtr = e.dataPtr ∧ m.mountpoint = e.mountpoint ∧ m.device = e.device

/-- The walk from `vfs_mpTail` ends, meets allocated structures only, and gives the entries in order. -/
structure Represents (s : State ε) (t : Table ε) (as : List Nat) : Prop where
  walk : Walk s as
  allocated : ∀ a ∈ as, s.allocated a = true ∧ a < 2 ^ 32
  agrees : List.Forall₂ (fun a e => Agrees (s.mem a) e) as t.entries
  fsHead : s.fsHead = t.fsHead
  env : s.env = t.env

end SystemProjects.Vfs
