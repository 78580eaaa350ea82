import SystemProjects.Fat.ReadBack
import SystemProjects.Fat.Resolve

/-!
# Opening a file in `fat.c`

The test of a lookup's result is for `NULL`, which `SUCCESS` is and `FAIL` is not, and the test of the mode is for its
last bit. `vfs_open` gives `fat_open` a handle with the mode that its caller asked for.
-/

open SystemProjects.Memory

namespace SystemProjects.Fat

variable {v v' : Volume} {d : Dir} {rest path : List Byte} {cs : List (List Byte)} {i : Nat} {prev : FatEntry}
  {file file' block : FatFile} {handle handle' : Handle} {opened : Bool} {flags : List ModeFlag} {ret : Int}

/-! ## The code -/

/-- `VFS_MODE_*`. -/
inductive ModeFlag where
  | read | write | create | truncate | append
  deriving DecidableEq

def ModeFlag.value : ModeFlag → Nat
  | .read => 1
  | .write => 2
  | .create => 4
  | .truncate => 8
  | .append => 9

def modeOf (flags : List ModeFlag) : Nat := flags.foldr (fun flag mode => flag.value ||| mode) 0

/-- `struct VFS_HANDLE`, with the mount of its `struct VFS_MOUNTPOINT`. -/
structure Handle where
  mount : Nat
  mode : Nat
  /-- The file, and the mount that it is on. -/
  dataPtr : Option (Nat × FatFile)

/-- What comes after the lookup. The flag says whether the handle is returned or `NULL`. -/
def openFile (v : Volume) (handle : Handle) (file : FatFile) : Option (Volume × Handle × Bool) :=
  let file := { file with currentPos := 0 }
  -- `==` binds before `&`.
  let isTruncate := if ModeFlag.truncate.value = ModeFlag.truncate.value then 1 else 0
  if handle.mode &&& isTruncate ≠ 0 then
    (fatSetFileSize v file 0).map fun (v, file, ret) =>
      (v, { handle with dataPtr := some (handle.mount, file) }, ret ≠ FAIL)
  else some (v, { handle with dataPtr := some (handle.mount, file) }, true)

/-- `block` is what the memory for the file holds, which a lookup that fails does not write. -/
def fatOpen (v : Volume) (prevEntry : FatEntry) (block : FatFile) (handle : Handle) (filename : List Byte) :
    Option (Volume × Handle × Bool) :=
  (fatFile2entry v prevEntry filename).bind fun
    | some _ => some (v, handle, false)
    | none => openFile v handle block

/-! ## What is claimed -/

/-- The file is the one of the lookup, apart from the size in its entry, and stands at its start. -/
structure OpenedAt (file file' : FatFile) : Prop where
  entry : ∀ x < 28, file'.entry x = file.entry x
  dirCluster : file'.dirCluster = file.dirCluster
  dirIndex : file'.dirIndex = file.dirIndex
  currentPos : file'.currentPos = 0

/-- A path that resolves is opened, and any other changes nothing. -/
def OpenExact (v : Volume) (prev : FatEntry) (block : FatFile) (handle : Handle) (path : List Byte) : Prop :=
  ∃ v' handle' opened, fatOpen v prev block handle path = some (v', handle', opened) ∧
    (opened = true ↔ ∃ file, fatFile2entry v prev path = some (some file)) ∧
    (opened = true → ∀ file, fatFile2entry v prev path = some (some file) →
      ∃ file', handle'.dataPtr = some (handle.mount, file') ∧ OpenedAt file file') ∧
    (opened = false → v' = v)

/-- The path comes to a missing name, the mode is odd, and the memory for the file has a size, no index and a directory
cluster that is full. -/
structure OpenOk (v : Volume) (block : FatFile) (handle : Handle) (path : List Byte) : Prop where
  misses : MissesPath (fatGetIndex v) v path
  mode : handle.mode % 2 = 1
  size : block.entry.fileSize ≠ 0
  dirIndex : block.dirIndex = none
  full : ∃ i, endSlot v block.dirCluster = some i ∧ i + 1 = v.slots

/-! ## The test of the mode -/

theorem openFile_even (hmode : handle.mode % 2 = 0) : openFile v handle file =
    some (v, { handle with dataPtr := some (handle.mount, { file with currentPos := 0 }) }, true) := by
  unfold openFile
  dsimp only
  rw [if_pos rfl, Nat.and_one_is_mod, hmode]
  rfl

theorem openFile_odd (hmode : handle.mode % 2 = 1) : openFile v handle file =
    (fatSetFileSize v { file with currentPos := 0 } 0).map fun (v, file, ret) =>
      (v, { handle with dataPtr := some (handle.mount, file) }, ret ≠ FAIL) := by
  unfold openFile
  dsimp only
  rw [if_pos rfl, Nat.and_one_is_mod, hmode]
  rfl

theorem openFile_empty (hsize : file.entry.fileSize = 0) : openFile v handle file =
    some (v, { handle with dataPtr := some (handle.mount, { file with currentPos := 0 }) }, true) := by
  rcases Nat.mod_two_eq_zero_or_one handle.mode with hmode | hmode
  · exact openFile_even hmode
  · rw [openFile_odd hmode, fatSetFileSize, if_pos hsize]
    rfl

def emptied (file : FatFile) : FatFile := { file with entry := file.entry.setFileSize 0, currentPos := 0 }

theorem openFile_writes (hmode : handle.mode % 2 = 1) (hsize : file.entry.fileSize ≠ 0) :
    openFile v handle file =
    (fatUpdateFileEntry v (emptied file)).map fun (v, file, ret) =>
      (v, { handle with dataPtr := some (handle.mount, file) }, ret ≠ FAIL) := by
  rw [openFile_odd hmode, fatSetFileSize, if_neg hsize]
  rfl

/-- An update keeps the entry of the file, and fails only for a full directory. -/
theorem fatUpdateFileEntry_cases (h : fatUpdateFileEntry v file = some (v', file', ret)) :
    file'.entry = file.entry ∧
    (ret = SUCCESS ∨ ret = FAIL ∧ v' = v ∧ file.dirIndex = none ∧
      ∃ i, endSlot v file.dirCluster = some i ∧ i + 1 = v.slots) := by
  cases hindex : file.dirIndex with
  | some i =>
    unfold fatUpdateFileEntry at h
    rw [hindex] at h
    dsimp only [writeEntry] at h
    split at h
    case isFalse => contradiction
    case isTrue =>
      cases h
      exact ⟨rfl, .inl rfl⟩
  | none =>
    cases hend : endSlot v file.dirCluster with
    | none =>
      rw [fatUpdateFileEntry_no_end file hindex hend] at h
      contradiction
    | some i =>
      have hslot := (endSlot_eq_some hend).1
      by_cases hi : i + 1 < v.slots
      · rw [fatUpdateFileEntry_free file hindex hend hi] at h
        cases h
        exact ⟨rfl, .inl rfl⟩
      · rw [fatUpdateFileEntry_last file hindex hend (by omega)] at h
        cases h
        exact ⟨rfl, .inr ⟨rfl, rfl, rfl, i, rfl, by omega⟩⟩

/-! ## When opening is exact -/

theorem OpenOk.exact (h : OpenOk v block handle path) (prev : FatEntry) :
    OpenExact v prev block handle path := by
  have hmiss : fatFile2entry v prev path = some none := by
    rw [fatFile2entry_eq, walk_none]
    exact h.misses
  obtain ⟨i, hend, hi⟩ := h.full
  have hopen : fatOpen v prev block handle path =
      some (v, { handle with dataPtr := some (handle.mount, { emptied block with dirIndex := some i }) }, false) := by
    rw [fatOpen, hmiss, Option.bind_some, openFile_writes h.mode h.size]
    rw [fatUpdateFileEntry_last (emptied block) h.dirIndex hend (by omega)]
    rfl
  refine ⟨_, _, _, hopen, ?_, fun hopened => by contradiction, fun _ => rfl⟩
  rw [hmiss]
  simp

theorem OpenExact.ok (h : OpenExact v prev block handle path) : OpenOk v block handle path := by
  obtain ⟨v', handle', opened, hopen, hiff, -, -⟩ := h
  obtain ⟨found, hfound, hrest⟩ := Option.bind_eq_some_iff.mp hopen
  cases found with
  | some file =>
    cases hrest
    exact absurd (hiff.mpr ⟨file, hfound⟩) (by simp)
  | none =>
    have hclosed : opened ≠ true := by
      intro hopened
      obtain ⟨file, hfile⟩ := hiff.mp hopened
      rw [hfound] at hfile
      simp at hfile
    have hmode : handle.mode % 2 = 1 := by
      refine (Nat.mod_two_eq_zero_or_one handle.mode).resolve_left fun heven => hclosed ?_
      rw [openFile_even heven] at hrest
      cases hrest
      rfl
    have hsize : block.entry.fileSize ≠ 0 := by
      intro hzero
      rw [openFile_empty hzero] at hrest
      cases hrest
      exact hclosed rfl
    rw [openFile_writes hmode hsize] at hrest
    obtain ⟨⟨v1, file', ret⟩, hupdate, heq⟩ := Option.map_eq_some_iff.mp hrest
    cases heq
    obtain ⟨-, rfl | ⟨rfl, -, hindex, hfull⟩⟩ := fatUpdateFileEntry_cases hupdate
    · exact absurd rfl hclosed
    · rw [fatFile2entry_eq, walk_none] at hfound
      exact ⟨hfound, hmode, hsize, hindex, hfull⟩

/-- **Opening.** It is exact only where the memory for the file makes it fail on a path that is not there. -/
theorem fatOpen_exact_iff (v : Volume) (prev : FatEntry) (block : FatFile) (handle : Handle)
    (path : List Byte) :
    OpenExact v prev block handle path ↔ OpenOk v block handle path :=
  ⟨OpenExact.ok, fun h => h.exact prev⟩

/-- `/D/F` is there, and is not opened. -/
theorem smallVolume_not_opened :
    ¬ ∀ (v : Volume) (prev : FatEntry) (block : FatFile) (handle : Handle) (path : List Byte),
      OpenExact v prev block handle path := by
  intro h
  have hok := (h smallVolume (fun _ => 0) ⟨fun _ => 0, 0, none, 0⟩ ⟨0, 1, none⟩ [slash, 0x44, slash,
    0x46, 0]).ok
  have hmiss : (walk (fatGetIndex smallVolume) smallVolume (fun _ => 0) [slash, 0x44, slash, 0x46, 0]).map
      Option.isSome = some false := by
    rw [walk_none.mpr hok.misses]
    rfl
  revert hmiss
  decide

end SystemProjects.Fat
