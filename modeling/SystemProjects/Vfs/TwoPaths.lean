import SystemProjects.Vfs.Atomic
import SystemProjects.Vfs.Resolution

/-!
# Renaming and copying

`vfs_rename` and `vfs_copy` look up the volume of `src`, and take the length of its name from both paths.
-/

open SystemProjects.Lists

namespace SystemProjects.Vfs

variable {ε : Type} {s : State ε} {as : List Nat} {a n size : Nat} {src dst path : CString}
    {old old' : Nat → Nat}

/-! ## The code -/

/-- A `char` array of `size` bytes after `strcpy`, or nothing when the string does not fit. `old` is what it held. -/
def strcpy (size : Nat) (old : Nat → Nat) (str : CString) : Option (List Nat) :=
  if str.length < size then some (str ++ 0 :: (List.range' (str.length + 1)
    (size - (str.length + 1))).map old)
  else none

/-- The string at `buffer + n`, or nothing when no `NUL` follows in the array. -/
def stringAt (buffer : List Nat) (n : Nat) : Option CString :=
  if 0 ∈ buffer.drop n then some ((buffer.drop n).takeWhile (· ≠ 0)) else none

abbrev PathHook (ε : Type) : Type := ε → Nat → Option CString → Option CString → Int × ε

structure PathHooks (ε : Type) where
  rename : Option (PathHook ε)
  copy : Option (PathHook ε)

/-- What follows `return`: a value, or a call of a hook. -/
inductive Returns (ε : Type) where
  | value (r : Int)
  | call (hook : PathHook ε) (mount : Nat) (src dst : Option CString)

/-- The two functions. The paths are copied to arrays of `size` bytes. -/
def twoPaths (hookOf : Filesystem ε → Option (PathHook ε)) (size : Nat) (s : State ε) (old old' : Nat → Nat)
    (src dst : CString) : Option (Returns ε) := do
  let srcname ← strcpy size old src
  let dstname ← strcpy size old' dst
  let mount ← vfsFile2mountpoint s (← stringAt srcname 0)
  if mount = 0 then some (.value FAIL)
  else
    let fs ← (s.mem mount).fs
    match hookOf fs with
    | none => some (.value FAIL)
    | some hook =>
      let n := (s.nameAt mount).length
      some (.call hook mount (stringAt srcname n) (stringAt dstname n))

def vfsRename (calls : Filesystem ε → PathHooks ε) : State ε → (Nat → Nat) → (Nat → Nat) → CString → CString →
    Option (Returns ε) :=
  twoPaths (fun fs => (calls fs).rename) vfsMaxfilename

def sizeofPointer : Nat := 4

/-- The arrays `srcname` and `dstname` are not used: the paths are copied to `&src` and `&dst`. -/
def vfsCopy (calls : Filesystem ε → PathHooks ε) : State ε → (Nat → Nat) → (Nat → Nat) → CString → CString →
    Option (Returns ε) :=
  twoPaths (fun fs => (calls fs).copy) sizeofPointer

/-! ## What is claimed -/

/-- The path lies under the mount point at `a`. -/
def LiesUnder (s : State ε) (path : CString) (a : Nat) : Prop := vfsFile2mountpoint s path = some a ∧ a ≠ 0

def HasHook (hookOf : Filesystem ε → Option (PathHook ε)) (s : State ε) (a : Nat)
    (hook : PathHook ε) : Prop :=
  ∃ fs, (s.mem a).fs = some fs ∧ hookOf fs = some hook

/-- The hook of the one volume is called with the rest of both paths, or `FAIL` is returned. -/
def OneVolume (hookOf : Filesystem ε → Option (PathHook ε)) (s : State ε) (src dst : CString)
    (r : Option (Returns ε)) : Prop :=
  (∃ a hook, LiesUnder s src a ∧ LiesUnder s dst a ∧ HasHook hookOf s a hook ∧
      r = some (.call hook a (some (src.drop (s.nameAt a).length)) (some (dst.drop (s.nameAt a).length)))) ∨
    (¬ ∃ a hook, LiesUnder s src a ∧ LiesUnder s dst a ∧ HasHook hookOf s a hook) ∧ r = some (.value FAIL)

/-- Both paths fit, and `dst` lies under the mount point of `src` where that one has the hook. -/
structure SameVolume (hookOf : Filesystem ε → Option (PathHook ε)) (size : Nat) (s : State ε)
    (src dst : CString) :
    Prop where
  srcFits : src.length < size
  dstFits : dst.length < size
  same : ∀ a hook, LiesUnder s src a → HasHook hookOf s a hook → LiesUnder s dst a

/-! ## Strings -/

theorem strcpy_of_fits (old : Nat → Nat) (hfits : path.length < size) :
    ∃ buffer, strcpy size old path = some buffer :=
  ⟨_, if_pos hfits⟩

theorem stringAt_of_strcpy {buffer : List Nat} (hcopy : strcpy size old path = some buffer) (hstr : 0 ∉ path)
    (hn : n ≤ path.length) : stringAt buffer n = some (path.drop n) := by
  unfold strcpy at hcopy
  split_ifs at hcopy
  obtain rfl := Option.some.inj hcopy
  unfold stringAt
  rw [List.drop_append_of_le_length hn, if_pos (by simp), List.takeWhile_append_of_pos]
  · simp
  · intro c hc
    rw [decide_eq_true_eq]
    rintro rfl
    exact hstr (List.mem_of_mem_drop hc)

/-! ## Volumes -/

theorem Represents.linked {t : Table ε} (h : Represents s t as) : Linked s as :=
  ⟨h.walk, fun a ha => (h.allocated a ha).2⟩

theorem LiesUnder.spec (h : LiesUnder s path a) (hlinked : Linked s as) : a ∈ as ∧ s.nameAt a <+: path := by
  obtain ⟨hfind, ha⟩ := h
  rw [hlinked.vfsFile2mountpoint_eq] at hfind
  have hfind := eq_some_of_getD hfind ha
  exact ⟨List.mem_of_find?_eq_some hfind, leadsTo_iff.mp (List.find?_some hfind)⟩

theorem LiesUnder.unique {b : Nat} (h : LiesUnder s path a) (h' : LiesUnder s path b) : a = b :=
  Option.some.inj (h.1.symm.trans h'.1)

theorem Represents.fs_of_mem {t : Table ε} (h : Represents s t as) (ha : a ∈ as) :
    ∃ fs, (s.mem a).fs = some fs := by
  obtain ⟨i, hi, rfl⟩ := List.getElem_of_mem ha
  exact ⟨_, (h.agrees.get hi (h.agrees.length_eq ▸ hi)).1⟩

/-! ## What the code returns -/

section

variable {hookOf : Filesystem ε → Option (PathHook ε)} {t : Table ε}

theorem twoPaths_of_long (h : ¬ (src.length < size ∧ dst.length < size)) :
    twoPaths hookOf size s old old' src dst = none := by
  unfold twoPaths strcpy
  by_cases hsrc : src.length < size
  · rw [if_neg (fun hdst => h ⟨hsrc, hdst⟩)]
    simp
  · rw [if_neg hsrc]
    rfl

theorem twoPaths_of_hook {hook : PathHook ε} (old old' : Nat → Nat) (hsrc : 0 ∉ src)
    (hfits : src.length < size)
    (hfits' : dst.length < size) (hunder : LiesUnder s src a) (hhook : HasHook hookOf s a hook)
    (hn : (s.nameAt a).length ≤ src.length) :
    ∃ dstname, strcpy size old' dst = some dstname ∧
      twoPaths hookOf size s old old' src dst =
        some (.call hook a (some (src.drop (s.nameAt a).length)) (stringAt dstname (s.nameAt a).length)) := by
  obtain ⟨srcname, hcopy⟩ := strcpy_of_fits old hfits
  obtain ⟨dstname, hcopyDst⟩ := strcpy_of_fits old' hfits'
  obtain ⟨fs, hfs, hhook⟩ := hhook
  have hwhole := stringAt_of_strcpy hcopy hsrc (Nat.zero_le _)
  have hrest := stringAt_of_strcpy hcopy hsrc hn
  rw [List.drop_zero] at hwhole
  refine ⟨dstname, hcopyDst, ?_⟩
  simp only [twoPaths, hcopy, hwhole, hcopyDst, hunder.1, if_neg hunder.2, hfs, hhook, hrest,
    Option.bind_eq_bind, Option.bind_some]

theorem twoPaths_of_none (h : Represents s t as) (hsrc : 0 ∉ src) (hfits : src.length < size)
    (hfits' : dst.length < size) (hnone : ¬ ∃ a hook, LiesUnder s src a ∧ HasHook hookOf s a hook) :
    twoPaths hookOf size s old old' src dst = some (.value FAIL) := by
  obtain ⟨srcname, hcopy⟩ := strcpy_of_fits old hfits
  obtain ⟨dstname, hcopyDst⟩ := strcpy_of_fits old' hfits'
  have hwhole := stringAt_of_strcpy hcopy hsrc (Nat.zero_le _)
  rw [List.drop_zero] at hwhole
  simp only [twoPaths, hcopy, hwhole, hcopyDst, h.linked.vfsFile2mountpoint_eq, Option.bind_eq_bind,
    Option.bind_some]
  generalize hmount : (as.find? (leadsTo s src)).getD 0 = mount
  by_cases hzero : mount = 0
  · rw [if_pos hzero]
  · rw [if_neg hzero]
    have hunder : LiesUnder s src mount := ⟨h.linked.vfsFile2mountpoint_eq.trans
      (congrArg some hmount), hzero⟩
    obtain ⟨fs, hfs⟩ := h.fs_of_mem (hunder.spec h.linked).1
    rw [hfs, Option.bind_some]
    cases hhook : hookOf fs with
    | none => rfl
    | some hook => exact absurd ⟨mount, hook, hunder, fs, hfs, hhook⟩ hnone

theorem oneVolume_iff (h : Represents s t as) (hsrc : 0 ∉ src) (hdst : 0 ∉ dst) :
    OneVolume hookOf s src dst (twoPaths hookOf size s old old' src dst) ↔
      SameVolume hookOf size s src dst := by
  constructor
  · intro hone
    have hfits : src.length < size ∧ dst.length < size := by
      by_contra hlong
      rw [twoPaths_of_long hlong] at hone
      rcases hone with ⟨a, hook, -, -, -, hcall⟩ | ⟨-, hvalue⟩
      · cases hcall
      · cases hvalue
    refine ⟨hfits.1, hfits.2, fun a hook hunder hhook => ?_⟩
    have hn := (hunder.spec h.linked).2.length_le
    obtain ⟨dstname, -, hcall⟩ := twoPaths_of_hook old old' hsrc hfits.1 hfits.2 hunder hhook hn
    rcases hone with ⟨b, hook', hunder', hdstUnder, -⟩ | ⟨-, hvalue⟩
    · rwa [hunder.unique hunder']
    · cases hcall.symm.trans hvalue
  · rintro ⟨hfits, hfits', hsame⟩
    by_cases hsome : ∃ a hook, LiesUnder s src a ∧ HasHook hookOf s a hook
    · obtain ⟨a, hook, hunder, hhook⟩ := hsome
      have hdstUnder := hsame a hook hunder hhook
      have hn := (hunder.spec h.linked).2.length_le
      have hn' := (hdstUnder.spec h.linked).2.length_le
      obtain ⟨dstname, hcopy, hcall⟩ := twoPaths_of_hook old old' hsrc hfits hfits' hunder hhook hn
      rw [stringAt_of_strcpy hcopy hdst hn'] at hcall
      exact .inl ⟨a, hook, hunder, hdstUnder, hhook, hcall⟩
    · refine .inr ⟨?_, twoPaths_of_none h hsrc hfits hfits' hsome⟩
      rintro ⟨a, hook, hunder, -, hhook⟩
      exact hsome ⟨a, hook, hunder, hhook⟩

end

/-- **Two paths.** Renaming and copying stay on one volume just when both paths fit where they are copied to, and
`dst` lies under the mount point that `src` lies under. -/
theorem renameCopy_oneVolume_iff (calls : Filesystem ε → PathHooks ε) (s : State ε) (t : Table ε)
    (as : List Nat)
    (h : Represents s t as) (src dst : CString) (hsrc : 0 ∉ src) (hdst : 0 ∉ dst) (old old' : Nat → Nat) :
    (OneVolume (fun fs => (calls fs).rename) s src dst (vfsRename calls s old old' src dst) ↔
        SameVolume (fun fs => (calls fs).rename) vfsMaxfilename s src dst) ∧
      (OneVolume (fun fs => (calls fs).copy) s src dst (vfsCopy calls s old old' src dst) ↔
        SameVolume (fun fs => (calls fs).copy) sizeofPointer s src dst) :=
  ⟨oneVolume_iff h hsrc hdst, oneVolume_iff h hsrc hdst⟩

def idleHooks : PathHooks Unit :=
  { rename := some fun _ _ _ _ => (SUCCESS, ()), copy := some fun _ _ _ _ => (SUCCESS, ()) }

/-- The volume is at `A`, and the paths are `A/x` and `A/y`. -/
theorem dfsState_oneVolume :
    OneVolume (fun _ => idleHooks.rename) dfsState [65, 47, 120] [65, 47, 121]
        (vfsRename (fun _ => idleHooks) dfsState id id [65, 47, 120] [65, 47, 121]) ∧
      OneVolume (fun _ => idleHooks.copy) dfsState [65, 47, 120] [65, 47, 121]
        (vfsCopy (fun _ => idleHooks) dfsState id id [65, 47, 120] [65, 47, 121]) := by
  have hsame : ∀ a, LiesUnder dfsState [65, 47, 120] a → LiesUnder dfsState [65, 47, 121] a := by
    rintro a ⟨hfind, ha⟩
    obtain rfl : 16 = a := Option.some.inj hfind
    exact ⟨rfl, ha⟩
  have hboth := renameCopy_oneVolume_iff (fun _ => idleHooks) dfsState _ [16] represents_dfsState
    [65, 47, 120] [65, 47, 121] (by decide) (by decide) id id
  exact ⟨hboth.1.mpr ⟨by decide, by decide, fun a _ h _ => hsame a h⟩,
    hboth.2.mpr ⟨by decide, by decide, fun a _ h _ => hsame a h⟩⟩

/-- From `A/x` to `B/y`, where nothing is mounted at `B`: the driver of `A` is told `/x` and `/y`. -/
theorem dfsState_rename_elsewhere :
    Represents dfsState ⟨[dfsFilesystem], [⟨dfsFilesystem, 1, [65], []⟩], ()⟩ [16] ∧
      ¬ OneVolume (fun _ => idleHooks.rename) dfsState [65, 47, 120] [66, 47, 121]
        (vfsRename (fun _ => idleHooks) dfsState id id [65, 47, 120] [66, 47, 121]) := by
  refine ⟨represents_dfsState, ?_⟩
  rintro (⟨a, hook, -, ⟨hfind, ha⟩, -⟩ | ⟨-, hvalue⟩)
  · exact ha (Option.some.inj hfind).symm
  · cases hvalue

end SystemProjects.Vfs
