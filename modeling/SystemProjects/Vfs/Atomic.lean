import SystemProjects.Vfs.Proofs

/-!
# Drivers that fail

`vfs_mount` links the new structure before it asks the driver, and `vfs_unmount` does not look at
what the driver answers.
-/

open SystemProjects.Lists

namespace SystemProjects.Vfs

variable {ε : Type}

/-! ## What is claimed of a call -/

/-- The driver is there, and its mount hook is absent or returns `NULL`. -/
def MountHookFails (s : State ε) (device mountpoint : CString) (fstype : Int) : Prop :=
  ∃ fs, vfsFind s.fsHead fstype = some fs ∧
    ∀ hook, fs.mount = some hook → (hook s.env device mountpoint fstype).1 = 0

/-- `vfs_unmount` finds the structure `b`, of the driver `fs`. -/
def Finds (s : State ε) (mountpoint : CString) (b : Nat) (fs : Filesystem ε) : Prop :=
  findMount s mountpoint walkFuel s.mpTail = some b ∧ b ≠ 0 ∧ (s.mem b).fs = some fs

/-- The list and both ends of it are as they were, with nothing freed in it. -/
structure Unchanged (s s' : State ε) : Prop where
  mpHead : s'.mpHead = s.mpHead
  mpTail : s'.mpTail = s.mpTail
  walk : ∀ as, Walk s as → Walk s' as ∧ ∀ a ∈ as, s'.mem a = s.mem a ∧ s'.allocated a = true

/-- A call whose driver fails answers `FAIL` and has no effect on the list. -/
def Atomic (s : State ε) : Op → Prop
  | .mount device mountpoint fstype mount => MountHookFails s device mountpoint fstype →
      ∃ s', vfsMount s device mountpoint fstype mount = some (s', FAIL) ∧ Unchanged s s'
  | .unmount mountpoint => ∀ b fs, Finds s mountpoint b fs →
      (∀ hook, fs.unmount = some hook → (hook s.env (s.mem b).dataPtr mountpoint).1 = FAIL) →
        ∃ s', vfsUnmount s mountpoint = some (s', FAIL) ∧
          ∃ as, Walk s' as ∧ b ∈ as ∧ s'.allocated b = true

/-- The call ends before the structure is linked, or it does not come to a failing hook. -/
def AtomicWhen (s : State ε) : Op → Prop
  | .mount device mountpoint fstype mount => mount = 0 ∨ ¬ MountHookFails s device mountpoint fstype
  | .unmount mountpoint => ∀ b fs, Finds s mountpoint b fs →
      (fs.unmount = none → mountpoint.length < vfsMaxfilename) ∧
        ∀ hook, fs.unmount = some hook → (hook s.env (s.mem b).dataPtr mountpoint).1 ≠ FAIL

/-! ## Mounting -/

/-- The failure exits behind the linking leave the freed structure at the end of the list. -/
theorem finishMount_of_failure {s : State ε} {as : List Nat} {device mountpoint : CString} {fstype : Int}
    {a : Nat} {fs : Filesystem ε} (h : Walk s as)
    (hfail : ∀ hook, fs.mount = some hook → (hook s.env device mountpoint fstype).1 = 0) :
    ∃ s', finishMount s device mountpoint fstype a fs = (s', FAIL) ∧ Walk s' as ∧
      s'.allocated a = false := by
  rw [finishMount]
  cases hhook : fs.mount with
  | none => exact ⟨_, rfl, h, if_pos rfl⟩
  | some hook =>
    simp only [hfail hook hhook, if_true]
    exact ⟨_, rfl, h.set_data a 0 (hook s.env device mountpoint fstype).2, if_pos rfl⟩

theorem mount_atomic_iff {s : State ε} {t : Table ε} {as : List Nat} (h : Represents s t as)
    (hl : HeadLast s as) {device mountpoint : CString} {fstype : Int} {a : Nat} (hf : Fresh s a) :
    Atomic s (.mount device mountpoint fstype a) ↔ AtomicWhen s (.mount device mountpoint fstype a) := by
  constructor
  · intro hatom
    by_contra hno
    obtain ⟨ha, hfail⟩ := not_or.mp hno
    have hfail := not_not.mp hfail
    obtain ⟨s', hs', hun⟩ := hatom hfail
    obtain ⟨fs, hfind, hhook⟩ := hfail
    obtain ⟨s1, hlink, hw, -, -, -, henv, -⟩ := linkMount_spec h.walk hl ha (h.notMem ha hf)
      (m := { fs := some fs, dataPtr := 0, mountpoint := mountpoint, device := device, next := 0 }) rfl
    obtain ⟨s2, hs2, hw2, -⟩ : ∃ s2, finishMount s1 device mountpoint fstype a fs = (s2, FAIL) ∧
        Walk s2 (as ++ [a]) ∧ s2.allocated a = false := finishMount_of_failure hw (henv ▸ hhook)
    rw [vfsMount_of_find ha hfind hlink, hs2] at hs'
    obtain ⟨rfl, -⟩ := Prod.mk.inj (Option.some.inj hs')
    -- The walk now has one structure more than before.
    have hlen := congrArg List.length (hw2.unique (hun.walk as h.walk).1)
    simp at hlen
  · rintro (rfl | hno) hfail
    · exact ⟨s, if_pos rfl, rfl, rfl, fun as' hw => ⟨hw, fun b hb =>
        ⟨rfl, (h.allocated b (hw.unique h.walk ▸ hb)).1⟩⟩⟩
    · exact absurd hfail hno

/-! ## Unmounting -/

theorem Represents.mem_of_finds {s : State ε} {t : Table ε} {as : List Nat} {name : CString} {b : Nat}
    {fs : Filesystem ε} (h : Represents s t as) (hfind : Finds s name b fs) : b ∈ as := by
  have hfound := hfind.1
  rw [findMount_spec h.walk walkFuel (h.walk.length_lt fun a ha => (h.allocated a ha).2)] at hfound
  exact List.mem_of_find?_eq_some (eq_some_of_getD hfound hfind.2.1)

theorem unmount_atomic_iff {s : State ε} {t : Table ε} {as : List Nat} (h : Represents s t as)
    {mountpoint : CString} : Atomic s (.unmount mountpoint) ↔ AtomicWhen s (.unmount mountpoint) := by
  constructor
  · rintro hatom b fs hfind
    have hcall : ∀ s', vfsUnmount s mountpoint = some (s', FAIL) →
        mountpoint.length < vfsMaxfilename ∧ fs.unmount = none := by
      intro s' hs'
      rw [vfsUnmount] at hs'
      split at hs'
      · simp at hs'
      · rename_i hlen
        rw [hfind.1, Option.bind_some, if_neg hfind.2.1, hfind.2.2, Option.bind_some] at hs'
        refine ⟨by omega, ?_⟩
        split at hs'
        · assumption
        · obtain ⟨_, -, heq⟩ := Option.map_eq_some_iff.mp hs'
          simp [SUCCESS, FAIL] at heq
    refine ⟨fun hnone => ?_, fun hook hhook hfail => ?_⟩
    · obtain ⟨s', hs', -⟩ := hatom b fs hfind (by simp [hnone])
      exact (hcall s' hs').1
    · obtain ⟨s', hs', -⟩ := hatom b fs hfind fun hook' hhook' => by
        rw [hhook] at hhook'
        rw [← Option.some.inj hhook']
        exact hfail
      rw [(hcall s' hs').2] at hhook
      simp at hhook
  · rintro hwhen b fs hfind hfail
    obtain ⟨hlen, hno⟩ := hwhen b fs hfind
    have hnone : fs.unmount = none := by
      cases hhook : fs.unmount with
      | none => rfl
      | some hook => exact absurd (hfail hook hhook) (hno hook hhook)
    have hb := h.mem_of_finds hfind
    refine ⟨s, ?_, as, h.walk, hb, (h.allocated b hb).1⟩
    have := hlen hnone
    rw [vfsUnmount, if_neg (by omega), hfind.1, Option.bind_some, if_neg hfind.2.1, hfind.2.2,
      Option.bind_some, hnone]

/-- **Atomic calls.** On a mount list in order, the calls that are atomic when the driver fails. -/
theorem atomic_iff (s : State ε) (t : Table ε) (as : List Nat) (h : Represents s t as)
    (hl : HeadLast s as) (op : Op) (hf : ∀ d m f a, op = .mount d m f a → Fresh s a) :
    Atomic s op ↔ AtomicWhen s op := by
  cases op with
  | mount device mountpoint fstype mount => exact mount_atomic_iff h hl (hf _ _ _ _ rfl)
  | unmount mountpoint => exact unmount_atomic_iff h

def dfsState : State Unit :=
  { mem := fun _ => ⟨some dfsFilesystem, 1, [65], [], 0⟩, allocated := fun a => a = 16
    fsHead := [dfsFilesystem], mpHead := 16, mpTail := 16, env := () }

theorem represents_dfsState :
    Represents dfsState ⟨[dfsFilesystem], [⟨dfsFilesystem, 1, [65], []⟩], ()⟩ [16] :=
  ⟨⟨rfl, by decide, rfl⟩, by simp [dfsState], .cons ⟨rfl, rfl, rfl, rfl⟩ .nil, rfl, rfl⟩

def noVolume : Filesystem Unit := { fstype := 1, mount := some fun env _ _ _ => (0, env), unmount := none }

theorem noVolume_mount_not_atomic :
    ¬ Atomic { dfsState with fsHead := [noVolume, dfsFilesystem] } (.mount [] [66] 1 32) := by
  have hs : Represents { dfsState with fsHead := [noVolume, dfsFilesystem] }
      ⟨[noVolume, dfsFilesystem], [⟨dfsFilesystem, 1, [65], []⟩], ()⟩ [16] :=
    ⟨⟨rfl, by decide, rfl⟩, by simp [dfsState], .cons ⟨rfl, rfl, rfl, rfl⟩ .nil, rfl, rfl⟩
  have hfresh : ∀ d m f a, Op.mount [] [66] 1 32 = .mount d m f a →
      Fresh { dfsState with fsHead := [noVolume, dfsFilesystem] } a := by
    rintro _ _ _ _ ⟨⟩ -
    exact ⟨by decide, by decide⟩
  rw [atomic_iff _ _ _ hs (Or.inr rfl) _ hfresh]
  rintro (h | h)
  · cases h
  · exact h ⟨noVolume, rfl, fun hook hhook => by obtain rfl := Option.some.inj hhook; rfl⟩

/-- `dfs_unmount` fails, and the mount point is taken out all the same. -/
theorem dfsState_unmount_not_atomic :
    Represents dfsState ⟨[dfsFilesystem], [⟨dfsFilesystem, 1, [65], []⟩], ()⟩ [16] ∧
      HeadLast dfsState [16] ∧ ¬ Atomic dfsState (.unmount [65]) := by
  refine ⟨represents_dfsState, Or.inr rfl, fun hatom => ?_⟩
  obtain ⟨s', hs', -⟩ := hatom 16 dfsFilesystem ⟨rfl, by decide, rfl⟩ fun hook hhook => by
    obtain rfl := Option.some.inj hhook
    rfl
  have hans : SUCCESS = FAIL := congrArg Prod.snd (Option.some.inj hs')
  revert hans
  decide

end SystemProjects.Vfs
