import SystemProjects.Vfs.Files

/-!
# The volume that is mounted first

It stays at the start of the list, so all names below it lead to it. Neither a mount that fails nor an
unmount that loses other volumes takes it away.
-/

open SystemProjects.Run

namespace SystemProjects.Vfs

variable {ε : Type} {calls : Drivers ε} {w w' : World ε} {a : Nat} {m : Mountpoint ε}

/-! ## What is claimed -/

/-- The structure says what `m` says, but for the structure after it. -/
structure SameMount (m m' : Mountpoint ε) : Prop where
  fs : m'.fs = m.fs
  dataPtr : m'.dataPtr = m.dataPtr
  mountpoint : m'.mountpoint = m.mountpoint
  device : m'.device = m.device

/-- `mm_kmalloc` gives no memory that is in use, and the volume is not the one that is unmounted. -/
def SparesFirst (name : CString) (w : World ε) : FileCall ε → Prop
  | .table (.mount _ _ _ mount _ _) => w.table.allocated mount = false
  | .table (.unmount mountpoint) => mountpoint ≠ name
  | _ => True

def worldStep (calls : Drivers ε) (w : World ε) (call : FileCall ε) : Option (World ε) :=
  (fileStep calls w call).map Prod.fst

/-! ## The invariant -/

structure First (a : Nat) (m : Mountpoint ε) (s : State ε) : Prop where
  ne : a ≠ 0
  tail : s.mpTail = a
  allocated : s.allocated a = true
  same : SameMount m (s.mem a)

theorem First.sameTable (h : First a m w.table) (ht : SameTable w w') : First a m w'.table := by
  rw [ht]
  exact ⟨h.ne, h.tail, h.allocated, h.same⟩

theorem First.setEnv (h : First a m w.table) (env : ε) : First a m (w.setEnv env).table :=
  ⟨h.ne, h.tail, h.allocated, h.same⟩

variable {s s' : State ε}

theorem First.set (h : First a m s) {b : Nat} (hb : b ≠ a) (m' : Mountpoint ε) : First a m (s.set b m') :=
  ⟨h.ne, h.tail, h.allocated, (set_other (Ne.symm hb)).symm ▸ h.same⟩

theorem First.setNext (h : First a m s) (b n : Nat) : First a m (s.setNext b n) := by
  by_cases hb : b = a
  · subst hb
    refine ⟨h.ne, h.tail, h.allocated, ?_⟩
    rw [setNext_self]
    exact ⟨h.same.fs, h.same.dataPtr, h.same.mountpoint, h.same.device⟩
  · exact h.set hb _

theorem First.alloc (h : First a m s) {b : Nat} (hb : b ≠ a) : First a m (s.alloc b) :=
  ⟨h.ne, h.tail, (if_neg (Ne.symm hb)).trans h.allocated, (h.set hb zeroMountpoint).same⟩

theorem First.free (h : First a m s) {b : Nat} (hb : b ≠ a) : First a m (s.free b) :=
  ⟨h.ne, h.tail, (if_neg (Ne.symm hb)).trans h.allocated, h.same⟩

theorem First.linkMount (h : First a m s) {b : Nat} (heq : linkMount s b = some s') : First a m s' := by
  have htail : s.mpTail ≠ 0 := h.tail.symm ▸ h.ne
  rw [Vfs.linkMount, if_neg htail] at heq
  split at heq
  · cases heq
  · obtain rfl := Option.some.inj heq
    have hnext := h.setNext s.mpHead b
    exact ⟨hnext.ne, hnext.tail, hnext.allocated, hnext.same⟩

theorem First.findPrev {b : Nat} : ∀ fuel (s : State ε) p s' p', First a m s → findPrev b fuel s p =
    some (s', p') →
    First a m s' := by
  intro fuel
  induction fuel with
  | zero => intro s p s' p' _ h; cases h
  | succ fuel ih =>
    intro s p s' p' hs h
    rw [Vfs.findPrev] at h
    split at h
    · obtain ⟨rfl, -⟩ := Prod.mk.inj (Option.some.inj h)
      exact hs
    · simp only at h
      split at h
      · obtain ⟨rfl, -⟩ := Prod.mk.inj (Option.some.inj h)
        exact hs.setNext p b
      · exact ih _ _ _ _ (hs.setNext p b) h

theorem First.unlinkMount (h : First a m s) {b : Nat} (hb : b ≠ a) (heq : unlinkMount s b = some s') :
    First a m s' := by
  rw [Vfs.unlinkMount, if_neg (h.tail.symm ▸ hb)] at heq
  obtain ⟨⟨s1, p⟩, hprev, heq⟩ := Option.bind_eq_some_iff.mp heq
  have hs1 := First.findPrev _ _ _ _ _ h hprev
  simp only at heq
  split at heq
  · cases heq
  · obtain rfl := Option.some.inj heq
    exact hs1.setNext p _

theorem First.resolves (h : First a m s) {path : CString} (hpath : m.mountpoint <+: path) :
    vfsFile2mountpoint s path = some a := by
  have hfuel : ∀ fuel, file2mountpoint s path (fuel + 1) a = some a := by
    intro fuel
    rw [file2mountpoint, if_neg h.ne, h.same.mountpoint, if_pos (List.isPrefixOf_iff_prefix.mpr hpath)]
  rw [vfsFile2mountpoint, h.tail]
  exact hfuel (2 ^ 32 - 1)

/-! ## Calls -/

theorem vfsOpen_sameTable {filename : CString} {mode h r : Nat}
    (heq : vfsOpen calls.files w filename mode h = some (w', r)) : SameTable w w' := by
  cases vfsOpen_spec heq with
  | null step => exact step.table
  | handle found mount_ne h_ne step refers => exact step.table

theorem mountHook_sameTable {fs : Filesystem ε} {hook : ε → CString → CString → Int → Nat × ε}
    {device mountpoint : CString} {fstype : Int} {mount h fat d : Nat}
    (hself : (w.table.mem mount).fs = some fs)
    (heq : mountHook calls.files fs hook w device mountpoint fstype h fat = some (w', d)) : SameTable w w' :=
  (mountHook_spec hself heq).table

theorem linkMount_fs {b : Nat} {fs : Filesystem ε} (hfs : (s.mem b).fs = some fs)
    (heq : linkMount s b = some s') :
    (s'.mem b).fs = some fs := by
  unfold linkMount at heq
  split at heq
  · rw [← Option.some.inj heq]
    exact hfs
  · split at heq
    · cases heq
    · rw [← Option.some.inj heq]
      show ((s.setNext s.mpHead b).mem b).fs = some fs
      by_cases hb : b = s.mpHead
      · rw [← hb, setNext_self]
        exact hfs
      · rw [setNext_other hb]
        exact hfs

theorem newMount_fs (s : State ε) (b : Nat) (fs : Filesystem ε) (device mountpoint : CString) :
    ((newMount s b fs device mountpoint).mem b).fs = some fs :=
  congrArg Mountpoint.fs (set_self _ _ _)

theorem First.mount (h : First a m w.table) {device mountpoint : CString} {fstype r : Int} {mount x fat : Nat}
    (hfresh : w.table.allocated mount = false)
    (heq : vfsMountWith calls.files w device mountpoint fstype mount x fat = some (w', r)) :
    First a m w'.table := by
  have hne : mount ≠ a := by
    rintro rfl
    rw [h.allocated] at hfresh
    cases hfresh
  unfold vfsMountWith at heq
  split at heq
  · obtain ⟨rfl, -⟩ := Prod.mk.inj (Option.some.inj heq)
    exact h
  · split at heq
    · obtain ⟨rfl, -⟩ := Prod.mk.inj (Option.some.inj heq)
      exact (h.alloc hne).free hne
    case h_2 fs hfind =>
      obtain ⟨s, hlink, heq⟩ := Option.bind_eq_some_iff.mp heq
      have hs : First a m s := ((h.alloc hne).set hne _).linkMount hlink
      simp only at heq
      split at heq
      · obtain ⟨rfl, -⟩ := Prod.mk.inj (Option.some.inj heq)
        exact hs.free hne
      case h_2 hook hhook =>
        obtain ⟨⟨w1, d⟩, hcall, heq⟩ := Option.map_eq_some_iff.mp heq
        have htable := mountHook_sameTable (linkMount_fs (newMount_fs _ _ _ _ _) hlink) hcall
        have hs1 : First a m w1.table := First.sameTable hs htable
        simp only at heq
        split at heq
        · obtain ⟨rfl, -⟩ := Prod.mk.inj heq
          exact (hs1.set hne _).free hne
        · obtain ⟨rfl, -⟩ := Prod.mk.inj heq
          exact hs1.set hne _

theorem findMount_ne {name : CString} (h : First a m s) (hname : name ≠ m.mountpoint) {b : Nat} : ∀ fuel c,
    findMount s name fuel c = some b → b ≠ a := by
  intro fuel
  induction fuel with
  | zero => intro c h; cases h
  | succ fuel ih =>
    intro c hc
    rw [findMount] at hc
    split at hc
    · rw [← Option.some.inj hc]
      exact Ne.symm h.ne
    · split at hc
      case isTrue hfound =>
        obtain rfl := Option.some.inj hc
        rintro rfl
        exact hname (hfound.symm.trans h.same.mountpoint)
      case isFalse => exact ih _ hc

theorem First.unmount (h : First a m w.table) {mountpoint : CString} {r : Int}
    (hname : mountpoint ≠ m.mountpoint)
    (heq : vfsUnmountWith calls.files w mountpoint = some (w', r)) : First a m w'.table := by
  unfold vfsUnmountWith at heq
  split at heq
  · cases heq
  · obtain ⟨b, hfound, heq⟩ := Option.bind_eq_some_iff.mp heq
    have hne := findMount_ne h hname _ _ hfound
    split at heq
    · obtain ⟨rfl, -⟩ := Prod.mk.inj (Option.some.inj heq)
      exact h
    · obtain ⟨fs, hfs, heq⟩ := Option.bind_eq_some_iff.mp heq
      split at heq
      · obtain ⟨rfl, -⟩ := Prod.mk.inj (Option.some.inj heq)
        exact h
      · obtain ⟨w1, hcall, heq⟩ := Option.bind_eq_some_iff.mp heq
        obtain ⟨s, hunlink, heq⟩ := Option.map_eq_some_iff.mp heq
        obtain ⟨rfl, -⟩ := Prod.mk.inj heq
        exact ((h.sameTable (unmountHook_spec hfs hcall).1.table).unlinkMount hne hunlink).free hne

/-! ## Calls that reach a driver only -/

def EnvOnly (w w' : World ε) : Prop := ∃ env, w' = w.setEnv env

theorem EnvOnly.refl (w : World ε) : EnvOnly w w := ⟨w.table.env, rfl⟩

theorem EnvOnly.trans {w'' : World ε} (h : EnvOnly w w') (h' : EnvOnly w' w'') : EnvOnly w w'' := by
  obtain ⟨env, rfl⟩ := h
  obtain ⟨env', rfl⟩ := h'
  exact ⟨env', rfl⟩

theorem First.envOnly (h : First a m w.table) (hw : EnvOnly w w') : First a m w'.table := by
  obtain ⟨env, rfl⟩ := hw
  exact h.setEnv env

variable {ρ : Type} {r : ρ} {h : Nat}

theorem onHandle_envOnly {hookOf : Calltable ε → Option (HandleHook ε ρ)} {fail : ρ}
    (heq : onHandle calls hookOf fail w h = some (w', r)) : EnvOnly w w' := by
  obtain ⟨fs, -, heq⟩ := Option.map_eq_some_iff.mp heq
  split at heq
  · obtain ⟨rfl, -⟩ := Prod.mk.inj heq
    exact .refl w
  · obtain ⟨rfl, -⟩ := Prod.mk.inj heq
    exact ⟨_, rfl⟩

theorem onName_envOnly {hookOf : Calltable ε → Option (NameHook ε ρ)} {fail : ρ} {filename : CString}
    (heq : onName calls hookOf fail w filename = some (w', r)) : EnvOnly w w' := by
  unfold onName at heq
  split at heq
  · cases heq
  · obtain ⟨mount, -, heq⟩ := Option.bind_eq_some_iff.mp heq
    split at heq
    · obtain ⟨rfl, -⟩ := Prod.mk.inj (Option.some.inj heq)
      exact .refl w
    · obtain ⟨fs, -, heq⟩ := Option.map_eq_some_iff.mp heq
      split at heq
      · obtain ⟨rfl, -⟩ := Prod.mk.inj heq
        exact .refl w
      · obtain ⟨rfl, -⟩ := Prod.mk.inj heq
        exact ⟨_, rfl⟩

theorem vfsSeek_envOnly {offset origin : Nat} {r : Int}
    (heq : vfsSeek calls w h offset origin = some (w', r)) :
    EnvOnly w w' := by
  unfold vfsSeek at heq
  split at heq
  · obtain ⟨rfl, -⟩ := Prod.mk.inj (Option.some.inj heq)
    exact .refl w
  · exact onHandle_envOnly heq

theorem vfsRead_envOnly {size : Nat} {r : List Nat × Int} (heq : vfsRead calls w h size = some (w', r)) :
    EnvOnly w w' := by
  unfold vfsRead at heq
  split at heq
  · obtain ⟨rfl, -⟩ := Prod.mk.inj (Option.some.inj heq)
    exact .refl w
  · split at heq
    · obtain ⟨rfl, -⟩ := Prod.mk.inj (Option.some.inj heq)
      exact .refl w
    · exact onHandle_envOnly heq

theorem vfsWrite_envOnly {buffer : List Nat} {r : Int} (heq : vfsWrite calls w h buffer = some (w', r)) :
    EnvOnly w w' := by
  unfold vfsWrite at heq
  split at heq
  · obtain ⟨rfl, -⟩ := Prod.mk.inj (Option.some.inj heq)
    exact .refl w
  · split at heq
    · obtain ⟨rfl, -⟩ := Prod.mk.inj (Option.some.inj heq)
      exact .refl w
    · obtain ⟨⟨w1, ret⟩, hcall, heq⟩ := Option.bind_eq_some_iff.mp heq
      simp only at heq
      split at heq
      · obtain ⟨⟨w2, r2⟩, hseek, heq⟩ := Option.map_eq_some_iff.mp heq
        obtain ⟨rfl, -⟩ := Prod.mk.inj heq
        exact (onHandle_envOnly hcall).trans (vfsSeek_envOnly hseek)
      · obtain ⟨rfl, -⟩ := Prod.mk.inj (Option.some.inj heq)
        exact onHandle_envOnly hcall

theorem vfsControl_envOnly {request arg : Nat} {r : Int}
    (heq : vfsControl calls w h request arg = some (w', r)) :
    EnvOnly w w' := by
  unfold vfsControl at heq
  split at heq
  · obtain ⟨rfl, -⟩ := Prod.mk.inj (Option.some.inj heq)
    exact .refl w
  · obtain ⟨⟨w1, r1⟩, hcall, heq⟩ := Option.map_eq_some_iff.mp heq
    obtain ⟨rfl, -⟩ := Prod.mk.inj heq
    exact onHandle_envOnly hcall

theorem vfsList_envOnly {dir : CString} {r : Option (List DirlistEntry)}
    (heq : vfsList calls w dir = some (w', r)) :
    EnvOnly w w' := by
  unfold vfsList at heq
  split at heq
  · cases heq
  · obtain ⟨last, -, heq⟩ := Option.bind_eq_some_iff.mp heq
    split at heq
    · obtain ⟨rfl, -⟩ := Prod.mk.inj (Option.some.inj heq)
      exact .refl w
    · exact onName_envOnly heq

theorem finishPaths_envOnly (result : Returns ε) : EnvOnly w (finishPaths w result).1 := by
  cases result with
  | value r => exact .refl w
  | call hook mount src dst => exact ⟨_, rfl⟩

theorem vfsClone_sameTable {clone r : Nat} (heq : vfsClone calls w h clone = some (w', r)) :
    SameTable w w' := by
  unfold vfsClone at heq
  split at heq
  · obtain ⟨rfl, -⟩ := Prod.mk.inj (Option.some.inj heq)
    rfl
  · obtain ⟨fs, -, heq⟩ := Option.bind_eq_some_iff.mp heq
    split at heq
    · obtain ⟨rfl, -⟩ := Prod.mk.inj (Option.some.inj heq)
      rfl
    · split at heq
      · cases heq
      · simp only at heq
        split at heq
        · obtain ⟨rfl, -⟩ := Prod.mk.inj (Option.some.inj heq)
          rfl
        · obtain ⟨rfl, -⟩ := Prod.mk.inj (Option.some.inj heq)
          rfl

theorem First.step {call : FileCall ε} (hw : First a m w.table) (hok : SparesFirst m.mountpoint w call)
    (heq : worldStep calls w call = some w') : First a m w'.table := by
  obtain ⟨⟨w1, r1⟩, hcall, rfl⟩ := Option.map_eq_some_iff.mp heq
  cases call with
  | table call =>
    cases call with
    | mount device mountpoint fstype mount h fat =>
      obtain ⟨w1, hstep, heq⟩ := Option.map_eq_some_iff.mp hcall
      obtain ⟨rfl, -⟩ := Prod.mk.inj heq
      obtain ⟨⟨w2, r2⟩, hmount, rfl⟩ := Option.map_eq_some_iff.mp hstep
      exact hw.mount hok hmount
    | unmount mountpoint =>
      obtain ⟨w1, hstep, heq⟩ := Option.map_eq_some_iff.mp hcall
      obtain ⟨rfl, -⟩ := Prod.mk.inj heq
      obtain ⟨⟨w2, r2⟩, hunmount, rfl⟩ := Option.map_eq_some_iff.mp hstep
      exact hw.unmount hok hunmount
    | openFile filename mode h => exact hw.sameTable (vfsOpen_sameTable hcall)
    | close h =>
      obtain ⟨w1, hstep, heq⟩ := Option.map_eq_some_iff.mp hcall
      obtain ⟨rfl, -⟩ := Prod.mk.inj heq
      obtain ⟨⟨w2, r2⟩, hclose, rfl⟩ := Option.map_eq_some_iff.mp hstep
      exact hw.sameTable (vfsClose_spec hclose).1.table
  | clone h clone => exact hw.sameTable (vfsClone_sameTable hcall)
  | read h size =>
    obtain ⟨⟨w1, out⟩, hread, heq⟩ := Option.map_eq_some_iff.mp hcall
    obtain ⟨rfl, -⟩ := Prod.mk.inj heq
    exact hw.envOnly (vfsRead_envOnly hread)
  | write h buffer =>
    obtain ⟨⟨w1, out⟩, hwrite, heq⟩ := Option.map_eq_some_iff.mp hcall
    obtain ⟨rfl, -⟩ := Prod.mk.inj heq
    exact hw.envOnly (vfsWrite_envOnly hwrite)
  | seek h offset origin =>
    obtain ⟨⟨w1, out⟩, hseek, heq⟩ := Option.map_eq_some_iff.mp hcall
    obtain ⟨rfl, -⟩ := Prod.mk.inj heq
    exact hw.envOnly (vfsSeek_envOnly hseek)
  | control h request arg =>
    obtain ⟨⟨w1, out⟩, hcontrol, heq⟩ := Option.map_eq_some_iff.mp hcall
    obtain ⟨rfl, -⟩ := Prod.mk.inj heq
    exact hw.envOnly (vfsControl_envOnly hcontrol)
  | create filename =>
    obtain ⟨⟨w1, out⟩, hname, heq⟩ := Option.map_eq_some_iff.mp hcall
    obtain ⟨rfl, -⟩ := Prod.mk.inj heq
    exact hw.envOnly (onName_envOnly hname)
  | delete filename =>
    obtain ⟨⟨w1, out⟩, hname, heq⟩ := Option.map_eq_some_iff.mp hcall
    obtain ⟨rfl, -⟩ := Prod.mk.inj heq
    exact hw.envOnly (onName_envOnly hname)
  | rename old old' src dst =>
    obtain ⟨result, -, heq⟩ := Option.map_eq_some_iff.mp hcall
    obtain ⟨rfl, -⟩ := Prod.mk.inj heq
    exact hw.envOnly (finishPaths_envOnly result)
  | copy old old' src dst =>
    obtain ⟨result, -, heq⟩ := Option.map_eq_some_iff.mp hcall
    obtain ⟨rfl, -⟩ := Prod.mk.inj heq
    exact hw.envOnly (finishPaths_envOnly result)
  | list dir =>
    obtain ⟨⟨w1, out⟩, hlist, heq⟩ := Option.map_eq_some_iff.mp hcall
    obtain ⟨rfl, -⟩ := Prod.mk.inj heq
    exact hw.envOnly (vfsList_envOnly hlist)
  | register fs =>
    obtain ⟨rfl, rfl⟩ := Prod.mk.inj (Option.some.inj hcall)
    exact ⟨hw.ne, hw.tail, hw.allocated, hw.same⟩
  | unregister fstype =>
    obtain ⟨rfl, rfl⟩ := Prod.mk.inj (Option.some.inj hcall)
    exact hw

/-! ## Runs -/

theorem first_of_mount (htail : w.table.mpTail = 0) {device mountpoint : CString} {fstype : Int} {x fat : Nat}
    (heq : vfsMountWith calls.files w device mountpoint fstype a x fat = some (w', SUCCESS)) :
    First a (w'.table.mem a) w'.table ∧ (w'.table.mem a).mountpoint = mountpoint := by
  have hsame : ∀ t : State ε, SameMount (t.mem a) (t.mem a) := fun t => ⟨rfl, rfl, rfl, rfl⟩
  unfold vfsMountWith at heq
  split at heq
  · obtain ⟨-, hr⟩ := Prod.mk.inj (Option.some.inj heq)
    cases hr
  case isFalse ha =>
    split at heq
    · obtain ⟨-, hr⟩ := Prod.mk.inj (Option.some.inj heq)
      cases hr
    case h_2 fs hfind =>
      obtain ⟨s, hlink, heq⟩ := Option.bind_eq_some_iff.mp heq
      have hfs := linkMount_fs (newMount_fs w.table a fs device mountpoint) hlink
      rw [linkMount, if_pos (show (newMount w.table a fs device mountpoint).mpTail = 0 from htail)] at hlink
      obtain rfl := Option.some.inj hlink
      simp only at heq
      split at heq
      · obtain ⟨-, hr⟩ := Prod.mk.inj (Option.some.inj heq)
        cases hr
      · obtain ⟨⟨w1, d⟩, hcall, heq⟩ := Option.map_eq_some_iff.mp heq
        have htable := mountHook_sameTable hfs hcall
        simp only at heq
        split at heq
        · obtain ⟨-, hr⟩ := Prod.mk.inj heq
          cases hr
        · obtain ⟨rfl, -⟩ := Prod.mk.inj heq
          refine ⟨⟨ha, ?_, ?_, hsame _⟩, ?_⟩
          · show w1.table.mpTail = a
            rw [htable]
            rfl
          · show w1.table.allocated a = true
            rw [htable]
            exact if_pos rfl
          · rw [World.mapTable, set_self]
            show (w1.table.mem a).mountpoint = mountpoint
            rw [htable]
            exact congrArg Mountpoint.mountpoint (set_self _ _ _)

/-- **What is mounted first stays.** In every run after the first mount in which its volume is not unmounted, with
drivers that fail at any time, the structure stays allocated and keeps its driver and names, and every path below its
mount point leads to it. -/
theorem first_mount_stays (calls : Drivers ε) (table : State ε) (device mountpoint : CString) (fstype : Int)
    (a x fat : Nat) (w0 : World ε)
    (hmount : vfsMountWith calls.files (World.init table) device mountpoint fstype a x fat =
    some (w0, SUCCESS))
    (ops : List (FileCall ε)) (hops : Along (worldStep calls) (SparesFirst mountpoint) w0 ops) (w : World ε)
    (hrun : run (worldStep calls) w0 ops = some w) :
    w.table.allocated a = true ∧ SameMount (w0.table.mem a) (w.table.mem a) ∧
      ∀ path, mountpoint <+: path → vfsFile2mountpoint w.table path = some a := by
  obtain ⟨hfirst, hname⟩ := first_of_mount rfl hmount
  have hw := run_keeps (I := fun w => First a (w0.table.mem a) w.table)
    (fun v call v' hv hok hstep => hv.step (hname.symm ▸ hok) hstep) ops _ w hfirst hops hrun
  exact ⟨hw.allocated, hw.same, fun path hpath => hw.resolves (hname.symm ▸ hpath)⟩

def unitIo : IoHooks Unit :=
  { openDevice := fun _ _ => (some 1, ())
    close := fun _ _ => (SUCCESS, ())
    clone := fun _ _ => ((1, SUCCESS), ())
    read := fun _ _ _ => (([], 0), ())
    write := fun _ _ _ => (0, ())
    seek := fun _ _ _ _ => (SUCCESS, ())
    control := fun _ _ _ _ => (SUCCESS, ())
    delete := fun _ _ _ => (FAIL, ())
    paths := { rename := none, copy := none }
    list := fun _ _ _ => (none, ()) }

def unitDrivers : Drivers Unit := fun _ => dfsCalltable unitIo

/-- The device file system at `A`. -/
def mountedDevices : World Unit :=
  ((vfsMountWith unitDrivers.files (World.init deviceTable) [] [65] 2 16 0 0).getD
    (World.init deviceTable, FAIL)).1

def otherMounts : List (FileCall Unit) :=
  [.table (.mount [] [66] 3 32 0 0), .table (.mount [] [66] 2 48 0 0), .table (.unmount [66])]

theorem otherMounts_spare : Along (worldStep unitDrivers) (SparesFirst [65]) mountedDevices otherMounts := by
  refine ⟨rfl, fun w1 h1 => ?_⟩
  obtain rfl := Option.some.inj h1
  exact ⟨rfl, fun w2 _ => ⟨(by decide : ([66] : CString) ≠ [65]), fun _ _ => trivial⟩⟩

theorem first_mount_stays_after_others : ∃ w, run (worldStep unitDrivers) mountedDevices otherMounts =
    some w ∧
    vfsFile2mountpoint w.table [65, 67] = some 16 := by
  have hmount : vfsMountWith unitDrivers.files (World.init deviceTable) [] [65] 2 16 0 0 =
    some (mountedDevices, SUCCESS) := rfl
  refine ⟨_, rfl, ?_⟩
  exact (first_mount_stays unitDrivers deviceTable [] [65] 2 16 0 0 _ hmount otherMounts
    otherMounts_spare _ rfl).2.2
    [65, 67] ⟨[67], rfl⟩

end SystemProjects.Vfs
