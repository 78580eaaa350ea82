import SystemProjects.Vfs.Files

/-!
# What an open file allows

The mode that `vfs_open` is given decides what can be done with the handle and with its clones, whatever
else is opened, mounted or taken away meanwhile.
-/

open SystemProjects.Run

namespace SystemProjects.Vfs

variable {ε ρ : Type}

/-! ## What is claimed -/

/-- A client beside the world it runs in. -/
structure Session (ε : Type) where
  world : World ε
  /-- The handles of the client, with the mode of the `vfs_open` that each goes back to. -/
  opened : Nat → Option Nat

def setOpened (opened : Nat → Option Nat) (h : Nat) (mode : Option Nat) : Nat → Option Nat :=
  fun x => if x = h then mode else opened x

def Mine (s : Session ε) (h : Nat) : Prop := h = 0 ∨ (s.opened h).isSome = true

def Allows (M : Nat → Prop) (right : Nat) : Prop := ∃ mode, M mode ∧ mode &&& right = right

def HandleHook.Keeps (P : ε → Prop) (hook : HandleHook ε ρ) : Prop :=
    ∀ env dataPtr, P env → P (hook env dataPtr).2

def NameHook.Keeps (P : ε → Prop) (hook : NameHook ε ρ) : Prop :=
    ∀ env dataPtr name, P env → P (hook env dataPtr name).2

def PathHook.Keeps (P : ε → Prop) (hook : PathHook ε) : Prop :=
    ∀ env mount src dst, P env → P (hook env mount src dst).2

/-- The driver keeps `P`. A read or a write has to only where the modes allow one. -/
structure HooksKeep (calls : Drivers ε) (M : Nat → Prop) (P : ε → Prop) (fs : Filesystem ε) : Prop where
  mount : ∀ hook ∈ fs.mount, ∀ env device mountpoint fstype, P env → P (hook env device mountpoint fstype).2
  unmount : ∀ hook ∈ fs.unmount, ∀ env dataPtr mountpoint, P env → P (hook env dataPtr mountpoint).2
  openFile : ∀ hook ∈ (calls fs).openFile, ∀ env dataPtr mode name, P env → P (hook env dataPtr mode name).2
  close : ∀ hook ∈ (calls fs).close, hook.Keeps P
  clone : ∀ hook ∈ (calls fs).clone, hook.Keeps P
  read : Allows M vfsModeRead → ∀ hook ∈ (calls fs).read, ∀ size, (hook size).Keeps P
  write : Allows M vfsModeWrite → ∀ hook ∈ (calls fs).write, ∀ buffer, (hook buffer).Keeps P
  seek : ∀ hook ∈ (calls fs).seek, ∀ offset origin, (hook offset origin).Keeps P
  control : ∀ hook ∈ (calls fs).control, ∀ request arg, (hook request arg).Keeps P
  create : ∀ hook ∈ (calls fs).create, hook.Keeps P
  delete : ∀ hook ∈ (calls fs).delete, hook.Keeps P
  rename : ∀ hook ∈ (calls fs).paths.rename, PathHook.Keeps P hook
  copy : ∀ hook ∈ (calls fs).paths.copy, PathHook.Keeps P hook
  list : ∀ hook ∈ (calls fs).list, hook.Keeps P

/-! ## One call -/

/-- All drivers are in `F`, those of the mount points too, and `P` holds. -/
structure Good (F : Filesystem ε → Prop) (P : ε → Prop) (s : State ε) : Prop where
  loaded : ∀ fs ∈ s.fsHead, F fs
  mounted : ∀ a, ∀ fs ∈ (s.mem a).fs, F fs
  env : P s.env

/-- The handles but `h` are as they were, and what is good stays good. -/
structure CallStep (F : Filesystem ε → Prop) (P : ε → Prop) (h : Nat) (w w' : World ε) : Prop where
  others : ∀ x, x ≠ h → w'.handleAllocated x = w.handleAllocated x ∧ w'.handles x = w.handles x
  good : Good F P w.table → Good F P w'.table

variable {calls : Drivers ε} {F : Filesystem ε → Prop} {M : Nat → Prop} {P : ε → Prop} {t t' : State ε}
  {w w' w'' : World ε} {h mode r : Nat} {fs : Filesystem ε} {env : ε}

theorem CallStep.refl (F : Filesystem ε → Prop) (P : ε → Prop) (h : Nat) (w : World ε) : CallStep F P h w w :=
  ⟨fun _ _ => ⟨rfl, rfl⟩, id⟩

theorem CallStep.trans (h1 : CallStep F P h w w') (h2 : CallStep F P h w' w'') : CallStep F P h w w'' where
  others x hx := ⟨(h2.others x hx).1.trans (h1.others x hx).1, (h2.others x hx).2.trans (h1.others x hx).2⟩
  good hg := h2.good (h1.good hg)

theorem CallStep.setEnv (henv : Good F P w.table → P env) : CallStep F P h w (w.setEnv env) :=
  ⟨fun _ _ => ⟨rfl, rfl⟩, fun hg => ⟨hg.loaded, hg.mounted, henv hg⟩⟩

theorem CallStep.setHandle (handle : Handle) (b : Bool) : CallStep F P h w (w.setHandle h handle b) :=
  ⟨fun _ hx => setHandle_other w handle b hx, id⟩

theorem CallStep.mapTable {f : State ε → State ε} (hf : Good F P w.table → Good F P (f w.table)) :
    CallStep F P h w (w.mapTable f) :=
  ⟨fun _ _ => ⟨rfl, rfl⟩, hf⟩

theorem Good.set (hg : Good F P t) {a : Nat} {m : Mountpoint ε} (hm : ∀ fs ∈ m.fs, F fs) :
    Good F P (t.set a m) := by
  refine ⟨hg.loaded, fun b fs hfs => ?_, hg.env⟩
  by_cases hb : b = a
  · subst hb
    rw [set_self] at hfs
    exact hm fs hfs
  · rw [set_other hb] at hfs
    exact hg.mounted b fs hfs

theorem Good.setNext (hg : Good F P t) (a n : Nat) : Good F P (t.setNext a n) := hg.set (hg.mounted a)

theorem Good.alloc (hg : Good F P t) (a : Nat) : Good F P (t.alloc a) := by
  have hset := hg.set (a := a) (m := zeroMountpoint) nofun
  exact ⟨hset.loaded, hset.mounted, hset.env⟩

theorem Good.free (hg : Good F P t) (a : Nat) : Good F P (t.free a) := ⟨hg.loaded, hg.mounted, hg.env⟩

theorem Good.linkMount (hg : Good F P t) {mount : Nat} (heq : linkMount t mount = some t') : Good F P t' := by
  unfold Vfs.linkMount at heq
  split at heq
  · obtain rfl := Option.some.inj heq
    exact ⟨hg.loaded, hg.mounted, hg.env⟩
  · split at heq
    · cases heq
    · obtain rfl := Option.some.inj heq
      have hnext := hg.setNext t.mpHead mount
      exact ⟨hnext.loaded, hnext.mounted, hnext.env⟩

theorem Good.findPrev {mount : Nat} : ∀ fuel (t : State ε) m t' m', Good F P t →
    findPrev mount fuel t m = some (t', m') →
    Good F P t' := by
  intro fuel
  induction fuel with
  | zero => intro t m t' m' _ h; cases h
  | succ fuel ih =>
    intro t m t' m' hg h
    rw [Vfs.findPrev] at h
    split at h
    · obtain ⟨rfl, -⟩ := Prod.mk.inj (Option.some.inj h)
      exact hg
    · simp only at h
      split at h
      · obtain ⟨rfl, -⟩ := Prod.mk.inj (Option.some.inj h)
        exact hg.setNext _ _
      · exact ih _ _ _ _ (hg.setNext _ _) h

theorem Good.unlinkMount (hg : Good F P t) {mount : Nat} (heq : unlinkMount t mount = some t') :
    Good F P t' := by
  unfold Vfs.unlinkMount at heq
  split at heq
  · obtain rfl := Option.some.inj heq
    exact ⟨hg.loaded, hg.mounted, hg.env⟩
  · obtain ⟨⟨t1, m⟩, hprev, heq⟩ := Option.bind_eq_some_iff.mp heq
    simp only at heq
    split at heq
    · cases heq
    · obtain rfl := Option.some.inj heq
      exact (Good.findPrev _ _ _ _ _ hg hprev).setNext _ _

/-! ## Calls that open and close -/

theorem HooksKeep.seekEnd (hk : HooksKeep calls M P fs) {hook : ε → Nat → ε}
    (hhook : (calls fs).files.seekEnd = some hook) (env : ε) (dataPtr : Nat) :
    P env → P (hook env dataPtr) := by
  obtain ⟨seek, hseek, rfl⟩ := Option.map_eq_some_iff.mp hhook
  exact hk.seek seek hseek 0 vfsSeekEnd env dataPtr

/-- The handle is returned with the mode that was asked for. -/
structure Returned (F : Filesystem ε → Prop) (P : ε → Prop) (h mode : Nat) (w w' : World ε) : Prop where
  step : CallStep F P h w w'
  allocated : w'.handleAllocated h = true
  mode_eq : (w'.handles h).mode = mode

/-- All drivers in `F` keep `P`. -/
abbrev AllKeep (calls : Drivers ε) (F : Filesystem ε → Prop) (M : Nat → Prop) (P : ε → Prop) : Prop :=
  ∀ fs, F fs → HooksKeep calls M P fs

theorem onHandle_step {hookOf : Calltable ε → Option (HandleHook ε ρ)} {fail r : ρ} {x : Nat}
    (hhook : ∀ fs, F fs → ∀ hook ∈ hookOf (calls fs), hook.Keeps P)
    (heq : onHandle calls hookOf fail w h = some (w', r)) : CallStep F P x w w' := by
  obtain ⟨fs, hfs, heq⟩ := Option.map_eq_some_iff.mp heq
  split at heq
  · obtain ⟨rfl, -⟩ := Prod.mk.inj heq
    exact .refl F P x w
  case h_2 hook hsome =>
    obtain ⟨rfl, -⟩ := Prod.mk.inj heq
    exact .setEnv fun hg => hhook fs (hg.mounted _ fs hfs) hook hsome _ _ hg.env

theorem vfsSeek_step (hk : AllKeep calls F M P) {offset origin x : Nat} {r : Int}
    (heq : vfsSeek calls w h offset origin = some (w', r)) : CallStep F P x w w' := by
  unfold vfsSeek at heq
  split at heq
  · obtain ⟨rfl, -⟩ := Prod.mk.inj (Option.some.inj heq)
    exact .refl F P x w
  · refine onHandle_step (fun fs hF hook hhook => ?_) heq
    obtain ⟨seek, hseek, rfl⟩ := Option.map_eq_some_iff.mp hhook
    exact (hk fs hF).seek seek hseek offset origin

/-- Every handle of the client has the mode it was opened with, and the client asked for it. -/
structure Rightful (F : Filesystem ε → Prop) (M : Nat → Prop) (P : ε → Prop) (s : Session ε) : Prop where
  handles : ∀ h mode, s.opened h = some mode →
    s.world.handleAllocated h = true ∧ (s.world.handles h).mode = mode ∧ M mode
  good : Good F P s.world.table

variable {s s' : Session ε} {x : Nat}

theorem Rightful.fresh (h : Rightful F M P s) (hx : s.world.handleAllocated x = false) :
    s.opened x = none := by
  cases hopened : s.opened x with
  | none => rfl
  | some mode =>
    rw [(h.handles x mode hopened).1] at hx
    cases hx

theorem Rightful.step (hs : Rightful F M P s) (hstep : CallStep F P x s.world w') {opened : Nat → Option Nat}
    (hx : ∀ mode, opened x = some mode → w'.handleAllocated x = true ∧ (w'.handles x).mode = mode ∧ M mode)
    (hother : ∀ y, y ≠ x → opened y = s.opened y) : Rightful F M P { world := w', opened := opened } := by
  refine ⟨fun y mode hy => ?_, hstep.good hs.good⟩
  by_cases hyx : y = x
  · subst hyx
    exact hx mode hy
  · obtain ⟨halloc, hhandle⟩ := hstep.others y hyx
    have hold := hs.handles y mode (hother y hyx ▸ hy)
    exact ⟨halloc.trans hold.1, (congrArg Handle.mode hhandle).trans hold.2.1, hold.2.2⟩

theorem Rightful.keep (hs : Rightful F M P s) (hstep : CallStep F P x s.world w') (hx : s.opened x = none) :
    Rightful F M P { world := w', opened := s.opened } :=
  hs.step hstep (fun mode hmode => by rw [hx] at hmode; cases hmode) fun _ _ => rfl

/-- `NULL` is not open, so a call that changes no handle at all is a call that changes this one at most. -/
theorem Rightful.same (hs : Rightful F M P s) (hstep : ∀ x, CallStep F P x s.world w') :
    Rightful F M P { world := w', opened := s.opened } := by
  refine ⟨fun y mode hy => ?_, (hstep 0).good hs.good⟩
  obtain ⟨halloc, hhandle⟩ := (hstep (y + 1)).others y (by omega)
  have hold := hs.handles y mode hy
  exact ⟨halloc.trans hold.1, (congrArg Handle.mode hhandle).trans hold.2.1, hold.2.2⟩

theorem Rightful.opened (hs : Rightful F M P s) (hret : Returned F P h mode s.world w') (hM : M mode) :
    Rightful F M P { world := w', opened := setOpened s.opened h (some mode) } := by
  refine hs.step hret.step (fun mode' hmode => ?_) fun y hy => if_neg hy
  obtain rfl : mode = mode' := Option.some.inj ((if_pos rfl).symm.trans hmode)
  exact ⟨hret.allocated, hret.mode_eq, hM⟩

theorem Rightful.allows (hs : Rightful F M P s) (hmine : Mine s h) (h0 : h ≠ 0) {right : Nat}
    (hright : (s.world.handles h).mode &&& right = right) : Allows M right := by
  obtain ⟨mode, hmode⟩ := Option.isSome_iff_exists.mp (hmine.resolve_left h0)
  obtain ⟨-, rfl, hM⟩ := hs.handles h mode hmode
  exact ⟨_, hM, hright⟩

theorem Rightful.read (hs : Rightful F M P s) (hk : AllKeep calls F M P) (hmine : Mine s h) {size : Nat}
    {r : List Nat × Int} (heq : vfsRead calls s.world h size = some (w', r)) : CallStep F P x s.world w' := by
  unfold vfsRead at heq
  split at heq
  · obtain ⟨rfl, -⟩ := Prod.mk.inj (Option.some.inj heq)
    exact .refl F P x _
  case isFalse h0 =>
    split at heq
    · obtain ⟨rfl, -⟩ := Prod.mk.inj (Option.some.inj heq)
      exact .refl F P x _
    case isFalse hmode =>
      refine onHandle_step (fun fs hF hook hhook => ?_) heq
      obtain ⟨read, hread, rfl⟩ := Option.map_eq_some_iff.mp hhook
      exact (hk fs hF).read (hs.allows hmine h0 (not_not.mp hmode)) read hread size

theorem Rightful.write (hs : Rightful F M P s) (hk : AllKeep calls F M P) (hmine : Mine s h)
    {buffer : List Nat}
    {r : Int} (heq : vfsWrite calls s.world h buffer = some (w', r)) : CallStep F P x s.world w' := by
  unfold vfsWrite at heq
  split at heq
  · obtain ⟨rfl, -⟩ := Prod.mk.inj (Option.some.inj heq)
    exact .refl F P x _
  case isFalse h0 =>
    split at heq
    · obtain ⟨rfl, -⟩ := Prod.mk.inj (Option.some.inj heq)
      exact .refl F P x _
    case isFalse hmode =>
      obtain ⟨⟨w1, ret⟩, hcall, heq⟩ := Option.bind_eq_some_iff.mp heq
      have hstep : CallStep F P x s.world w1 := by
        refine onHandle_step (fun fs hF hook hhook => ?_) hcall
        obtain ⟨write, hwrite, rfl⟩ := Option.map_eq_some_iff.mp hhook
        exact (hk fs hF).write (hs.allows hmine h0 (not_not.mp hmode)) write hwrite buffer
      simp only at heq
      split at heq
      · obtain ⟨⟨w2, r2⟩, hseek, heq⟩ := Option.map_eq_some_iff.mp heq
        obtain ⟨rfl, -⟩ := Prod.mk.inj heq
        exact hstep.trans (vfsSeek_step hk hseek)
      · obtain ⟨rfl, -⟩ := Prod.mk.inj (Option.some.inj heq)
        exact hstep

def Session.init (table : State ε) : Session ε := { world := World.init table, opened := fun _ => none }

end SystemProjects.Vfs
