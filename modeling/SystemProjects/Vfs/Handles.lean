import Mathlib.Data.List.Find
import SystemProjects.Vfs.Open
import SystemProjects.Vfs.Proofs

/-!
# Open handles and their mount points
-/

open SystemProjects.Run SystemProjects.Lists

namespace SystemProjects.Vfs

variable {ε : Type} {calls : Filesystem ε → FileHooks ε}

/-! ## What is claimed -/

/-- The structure that the name leads to is allocated, if there is one. -/
def LandsLive (s : State ε) (filename : CString) : Prop :=
  ∀ b, file2mountpoint s filename walkFuel s.mpTail = some b → b ≠ 0 → s.allocated b = true

/-- The unmount hook of the structure `b` closes the handle. -/
def ClosedByHook (calls : Filesystem ε → FileHooks ε) (w : World ε) (b h : Nat) : Prop :=
  (∃ fs, (w.table.mem b).fs = some fs ∧ (calls fs).opensDevice = true) ∧ (w.table.mem b).dataPtr ≠ 0 ∧
    h = w.fatDevice (w.table.mem b).dataPtr ∧ h ≠ 0 ∧
    ∃ fs, (w.table.mem (w.handles h).mount).fs = some fs ∧ (calls fs).close.isSome = true

/-- A mount does not get the memory of a structure in the list. A name leads to no freed structure. An unmount
takes structures out of the list that no open handle refers to: the one found, and those it skips. -/
def Keeps (calls : Filesystem ε → FileHooks ε) (w : World ε) : Call → Prop
  | .mount device _ fstype mount _ _ => Fresh w.table mount ∧
      (mount ≠ 0 → ∀ as, Walk w.table as → mount ∉ as) ∧
      ∀ fs, vfsFind w.table.fsHead fstype = some fs → (calls fs).opensDevice = true → LandsLive w.table device
  | .unmount mountpoint => ∀ xs b ys, Walk w.table (xs ++ b :: ys) →
      (xs ++ b :: ys).find? (isNamed w.table mountpoint) = some b →
      (∀ fs, (w.table.mem b).fs = some fs → fs.unmount ≠ none) →
      ∀ h, w.handleAllocated h = true → (w.handles h).mount ∈ xs.tail ++ [b] → ClosedByHook calls w b h
  | .openFile filename _ _ => LandsLive w.table filename
  | .close _ => True

/-! ## The invariant -/

/-- `vfs_mpHead` may have left the list. -/
structure Inv (w : World ε) (as : List Nat) : Prop where
  walk : Walk w.table as
  bound : ∀ a ∈ as, a < 2 ^ 32
  headLast : w.table.mpHead ∈ as → as.getLast? = some w.table.mpHead
  live : ∀ h, w.handleAllocated h = true →
    (w.handles h).mount ∈ as ∧ w.table.allocated (w.handles h).mount = true

/-- The mount tables differ in the environment only. -/
def SameTable (w w' : World ε) : Prop := w'.table = { w.table with env := w'.table.env }

theorem SameTable.trans {w w' w'' : World ε} (h : SameTable w w') (h' : SameTable w' w'') :
    SameTable w w'' := by
  unfold SameTable at *
  rw [h', h]

theorem SameTable.walk {w w' : World ε} (h : SameTable w w') {as : List Nat} (hw : Walk w.table as) :
    Walk w'.table as := by
  rw [h]
  exact hw

theorem SameTable.mem {w w' : World ε} (h : SameTable w w') : w'.table.mem = w.table.mem := by rw [h]

theorem SameTable.allocated {w w' : World ε} (h : SameTable w w') :
    w'.table.allocated = w.table.allocated := by
  rw [h]

/-- The open handles are old ones, or `P` holds of them and their mount point. -/
structure HandleStep (P : Nat → Nat → Prop) (w w' : World ε) : Prop where
  table : SameTable w w'
  handles : ∀ x, w'.handleAllocated x = true →
    w.handleAllocated x = true ∧ w'.handles x = w.handles x ∨ P x (w'.handles x).mount

theorem HandleStep.refl {P : Nat → Nat → Prop} (w : World ε) : HandleStep P w w :=
    ⟨rfl, fun _ hx => .inl ⟨hx, rfl⟩⟩

theorem HandleStep.trans {P Q : Nat → Nat → Prop} {w w' w'' : World ε} (h : HandleStep P w w')
    (h' : HandleStep (fun _ _ => False) w' w'')
    (hQ : ∀ x, w''.handleAllocated x = true → P x (w'.handles x).mount → Q x (w'.handles x).mount) :
    HandleStep Q w w'' := by
  refine ⟨h.table.trans h'.table, fun x hx => ?_⟩
  obtain ⟨hx', heq⟩ := (h'.handles x hx).resolve_right id
  rw [heq]
  exact (h.handles x hx').imp_right (hQ x hx)

theorem Inv.handleStep {w w' : World ε} {as : List Nat} {P : Nat → Nat → Prop} (h : Inv w as)
    (hs : HandleStep P w w') (hP : ∀ x b, P x b → b ∈ as ∧ w.table.allocated b = true) : Inv w' as := by
  refine ⟨hs.table.walk h.walk, h.bound, ?_, fun x hx => ?_⟩
  · rw [hs.table]
    exact h.headLast
  · rw [hs.table.allocated]
    rcases hs.handles x hx with ⟨hold, heq⟩ | hnew
    · rw [heq]
      exact h.live x hold
    · exact hP x _ hnew

/-! ## Opening and closing -/

def leadsTo (s : State ε) (filename : CString) (b : Nat) : Bool := (s.mem b).mountpoint.isPrefixOf filename

theorem file2mountpoint_spec {s : State ε} {filename : CString} {a : Nat} {as : List Nat}
    (h : Links (fun a => (s.mem a).next) 0 a as) : ∀ fuel, as.length < fuel →
      file2mountpoint s filename fuel a = some ((as.find? (leadsTo s filename)).getD 0) := by
  induction as generalizing a with
  | nil =>
    intro fuel hf
    obtain ⟨n, rfl⟩ : ∃ n, fuel = n + 1 := ⟨fuel - 1, by omega⟩
    have ha : a = 0 := h
    simp [file2mountpoint, ha]
  | cons b as ih =>
    intro fuel hf
    obtain ⟨n, rfl⟩ : ∃ n, fuel = n + 1 := ⟨fuel - 1, by omega⟩
    obtain ⟨rfl, h0, h⟩ := h
    rw [file2mountpoint, if_neg h0]
    by_cases hname : (s.mem a).mountpoint.isPrefixOf filename = true
    · rw [if_pos hname, List.find?_cons_of_pos (by exact hname)]
      rfl
    · rw [if_neg hname, List.find?_cons_of_neg (by exact hname)]
      apply ih h
      simpa using hf

theorem HandleStep.of_other {P : Nat → Nat → Prop} {w w' : World ε} (h : Nat) (htable : SameTable w w')
    (hother : ∀ x, x ≠ h → w'.handleAllocated x = w.handleAllocated x ∧ w'.handles x = w.handles x)
    (hP : w'.handleAllocated h = true → P h (w'.handles h).mount) : HandleStep P w w' := by
  refine ⟨htable, fun x hx => ?_⟩
  by_cases hxh : x = h
  · subst hxh
    exact .inr (hP hx)
  · obtain ⟨halloc, heq⟩ := hother x hxh
    exact .inl ⟨halloc ▸ hx, heq⟩

theorem setHandle_other (w : World ε) {h x : Nat} (handle : Handle) (b : Bool) (hx : x ≠ h) :
    (w.setHandle h handle b).handleAllocated x = w.handleAllocated x ∧
      (w.setHandle h handle b).handles x = w.handles x :=
  ⟨if_neg hx, if_neg hx⟩

theorem freeHandle_allocated {w : World ε} {h : Nat} : (w.freeHandle h).handleAllocated h = false :=
    if_pos rfl

theorem freeHandle_step {P : Nat → Nat → Prop} {w : World ε} (env : ε) (h : Nat) :
    HandleStep P w ((w.setEnv env).freeHandle h) := by
  refine HandleStep.of_other h rfl (fun x hx => setHandle_other _ _ _ hx) fun halloc => ?_
  rw [freeHandle_allocated] at halloc
  contradiction

theorem setHandle_free_step {P : Nat → Nat → Prop} {w : World ε} (env : ε) (h : Nat) (handle : Handle) :
    HandleStep P w (((w.setHandle h handle true).setEnv env).freeHandle h) := by
  refine HandleStep.of_other h rfl ?_ ?_
  · intro x hx
    obtain ⟨halloc, heq⟩ := setHandle_other w handle true hx
    exact ⟨(if_neg hx).trans halloc, (if_neg hx).trans heq⟩
  · intro halloc
    rw [freeHandle_allocated] at halloc
    contradiction

theorem finishOpen_step {P : Nat → Nat → Prop} {hooks : FileHooks ε} {w : World ε} {h : Nat} (handle : Handle)
    {mount mode dataPtr : Nat} (env : ε) (hP : P h mount) :
    HandleStep P w (finishOpen hooks (w.setHandle h handle true) mount mode h dataPtr env) := by
  have hset : HandleStep P w (((w.setHandle h handle true).setEnv env).setHandle h ⟨mount, mode,
    dataPtr⟩ true) := by
    refine HandleStep.of_other h rfl ?_ ?_
    · intro x hx
      obtain ⟨halloc, heq⟩ := setHandle_other w handle true hx
      exact ⟨(if_neg hx).trans halloc, (if_neg hx).trans heq⟩
    · intro _
      rw [show World.handles _ h = ⟨mount, mode, dataPtr⟩ from if_pos rfl]
      exact hP
  unfold finishOpen
  split
  · split
    · exact hset
    · exact ⟨rfl, hset.handles⟩
  · exact hset

theorem finishOpen_mount {hooks : FileHooks ε} {w : World ε} {h : Nat} {mount mode dataPtr : Nat} (env : ε) :
    ((finishOpen hooks w mount mode h dataPtr env).handles h).mount = mount := by
  have hset : ((w.setEnv env).setHandle h ⟨mount, mode, dataPtr⟩ true).handles h = ⟨mount, mode, dataPtr⟩ :=
    if_pos rfl
  unfold finishOpen
  split
  · split
    · exact congrArg Handle.mount hset
    · exact congrArg Handle.mount hset
  · exact congrArg Handle.mount hset

/-- What `vfs_open` does: nothing when it returns `NULL`, or it opens a handle on the structure found. -/
inductive Opened (w : World ε) (filename : CString) (h : Nat) : World ε → Nat → Prop
  | null {w' : World ε} (step : HandleStep (fun _ _ => False) w w') : Opened w filename h w' 0
  | handle {w' : World ε} {mount : Nat} (found :
    file2mountpoint w.table filename walkFuel w.table.mpTail = some mount)
      (mount_ne : mount ≠ 0) (h_ne : h ≠ 0) (step : HandleStep (fun x b => x = h ∧ b = mount) w w')
      (refers : (w'.handles h).mount = mount) : Opened w filename h w' h

theorem createOpen_spec {hooks : FileHooks ε} {openHook : ε → Nat → Nat → CString → Option Nat × ε}
    {w w' : World ε} {filename name : CString} {mount mode h r : Nat} {handle : Handle} {env : ε}
    (hfound : file2mountpoint w.table filename walkFuel w.table.mpTail = some mount) (hmount : mount ≠ 0)
    (hh : h ≠ 0) (heq : createOpen hooks openHook (w.setHandle h handle true) mount mode name h env =
    (w', r)) :
    Opened w filename h w' r := by
  have hnull : ∀ e, Opened w filename h (((w.setHandle h handle true).setEnv e).freeHandle h) 0 :=
    fun e => .null (setHandle_free_step e h handle)
  unfold createOpen at heq
  split at heq
  · obtain ⟨rfl, rfl⟩ := Prod.mk.inj heq
    exact hnull _
  · rename_i create _
    generalize create env _ name = out at heq
    obtain ⟨r', env'⟩ := out
    simp only at heq
    split at heq
    · obtain ⟨rfl, rfl⟩ := Prod.mk.inj heq
      exact hnull _
    · split at heq
      · obtain ⟨rfl, rfl⟩ := Prod.mk.inj heq
        exact hnull _
      · obtain ⟨rfl, rfl⟩ := Prod.mk.inj heq
        exact .handle hfound hmount hh (finishOpen_step handle _ ⟨rfl, rfl⟩) (finishOpen_mount _)

theorem vfsOpen_spec {w w' : World ε} {filename : CString} {mode h r : Nat}
    (heq : vfsOpen calls w filename mode h = some (w', r)) : Opened w filename h w' r := by
  unfold vfsOpen at heq
  split at heq
  · cases heq
  · obtain ⟨mount, hfound, heq⟩ := Option.bind_eq_some_iff.mp heq
    split at heq
    · obtain ⟨rfl, rfl⟩ := Prod.mk.inj (Option.some.inj heq)
      exact .null (.refl w)
    · rename_i hmount
      obtain ⟨fs, -, heq⟩ := Option.bind_eq_some_iff.mp heq
      split at heq
      · obtain ⟨rfl, rfl⟩ := Prod.mk.inj (Option.some.inj heq)
        exact .null (.refl w)
      · split at heq
        · cases heq
        · rename_i hh
          simp only at heq
          split at heq
          · obtain ⟨rfl, rfl⟩ := Prod.mk.inj (Option.some.inj heq)
            exact .handle hfound hmount hh (finishOpen_step _ _ ⟨rfl, rfl⟩) (finishOpen_mount _)
          · exact createOpen_spec hfound hmount hh (Option.some.inj heq)

/-- What `vfs_close` does: it frees the handle at most, and does so when the driver has a close hook. -/
theorem vfsClose_spec {w w' : World ε} {h : Nat} {r : Int} (heq : vfsClose calls w h = some (w', r)) :
    HandleStep (fun _ _ => False) w w' ∧ (h ≠ 0 →
      (∃ fs, (w.table.mem (w.handles h).mount).fs = some fs ∧ (calls fs).close.isSome = true) →
        w'.handleAllocated h = false) := by
  unfold vfsClose at heq
  split at heq
  · rename_i hh
    obtain ⟨rfl, -⟩ := Prod.mk.inj (Option.some.inj heq)
    exact ⟨.refl w, fun hne => absurd hh hne⟩
  · obtain ⟨fs, hfs, heq⟩ := Option.bind_eq_some_iff.mp heq
    split at heq
    · rename_i hclose
      obtain ⟨rfl, -⟩ := Prod.mk.inj (Option.some.inj heq)
      refine ⟨.refl w, ?_⟩
      rintro - ⟨fs', hfs', hsome⟩
      rw [hfs] at hfs'
      rw [← Option.some.inj hfs', hclose] at hsome
      cases hsome
    · obtain ⟨rfl, -⟩ := Prod.mk.inj (Option.some.inj heq)
      exact ⟨freeHandle_step _ h, fun _ _ => if_pos rfl⟩

/-! ## Mounting -/

/-- The handles that a mount hook leaves open lie on structures its device leads to, and not on its own one when it
fails. -/
theorem mountHook_spec {w w' : World ε} {fs : Filesystem ε} {hook : ε → CString → CString → Int → Nat × ε}
    {device mountpoint : CString} {fstype : Int} {mount h fat d : Nat}
    (hself : (w.table.mem mount).fs = some fs)
    (heq : mountHook calls fs hook w device mountpoint fstype h fat = some (w', d)) :
    HandleStep (fun _ b => (calls fs).opensDevice = true ∧ b ≠ 0 ∧ (d = 0 → b ≠ mount) ∧
      file2mountpoint w.table device walkFuel w.table.mpTail = some b) w w' := by
  unfold mountHook at heq
  split at heq
  · rename_i hopens
    unfold fatMount at heq
    split at heq
    · obtain ⟨rfl, -⟩ := Prod.mk.inj (Option.some.inj heq)
      exact .refl w
    · rename_i hfat
      obtain ⟨⟨w1, r⟩, hopen, heq⟩ := Option.bind_eq_some_iff.mp heq
      cases vfsOpen_spec hopen with
      | null step =>
        obtain ⟨rfl, -⟩ := Prod.mk.inj (Option.some.inj heq)
        exact ⟨step.table, fun x hx => .inl ((step.handles x hx).resolve_right id)⟩
      | @handle b found hb hh step refers =>
        simp only [if_neg hh] at heq
        generalize hook w1.table.env device mountpoint fstype = out at heq
        obtain ⟨r, env⟩ := out
        simp only at heq
        split at heq
        · obtain ⟨⟨w2, r2⟩, hclose, heq⟩ := Option.map_eq_some_iff.mp heq
          obtain ⟨rfl, rfl⟩ := Prod.mk.inj heq
          obtain ⟨hstep, hfreed⟩ := vfsClose_spec hclose
          refine step.trans ⟨hstep.table, hstep.handles⟩ ?_
          rintro x hx ⟨rfl, hmount⟩
          rw [hmount]
          refine ⟨hopens, hb, ?_, found⟩
          rintro - rfl
          -- The driver has a close hook, so the handle on its own structure is closed.
          rw [hfreed hh ⟨fs, ?_, (calls fs).close_isSome hopens⟩] at hx
          · cases hx
          · change (w1.table.mem (w1.handles x).mount).fs = some fs
            rw [step.table.mem, refers, hself]
        · obtain ⟨rfl, rfl⟩ := Prod.mk.inj (Option.some.inj heq)
          refine ⟨step.table.trans rfl, fun x hx => (step.handles x hx).imp_right ?_⟩
          rintro ⟨-, hmount⟩
          exact ⟨hopens, hmount ▸ hb, fun h0 => absurd h0 hfat, hmount ▸ found⟩
  · obtain ⟨rfl, -⟩ := Prod.mk.inj (Option.some.inj heq)
    exact ⟨rfl, fun x hx => .inl ⟨hx, rfl⟩⟩

/-- What linking does, wherever `vfs_mpHead` is. -/
structure LinkedMount (s s' : State ε) (as as' : List Nat) (a : Nat) (m : Mountpoint ε) : Prop where
  walk : Walk s' as'
  list : as' = as ∨ as' = as ++ [a]
  headLast : s'.mpHead ∈ as' → as'.getLast? = some s'.mpHead
  fs : (s'.mem a).fs = m.fs
  allocated : s'.allocated = (s.alloc a).allocated
  names : ∀ b ∈ as, (s'.mem b).mountpoint = (s.mem b).mountpoint

theorem LinkedMount.file2mountpoint {s s' : State ε} {as as' : List Nat} {a : Nat} {m : Mountpoint ε}
    (h : LinkedMount s s' as as' a m) (hw : Walk s as) (hb : ∀ b ∈ as', b < 2 ^ 32)
    {filename : CString} {b : Nat}
    (hfind : file2mountpoint s' filename walkFuel s'.mpTail = some b) (hb0 : b ≠ 0) :
    file2mountpoint s filename walkFuel s.mpTail = some b ∨ b = a := by
  have hsub : ∀ b ∈ as, b ∈ as' := by
    rcases h.list with heq | heq
    · exact fun b hb => heq ▸ hb
    · exact fun b hb => heq ▸ List.mem_append_left _ hb
  have htest : as.find? (leadsTo s' filename) = as.find? (leadsTo s filename) :=
    List.find?_congr fun b hb => by rw [leadsTo, leadsTo, h.names b hb]
  rw [file2mountpoint_spec h.walk walkFuel (h.walk.length_lt hb)] at hfind
  rw [file2mountpoint_spec hw walkFuel (hw.length_lt fun b h => hb b (hsub b h)), ← htest]
  rcases h.list with heq | heq
  · exact .inl (heq ▸ hfind)
  · rw [heq, List.find?_append] at hfind
    cases hold : as.find? (leadsTo s' filename) with
    | some c =>
      rw [hold] at hfind
      exact .inl hfind
    | none =>
      rw [hold] at hfind
      by_cases hl : leadsTo s' filename a = true
      · rw [List.find?_cons_of_pos hl] at hfind
        exact .inr (Option.some.inj hfind).symm
      · rw [List.find?_cons_of_neg hl] at hfind
        exact absurd (Option.some.inj hfind).symm hb0

theorem Inv.free {w : World ε} {as : List Nat} {a : Nat} (h : Inv w as)
    (ha : ∀ x, w.handleAllocated x = true → (w.handles x).mount ≠ a) : Inv (w.mapTable (·.free a)) as :=
  ⟨h.walk, h.bound, h.headLast, fun x hx => ⟨(h.live x hx).1, (if_neg (ha x hx)).trans (h.live x hx).2⟩⟩

theorem Inv.alloc_free {w : World ε} {as : List Nat} {a : Nat} (h : Inv w as) (ha : a ∉ as) :
    Inv (w.mapTable fun s => (s.alloc a).free a) as := by
  have hne : ∀ b ∈ as, b ≠ a := fun b hb heq => ha (heq ▸ hb)
  refine ⟨Links.congr h.walk fun b hb => congrArg Mountpoint.next (set_other (hne b hb)), h.bound, h.headLast,
    fun x hx => ⟨(h.live x hx).1, ?_⟩⟩
  have hxa := hne _ (h.live x hx).1
  exact (if_neg hxa).trans ((if_neg hxa).trans (h.live x hx).2)

theorem Inv.setData {w : World ε} {as : List Nat} (h : Inv w as) (a d : Nat) :
    Inv (w.mapTable fun s => s.set a { s.mem a with dataPtr := d }) as :=
  ⟨Walk.set_data h.walk a d w.table.env, h.bound, h.headLast, h.live⟩

theorem Inv.link {w : World ε} {as as' : List Nat} {s' : State ε} {a : Nat} {m : Mountpoint ε} (h : Inv w as)
    (hl : LinkedMount w.table s' as as' a m) (hlt : a < 2 ^ 32) (hnot : a ∉ as) :
    Inv (w.mapTable fun _ => s') as' := by
  refine ⟨hl.walk, fun b hb => ?_, hl.headLast, fun x hx => ?_⟩
  · rcases hl.list with rfl | rfl
    · exact h.bound b hb
    · rcases List.mem_append.mp hb with hb | hb
      · exact h.bound b hb
      · exact List.mem_singleton.mp hb ▸ hlt
  · obtain ⟨hin, halloc⟩ := h.live x hx
    have hxa : (w.handles x).mount ≠ a := fun heq => hnot (heq ▸ hin)
    refine ⟨?_, ?_⟩
    · rcases hl.list with rfl | rfl
      · exact hin
      · exact List.mem_append_left _ hin
    · change s'.allocated (w.handles x).mount = true
      rw [hl.allocated]
      exact (if_neg hxa).trans halloc

theorem unmountHook_spec {w w' : World ε} {fs : Filesystem ε} {hook : ε → Nat → CString → Int × ε} {b : Nat}
    {mountpoint : CString} (hfs : (w.table.mem b).fs = some fs)
    (heq : unmountHook calls fs hook w (w.table.mem b).dataPtr mountpoint = some w') :
    HandleStep (fun _ _ => False) w w' ∧ ∀ x, ClosedByHook calls w b x → w'.handleAllocated x = false := by
  unfold unmountHook at heq
  split at heq
  · split at heq
    · rename_i hdata
      obtain rfl := Option.some.inj heq
      exact ⟨.refl w, fun x hx => absurd hdata hx.2.1⟩
    · obtain ⟨⟨w1, r⟩, hclose, heq⟩ := Option.map_eq_some_iff.mp heq
      obtain rfl := heq
      obtain ⟨hstep, hfreed⟩ := vfsClose_spec hclose
      refine ⟨⟨hstep.table.trans rfl, hstep.handles⟩, ?_⟩
      rintro x ⟨-, -, rfl, hx0, hhook⟩
      exact hfreed hx0 hhook
  · rename_i hopens
    obtain rfl := Option.some.inj heq
    refine ⟨⟨rfl, fun x hx => .inl ⟨hx, rfl⟩⟩, ?_⟩
    rintro x ⟨⟨fs', hfs', hopens'⟩, -⟩
    rw [hfs] at hfs'
    exact absurd (Option.some.inj hfs' ▸ hopens') hopens

theorem getLast?_take_append {xs ys : List Nat} {b c : Nat} (hnodup : (xs ++ b :: ys).Nodup)
    (hlast : (xs ++ b :: ys).getLast? = some c) (hc : c ∈ xs.take 1 ++ ys) :
    (xs.take 1 ++ ys).getLast? = some c := by
  rcases ys.eq_nil_or_concat' with rfl | ⟨zs, d, rfl⟩
  · rw [List.getLast?_concat, Option.some.injEq] at hlast
    rw [List.append_nil] at hc
    rw [List.nodup_append] at hnodup
    exact absurd hlast.symm (hnodup.2.2 c (List.mem_of_mem_take hc) b (by simp))
  · rw [← List.cons_append, ← List.append_assoc, List.getLast?_concat] at hlast
    rw [← List.append_assoc, List.getLast?_concat, hlast]

theorem mem_of_mem_take_append {xs ys : List Nat} {b c : Nat} (hc : c ∈ xs.take 1 ++ ys) :
    c ∈ xs ++ b :: ys := by
  rcases List.mem_append.mp hc with hc | hc
  · exact List.mem_append_left _ (List.mem_of_mem_take hc)
  · exact List.mem_append_right _ (List.mem_cons_of_mem _ hc)

theorem mem_take_append_of_notMem {xs ys : List Nat} {b c : Nat} (hc : c ∈ xs ++ b :: ys)
    (hout : c ∉ xs.tail ++ [b]) : c ∈ xs.take 1 ++ ys := by
  rw [List.mem_append, not_or] at hout
  rcases List.mem_append.mp hc with hc | hc
  · cases xs with
    | nil => cases hc
    | cons d zs =>
      have hd := (List.mem_cons.mp hc).resolve_right hout.1
      exact List.mem_append_left _ (by simp [hd])
  · have hys := (List.mem_cons.mp hc).resolve_left fun heq => hout.2 (List.mem_singleton.mpr heq)
    exact List.mem_append_right _ hys

theorem Inv.unlink {w : World ε} {xs ys : List Nat} {b : Nat} {s' : State ε} (h : Inv w (xs ++ b :: ys))
    (hunlink : unlinkMount w.table b = some s')
    (hout : ∀ x, w.handleAllocated x = true → (w.handles x).mount ∉ xs.tail ++ [b]) :
    Inv (w.mapTable fun _ => s'.free b) (xs.take 1 ++ ys) := by
  obtain ⟨s1, hs1, hw, -, -, hhead, halloc, -⟩ := unlinkMount_take h.walk
  obtain rfl := Option.some.inj (hs1.symm.trans hunlink)
  refine ⟨hw, fun c hc => h.bound c (mem_of_mem_take_append hc), fun hc => ?_, fun x hx => ?_⟩
  · change s1.mpHead ∈ _ at hc
    change _ = some s1.mpHead
    rw [hhead] at hc ⊢
    exact getLast?_take_append h.walk.nodup (h.headLast (mem_of_mem_take_append hc)) hc
  · obtain ⟨hin, hal⟩ := h.live x hx
    have hne : (w.handles x).mount ≠ b := fun heq =>
      hout x hx (List.mem_append_right _ (List.mem_singleton.mpr heq))
    change (w.handles x).mount ∈ _ ∧
      (if (w.handles x).mount = b then false else s1.allocated (w.handles x).mount) = true
    rw [if_neg hne, halloc]
    exact ⟨mem_take_append_of_notMem hin (hout x hx), hal⟩

def deviceTable : State Unit := initState (fun _ => zeroMountpoint) (fun _ => false) [dfsFilesystem] ()

end SystemProjects.Vfs
