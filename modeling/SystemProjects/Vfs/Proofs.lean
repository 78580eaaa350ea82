import Mathlib.Data.List.Forall2
import Mathlib.Data.List.Perm.Subperm
import SystemProjects.Vfs.Spec

/-!
# When the code keeps the table
-/

open SystemProjects.Run SystemProjects.Lists

namespace SystemProjects.Vfs

variable {ε : Type}

/-! ## Memory -/

@[simp] theorem set_self (s : State ε) (a : Nat) (m : Mountpoint ε) : (s.set a m).mem a = m := if_pos rfl

theorem set_other {s : State ε} {a b : Nat} {m : Mountpoint ε} (h : b ≠ a) : (s.set a m).mem b = s.mem b :=
  if_neg h

@[simp] theorem setNext_self (s : State ε) (a n : Nat) :
    (s.setNext a n).mem a = { s.mem a with next := n } := if_pos rfl

theorem setNext_other {s : State ε} {a b n : Nat} (h : b ≠ a) : (s.setNext a n).mem b = s.mem b := if_neg h

theorem agrees_mono {s s' : State ε} {as : List Nat} {es : List (Entry ε)}
    (h : List.Forall₂ (fun a e => Agrees (s.mem a) e) as es)
    (hm : ∀ b ∈ as, ∀ e, Agrees (s.mem b) e → Agrees (s'.mem b) e) :
    List.Forall₂ (fun a e => Agrees (s'.mem a) e) as es := by
  induction h with
  | nil => exact .nil
  | cons hae _ ih =>
    exact .cons (hm _ List.mem_cons_self _ hae) (ih fun b hb => hm b (List.mem_cons_of_mem _ hb))

theorem forall₂_without {α β : Type*} {R : α → β → Prop} {b : α} {e : β} {ys : List α} {vs : List β} :
    ∀ {xs : List α} {us : List β}, xs.length = us.length →
      List.Forall₂ R (xs ++ b :: ys) (us ++ e :: vs) → List.Forall₂ R (xs ++ ys) (us ++ vs)
  | [], [], _, .cons _ h => h
  | _ :: _, _ :: _, hlen, .cons hx h => .cons hx (forall₂_without (Nat.succ.inj hlen) h)

/-! ## Walks -/

theorem Walk.length_lt {s : State ε} {as : List Nat} (h : Walk s as) (ha : ∀ a ∈ as, a < 2 ^ 32) :
    as.length < walkFuel := by
  have hnodup : (0 :: as).Nodup := List.nodup_cons.mpr ⟨fun h0 => h.ne_end h0 rfl, h.nodup⟩
  have hsub : (0 :: as) ⊆ List.range (2 ^ 32) := by
    intro a hmem
    rw [List.mem_range]
    rcases List.mem_cons.mp hmem with rfl | hmem
    · decide
    · exact ha a hmem
  have hlen := (List.subperm_of_subset hnodup hsub).length_le
  rw [List.length_range, List.length_cons] at hlen
  exact hlen

def isNamed (s : State ε) (name : CString) (b : Nat) : Bool := decide ((s.mem b).mountpoint = name)

theorem eq_some_of_getD {o : Option Nat} {b : Nat} (h : some (o.getD 0) = some b) (hb0 : b ≠ 0) :
    o = some b := by
  cases o with
  | none => exact absurd (Option.some.inj h).symm hb0
  | some c => exact h

theorem findMount_spec {s : State ε} {name : CString} {a : Nat} {as : List Nat}
    (h : Links (fun a => (s.mem a).next) 0 a as) :
    ∀ fuel, as.length < fuel → findMount s name fuel a =
      some ((as.find? (isNamed s name)).getD 0) := by
  induction as generalizing a with
  | nil =>
    intro fuel hf
    obtain ⟨n, rfl⟩ : ∃ n, fuel = n + 1 := ⟨fuel - 1, by omega⟩
    have ha : a = 0 := h
    simp [findMount, ha]
  | cons b as ih =>
    intro fuel hf
    obtain ⟨n, rfl⟩ : ∃ n, fuel = n + 1 := ⟨fuel - 1, by omega⟩
    obtain ⟨rfl, h0, h⟩ := h
    rw [findMount, if_neg h0]
    by_cases hname : (s.mem a).mountpoint = name
    · rw [if_pos hname, List.find?_cons_of_pos (by simpa [isNamed] using hname)]
      rfl
    · rw [if_neg hname, List.find?_cons_of_neg (by simpa [isNamed] using hname)]
      apply ih h
      simpa using hf

theorem Represents.find {s : State ε} {t : Table ε} {as : List Nat} (h : Represents s t as)
    (name : CString) : (as.find? (isNamed s name) = none ∧
        t.entries.find? (Entry.named name) = none) ∨
      ∃ xs b ys us e vs, as = xs ++ b :: ys ∧ t.entries = us ++ e :: vs ∧ Agrees (s.mem b) e ∧
        xs.length = us.length ∧ as.find? (isNamed s name) = some b ∧
        t.entries.find? (Entry.named name) = some e ∧
        t.entries.eraseP (Entry.named name) = us ++ vs := by
  obtain ⟨-, -, hagree, -, -⟩ := h
  generalize t.entries = es at hagree
  induction hagree with
  | nil => exact Or.inl ⟨rfl, rfl⟩
  | @cons a e as es hae _ ih =>
    have hname : (s.mem a).mountpoint = name ↔ e.mountpoint = name := by rw [hae.2.2.1]
    by_cases heq : e.mountpoint = name
    · right
      refine ⟨[], a, as, [], e, es, rfl, rfl, hae, rfl, ?_, ?_, ?_⟩
      · exact List.find?_cons_of_pos (by simpa [isNamed] using hname.mpr heq)
      · exact List.find?_cons_of_pos (by simpa [Entry.named] using heq)
      · rw [List.eraseP_cons_of_pos (by simpa [Entry.named] using heq)]
        rfl
    · have hno : ¬ (isNamed s name a = true) := by simpa [isNamed] using fun h => heq (hname.mp h)
      have hno' : ¬ (Entry.named name e = true) := by simpa [Entry.named] using heq
      rw [List.find?_cons_of_neg hno, List.find?_cons_of_neg hno', List.eraseP_cons_of_neg hno']
      rcases ih with ih | ⟨xs, b, ys, us, e', vs, rfl, rfl, h1, h2, h3, h4, h5⟩
      · exact Or.inl ih
      · exact Or.inr ⟨a :: xs, b, ys, e :: us, e', vs, rfl, rfl, h1, by simp [h2], h3, h4, by rw [h5]; rfl⟩

/-! ## Linking -/

/-- `vfs_mpHead` is the last structure of the list, or the list is empty. -/
def HeadLast (s : State ε) (as : List Nat) : Prop := as = [] ∨ as.getLast? = some s.mpHead

/-- What `mm_kmalloc` is trusted with: a pointer that is not in use. -/
def Fresh (s : State ε) (mount : Nat) : Prop := mount ≠ 0 → s.allocated mount = false ∧ mount < 2 ^ 32

theorem Represents.notMem {s : State ε} {t : Table ε} {as : List Nat} {a : Nat} (h : Represents s t as)
    (ha : a ≠ 0) (hfresh : Fresh s a) : a ∉ as := by
  intro hmem
  have := (h.allocated a hmem).1
  rw [(hfresh ha).1] at this
  simp at this

theorem linkMount_spec {s : State ε} {as : List Nat} {a : Nat} (h : Walk s as) (hl : HeadLast s as)
    (ha : a ≠ 0) (hnot : a ∉ as) {m : Mountpoint ε} (hm : m.next = 0) :
    ∃ s', linkMount ((s.alloc a).set a m) a = some s' ∧ Walk s' (as ++ [a]) ∧ s'.mem a = m ∧
      s'.mpHead = a ∧ s'.fsHead = s.fsHead ∧ s'.env = s.env ∧
      s'.allocated = (s.alloc a).allocated ∧ ∀ b ∈ as, ∃ n, s'.mem b = { s.mem b with next := n } := by
  have hold : ∀ b, b ≠ a → ((s.alloc a).set a m).mem b = s.mem b := by
    intro b hb
    rw [set_other hb]
    exact set_other hb
  rcases hl with rfl | hlast
  · have htail : ((s.alloc a).set a m).mpTail = 0 := h
    rw [linkMount, if_pos htail]
    refine ⟨_, rfl, ⟨rfl, ha, ?_⟩, set_self _ _ _, rfl, rfl, rfl, rfl, by simp⟩
    show (((s.alloc a).set a m).mem a).next = 0
    rw [set_self, hm]
  · obtain ⟨xs, rfl⟩ : ∃ xs, as = xs ++ [s.mpHead] := by
      rcases as.eq_nil_or_concat' with rfl | ⟨xs, b, rfl⟩
      · simp at hlast
      · rw [List.getLast?_concat, Option.some.injEq] at hlast
        exact ⟨xs, by rw [hlast]⟩
    have hhead0 : s.mpHead ≠ 0 := h.ne_end (by simp)
    have hheada : s.mpHead ≠ a := fun heq => hnot (by simp [heq])
    have htail : ((s.alloc a).set a m).mpTail ≠ 0 := by
      intro h0
      have hwalk := h
      rw [Walk, show s.mpTail = 0 from h0, links_end] at hwalk
      simp at hwalk
    have hxs : ∀ y ∈ xs, y ≠ a ∧ y ≠ s.mpHead := by
      intro y hy
      refine ⟨fun heq => hnot (by simp [← heq, hy]), fun heq => ?_⟩
      have hnodup := h.nodup
      rw [List.nodup_append] at hnodup
      exact hnodup.2.2 y hy s.mpHead (by simp) heq
    rw [linkMount, if_neg htail, if_neg (show ¬ ((s.alloc a).set a m).mpHead = 0 from hhead0)]
    refine ⟨_, rfl, ?_, ?_, rfl, rfl, rfl, rfl, ?_⟩
    · rw [List.append_assoc, List.singleton_append]
      refine Links.snoc h ?_ ?_ ha ?_
      · intro y hy
        show ((State.setNext _ s.mpHead a).mem y).next = _
        rw [setNext_other (hxs y hy).2, hold y (hxs y hy).1]
      · show ((State.setNext _ s.mpHead a).mem s.mpHead).next = a
        rw [setNext_self]
      · show ((State.setNext _ s.mpHead a).mem a).next = 0
        rw [setNext_other hheada.symm, set_self, hm]
    · show (State.setNext _ s.mpHead a).mem a = m
      rw [setNext_other hheada.symm, set_self]
    · intro b hb
      show ∃ n, (State.setNext _ s.mpHead a).mem b = _
      have hba := hold b fun heq => hnot (heq ▸ hb)
      by_cases hbh : b = s.mpHead
      · subst hbh
        exact ⟨a, by rw [setNext_self, hba]⟩
      · exact ⟨(s.mem b).next, by rw [setNext_other hbh, hba]⟩

/-- What is left to do once the structure is linked: the hook, and a structure freed if it fails. -/
def finishMount (s : State ε) (device mountpoint : CString) (fstype : Int) (mount : Nat) (fs : Filesystem ε) :
    State ε × Int :=
  match fs.mount with
  | none => (s.free mount, FAIL)
  | some hook =>
    let (dataPtr, env) := hook s.env device mountpoint fstype
    let s := { s.set mount { s.mem mount with dataPtr := dataPtr } with env := env }
    if dataPtr = 0 then (s.free mount, FAIL) else (s, SUCCESS)

theorem vfsMount_of_find {s s' : State ε} {device mountpoint : CString} {fstype : Int} {a : Nat}
    {fs : Filesystem ε} (ha : a ≠ 0) (hfind : vfsFind s.fsHead fstype = some fs)
    (hlink : linkMount ((s.alloc a).set a
      { fs := some fs, dataPtr := 0, mountpoint := mountpoint, device := device, next := 0 }) a = some s') :
    vfsMount s device mountpoint fstype a = some (finishMount s' device mountpoint fstype a fs) := by
  have hmem : (s.alloc a).mem a = zeroMountpoint := if_pos rfl
  have hfind' : vfsFind (s.alloc a).fsHead fstype = some fs := hfind
  rw [vfsMount, if_neg ha]
  simp only [hfind', hmem, zeroMountpoint, hlink, Option.map_some]
  rfl

theorem vfsMount_of_none {s : State ε} {device mountpoint : CString} {fstype : Int} {a : Nat}
    (ha : a ≠ 0) (hfind : vfsFind s.fsHead fstype = none) :
    vfsMount s device mountpoint fstype a = some ((s.alloc a).free a, FAIL) := by
  have hfind' : vfsFind (s.alloc a).fsHead fstype = none := hfind
  rw [vfsMount, if_neg ha]
  simp only [hfind']

/-- A structure made and freed again is not seen by the walk. -/
theorem Represents.alloc_free {s : State ε} {t : Table ε} {as : List Nat} {a : Nat}
    (h : Represents s t as) (ha : a ≠ 0) (hfresh : Fresh s a) :
    Represents ((s.alloc a).free a) t as := by
  have hne : ∀ b ∈ as, b ≠ a := fun b hb heq => h.notMem ha hfresh (heq ▸ hb)
  refine ⟨?_, fun b hb => ⟨?_, (h.allocated b hb).2⟩, ?_, h.fsHead, h.env⟩
  · refine Links.congr h.walk fun b hb => ?_
    show (((s.alloc a).mem b).next) = _
    rw [State.alloc]
    exact congrArg Mountpoint.next (set_other (hne b hb))
  · show (if b = a then false else if b = a then true else s.allocated b) = true
    rw [if_neg (hne b hb), if_neg (hne b hb)]
    exact (h.allocated b hb).1
  · refine agrees_mono h.agrees fun b hb e he => ?_
    show Agrees ((s.set a zeroMountpoint).mem b) e
    rw [set_other (hne b hb)]
    exact he

theorem Walk.set_data {s : State ε} {as : List Nat} (h : Walk s as) (a d : Nat) (env : ε) :
    Walk { s.set a { s.mem a with dataPtr := d } with env := env } as := by
  refine Links.congr h fun b _ => ?_
  by_cases hb : b = a
  · subst hb
    show ((s.set b _).mem b).next = _
    rw [set_self]
  · exact congrArg Mountpoint.next (set_other hb)

/-! ## Unlinking -/

theorem findPrev_spec {s : State ε} {b m fuel : Nat} (hb : b ≠ 0) (hm : m ≠ 0) :
    findPrev b (fuel + 1) s m = some (s.setNext m b, m) := by
  rw [findPrev, if_neg hm]
  exact if_pos hb

/-- The loop stops at the first structure, so the structures behind it go with the one taken out. -/
theorem unlinkMount_take {s : State ε} {xs ys : List Nat} {b : Nat} (h : Walk s (xs ++ b :: ys)) :
    ∃ s', unlinkMount s b = some s' ∧ Walk s' (xs.take 1 ++ ys) ∧ s'.fsHead = s.fsHead ∧ s'.env = s.env ∧
      s'.mpHead = s.mpHead ∧ s'.allocated = s.allocated ∧ ∀ d, ∃ n,
        s'.mem d = { s.mem d with next := n } := by
  have hnodup := h.nodup
  have hb0 : b ≠ 0 := h.ne_end (by simp)
  match xs with
  | [] =>
    obtain ⟨htail, -, hnext⟩ := h
    rw [unlinkMount, if_pos htail.symm]
    exact ⟨_, rfl, hnext, rfl, rfl, rfl, rfl, fun d => ⟨(s.mem d).next, rfl⟩⟩
  | c :: zs =>
    have hsuffix : Links (fun a => (s.mem a).next) 0 (s.mem b).next ys :=
      (Links.suffix (show Links _ 0 s.mpTail ((c :: zs) ++ b :: ys) from h)).2.2
    obtain ⟨htail, hc0, -⟩ := id h
    rw [List.cons_append, List.nodup_cons] at hnodup
    have hbc : b ≠ c := fun heq => hnodup.1 (by simp [← heq])
    rw [unlinkMount, if_neg (by rw [htail]; exact hbc), walkFuel,
      show 2 ^ 32 = 2 ^ 32 - 1 + 1 from rfl, findPrev_spec hb0 (by rw [htail]; exact hc0), Option.bind_some]
    simp only [htail, hc0, if_false, setNext_other hbc]
    refine ⟨_, rfl, ⟨htail, hc0, ?_⟩, rfl, rfl, rfl, rfl, fun d => ?_⟩
    · show Links _ 0 ((State.setNext _ c _).mem c).next ys
      rw [setNext_self]
      refine Links.congr hsuffix fun y hy => ?_
      have hyc : y ≠ c := fun heq => hnodup.1 (by simp [← heq, hy])
      rw [setNext_other hyc, setNext_other hyc]
    · by_cases hdc : d = c
      · subst hdc
        exact ⟨_, by rw [setNext_self, setNext_self]⟩
      · exact ⟨(s.mem d).next, by rw [setNext_other hdc, setNext_other hdc]⟩

theorem unlinkMount_spec {s : State ε} {xs ys : List Nat} {b : Nat} (h : Walk s (xs ++ b :: ys))
    (hxs : xs.length ≤ 1) :
    ∃ s', unlinkMount s b = some s' ∧ Walk s' (xs ++ ys) ∧ s'.fsHead = s.fsHead ∧ s'.env = s.env ∧
      s'.allocated = s.allocated ∧ ∀ d e, Agrees (s'.mem d) e ↔ Agrees (s.mem d) e := by
  obtain ⟨s', hs', hw, hfs, henv, -, halloc, hmem⟩ := unlinkMount_take h
  rw [List.take_of_length_le hxs] at hw
  refine ⟨s', hs', hw, hfs, henv, halloc, fun d e => ?_⟩
  obtain ⟨n, hn⟩ := hmem d
  rw [hn]
  exact Iff.rfl

/-! ## Calls whose hooks succeed -/

/-- The hooks that the call comes to succeed, and `mm_kmalloc` gives memory that is not in use. -/
def Allowed (s : State ε) : Op → Prop
  | .mount device mountpoint fstype mount => Fresh s mount ∧
      ∀ fs, vfsFind s.fsHead fstype = some fs →
        ∃ hook, fs.mount = some hook ∧ (hook s.env device mountpoint fstype).1 ≠ 0
  | .unmount mountpoint => ∀ b fs, findMount s mountpoint walkFuel s.mpTail = some b →
      (s.mem b).fs = some fs →
        ∃ hook, fs.unmount = some hook ∧ (hook s.env (s.mem b).dataPtr mountpoint).1 = SUCCESS

/-- A mount finds `vfs_mpHead` at the end of the list, and an unmount takes out the first or the
second structure. -/
def AtEnds (s : State ε) : Op → Prop
  | .mount _ _ fstype mount =>
      mount = 0 ∨ vfsFind s.fsHead fstype = none ∨ ∃ as, Walk s as ∧ HeadLast s as
  | .unmount mountpoint => mountpoint.length < vfsMaxfilename ∧
      ∀ xs b ys, Walk s (xs ++ b :: ys) → (xs ++ b :: ys).find? (isNamed s mountpoint) = some b →
        xs.length ≤ 1

theorem mount_refines {s : State ε} {t : Table ε} {as : List Nat} {device mountpoint : CString}
    {fstype : Int} {a : Nat} (h : Represents s t as)
    (ha : Allowed s (.mount device mountpoint fstype a)) (he : AtEnds s (.mount device mountpoint fstype a)) :
    ∃ s' as', vfsMount s device mountpoint fstype a =
        some (s', (t.step (.mount device mountpoint fstype a)).2) ∧
      Represents s' (t.step (.mount device mountpoint fstype a)).1 as' := by
  by_cases ha0 : a = 0
  · have hstep : t.step (.mount device mountpoint fstype a) = (t, FAIL) := by
      rw [Table.step, if_pos ha0]
    rw [hstep]
    exact ⟨s, as, if_pos ha0, h⟩
  cases hfind : vfsFind s.fsHead fstype with
  | none =>
    have hstep : t.step (.mount device mountpoint fstype a) = (t, FAIL) := by
      rw [Table.step, if_neg ha0, ← h.fsHead, hfind]
    rw [hstep]
    exact ⟨_, as, vfsMount_of_none ha0 hfind, h.alloc_free ha0 ha.1⟩
  | some fs =>
    obtain ⟨hook, hhook, hok⟩ := ha.2 fs hfind
    obtain ⟨as0, hwalk, hlast⟩ := (he.resolve_left ha0).resolve_left (by rw [hfind]; simp)
    obtain rfl := hwalk.unique h.walk
    have hnot := h.notMem ha0 ha.1
    obtain ⟨s', hlink, hw, hm, -, hfs, henv, halloc, hold⟩ := linkMount_spec h.walk hlast ha0 hnot
      (m := { fs := some fs, dataPtr := 0, mountpoint := mountpoint, device := device, next := 0 }) rfl
    have hstep : t.step (.mount device mountpoint fstype a) =
        ({ t with
          entries := t.entries ++ [⟨fs, (hook s.env device mountpoint fstype).1, mountpoint, device⟩]
          env := (hook s.env device mountpoint fstype).2 }, SUCCESS) := by
      rw [Table.step, if_neg ha0, ← h.fsHead, hfind]
      simp only [hhook, ← h.env, hok, if_false]
    have hfinish : finishMount s' device mountpoint fstype a fs =
        ({ s'.set a { s'.mem a with dataPtr := (hook s.env device mountpoint fstype).1 } with
          env := (hook s.env device mountpoint fstype).2 }, SUCCESS) := by
      rw [finishMount, hhook]
      simp only [henv, hok, if_false]
    rw [vfsMount_of_find ha0 hfind hlink, hstep, hfinish]
    refine ⟨_, as0 ++ [a], rfl, hw.set_data _ _ _, ?_, ?_, hfs.trans h.fsHead, rfl⟩
    · intro b hb
      show s'.allocated b = true ∧ _
      rw [halloc]
      show (if b = a then true else s.allocated b) = true ∧ _
      split
      · rename_i hba
        exact ⟨rfl, hba ▸ (ha.1 ha0).2⟩
      · rename_i hba
        refine h.allocated b ?_
        simpa [hba] using hb
    · refine List.rel_append (agrees_mono h.agrees fun b hb e he => ?_) (.cons ?_ .nil)
      · have hba : b ≠ a := fun heq => hnot (heq ▸ hb)
        obtain ⟨n, hn⟩ := hold b hb
        show Agrees ((s'.set a _).mem b) e
        rw [set_other hba, hn]
        exact he
      · show Agrees ((s'.set a _).mem a) _
        rw [set_self, hm]
        exact ⟨rfl, rfl, rfl, rfl⟩

theorem unmount_refines {s : State ε} {t : Table ε} {as : List Nat} {name : CString}
    (h : Represents s t as) (ha : Allowed s (.unmount name)) (he : AtEnds s (.unmount name)) :
    ∃ s' as', vfsUnmount s name = some (s', (t.step (.unmount name)).2) ∧
      Represents s' (t.step (.unmount name)).1 as' := by
  obtain ⟨hlen, hfirst⟩ := he
  have hfound : findMount s name walkFuel s.mpTail = _ :=
    findMount_spec h.walk walkFuel (h.walk.length_lt fun a ha => (h.allocated a ha).2)
  rw [vfsUnmount, if_neg (by omega), hfound]
  rcases h.find name with ⟨hnone, hnone'⟩ | ⟨xs, b, ys, us, e, vs, rfl, hes, hbe, hlen', hb, he', herase⟩
  · have hstep : t.step (.unmount name) = (t, FAIL) := by
      rw [Table.step, hnone']
    rw [hstep, hnone]
    exact ⟨s, as, rfl, h⟩
  · have hb0 : b ≠ 0 := h.walk.ne_end (by simp)
    rw [hb, Option.getD_some] at hfound
    obtain ⟨hook, hhook, hok⟩ := ha b e.fs hfound hbe.1
    have hok' : (hook t.env e.dataPtr name).1 ≠ FAIL := by
      rw [← h.env, ← hbe.2.1, hok]
      decide
    have hstep : t.step (.unmount name) =
        ({ t with entries := us ++ vs, env := (hook t.env e.dataPtr name).2 }, SUCCESS) := by
      rw [Table.step, he']
      simp only [hhook, hok', if_false, herase]
    obtain ⟨s', hs', hw, hfs, henv, halloc, hagree⟩ := unlinkMount_spec
      (s := { s with env := (hook s.env (s.mem b).dataPtr name).2 }) h.walk (hfirst xs b ys h.walk hb)
    have hne : ∀ d ∈ xs ++ ys, d ≠ b := by
      rintro d hd rfl
      exact (List.nodup_cons.mp (List.nodup_middle.mp h.walk.nodup)).1 hd
    have hmem : ∀ d ∈ xs ++ ys, d ∈ xs ++ b :: ys := fun d hd =>
      List.perm_middle.mem_iff.mpr (List.mem_cons_of_mem _ hd)
    rw [hstep, hb, Option.getD_some, Option.bind_some, if_neg hb0, hbe.1, Option.bind_some]
    simp only [hhook]
    rw [hs']
    refine ⟨_, xs ++ ys, rfl, hw, fun d hd => ?_, ?_, hfs.trans h.fsHead, ?_⟩
    · refine ⟨?_, (h.allocated d (hmem d hd)).2⟩
      show (if d = b then false else s'.allocated d) = true
      rw [if_neg (hne d hd), halloc]
      exact (h.allocated d (hmem d hd)).1
    · have hall := h.agrees
      rw [hes] at hall
      exact agrees_mono (forall₂_without hlen' hall) fun d _ e' hd => (hagree d e').mpr hd
    · show s'.env = _
      rw [henv, ← h.env, ← hbe.2.1]

theorem step_refines (s : State ε) (t : Table ε) (op : Op) (h : ∃ as, Represents s t as)
    (hok : Allowed s op ∧ AtEnds s op) :
    ∃ s', step s op = some (s', (t.step op).2) ∧ ∃ as, Represents s' (t.step op).1 as := by
  obtain ⟨as, h⟩ := h
  cases op with
  | mount device mountpoint fstype mount =>
    obtain ⟨s', as', hs, h'⟩ := mount_refines h hok.1 hok.2
    exact ⟨s', hs, as', h'⟩
  | unmount mountpoint =>
    obtain ⟨s', as', hs, h'⟩ := unmount_refines h hok.1 hok.2
    exact ⟨s', hs, as', h'⟩

/-! ## Runs -/

/-- **Mount table.** Along every run whose hooks succeed and whose calls work at the ends of the list,
the structures represent the table, and every call answers as the table does. -/
theorem table_refines (mem : Nat → Mountpoint ε) (allocated : Nat → Bool) (fsHead : List (Filesystem ε))
    (env : ε) (ops : List Op)
    (h : Along (fun s op => (step s op).map Prod.fst) (fun s op => Allowed s op ∧ AtEnds s op)
      (initState mem allocated fsHead env) ops) :
    ∃ s t rs as, answers step (initState mem allocated fsHead env) ops = some (s, rs) ∧
      answers (fun t op => some (t.step op)) ⟨fsHead, [], env⟩ ops = some (t, rs) ∧
      Represents s t as := by
  have hinit : ∃ as, Represents (initState mem allocated fsHead env) ⟨fsHead, [], env⟩ as :=
    ⟨[], links_nil.mpr rfl, by simp, .nil, rfl, rfl⟩
  obtain ⟨s, t, rs, h1, h2, as, h3⟩ := answers_refines step_refines ops _ _ hinit h
  exact ⟨s, t, rs, as, h1, h2, h3⟩

def easyDriver : Filesystem Unit :=
  { fstype := 1, mount := some fun _ _ _ _ => (1, ()), unmount := some fun _ _ _ => (SUCCESS, ()) }

def easyState : State Unit := initState (fun _ => zeroMountpoint) (fun _ => false) [easyDriver] ()

theorem table_after_mount_unmount : ∃ s t rs as,
    answers step easyState [.mount [] [65] 1 16, .unmount [65]] = some (s, rs) ∧
      answers (fun t op => some (t.step op)) ⟨[easyDriver], [], ()⟩ [.mount [] [65] 1 16, .unmount [65]] =
        some (t, rs) ∧
      Represents s t as := by
  refine table_refines _ _ _ _ _ ⟨⟨⟨fun _ => ⟨rfl, by decide⟩, ?_⟩,
    Or.inr (Or.inr ⟨[], rfl, Or.inl rfl⟩)⟩, ?_⟩
  · rintro fs hfs
    obtain rfl : easyDriver = fs := Option.some.inj hfs
    exact ⟨_, rfl, by decide⟩
  · rintro s hs
    obtain rfl := Option.some.inj hs
    refine ⟨⟨?_, by decide, ?_⟩, fun _ _ => trivial⟩
    · rintro b fs hb hfs
      obtain rfl : 16 = b := Option.some.inj hb
      obtain rfl : easyDriver = fs := Option.some.inj hfs
      exact ⟨_, rfl, rfl⟩
    · rintro xs b ys hw -
      have hlen := congrArg List.length (hw.unique (show Walk _ [16] from ⟨rfl, by decide, rfl⟩))
      simp at hlen
      omega

/-- Taking out the third mount point loses the second one. -/
theorem third_unmount_loses_second :
    let ops : List Op := [.mount [] [65] 1 16, .mount [] [66] 1 32, .mount [] [67] 1 48, .unmount [67]]
    ∃ s t rs, answers step easyState ops = some (s, rs) ∧
      answers (fun t op => some (t.step op)) ⟨[easyDriver], [], ()⟩ ops = some (t, rs) ∧
      Along (fun s op => (step s op).map Prod.fst) Allowed easyState ops ∧ ¬ ∃ as, Represents s t as := by
  refine ⟨_, _, _, rfl, rfl, ?_, ?_⟩
  · have hhook : ∀ name fs, some easyDriver = some fs →
        ∃ hook, fs.mount = some hook ∧ (hook () [] name 1).1 ≠ 0 := by
      rintro name fs hfs
      obtain rfl := Option.some.inj hfs
      exact ⟨_, rfl, Nat.one_ne_zero⟩
    refine ⟨⟨fun _ => ⟨rfl, by decide⟩, hhook _⟩, fun s hs => ?_⟩
    obtain rfl := Option.some.inj hs
    refine ⟨⟨fun _ => ⟨rfl, by decide⟩, hhook _⟩, fun s hs => ?_⟩
    obtain rfl := Option.some.inj hs
    refine ⟨⟨fun _ => ⟨rfl, by decide⟩, hhook _⟩, fun s hs => ?_⟩
    obtain rfl := Option.some.inj hs
    refine ⟨fun b fs hb hfs => ?_, fun _ _ => trivial⟩
    obtain rfl : 48 = b := Option.some.inj hb
    obtain rfl : easyDriver = fs := Option.some.inj hfs
    exact ⟨_, rfl, rfl⟩
  · rintro ⟨as, h⟩
    have hlen := h.agrees.length_eq
    rw [h.walk.unique (show Walk _ [16] from ⟨rfl, by decide, rfl⟩)] at hlen
    revert hlen
    decide

end SystemProjects.Vfs
