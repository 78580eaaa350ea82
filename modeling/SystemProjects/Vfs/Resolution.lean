import SystemProjects.Lib.Split
import SystemProjects.Vfs.Handles

/-!
# Which volume a path is on

`vfs_file2mountpoint` takes the first mount point whose name begins the path. `vfs_mount` adds at the end, so the
first one is the oldest.
-/

open SystemProjects.Lists

namespace SystemProjects.Vfs

variable {ε : Type} {s s' : State ε} {as as' : List Nat} {a b : Nat} {name path : CString}

def slash : Nat := 47

/-! ## What is claimed -/

def Boundary (path : CString) (k : Nat) : Prop :=
  k = 0 ∨ k = path.length ∨ path[k]? = some slash ∨ path[k - 1]? = some slash

/-- The components of the name are the first ones of the path. -/
def Above (name path : CString) : Prop := name <+: path ∧ Boundary path name.length

/-- `vfs_file2mountpoint`, from the tail of the list on. -/
def vfsFile2mountpoint (s : State ε) (filename : CString) : Option Nat :=
  file2mountpoint s filename walkFuel s.mpTail

def State.nameAt (s : State ε) (a : Nat) : CString := (s.mem a).mountpoint

/-- The mount points are at `as`, in the order in which they were mounted. -/
structure Linked (s : State ε) (as : List Nat) : Prop where
  walk : Walk s as
  bound : ∀ a ∈ as, a < 2 ^ 32

/-- `r` is the mount point with the longest name above the path, or `NULL` when there is none. -/
def Longest (s : State ε) (as : List Nat) (path : CString) (r : Nat) : Prop :=
  (r ∈ as ∧ Above (s.nameAt r) path ∧ ∀ a ∈ as, Above (s.nameAt a) path →
    (s.nameAt a).length ≤ (s.nameAt r).length) ∨
    r = 0 ∧ ∀ a ∈ as, ¬ Above (s.nameAt a) path

/-- The same mount points, mounted in another order. -/
structure Reordered (s s' : State ε) (as as' : List Nat) : Prop where
  linked : Linked s' as'
  perm : as'.Perm as
  same : ∀ a ∈ as, s'.mem a = { s.mem a with next := (s'.mem a).next }

/-- The answer is the right one, and it is the same for every order. -/
def Resolves (s : State ε) (as : List Nat) (path : CString) : Prop :=
  ∃ r, vfsFile2mountpoint s path = some r ∧ Longest s as path r ∧
    ∀ s' as', Reordered s s' as as' → vfsFile2mountpoint s' path = some r

/-- One name at most begins the path, and it ends between two components of it. -/
structure OneName (s : State ε) (as : List Nat) (path : CString) : Prop where
  one : ∀ a ∈ as, ∀ b ∈ as, s.nameAt a <+: path → s.nameAt b <+: path → a = b
  boundary : ∀ a ∈ as, s.nameAt a <+: path → Boundary path (s.nameAt a).length

/-! ## Components -/

/-! ## The search -/

theorem leadsTo_iff : leadsTo s path a = true ↔ s.nameAt a <+: path := List.isPrefixOf_iff_prefix

theorem Linked.vfsFile2mountpoint_eq (h : Linked s as) :
    vfsFile2mountpoint s path = some ((as.find? (leadsTo s path)).getD 0) :=
  file2mountpoint_spec h.walk walkFuel (h.walk.length_lt h.bound)

theorem Reordered.nameAt (h : Reordered s s' as as') (ha : a ∈ as) : s'.nameAt a = s.nameAt a := by
  rw [State.nameAt, h.same a ha, State.nameAt]

theorem Reordered.find? (h : Reordered s s' as as') :
    vfsFile2mountpoint s' path = some ((as'.find? (leadsTo s path)).getD 0) := by
  rw [h.linked.vfsFile2mountpoint_eq]
  congr 2
  apply List.find?_congr
  intro a ha
  rw [Bool.eq_iff_iff, leadsTo_iff, leadsTo_iff, h.nameAt (h.perm.mem_iff.mp ha)]

theorem Linked.reorder (h : Linked s as) (hperm : as'.Perm as) : ∃ s', Reordered s s' as as' := by
  have hzero : 0 ∉ as' := fun hmem => h.walk.ne_end (hperm.mem_iff.mp hmem) rfl
  obtain ⟨next, tail, hlinks⟩ := exists_links (hperm.nodup_iff.mpr h.walk.nodup) hzero
  refine ⟨{ s with mem := fun a => { s.mem a with next := next a }, mpTail := tail }, ⟨hlinks, ?_⟩,
    hperm, fun _ _ => rfl⟩
  exact fun a ha => h.bound a (hperm.mem_iff.mp ha)

theorem Linked.found_first (h : Linked s as) (ha : a ∈ as) (hname : s.nameAt a <+: path) :
    ∃ s' as', Reordered s s' as as' ∧ vfsFile2mountpoint s' path = some a := by
  obtain ⟨s', hs'⟩ := h.reorder (List.perm_cons_erase ha).symm
  refine ⟨s', _, hs', ?_⟩
  rw [hs'.find?, List.find?_cons_of_pos (leadsTo_iff.mpr hname)]
  rfl

/-! ## When it is right -/

theorem OneName.longest (hone : OneName s as path) :
    Longest s as path ((as.find? (leadsTo s path)).getD 0) := by
  cases hfind : as.find? (leadsTo s path) with
  | none =>
    refine .inr ⟨rfl, fun a ha habove => ?_⟩
    exact List.find?_eq_none.mp hfind a ha (leadsTo_iff.mpr habove.1)
  | some r =>
    have hr := List.mem_of_find?_eq_some hfind
    have hname := leadsTo_iff.mp (List.find?_some hfind)
    refine .inl ⟨hr, ⟨hname, hone.boundary r hr hname⟩, fun a ha habove => ?_⟩
    rw [hone.one a ha r hr habove.1 hname]
    exact le_refl _

/-- **Resolution.** The right mount point is found in any order just when no two names begin the path, and none ends
inside a component. -/
theorem resolves_iff (s : State ε) (as : List Nat) (path : CString) (h : Linked s as) :
    Resolves s as path ↔ OneName s as path := by
  constructor
  · rintro ⟨r, hr, hlongest, hany⟩
    have hfound : ∀ a ∈ as, s.nameAt a <+: path → a = r := fun a ha hname => by
      obtain ⟨s', as', hs', hfirst⟩ := h.found_first ha hname
      exact Option.some.inj (hfirst.symm.trans (hany s' as' hs'))
    refine ⟨fun a ha b hb hna hnb => (hfound a ha hna).trans (hfound b hb hnb).symm, fun a ha hname => ?_⟩
    obtain rfl := hfound a ha hname
    rcases hlongest with ⟨-, habove, -⟩ | ⟨rfl, -⟩
    · exact habove.2
    · exact absurd rfl (h.walk.ne_end ha)
  · intro hone
    refine ⟨_, h.vfsFile2mountpoint_eq, hone.longest, fun s' as' hs' => ?_⟩
    rw [hs'.find?, find?_eq_of_perm hs'.perm]
    intro a ha b hb hna hnb
    exact hone.one a ha b hb (leadsTo_iff.mp hna) (leadsTo_iff.mp hnb)

/-- `/dir1` -/
def dir1 : CString := [47, 100, 105, 114, 49]

theorem dir1_linked : ∃ s, vfsMount deviceTable [] dir1 dfsType 16 = some (s, SUCCESS) ∧ s.nameAt 16 = dir1 ∧
    Linked s [16] :=
  ⟨_, rfl, rfl, ⟨rfl, by decide, rfl⟩, by decide⟩

/-- The path is `/dir1/x`. -/
theorem dir1_resolves : ∃ s, vfsMount deviceTable [] dir1 dfsType 16 = some (s, SUCCESS) ∧
    Resolves s [16] [47, 100, 105, 114, 49, 47, 120] := by
  obtain ⟨s, hs, hname, hlinked⟩ := dir1_linked
  refine ⟨s, hs, (resolves_iff s [16] _ hlinked).mpr ⟨?_, ?_⟩⟩
  · intro a ha b hb _ _
    rw [List.mem_singleton.mp ha, List.mem_singleton.mp hb]
  · intro a ha _
    rw [List.mem_singleton.mp ha, hname]
    exact .inr (.inr (.inl (by decide)))

/-- The path is `/dir10/x`, and `/dir1` claims it. -/
theorem dir1_claims_dir10 : ∃ s, vfsMount deviceTable [] dir1 dfsType 16 = some (s, SUCCESS) ∧ Linked s [16] ∧
    ¬ Resolves s [16] [47, 100, 105, 114, 49, 48, 47, 120] := by
  obtain ⟨s, hs, hname, hlinked⟩ := dir1_linked
  refine ⟨s, hs, hlinked, ?_⟩
  rintro ⟨r, hr, hlongest, -⟩
  have hfound : leadsTo s [47, 100, 105, 114, 49, 48, 47, 120] 16 = true := by
    rw [leadsTo_iff, hname]
    decide
  rw [hlinked.vfsFile2mountpoint_eq, List.find?_cons_of_pos hfound] at hr
  obtain rfl : 16 = r := Option.some.inj hr
  rcases hlongest with ⟨-, ⟨-, hend⟩, -⟩ | ⟨hzero, -⟩
  · rw [hname] at hend
    revert hend
    unfold Boundary
    decide
  · contradiction

end SystemProjects.Vfs
