import SystemProjects.Simdisk.Files
import SystemProjects.Simdisk.Format

/-!
# Creating a file and finding it again
-/

open SystemProjects.Memory SystemProjects.Bitmap

namespace SystemProjects.Simdisk

/-! ## What is claimed -/

/-- Entry `k` of block `j` of the directory `inode`. -/
structure EntryAt (d : Device) (inode : Mem) (j k : Nat) : Prop where
  block : j < 10
  entry : k < 16
  pos : 0 < inodeBlock inode j
  lt : inodeBlock inode j < d.devsize

def HasEntry (d : Device) (dir : Nat) (name : CString) (inum type : Int) : Prop :=
  ∃ j k, EntryAt d (inodeAt d dir) j k ∧ inum ≠ 0 ∧
    let direc := dirAt d (inodeBlock (inodeAt d dir) j).toNat
    dentryInode direc k = inum ∧ dentryType direc k = type ∧
      ∀ x ≤ name.length, dentryName direc k x = cstring name x

def HasRoom (d : Device) (dir : Nat) : Prop :=
  (∃ j < 10, inodeBlock (inodeAt d dir) j = -1) ∨
    ∃ j k, EntryAt d (inodeAt d dir) j k ∧ dentryInode (dirAt d (inodeBlock (inodeAt d dir) j).toNat) k = 0

/-- The directories, by their paths without a slash at the end. -/
inductive DirAt (d : Device) : CString → Nat → Prop
  | root : DirAt d [] 1
  | sub {path name : CString} {dir inum : Nat} (h : DirAt d path dir)
    (he : HasEntry d dir name inum dirType) :
      DirAt d (path ++ slash :: name) inum

structure Creatable (w : World) (parent name : CString) : Prop where
  name_ne : name ≠ []
  name_chars : ∀ c ∈ name, c ≠ 0 ∧ c ≠ slash
  name_length : name.length < maxFileNameLength
  parent_chars : ∀ c ∈ parent, c ≠ 0
  dir : ∃ n, DirAt w.dev parent n ∧ (∀ inum type, ¬ HasEntry w.dev n name inum type) ∧ HasRoom w.dev n
  inode : ∃ x < maxFileNum, isSet (inodeMap w.dev) x = false
  block : ∃ x < 99884, isSet (blockMap w.dev) x = false
  fd : ∃ i < maxOpenFiles, w.fd i = -1

/-- `find` gives the inode with this number. -/
def FindsInode (w : World) (path : CString) (inum : Int) (junk : FindJunk) (ok : Mem → Prop) : Prop :=
  ∃ inode, find w path junk = some (some inode) ∧ inodeNum inode = inum ∧ ok inode

/-- The file is created and opened. It is found, and so are those that were `created` before. -/
def CreatesFile (w : World) (created : List (CString × Int)) (path : CString) (junk : CreatJunk)
    (findJunk : FindJunk) : Prop :=
  ∃ w' ret, myCreat w path junk = some (w', ret) ∧ 0 ≤ ret ∧
    isSet (inodeMap w.dev) (w'.fd ret.toNat).toNat = false ∧
    (FindsInode w' path (w'.fd ret.toNat) findJunk fun inode =>
      inodeType inode = fileType ∧ inodeSize inode = 0) ∧
    ∀ p ∈ created, FindsInode w' p.1 p.2 findJunk fun _ => True

/-! ## The last component -/

theorem parse_unterminated {cs : CString} (hcs : ∀ c ∈ cs, c ≠ 0) :
    ∀ {arg arg' : Mem} {j k j' : Nat}, (∀ x, maxFileNameLength * j ≤ x → arg x ≠ 0) →
      parse arg j k cs = some (some (arg', j')) → ∀ x, maxFileNameLength * j' ≤ x → arg' x ≠ 0 := by
  induction cs with
  | nil =>
    intro arg arg' j k j' harg h
    obtain ⟨rfl, rfl⟩ := Prod.mk.inj (Option.some.inj (Option.some.inj h))
    exact harg
  | cons c cs ih =>
    intro arg arg' j k j' harg h
    have htail : ∀ x ∈ cs, x ≠ 0 := fun x hx => hcs x (List.mem_cons_of_mem c hx)
    rw [parse] at h
    split at h
    · cases h
    · split at h
      · cases h
      · rename_i hk
        split at h
        · refine ih htail (fun x hx => ?_) h
          split
          · exact hcs c List.mem_cons_self
          · exact harg x hx
        · refine ih htail (fun x hx => ?_) h
          -- The `NUL` lies in the row before.
          rw [Nat.mul_add] at hx
          rw [if_neg (by omega)]
          exact harg x (by omega)

theorem strEq_unterminated {a b : Mem} (hb : ∀ x, b x ≠ 0) : ∀ n p, strEq a b p n ≠ some true := by
  intro n
  induction n with
  | zero => intro p h; cases h
  | succ n ih =>
    intro p h
    rw [strEq] at h
    split at h
    · cases h
    · rename_i heq
      rw [if_neg (by rw [not_not.mp heq]; exact hb p)] at h
      exact ih _ h

theorem findDentry_unterminated {direc name : Mem} {d : Bool} (hname : ∀ x, name x ≠ 0) :
    ∀ fuel k e, findDentry direc name d fuel k ≠ some (some e) := by
  intro fuel
  induction fuel with
  | zero => intro k e h; cases h
  | succ fuel ih =>
    intro k e h
    rw [findDentry] at h
    split at h
    · cases h
    · split at h
      · exact ih _ _ h
      · split at h
        · exact ih _ _ h
        · split at h
          · exact ih _ _ h
          · obtain ⟨eq, heq, h⟩ := Option.bind_eq_some_iff.mp h
            split at h
            · rename_i htrue
              exact strEq_unterminated hname _ _ (htrue ▸ heq)
            · exact ih _ _ h

theorem findInBlocks_unterminated {dev : Device} {name tmp : Mem} {d : Bool} (hname : ∀ x, name x ≠ 0) :
    ∀ js direc inum direc', findInBlocks dev name d tmp js direc ≠ some (some inum, direc') := by
  intro js
  induction js with
  | nil => intro direc inum direc' h; cases h
  | cons j js ih =>
    intro direc inum direc' h
    rw [findInBlocks] at h
    split at h
    · exact ih _ _ _ h
    · obtain ⟨direc1, -, h⟩ := Option.bind_eq_some_iff.mp h
      obtain ⟨found, hfound, h⟩ := Option.bind_eq_some_iff.mp h
      cases found with
      | none => exact ih _ _ _ h
      | some k => exact findDentry_unterminated hname _ _ _ hfound

theorem findRows_unterminated {dev : Device} {arg : Mem} {d : Bool} {i : Nat}
    (hrow : ∀ x, arg (maxFileNameLength * i + x) ≠ 0) :
    ∀ is, i ∈ is → ∀ tmp direc inode, findRows dev arg d is tmp direc ≠ some (some inode) := by
  intro is
  induction is with
  | nil => intro hi; cases hi
  | cons l is ih =>
    intro hi tmp direc inode h
    rw [findRows] at h
    obtain ⟨⟨found, direc1⟩, hfound, h⟩ := Option.bind_eq_some_iff.mp h
    cases found with
    | none => cases h
    | some inum =>
      by_cases hl : i = l
      · subst hl
        exact findInBlocks_unterminated hrow _ _ _ _ hfound
      · obtain ⟨r, -, h⟩ := Option.bind_eq_some_iff.mp h
        exact ih ((List.mem_cons.mp hi).resolve_left hl) _ _ _ h

/-- The name of a file is put into `arg` without a `NUL`, so `find` compares with what was in the memory. -/
theorem find_unterminated {w : World} {path : CString} {junk : FindJunk} (hpath : ∀ c ∈ path, c ≠ 0)
    {c : Byte}
    (hlast : path.getLast? = some c) (hc : c ≠ slash) (harg : ∀ x, junk.arg x ≠ 0) (inode : Mem) :
    find w path junk ≠ some (some inode) := by
  intro h
  have hroot : path ≠ [slash] := by
    rintro rfl
    exact hc (Option.some.inj hlast).symm
  have hfile : decide (path.getLast?.getD junk.before = slash) = false := by
    rw [hlast]
    exact decide_eq_false hc
  rw [find, if_neg hroot] at h
  simp only [hfile] at h
  obtain ⟨parsed, hparse, h⟩ := Option.bind_eq_some_iff.mp h
  cases parsed with
  | none => cases h
  | some r =>
    obtain ⟨arg, j⟩ := r
    obtain ⟨t, -, h⟩ := Option.bind_eq_some_iff.mp h
    have hchars : ∀ c ∈ (if decide (path.head? = some slash) = true then path.tail else path), c ≠ 0 := by
      intro c hmem
      split at hmem
      · exact hpath c (List.mem_of_mem_tail hmem)
      · exact hpath c hmem
    have hrow := parse_unterminated hchars (fun x _ => harg x) hparse
    refine findRows_unterminated (fun x => hrow _ (Nat.le_add_right _ _)) _ ?_ _ _ _ h
    exact List.mem_range.mpr (Nat.lt_succ_self j)

/-! ## No file is found -/

/-- **Creating and finding.** Whatever disk, path and file descriptors there are: in some memory the file is not
found after `my_creat`. -/
theorem creat_never_found (w : World) (created : List (CString × Int)) (parent name : CString)
    (h : Creatable w parent name) :
    ¬ ∀ junk findJunk, CreatesFile w created (parent ++ slash :: name) junk findJunk := by
  intro hall
  obtain ⟨w', ret, -, -, -, ⟨inode, hfind, -⟩, -⟩ := hall
    ⟨⟨fun _ => 0, fun _ => 0, fun _ => 0, 0⟩, fun _ => 0, fun _ => 0, fun _ => 0, fun _ => 0, fun _ => 0⟩
    ⟨fun _ => 0, fun _ => 0, fun _ => 1, 0⟩
  obtain ⟨us, c, hname⟩ := (name.eq_nil_or_concat').resolve_left h.name_ne
  have hlast : (parent ++ slash :: name).getLast? = some c := by
    rw [hname, ← List.cons_append, ← List.append_assoc, List.getLast?_concat]
  have hc : c ∈ name := by rw [hname]; simp
  refine find_unterminated (fun x hx => ?_) hlast (h.name_chars c hc).2 (fun _ =>
    (by decide : (1 : Byte) ≠ 0)) inode hfind
  rcases List.mem_append.mp hx with hx | hx
  · exact h.parent_chars x hx
  · rcases List.mem_cons.mp hx with rfl | hx
    · decide
    · exact (h.name_chars x hx).1

/-! ## The new disk -/

/-- An opened disk that was all zero, after `my_mkfs` with memory that is all zero. -/
def newWorld : World := mkfsWorld (openedDisk fun _ => 0) (fun _ => 0) fun _ => 0

theorem newWorld_formatted :
    Formatted (openedDisk fun _ => 0) newWorld.dev (fun _ => 0) (fun _ => 0) fun _ => 0 := by
  have hread : (readBlock (openedDisk fun _ => 0) 0 fun _ => 0).1 = fun _ => 0 :=
    Blank.readBlock ⟨fun _ => rfl, rfl, rfl⟩ 0
  have hf := myMkfs_formatted (d := openedDisk fun _ => 0) rfl (by rw [hread]; decide) (fun _ => 0) fun _ => 0
  rwa [hread] at hf

/-- The root directory of the new disk has the first data block only. -/
theorem newWorld_rootBlock {j : Nat} (hj : j < 10) :
    inodeBlock (inodeAt newWorld.dev 1) j = if j = 0 then 2516 else -1 := by
  obtain ⟨-, hfirst, hothers, -⟩ := newWorld_formatted.isRootInode
  rw [inodeBlock, loadInt]
  by_cases h0 : j = 0
  · subst h0
    rw [hfirst]
    rfl
  · rw [hothers j (by omega) hj, if_neg h0]
    rfl

theorem newWorld_entryAt {j k : Nat} (he : EntryAt newWorld.dev (inodeAt newWorld.dev 1) j k) :
    inodeBlock (inodeAt newWorld.dev 1) j = blockTableStart := by
  have hpos := he.pos
  rw [newWorld_rootBlock he.block] at hpos ⊢
  by_cases h0 : j = 0
  · rw [if_pos h0]
    rfl
  · rw [if_neg h0] at hpos
    exact absurd hpos (by decide)

theorem newWorld_unused {k : Nat} (hk : k < 16) (hk' : 2 ≤ k) :
    dentryInode (dirAt newWorld.dev blockTableStart) k = 0 := by
  have h0 := (newWorld_formatted.dentryInode hk).trans (rootDir_others _ hk')
  exact congrArg (fun v => (BitVec.ofNat 32 v).toInt) h0

theorem newWorld_creatable : Creatable newWorld [] [0x66] := by
  have hf := newWorld_formatted
  refine ⟨by decide, by decide, by decide, by simp, ⟨1, .root, ?_, .inr ⟨0, 2, ⟨by decide, by decide, ?_, ?_⟩, ?_⟩⟩,
    ⟨2, by decide, ?_⟩, ⟨1, by decide, ?_⟩, 0, by decide, rfl⟩
  · rintro inum type ⟨j, k, he, hne, hinode, -, hname⟩
    rw [newWorld_entryAt he] at hinode hname
    have hk := he.entry
    have hfirst := hname 0 (Nat.zero_le _)
    rcases Nat.lt_or_ge k 2 with hlt | hge
    · have hdot : dentryName (dirAt newWorld.dev blockTableStart) k 0 = 0x2e := by
        rcases (by omega : k = 0 ∨ k = 1) with rfl | rfl
        · exact hf.self.2.2 0 (Nat.zero_le _)
        · exact hf.parent.2.2 0 (Nat.zero_le _)
      have hdot' : dentryName (dirAt newWorld.dev (Int.toNat (blockTableStart : Nat))) k 0 = 0x2e := hdot
      rw [hdot'] at hfirst
      exact absurd hfirst (by decide)
    · exact hne (hinode.symm.trans (newWorld_unused hk hge))
  · rw [newWorld_rootBlock (by decide)]
    decide
  · rw [newWorld_rootBlock (by decide), hf.devsize]
    decide
  · rw [newWorld_rootBlock (by decide)]
    exact newWorld_unused (by decide) (by decide)
  · rw [isSet, show inodeMap newWorld.dev (2 / 8) = 0xc0 from hf.inv.inode]
    decide
  · rw [isSet, show blockMap newWorld.dev (1 / 8) = 0x80 from hf.inv.block]
    decide

theorem newWorld_creat_never_found :
    ¬ ∀ junk findJunk, CreatesFile newWorld [] ([] ++ slash :: [0x66]) junk findJunk :=
  creat_never_found newWorld [] [] [0x66] newWorld_creatable

/-- With memory that is all zero, `my_creat("/f")` looks for a directory with an empty path. -/
theorem newWorld_creat_fails : Creatable newWorld [] [0x66] ∧
    ¬ CreatesFile newWorld [] ([] ++ slash :: [0x66])
      ⟨⟨fun _ => 0, fun _ => 0, fun _ => 0, 0⟩, fun _ => 0, fun _ => 0, fun _ => 0, fun _ => 0, fun _ => 0⟩
      ⟨fun _ => 0, fun _ => 0, fun _ => 0, 0⟩ := by
  refine ⟨newWorld_creatable, ?_⟩
  rintro ⟨w', ret, hcreat, hret, -⟩
  obtain ⟨-, rfl⟩ : newWorld = w' ∧ (-1 : Int) = ret := Prod.mk.inj (Option.some.inj hcreat)
  exact absurd hret (by decide)

end SystemProjects.Simdisk
