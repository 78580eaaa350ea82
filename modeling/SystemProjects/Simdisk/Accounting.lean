import Mathlib.Data.List.Perm.Subperm
import SystemProjects.Simdisk.Files
import SystemProjects.Simdisk.Format

/-!
# The counters of the super block
-/

open SystemProjects.Memory SystemProjects.Bitmap SystemProjects.Run

namespace SystemProjects.Simdisk

/-! ## What is claimed -/

def inodeNumber (d : Device) : Int := loadInt d.file 8
def freeBlk (d : Device) : Int := loadInt d.file 12
def freeInode (d : Device) : Int := loadInt d.file 16

/-- How many of the first `n` bits are clear. -/
def clearBits (bm : Mem) (n : Nat) : Nat := (List.range n).countP fun x => !isSet bm x

structure Accounted (d : Device) : Prop where
  blocks : freeBlk d = clearBits (blockMap d) 99884
  inodes : freeInode d = clearBits (inodeMap d) (inodeNumber d).toNat

def stepOp (w : World) (op : Op) : Option World := (stepWorld w op).map Prod.fst

def AccountedRun (w : World) (ops : List Op) : Prop :=
  ∀ before after, ops = before ++ after → ∀ w', run stepOp w before = some w' → Accounted w'.dev

def Op.allocates : Op → Bool
  | .creat _ _ => false
  | _ => true

/-! ## Counting -/

theorem clearBits_ge {bm : Mem} {n : Nat} {set : List Nat} (h : ∀ x < n, isSet bm x = true → x ∈ set) :
    n ≤ clearBits bm n + set.length := by
  have hset : ((List.range n).filter fun x => isSet bm x).length ≤ set.length := by
    apply (List.subperm_of_subset (List.nodup_range.filter _) _).length_le
    intro x hx
    obtain ⟨hlt, hbit⟩ := List.mem_filter.mp hx
    exact h x (List.mem_range.mp hlt) hbit
  have hclear : (List.range n).countP (fun x => decide (¬ isSet bm x = true)) = clearBits bm n :=
    List.countP_congr fun x _ => by simp
  have hsum := List.length_eq_countP_add_countP (fun x => isSet bm x) (l := List.range n)
  rw [List.length_range, List.countP_eq_length_filter, hclear] at hsum
  omega

/-! ## Allocation -/

/-- What every allocation keeps: the counters, and few bits in the inode map. -/
structure Counted (d : Device) : Prop where
  inv : Inv d
  number : inodeNumber d = 10000
  free : freeInode d = 2499
  bits : ∀ x < 10000, isSet (inodeMap d) x = true → x ∈ [0, 1, 18]

theorem Counted.not_accounted {d : Device} (h : Counted d) : ¬ Accounted d := by
  intro ha
  have hcount := ha.inodes
  have hge := clearBits_ge h.bits
  rw [h.free, h.number] at hcount
  change (2499 : Int) = (clearBits (inodeMap d) 10000 : Nat) at hcount
  change 10000 ≤ clearBits (inodeMap d) 10000 + 3 at hge
  omega

/-- An allocation changes the first block of its map only. -/
theorem acquire_other {start stop table limit : Nat} {d d' : Device} {bits : Mem} {r : Int}
    (hstop : start < stop) (heq : acquire start stop table limit d bits = some (d', r)) {x : Nat}
    (hx : x < start * blocksize ∨ start * blocksize + blocksize ≤ x) : d'.file x = d.file x := by
  obtain ⟨n, hn⟩ : ∃ n, stop - start = n + 1 := ⟨stop - start - 1, by omega⟩
  rw [acquire, hn, List.range'_succ, scanMap_cons, Option.bind_some] at heq
  simp only at heq
  split at heq
  · obtain ⟨rfl, -⟩ := Prod.mk.inj (Option.some.inj heq)
    rfl
  · split at heq
    · obtain ⟨rfl, -⟩ := Prod.mk.inj (Option.some.inj heq)
      exact writeBlock_other hx
    · cases heq

theorem Counted.of_file {d d' : Device} (h : Counted d) (hinv : Inv d')
    (hsuper : ∀ x < 20, d'.file x = d.file x)
    (hbits : ∀ x < 10000, isSet (inodeMap d') x = true → x ∈ [0, 1, 18]) : Counted d' := by
  refine ⟨hinv, ?_, ?_, hbits⟩
  · rw [← h.number]
    exact congrArg (fun v => (BitVec.ofNat 32 v).toInt) (load32_congr fun x _ hx => hsuper x (by omega))
  · rw [← h.free]
    exact congrArg (fun v => (BitVec.ofNat 32 v).toInt) (load32_congr fun x _ hx => hsuper x (by omega))

theorem getBlock_counted {d : Device} (h : Counted d) (bits : Mem) :
    ∃ d' r, getBlock d bits = some (d', r) ∧ Counted d' := by
  obtain ⟨d', heq, hinv, -⟩ := getBlock_spec h.inv bits
  have hother : ∀ x, x < 1024 ∨ 2048 ≤ x → d'.file x = d.file x :=
    fun x hx => acquire_other (by decide) heq hx
  refine ⟨d', _, heq, h.of_file hinv (fun x hx => hother x (by omega)) fun x hx hbit => h.bits x hx ?_⟩
  rw [isSet, inodeMap] at hbit ⊢
  rwa [hother _ (.inr (Nat.le_add_right_of_le (by decide)))] at hbit

theorem getInode_counted {d : Device} (h : Counted d) (bits : Mem) :
    ∃ d' r, getInode d bits = some (d', r) ∧ Counted d' := by
  obtain ⟨d', heq, hinv, hmap, -⟩ := getInode_spec h.inv bits
  have hother : ∀ x < 14336, d'.file x = d.file x := fun x hx => acquire_other (by decide) heq (.inl hx)
  refine ⟨d', _, heq, h.of_file hinv (fun x hx => hother x (by omega)) fun x hx hbit => ?_⟩
  rw [hmap, isSet_setBit, Bool.or_eq_true, decide_eq_true_eq] at hbit
  rcases hbit with rfl | hbit
  · decide
  · exact h.bits x hx hbit

theorem mkfsWorld_counted {d : Device} (h : Blank d) (root rootBlock : Mem) :
    Counted (mkfsWorld d root rootBlock).dev := by
  have hf : Formatted d (mkfsWorld d root rootBlock).dev _ root rootBlock :=
    myMkfs_formatted h.devOpen (by rw [h.readBlock]; decide) root rootBlock
  rw [h.readBlock] at hf
  have hsuper : ∀ a, a + 4 ≤ 1024 → load32 (mkfsWorld d root rootBlock).dev.file a =
    load32 (superBlock 102400) a := by
    intro a ha
    apply load32_congr
    intro x _ hx
    exact hf.super x (by unfold blocksize; omega)
  refine ⟨hf.inv, ?_, ?_, fun x hx hbit => ?_⟩
  · rw [inodeNumber, loadInt, hsuper 8 (by decide), superBlock, load32_store32_other (.inl (by decide)),
      load32_store32_other (.inl (by decide)), load32_store32]
    rfl
  · rw [freeInode, loadInt, hsuper 16 (by decide), superBlock, load32_store32]
    rfl
  · have hbyte : inodeMap (mkfsWorld d root rootBlock).dev (x / 8) = firstBits 0xc0 (x / 8) := by
      by_cases hlt : x / 8 < 1024
      · refine (hf.inodeMap _ hlt).trans ?_
        rfl
      · rw [firstBits, if_neg (by omega), inodeMap]
        refine (hf.others _ ?_ ?_ (.inr ?_)).trans (h.zero _)
        all_goals unfold inodeMapStart blocksize
        · omega
        · unfold inodeTableStart
          omega
        · omega
    rw [isSet, hbyte] at hbit
    have h01 := (isSet_firstBits_inode x).symm.trans hbit
    rw [decide_eq_true_eq] at h01
    rcases h01 with rfl | rfl
    · decide
    · decide

/-! ## Runs -/

theorem stepOp_counted (w : World) (op : Op) (h : Counted w.dev) (hop : op.allocates = true) :
    ∃ w', stepOp w op = some w' ∧ Counted w'.dev := by
  cases op with
  | creat path junk => cases hop
  | getBlock bits =>
    obtain ⟨d', r, heq, hc⟩ := getBlock_counted h bits
    exact ⟨{ w with dev := d' }, by rw [stepOp, stepWorld, heq]; rfl, hc⟩
  | getInode bits =>
    obtain ⟨d', r, heq, hc⟩ := getInode_counted h bits
    exact ⟨{ w with dev := d' }, by rw [stepOp, stepWorld, heq]; rfl, hc⟩

theorem along_allocates {ops : List Op} (h : ∀ op ∈ ops, op.allocates = true) (w : World) :
    Along stepOp (fun _ op => op.allocates = true) w ops := by
  induction ops generalizing w with
  | nil => trivial
  | cons op ops ih =>
    exact ⟨h op List.mem_cons_self, fun w' _ => ih (fun o ho => h o (List.mem_cons_of_mem op ho)) w'⟩

/-- **The counters.** They are wrong in the first state of every run, and in every state that calls of `get_block`
and `get_inode` lead to. -/
theorem accounted_never (d : Device) (h : Blank d) (root rootBlock : Mem) (ops : List Op) :
    ¬ AccountedRun (mkfsWorld d root rootBlock) ops ∧ ((∀ op ∈ ops, op.allocates = true) →
      ∃ w, run stepOp (mkfsWorld d root rootBlock) ops = some w ∧ ¬ Accounted w.dev) := by
  have hmkfs := mkfsWorld_counted h root rootBlock
  constructor
  · intro hall
    exact hmkfs.not_accounted (hall [] ops rfl _ rfl)
  · intro hops
    obtain ⟨w, hrun, hw⟩ := run_invariant stepOp_counted ops _ hmkfs (along_allocates hops _)
    exact ⟨w, hrun, hw.not_accounted⟩

theorem newDisk_accounted_never : ¬ AccountedRun (mkfsWorld newDisk (fun _ => 0) fun _ => 0)
    [.getBlock fun _ => 0] :=
  (accounted_never newDisk ⟨fun _ => rfl, rfl, rfl⟩ _ _ [.getBlock fun _ => 0]).1

/-- `my_mkfs` itself counts 2499 free inodes. -/
theorem newDisk_not_accounted :
    Blank newDisk ∧ ¬ AccountedRun (mkfsWorld newDisk (fun _ => 0) fun _ => 0) [] := by
  have hblank : Blank newDisk := ⟨fun _ => rfl, rfl, rfl⟩
  exact ⟨hblank, fun hall => (mkfsWorld_counted hblank _ _).not_accounted (hall [] [] rfl _ rfl)⟩

end SystemProjects.Simdisk
