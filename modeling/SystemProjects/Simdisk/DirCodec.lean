import SystemProjects.Simdisk.Files
import SystemProjects.Simdisk.Proofs

/-!
# A directory on the disk

`struct dir` has 32 entries of 64 bytes, and a block has 1024.
-/

open SystemProjects.Memory

namespace SystemProjects.Simdisk

variable {d : Device} {b k : Nat} {direc direc' buffer : Mem}

/-- The last two bytes of an entry are padding. -/
structure DirEntry where
  inode : Int
  type : Int
  length : Int
  name : CString
deriving DecidableEq

def dentry (direc : Mem) (k : Nat) : DirEntry where
  inode := dentryInode direc k
  type := dentryType direc k
  length := dentryLength direc k
  name := (List.range maxFileNameLength).map (dentryName direc k)

theorem loadInt_congr {a : Nat} (h : Agree direc direc' a (a + 4)) : loadInt direc a = loadInt direc' a := by
  unfold loadInt
  rw [h.load32 (Nat.le_refl a) (Nat.le_refl (a + 4))]

theorem dentry_congr (h : Agree direc direc' (64 * k) (64 * k + 64)) : dentry direc k = dentry direc' k := by
  have hint : ∀ f ≤ 8, loadInt direc (64 * k + f) = loadInt direc' (64 * k + f) := by
    intro f hf
    apply loadInt_congr
    intro x hx hx'
    exact h x (by omega) (by omega)
  have hname : ∀ x < 50, dentryName direc k x = dentryName direc' k x := by
    intro x hx
    exact h _ (by omega) (by omega)
  unfold dentry
  rw [DirEntry.mk.injEq]
  refine ⟨hint 0 (by omega), hint 4 (by omega), hint 8 (by omega), List.map_congr_left fun x hx => ?_⟩
  exact hname x (List.mem_range.mp hx)

/-! ## Through the disk -/

/-- The block is on the disk, and its offset is an `int`. -/
structure OnDisk (d : Device) (b : Nat) : Prop where
  lt_devsize : b < d.devsize
  offset_lt : b * blocksize < 2 ^ 31

theorem readBlockAt_of_lt {b : Nat} (hb : b < d.devsize) (block : Mem) :
    readBlockAt d b block = some (readBlock d b block).1 := by
  unfold readBlockAt blocksize
  rw [if_neg (by omega), if_neg (by omega), if_neg (by omega), Int.toNat_natCast]

theorem writeBlockAt_of_lt {b : Nat} (hb : b < d.devsize) (block : Mem) :
    writeBlockAt d b block = some (writeBlock d b block).1 := by
  unfold writeBlockAt blocksize
  rw [if_neg (by omega), if_neg (by omega), if_neg (by omega), Int.toNat_natCast]

theorem readBlock_writeBlock (hb : OnDisk d b) :
    Agree (readBlock (writeBlock d b direc).1 b buffer).1 direc 0 blocksize := by
  intro x _ hx
  rw [readBlock_self (by rw [devsize_writeBlock]; exact hb.lt_devsize) hx, writeBlock_self hb.lt_devsize hx]

theorem readBlock_behind {x : Nat} (h : blocksize ≤ x) : (readBlock d b buffer).1 x = buffer x := by
  unfold readBlock
  split
  · rfl
  · simp only [Device.read]
    apply memcpy_other
    omega

theorem dentry_readBack (hb : OnDisk d b) (k : Nat) :
    dentry (readBlock (writeBlock d b direc).1 b buffer).1 k =
      if k < 16 then dentry direc k else dentry buffer k := by
  split
  · apply dentry_congr
    intro x hx hx'
    exact readBlock_writeBlock hb x (Nat.zero_le x) (by unfold blocksize; omega)
  · apply dentry_congr
    intro x hx hx'
    exact readBlock_behind (by unfold blocksize; omega)

/-- Writing the directory and reading it gives all of its entries, and the next block stays as it is. -/
structure Codec (d : Device) (b : Nat) (direc buffer : Mem) : Prop where
  entries : ∀ k < 32, dentry (readBlock (writeBlock d b direc).1 b buffer).1 k = dentry direc k
  next : ∀ x, (b + 1) * blocksize ≤ x → x < (b + 2) * blocksize → (writeBlock d b direc).1.file x = d.file x

theorem codec_iff (hb : OnDisk d b) (direc buffer : Mem) :
    Codec d b direc buffer ↔ ∀ k, 16 ≤ k → k < 32 → dentry buffer k = dentry direc k := by
  constructor
  · intro h k hk hk'
    rw [← h.entries k hk', dentry_readBack hb, if_neg (by omega)]
  · intro h
    refine ⟨fun k hk => ?_, fun x hx hx' => ?_⟩
    · rw [dentry_readBack hb]
      split
      · rfl
      · exact h k (by omega) hk
    · apply writeBlock_other
      rw [Nat.add_one_mul] at hx
      exact Or.inr hx

/-- The only entry in use is entry `k`. -/
def oneEntry (k : Nat) : Mem := fun x => if x = 64 * k then 1 else 0

theorem entry15_codec :
    Codec { newDisk with isOpen := true, devsize := 102400 } blockTableStart (oneEntry 15) fun _ => 0 :=
  (codec_iff ⟨by decide, by decide⟩ _ _).mpr fun k hk _ => dentry_congr fun x hx _ =>
    (if_neg (show x ≠ 64 * 15 by omega)).symm

theorem entry16_not_codec :
    ¬ Codec { newDisk with isOpen := true, devsize := 102400 } blockTableStart (oneEntry 16) fun _ => 0 := by
  intro h
  have hentry := h.entries 16 (by decide)
  rw [dentry_readBack ⟨by decide, by decide⟩] at hentry
  exact absurd hentry (by decide)

end SystemProjects.Simdisk
