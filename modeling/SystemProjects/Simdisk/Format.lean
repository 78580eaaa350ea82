import SystemProjects.Simdisk.Inodes

/-!
# The file system after `my_mkfs`
-/

open SystemProjects.Memory SystemProjects.Bitmap

namespace SystemProjects.Simdisk

/-! ## What is claimed -/

/-- Record `inum` of the inode table. -/
def inodeAt (d : Device) (inum : Nat) : Mem := fun x => d.file (inodeTableStart * blocksize + inum * 256 + x)

def dirAt (d : Device) (block : Nat) : Mem := fun x => d.file (block * blocksize + x)

/-- Entry `i` of a directory. -/
def dentryAt (dir : Mem) (i : Nat) : Mem := fun x => dir (64 * i + x)

/-- The string at `a` is `s`. -/
def IsString (m : Mem) (a : Nat) (s : String) : Prop :=
  ∀ k ≤ s.length, m (a + k) = BitVec.ofNat 8 ((s.toList.map Char.toNat)[k]?.getD 0)

def IsRootEntry (dentry : Mem) (name : String) : Prop :=
  load32 dentry 0 = 1 ∧ load32 dentry 4 = dirType ∧ IsString dentry 12 name

/-- A directory whose only block is the first data block. -/
def IsRootInode (inode : Mem) : Prop :=
  load32 inode 0 = dirType ∧ load32 inode 32 = blockTableStart ∧
    (∀ i, 1 ≤ i → i < 10 → load32 inode (32 + 4 * i) = minusOne) ∧
    ∀ i < 30, load32 inode (72 + 4 * i) = minusOne

structure EmptyFs (d : Device) : Prop where
  blockBits : ∀ x < (inodeMapStart - blockMapStart) * 8192, isSet (blockMap d) x = decide (x = 0)
  inodeBits : ∀ x < (inodeTableStart - inodeMapStart) * 8192, isSet (inodeMap d) x = decide (x = 0 ∨ x = 1)
  inode : IsRootInode (inodeAt d 1)
  self : IsRootEntry (dentryAt (dirAt d blockTableStart) 0) "."
  parent : IsRootEntry (dentryAt (dirAt d blockTableStart) 1) ".."
  others : ∀ i, 2 ≤ i → i < 16 → load32 (dentryAt (dirAt d blockTableStart) i) 0 = 0

/-- What `my_mkfs` does not clear is zero already. -/
structure Clean (d : Device) (rootBlock : Mem) : Prop where
  super : ∀ x, 1 ≤ x → x < blocksize → d.file x = 0
  maps : ∀ x, 2 * blocksize ≤ x → x < inodeTableStart * blocksize →
    x < inodeMapStart * blocksize ∨ inodeMapStart * blocksize + blocksize ≤ x → d.file x = 0
  entries : ∀ i, 2 ≤ i → i < 16 → load32 (dentryAt rootBlock i) 0 = 0

/-! ## Bits and bytes -/

def firstBits (b : Byte) : Mem := fun x => if x = 0 then b else 0

theorem isSet_firstBits_block (x : Nat) : isSet (firstBits 0x80) x = decide (x = 0) := by
  unfold isSet firstBits
  by_cases h : x < 8
  · rw [if_pos (by omega)]
    revert x
    decide
  · rw [if_neg (by omega), decide_eq_false (by omega)]
    exact BitVec.getLsbD_zero

theorem isSet_firstBits_inode (x : Nat) : isSet (firstBits 0xc0) x = decide (x = 0 ∨ x = 1) := by
  unfold isSet firstBits
  by_cases h : x < 8
  · rw [if_pos (by omega)]
    revert x
    decide
  · rw [if_neg (by omega), decide_eq_false (by omega)]
    exact BitVec.getLsbD_zero

/-- Before the root directory only the areas that `my_mkfs` leaves out can hold set bits. -/
theorem bits_iff_of_formatted {d d' : Device} {tmp root rootBlock : Mem}
    (h : Formatted d d' tmp root rootBlock) (htmp : ∀ x < blocksize, tmp x = d.file x) :
    ((∀ i < 13 * 1024, blockMap d' i = firstBits 0x80 i) ∧ ∀ i < 2 * 1024, inodeMap d' i = firstBits 0xc0 i) ↔
      (∀ x, 1 ≤ x → x < blocksize → d.file x = 0) ∧
        ∀ x, 2 * blocksize ≤ x → x < inodeTableStart * blocksize →
          x < inodeMapStart * blocksize ∨ inodeMapStart * blocksize + blocksize ≤ x → d.file x = 0 := by
  have hblock : ∀ i < 1024, blockMap d' i = if i = 0 then 0x80 else d.file i := by
    intro i hi
    refine (h.blockMap i hi).trans ?_
    rw [firstByte, htmp i hi]
  have hinode : ∀ i < 1024, inodeMap d' i = if i = 0 then 0xc0 else d.file i := by
    intro i hi
    refine (h.inodeMap i hi).trans ?_
    rw [firstByte, htmp i hi]
  have hrest : ∀ x, 2 * 1024 ≤ x → x < 16 * 1024 → x < 14 * 1024 ∨ 14 * 1024 + 1024 ≤ x →
      d'.file x = d.file x := h.others
  constructor
  · rintro ⟨hb, hi⟩
    constructor
    · intro x hx hlt
      have := hb x (Nat.lt_of_lt_of_le hlt (by decide))
      rwa [hblock x hlt, if_neg (by omega), firstBits, if_neg (by omega)] at this
    · intro x hx hlt hor
      change 2 * 1024 ≤ x at hx
      change x < 16 * 1024 at hlt
      change x < 14 * 1024 ∨ 14 * 1024 + 1024 ≤ x at hor
      rw [← hrest x hx hlt hor]
      rcases hor with hor | hor
      · have := hb (x - 1024) (by omega)
        rw [firstBits, if_neg (by omega)] at this
        rw [← this, blockMap]
        exact congrArg d'.file (show x = 1 * 1024 + (x - 1024) by omega)
      · have := hi (x - 14 * 1024) (by omega)
        rw [firstBits, if_neg (by omega)] at this
        rw [← this, inodeMap]
        exact congrArg d'.file (show x = 14 * 1024 + (x - 14 * 1024) by omega)
  · rintro ⟨hs, hm⟩
    have hs : ∀ x, 1 ≤ x → x < 1024 → d.file x = 0 := hs
    have hm : ∀ x, 2 * 1024 ≤ x → x < 16 * 1024 → x < 14 * 1024 ∨ 14 * 1024 + 1024 ≤ x → d.file x = 0 := hm
    constructor
    · intro i hi
      by_cases hlt : i < 1024
      · rw [hblock i hlt, firstBits]
        split
        · rfl
        · exact hs i (by omega) hlt
      · rw [firstBits, if_neg (by omega)]
        change d'.file (1 * 1024 + i) = 0
        rw [hrest _ (by omega) (by omega) (by omega), hm _ (by omega) (by omega) (by omega)]
    · intro i hi
      by_cases hlt : i < 1024
      · rw [hinode i hlt, firstBits]
        split
        · rfl
        · exact hs i (by omega) hlt
      · rw [firstBits, if_neg (by omega)]
        change d'.file (14 * 1024 + i) = 0
        rw [hrest _ (by omega) (by omega) (by omega), hm _ (by omega) (by omega) (by omega)]

/-! ## Records -/

theorem strcpy_other {m : Mem} {a x : Nat} {s : String} (h : x < a ∨ a + s.length < x) :
    strcpy m a s x = m x := if_neg (by omega)

theorem isString_strcpy (m : Mem) (a : Nat) (s : String) : IsString (strcpy m a s) a s := by
  intro k hk
  rw [strcpy, if_pos (by omega), Nat.add_sub_cancel_left]

theorem load32_strcpy {m : Mem} {a b : Nat} {s : String} (h : b + 4 ≤ a ∨ a + s.length < b) :
    load32 (strcpy m a s) b = load32 m b :=
  load32_congr fun _ _ _ => strcpy_other (by omega)

theorem foldl_store32_other {base a v : Nat} (l : List Nat) : ∀ m : Mem,
    (∀ i ∈ l, a + 4 ≤ base + 4 * i ∨ base + 4 * i + 4 ≤ a) →
    load32 (l.foldl (fun m i => store32 m (base + 4 * i) v) m) a = load32 m a := by
  induction l with
  | nil => intro m _; rfl
  | cons i l ih =>
    intro m h
    rw [List.foldl_cons, ih _ fun j hj => h j (List.mem_cons_of_mem i hj)]
    exact load32_store32_other (h i List.mem_cons_self)

theorem foldl_store32_mem {base v j : Nat} (l : List Nat) : ∀ m : Mem, j ∈ l →
    load32 (l.foldl (fun m i => store32 m (base + 4 * i) v) m) (base + 4 * j) = v % 2 ^ 32 := by
  induction l with
  | nil => intro m h; simp at h
  | cons i l ih =>
    intro m h
    rw [List.foldl_cons]
    by_cases hj : j ∈ l
    · exact ih _ hj
    · obtain rfl : j = i := (List.mem_cons.mp h).resolve_right hj
      rw [foldl_store32_other, load32_store32]
      intro k hk
      have hne : k ≠ j := fun heq => hj (heq ▸ hk)
      omega

theorem rootInode_isRootInode (root : Mem) : IsRootInode (rootInode root) := by
  refine ⟨?_, ?_, fun i hi hlt => ?_, fun i hi => ?_⟩
  · rw [rootInode, foldl_store32_other _ _ fun i _ => .inl (by omega),
      foldl_store32_other _ _ fun i _ => .inl (by omega), load32_store32_other (.inl (by decide)),
      load32_strcpy (.inl (by decide)), load32_store32_other (.inl (by decide)),
      load32_store32_other (.inl (by decide)), load32_store32_other (.inl (by decide)),
      load32_store32_other (.inl (by decide)), load32_store32]
    rfl
  · have hrange : ∀ i ∈ List.range' 1 9, 32 + 4 ≤ 32 + 4 * i ∨ 32 + 4 * i + 4 ≤ 32 := by
      intro i hi
      rw [List.mem_range'_1] at hi
      omega
    rw [rootInode, foldl_store32_other _ _ fun i _ => .inl (by omega), foldl_store32_other _ _ hrange,
      load32_store32]
    rfl
  · rw [rootInode, foldl_store32_other _ _ fun j _ => .inl (by omega),
      foldl_store32_mem _ _ (List.mem_range'_1.mpr (by omega))]
    rfl
  · rw [rootInode, foldl_store32_mem _ _ (List.mem_range.mpr hi)]
    rfl

theorem setDirEntry_other {m : Mem} {a inode type length x : Nat} {name : String}
    (h : x < a ∨ a + 12 + name.length < x) : setDirEntry m a inode type length name x = m x := by
  rw [setDirEntry, strcpy_other (by omega), store32_other (by omega), store32_other (by omega),
    store32_other (by omega)]

theorem setDirEntry_isRootEntry (m : Mem) (a : Nat) (name : String) :
    IsRootEntry (fun x => setDirEntry m a 1 dirType 32 name (a + x)) name := by
  refine ⟨?_, ?_, fun k hk => ?_⟩
  · change load32 (setDirEntry m a 1 dirType 32 name) a = 1
    rw [setDirEntry, load32_strcpy (.inl (by omega)), load32_store32_other (.inl (by omega)),
      load32_store32_other (.inl (by omega))]
    exact load32_store32 m a 1
  · change load32 (setDirEntry m a 1 dirType 32 name) (a + 4) = dirType
    rw [setDirEntry, load32_strcpy (.inl (by omega)), load32_store32_other (.inl (by omega)),
      load32_store32]
    rfl
  · change setDirEntry m a 1 dirType 32 name (a + (12 + k)) = _
    rw [← Nat.add_assoc, setDirEntry]
    exact isString_strcpy _ _ _ k hk

/-! ## The root directory -/

theorem IsRootEntry.congr {dentry dentry' : Mem} {name : String} (h : IsRootEntry dentry name)
    (hn : ∀ x ≤ 12 + name.length, dentry' x = dentry x) : IsRootEntry dentry' name := by
  obtain ⟨hinode, htype, hname⟩ := h
  refine ⟨?_, ?_, fun k hk => (hn _ (by omega)).trans (hname k hk)⟩
  · rw [← hinode]
    exact load32_congr fun x _ _ => hn x (by omega)
  · rw [← htype]
    exact load32_congr fun x _ _ => hn x (by omega)

theorem rootDir_self (rootBlock : Mem) : IsRootEntry (dentryAt (rootDir rootBlock) 0) "." := by
  apply (setDirEntry_isRootEntry rootBlock 0 ".").congr
  intro x hx
  have hlen : ".".length = 1 := rfl
  rw [dentryAt, rootDir, setDirEntry_other (.inl (by omega)), Nat.mul_zero]

theorem rootDir_parent (rootBlock : Mem) : IsRootEntry (dentryAt (rootDir rootBlock) 1) ".." :=
  setDirEntry_isRootEntry (setDirEntry rootBlock 0 1 dirType 32 ".") 64 ".."

theorem rootDir_others (rootBlock : Mem) {i : Nat} (hi : 2 ≤ i) :
    load32 (dentryAt (rootDir rootBlock) i) 0 = load32 (dentryAt rootBlock i) 0 := by
  apply load32_congr
  intro x _ _
  have hself : ".".length = 1 := rfl
  have hparent : "..".length = 2 := rfl
  rw [dentryAt, rootDir, setDirEntry_other (.inr (by omega)), setDirEntry_other (.inr (by omega)), dentryAt]

/-! ## What `my_mkfs` leaves -/

theorem Formatted.dentry {d d' : Device} {tmp root rootBlock : Mem}
    (h : Formatted d d' tmp root rootBlock) {i x : Nat}
    (hi : i < 16) (hx : x < 64) : dentryAt (dirAt d' blockTableStart) i x =
    dentryAt (rootDir rootBlock) i x :=
  h.dir _ (show 64 * i + x < 1024 by omega)

theorem Formatted.dentryInode {d d' : Device} {tmp root rootBlock : Mem}
    (h : Formatted d d' tmp root rootBlock)
    {i : Nat} (hi : i < 16) : load32 (dentryAt (dirAt d' blockTableStart) i) 0 =
      load32 (dentryAt (rootDir rootBlock) i) 0 := by
  apply load32_congr
  intro x _ hx
  exact h.dentry hi (by omega)

theorem Formatted.isRootInode {d d' : Device} {tmp root rootBlock : Mem}
    (h : Formatted d d' tmp root rootBlock) :
    IsRootInode (inodeAt d' 1) := by
  have hinode : ∀ a, a + 4 ≤ 256 → load32 (inodeAt d' 1) a = load32 (Simdisk.rootInode root) a := by
    intro a ha
    apply load32_congr
    intro x _ hx
    exact h.inode x (by omega)
  obtain ⟨h0, h1, h2, h3⟩ := rootInode_isRootInode root
  refine ⟨?_, ?_, fun i hi hlt => ?_, fun i hi => ?_⟩
  · rw [hinode _ (by omega), h0]
  · rw [hinode _ (by omega), h1]
  · rw [hinode _ (by omega), h2 i hi hlt]
  · rw [hinode _ (by omega), h3 i hi]

theorem Formatted.self {d d' : Device} {tmp root rootBlock : Mem} (h : Formatted d d' tmp root rootBlock) :
    IsRootEntry (dentryAt (dirAt d' blockTableStart) 0) "." :=
  (rootDir_self rootBlock).congr fun _ hx => h.dentry (by decide) (Nat.lt_of_le_of_lt hx (by decide))

theorem Formatted.parent {d d' : Device} {tmp root rootBlock : Mem} (h : Formatted d d' tmp root rootBlock) :
    IsRootEntry (dentryAt (dirAt d' blockTableStart) 1) ".." :=
  (rootDir_parent rootBlock).congr fun _ hx => h.dentry (by decide) (Nat.lt_of_le_of_lt hx (by decide))

/-- **Formatting.** What `my_mkfs` leaves is an empty file system exactly when the bytes it does not clear
are zero already: the old block 0 behind its first byte, the other blocks of both maps, and the inode numbers
in the unused entries of the memory for the root directory. -/
theorem emptyFs_iff (d : Device) (hopen : d.isOpen = true) (hdev : d.devsize = 102400)
    (hmagic : load32 d.file 0 ≠ 2018) (root rootBlock : Mem) :
    EmptyFs (myMkfs d root rootBlock) ↔ Clean d rootBlock := by
  have htmp : ∀ x < blocksize, (readBlock d 0 fun _ => 0).1 x = d.file x := by
    intro x hx
    have h0 : (readBlock d 0 fun _ => 0).1 x = d.file (0 * blocksize + x) :=
      readBlock_self (show 0 < d.devsize by omega) hx
    rwa [Nat.zero_mul, Nat.zero_add] at h0
  have hf := myMkfs_formatted (d := d) (by rw [devOpen, hopen]; exact hdev) (by
    rw [load32_congr fun x _ hx => htmp x (Nat.lt_trans hx (by decide))]
    exact hmagic) root rootBlock
  have hbits := bits_iff_of_formatted hf htmp
  constructor
  · intro h
    obtain ⟨hs, hm⟩ := hbits.mp ⟨isSet_eq_iff.mp fun x hx => (h.blockBits x hx).trans
      (isSet_firstBits_block x).symm, isSet_eq_iff.mp fun x hx => (h.inodeBits x hx).trans
      (isSet_firstBits_inode x).symm⟩
    refine ⟨hs, hm, fun i hi hlt => ?_⟩
    rw [← rootDir_others rootBlock hi, ← hf.dentryInode hlt]
    exact h.others i hi hlt
  · rintro ⟨hs, hm, he⟩
    obtain ⟨hb, hi⟩ := hbits.mpr ⟨hs, hm⟩
    refine ⟨fun x hx => ?_, fun x hx => ?_, hf.isRootInode, hf.self, hf.parent, fun i hi hlt => ?_⟩
    · exact (isSet_eq_iff.mpr hb x hx).trans (isSet_firstBits_block x)
    · exact (isSet_eq_iff.mpr hi x hx).trans (isSet_firstBits_inode x)
    · rw [hf.dentryInode hlt, rootDir_others rootBlock hi]
      exact he i hi hlt

def openedDisk (file : Mem) : Device :=
  { file := file, stSize := 102400 * blocksize, isOpen := true, devsize := 102400 }

/-- Old data in the first byte, in block 1 and behind the maps. -/
def oldData : Mem := fun x => if x = 0 ∨ x = 1030 ∨ inodeTableStart * blocksize ≤ x then 0x5A else 0

theorem oldData_emptyFs : EmptyFs (myMkfs (openedDisk oldData) (fun _ => 0xFF) fun _ => 0) := by
  have hzero : ∀ x, x ≠ 0 → x ≠ 1030 → x < inodeTableStart * blocksize → oldData x = 0 :=
    fun x h0 h1 h2 => if_neg (by omega)
  refine (emptyFs_iff (openedDisk oldData) rfl rfl (by decide) _ _).mpr ⟨fun x h1 h2 => ?_,
    fun x h1 h2 _ => ?_, fun i _ _ => rfl⟩
  · exact hzero x (by omega) (by unfold blocksize at h2; omega)
      (by unfold inodeTableStart blocksize at *; omega)
  · exact hzero x (by unfold blocksize at h1; omega) (by unfold blocksize at h1; omega) h2

/-- Old data in block 0 goes into both bitmaps. -/
theorem openedDisk_ones_not_emptyFs : load32 (openedDisk fun _ => 0xff).file 0 ≠ 2018 ∧
    ¬ EmptyFs (myMkfs (openedDisk fun _ => 0xff) (fun _ => 0) fun _ => 0) := by
  refine ⟨by decide, fun h => ?_⟩
  have hf := myMkfs_formatted (d := openedDisk fun _ => 0xff) rfl (by decide) (fun _ => 0) fun _ => 0
  have hbit := h.blockBits 8 (by decide)
  have hbyte : blockMap (myMkfs (openedDisk fun _ => 0xff) (fun _ => 0) fun _ => 0) 1 = 0xff :=
    hf.blockMap 1 (by decide)
  rw [isSet, show 8 / 8 = 1 from rfl, hbyte] at hbit
  exact absurd hbit (by decide)

end SystemProjects.Simdisk
