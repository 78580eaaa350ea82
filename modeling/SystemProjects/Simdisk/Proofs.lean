import SystemProjects.Simdisk.Code

/-!
# Allocation on the simulated disk
-/

open SystemProjects.Memory SystemProjects.Bitmap SystemProjects.Run

namespace SystemProjects.Simdisk

/-! ## Blocks -/

@[simp] theorem devsize_write (d : Device) (offset n : Nat) (buffer : Mem) :
    (d.write offset n buffer).devsize = d.devsize := rfl

@[simp] theorem devsize_writeBlock (d : Device) (blockNum : Nat) (block : Mem) :
    (writeBlock d blockNum block).1.devsize = d.devsize := by
  unfold writeBlock
  split <;> rfl

theorem write_other {d : Device} {offset n x : Nat} {buffer : Mem} (h : x < offset ∨ offset + n ≤ x) :
    (d.write offset n buffer).file x = d.file x := memcpy_other h

theorem writeBlock_other {d : Device} {i x : Nat} {block : Mem}
    (h : x < i * blocksize ∨ i * blocksize + blocksize ≤ x) : (writeBlock d i block).1.file x = d.file x := by
  unfold writeBlock
  split
  · rfl
  · exact write_other h

theorem writeBlock_self {d : Device} {i x : Nat} {block : Mem} (hi : i < d.devsize) (hx : x < blocksize) :
    (writeBlock d i block).1.file (i * blocksize + x) = block x := by
  rw [writeBlock, if_neg (by omega)]
  exact memcpy_self hx

theorem inodeOffset_of_slot {inum : Nat} (h : inum < 2 ^ 23 - 64) :
    inodeOffset inum = some ((inodeTableStart * blocksize + inum * 256 : Nat) : Int) := by
  unfold inodeOffset inodeTableStart blocksize
  rw [if_pos (by omega)]
  rfl

theorem writeInode_eq {d : Device} {inum : Nat} (hpos : 0 < inum) (hdev : inum < d.devsize)
    (h : inum < 2 ^ 23 - 64) (inode : Mem) :
    writeInode d inum inode = some (d.write (inodeTableStart * blocksize + inum * 256) 256 inode, 0) := by
  rw [writeInode, if_neg (by omega), inodeOffset_of_slot h, Option.map_some, if_neg (by omega)]
  rfl

theorem readBlock_self {d : Device} {i x : Nat} {block : Mem} (hi : i < d.devsize) (hx : x < blocksize) :
    (readBlock d i block).1 x = d.file (i * blocksize + x) := by
  rw [readBlock, if_neg (by omega)]
  exact if_pos ⟨Nat.zero_le x, by omega⟩

/-! ## The scan -/

/-- The comparison of a signed `char` with `0xff` never fails. -/
theorem scanByte_eq (bits : Mem) : scanByte bits = some 0 := by
  have hne : (bits 0).toInt ≠ 0xff := by
    have := BitVec.toInt_lt (x := bits 0)
    omega
  have hfind : ∀ n, (List.range (n + 1)).find? (fun j => (bits j).toInt ≠ 0xff) = some 0 := by
    intro n
    rw [List.range_succ_eq_map]
    simp [hne]
  exact hfind 1023

theorem scanMap_cons (d : Device) (bits : Mem) (i : Nat) (is : List Nat) :
    scanMap d bits (i :: is) = some (i, 0, (readBlock d i bits).1) := by
  rw [scanMap, scanByte_eq]
  rfl

def mapAt (start : Nat) (d : Device) : Mem := fun x => d.file (start * blocksize + x)

/-- So the number is the one of a bit of the first byte of the map, and the bit that is set is counted
from the start of the map without taking `table` off. -/
theorem acquire_spec {start : Nat} (stop table limit : Nat) {d : Device} {k : Nat} (bits : Mem)
    (hstop : start < stop) (hdev : start < d.devsize) (hk : scanBit (mapAt start d 0) = k)
    (hlimit : k + table < limit) (hmap : k + table < blocksize * 8) :
    ∃ d', acquire start stop table limit d bits = some (d', ((k + table : Nat) : Int)) ∧
      d'.devsize = d.devsize ∧ mapAt start d' = setBit (mapAt start d) (k + table) ∧
      ∀ x, x < start * blocksize ∨ start * blocksize + blocksize ≤ x → d'.file x = d.file x := by
  have hbits : ∀ x < blocksize, (readBlock d start bits).1 x = mapAt start d x :=
    fun x hx => readBlock_self hdev hx
  obtain ⟨n, hn⟩ : ∃ n, stop - start = n + 1 := ⟨stop - start - 1, by omega⟩
  refine ⟨(writeBlock d start (setBit (readBlock d start bits).1 (k + table))).1, ?_, ?_, ?_, ?_⟩
  · rw [acquire, hn, List.range'_succ, scanMap_cons]
    simp only [Option.bind_some, Nat.zero_mul, Nat.add_zero, Nat.sub_self]
    rw [hbits 0 (by decide), hk, if_neg (by omega), if_pos (by omega)]
  · exact devsize_writeBlock ..
  · funext x
    by_cases hx : x < blocksize
    · rw [mapAt, writeBlock_self hdev hx, setBit, setBit, hbits x hx]
    · rw [mapAt, writeBlock_other (by omega), setBit, if_neg (by omega)]
      rfl
  · intro x hx
    exact writeBlock_other hx

/-! ## What each call does -/

/-- What a formatted disk keeps: the first byte of each map. -/
structure Inv (d : Device) : Prop where
  devsize : d.devsize = 102400
  block : blockMap d 0 = 0x80
  inode : inodeMap d 0 = 0xc0

theorem getBlock_spec {d : Device} (h : Inv d) (bits : Mem) :
    ∃ d', getBlock d bits = some (d', 2517) ∧ Inv d' ∧ blockMap d' = setBit (blockMap d) 2517 := by
  have hk : scanBit (mapAt blockMapStart d 0) = 1 := by
    rw [show mapAt blockMapStart d 0 = 0x80 from h.block]
    decide
  obtain ⟨d', heq, hdev, hmap, hother⟩ := acquire_spec inodeMapStart blockTableStart 102400 bits
    (by decide) (by rw [h.devsize]; decide) hk (by decide) (by decide)
  refine ⟨d', heq, ⟨hdev.trans h.devsize, ?_, ?_⟩, hmap⟩
  · change mapAt blockMapStart d' 0 = _
    rw [hmap]
    exact h.block
  · exact (hother _ (.inr (by decide))).trans h.inode

theorem getInode_spec {d : Device} (h : Inv d) (bits : Mem) :
    ∃ d', getInode d bits = some (d', 18) ∧ Inv d' ∧ inodeMap d' = setBit (inodeMap d) 18 ∧
      ∀ x < (inodeMapStart - blockMapStart) * blocksize, blockMap d' x = blockMap d x := by
  have hk : scanBit (mapAt inodeMapStart d 0) = 2 := by
    rw [show mapAt inodeMapStart d 0 = 0xc0 from h.inode]
    decide
  obtain ⟨d', heq, hdev, hmap, hother⟩ := acquire_spec inodeTableStart inodeTableStart maxFileNum bits
    (by decide) (by rw [h.devsize]; decide) hk (by decide) (by decide)
  have hblock : ∀ x < (inodeMapStart - blockMapStart) * blocksize, blockMap d' x = blockMap d x :=
    fun x hx => hother _ (.inl (by unfold inodeMapStart blockMapStart blocksize at *; omega))
  refine ⟨d', heq, ⟨hdev.trans h.devsize, ?_, ?_⟩, hmap, hblock⟩
  · exact (hblock 0 (by decide)).trans h.block
  · change mapAt inodeMapStart d' 0 = _
    rw [hmap]
    exact h.inode

/-! ## The formatted disk -/

theorem firstByte_firstByte (m : Mem) (b b' : Byte) : firstByte (firstByte m b) b' = firstByte m b' := by
  funext x
  unfold firstByte
  split <;> rfl

/-- What `my_mkfs` leaves of the old contents `d`, where `tmp` is the old block 0. -/
structure Formatted (d d' : Device) (tmp root rootBlock : Mem) : Prop where
  devsize : d'.devsize = 102400
  super : ∀ x < blocksize, d'.file x = superBlock 102400 x
  blockMap : ∀ x < blocksize, d'.file (blockMapStart * blocksize + x) = firstByte tmp 0x80 x
  inodeMap : ∀ x < blocksize, d'.file (inodeMapStart * blocksize + x) = firstByte tmp 0xc0 x
  inode : ∀ x < 256, d'.file (inodeTableStart * blocksize + 256 + x) = rootInode root x
  dir : ∀ x < blocksize, d'.file (blockTableStart * blocksize + x) = rootDir rootBlock x
  others : ∀ x, 2 * blocksize ≤ x → x < inodeTableStart * blocksize →
    x < inodeMapStart * blocksize ∨ inodeMapStart * blocksize + blocksize ≤ x → d'.file x = d.file x

theorem myMkfs_formatted {d : Device} (hdev : (devOpen d).1.devsize = 102400)
    (hmagic : load32 (readBlock d 0 fun _ => 0).1 0 ≠ 2018) (root rootBlock : Mem) :
    Formatted d (myMkfs d root rootBlock) (readBlock d 0 fun _ => 0).1 root rootBlock := by
  have hfile : (devOpen d).1.file = d.file := by
    unfold devOpen
    split <;> rfl
  have hnum : (devOpen d).2 = 102400 := hdev
  rw [myMkfs, if_neg hmagic]
  generalize (readBlock d 0 fun _ => 0).1 = tmp
  generalize devOpen d = opened at hdev hfile hnum
  obtain ⟨d1, blockNum⟩ := opened
  have hnum : blockNum = 102400 := hnum
  have hdev : d1.devsize = 102400 := hdev
  have hfile : d1.file = d.file := hfile
  dsimp only
  rw [firstByte_firstByte]
  generalize hd3 : (writeBlock (writeBlock (writeBlock d1 0 (superBlock blockNum)).1 blockMapStart
    (firstByte tmp 0x80)).1 inodeMapStart (firstByte tmp 0xc0)).1 = d3
  have hdev3 : d3.devsize = 102400 := by simp [← hd3, hdev]
  have hinode : (writeInode d3 1 (rootInode root)).elim d3 Prod.fst =
      d3.write (inodeTableStart * blocksize + 1 * 256) 256 (rootInode root) := by
    rw [show (1 : Int) = (1 : Nat) from rfl, writeInode_eq (by decide) (by omega) (by decide)]
    rfl
  rw [hinode]
  -- The five areas do not meet, so each write is seen through the later ones.
  have harea : blocksize = 1024 ∧ blockMapStart * blocksize = 1024 ∧ inodeMapStart * blocksize = 14336 ∧
      inodeTableStart * blocksize = 16384 ∧
      blockTableStart * blocksize = 2576384 := by decide
  have hthrough : ∀ x, x < blockTableStart * blocksize →
      x < inodeTableStart * blocksize + 256 ∨ inodeTableStart * blocksize + 512 ≤ x →
      (writeBlock (d3.write (inodeTableStart * blocksize + 1 * 256) 256 (rootInode root)) blockTableStart
        (rootDir rootBlock)).1.file x = d3.file x := by
    intro x hx hx'
    rw [writeBlock_other (.inl hx), write_other (by omega)]
  refine ⟨by simp [hdev3], fun x hx => ?_, fun x hx => ?_, fun x hx => ?_, fun x hx => ?_, fun x hx => ?_,
    fun x hx hx' hne => ?_⟩
  · have hsuper : (writeBlock d1 0 (superBlock blockNum)).1.file (0 * blocksize + x) =
      superBlock blockNum x :=
      writeBlock_self (by omega) hx
    rw [Nat.zero_mul, Nat.zero_add, hnum] at hsuper
    rw [hthrough x (by omega) (by omega), ← hd3, writeBlock_other (by omega), writeBlock_other (by omega),
      hnum, hsuper]
  · rw [hthrough _ (by omega) (by omega), ← hd3, writeBlock_other (by omega)]
    exact writeBlock_self (by rw [devsize_writeBlock, hdev]; decide) hx
  · rw [hthrough _ (by omega) (by omega), ← hd3]
    exact writeBlock_self (by rw [devsize_writeBlock, devsize_writeBlock, hdev]; decide) hx
  · rw [writeBlock_other (by omega)]
    exact memcpy_self hx
  · apply writeBlock_self _ hx
    rw [devsize_write, hdev3, blockTableStart]
    omega
  · rw [hthrough x (by omega) (.inl (Nat.lt_add_right 256 hx')), ← hd3, writeBlock_other hne,
      writeBlock_other (.inr (by omega)), writeBlock_other (.inr (by omega)), hfile]

theorem Blank.devOpen {d : Device} (h : Blank d) : (devOpen d).1.devsize = 102400 := by
  have hdev := h.devsize
  unfold Simdisk.devOpen
  split
  · rename_i hopen
    rw [hopen] at hdev
    exact hdev
  · change d.stSize / blocksize = 102400
    rw [h.stSize]
    decide

theorem Blank.readBlock {d : Device} (h : Blank d) (i : Nat) : (readBlock d i fun _ => 0).1 = fun _ => 0 := by
  unfold Simdisk.readBlock Device.read
  split
  · rfl
  · funext x
    simp only [memcpy, h.zero, ite_self]

theorem Formatted.inv {d d' : Device} {tmp root rootBlock : Mem} (h : Formatted d d' tmp root rootBlock) :
    Inv d' :=
  ⟨h.devsize, h.blockMap 0 (by decide), h.inodeMap 0 (by decide)⟩

theorem myMkfs_inv {d : Device} (h : Blank d) (root rootBlock : Mem) : Inv (myMkfs d root rootBlock) := by
  apply Formatted.inv
  apply myMkfs_formatted h.devOpen
  rw [h.readBlock]
  decide

/-! ## Runs -/

theorem step_spec {d : Device} (h : Inv d) (c : Call) :
    ∃ d', step d c = some (d', if c.isBlock then 2517 else 18) ∧ Inv d' := by
  cases c with
  | getBlock bits =>
    obtain ⟨d', heq, hinv, -⟩ := getBlock_spec h bits
    exact ⟨d', heq, hinv⟩
  | getInode bits =>
    obtain ⟨d', heq, hinv, -⟩ := getInode_spec h bits
    exact ⟨d', heq, hinv⟩

/-- Block 2517 has bit 1, which `get_block` never sets. -/
theorem not_marks_getBlock {t : Transition Device Call Int} {bits : Mem} (h : Inv t.pre)
    (hact : t.act = .getBlock bits) (hstep : step t.pre t.act = some (t.post, t.out)) : ¬ Marks t := by
  rintro ⟨hmarks, -⟩
  obtain ⟨d', heq, hinv, -⟩ := getBlock_spec h bits
  rw [hact] at hstep
  obtain ⟨rfl, hout⟩ := Prod.mk.inj (Option.some.inj (heq.symm.trans hstep))
  have hbit : isSet (blockMap t.post) 1 = false := by
    rw [isSet, show blockMap t.post (1 / 8) = 0x80 from hinv.block]
    decide
  have h1 := hmarks 1 (by decide)
  rw [hbit, hact, ← hout] at h1
  simp [blockTableStart] at h1

theorem marks_getInode {t : Transition Device Call Int} {bits : Mem} (h : Inv t.pre)
    (hact : t.act = .getInode bits) (hstep : step t.pre t.act = some (t.post, t.out)) : Marks t := by
  obtain ⟨d', heq, -, hmap, hblock⟩ := getInode_spec h bits
  rw [hact] at hstep
  obtain ⟨rfl, hout⟩ := Prod.mk.inj (Option.some.inj (heq.symm.trans hstep))
  rw [Marks, hact, ← hout]
  constructor
  · intro x hx
    have hbyte : x / 8 < (inodeMapStart - blockMapStart) * blocksize := by unfold blocksize; omega
    rw [Bool.false_or, isSet, isSet, hblock _ hbyte]
  · intro x _
    have hnew : decide (x = 18) = decide ((18 : Int) = x) := by
      rw [decide_eq_decide]
      omega
    rw [hmap, isSet_setBit, hnew]

theorem numbers_of_inodes {ts : List (Transition Device Call Int)}
    (h : ∀ t ∈ ts, t.act.isBlock = false ∧ t.out = 18) :
    numbers true ts = [] ∧ numbers false ts = List.replicate ts.length 18 := by
  have hnone : (ts.filter fun t => t.act.isBlock = true ∧ t.out ≠ -1) = [] := by
    apply List.filter_eq_nil_iff.mpr
    intro t ht
    simp [(h t ht).1]
  have hall : (ts.filter fun t => t.act.isBlock = false ∧ t.out ≠ -1) = ts := by
    apply List.filter_eq_self.mpr
    intro t ht
    simp [(h t ht).1, (h t ht).2]
  constructor
  · rw [numbers, hnone, List.map_nil]
  · rw [numbers, hall]
    apply List.eq_replicate_iff.mpr ⟨List.length_map .., _⟩
    intro n hn
    obtain ⟨t, ht, rfl⟩ := List.mem_map.mp hn
    exact (h t ht).2

/-- **Allocation.** After `my_mkfs`, a run keeps the maps right exactly when it has no `get_block` and at
most one `get_inode`. -/
theorem exclusive_iff (d : Device) (h : Blank d) (root rootBlock : Mem) (calls : List Call) :
    ∃ ts, trace step (myMkfs d root rootBlock) calls = some ts ∧
      (Exclusive ts ↔ (∀ c ∈ calls, c.isBlock = false) ∧ calls.length ≤ 1) := by
  obtain ⟨ts, hts, hl, hpre⟩ := trace_invariant (fun d c hd => by
    obtain ⟨d', heq, hinv⟩ := step_spec hd c
    exact ⟨d', _, heq, hinv⟩) calls _ (myMkfs_inv h root rootBlock)
  have hstep : ∀ t ∈ ts, step t.pre t.act = some (t.post, t.out) := by
    intro t ht
    obtain ⟨u, us, rfl⟩ := List.append_of_mem ht
    exact hl.step_eq.1
  have hout : ∀ t ∈ ts, t.act.isBlock = false → t.out = 18 := by
    intro t ht hact
    obtain ⟨d', heq, -⟩ := step_spec (hpre t ht) t.act
    rw [hstep t ht, hact] at heq
    exact (Prod.mk.inj (Option.some.inj heq)).2
  have hacts := trace_act calls hts
  refine ⟨ts, hts, ?_⟩
  rw [← hacts, List.length_map, List.forall_mem_map]
  constructor
  · intro hex
    have hkind : ∀ t ∈ ts, t.act.isBlock = false := by
      intro t ht
      cases hact : t.act with
      | getBlock bits => exact absurd (hex.marks t ht) (not_marks_getBlock (hpre t ht) hact (hstep t ht))
      | getInode bits => rfl
    have hinodes := hex.inodes
    rw [(numbers_of_inodes fun t ht => ⟨hkind t ht, hout t ht (hkind t ht)⟩).2] at hinodes
    exact ⟨hkind, List.nodup_replicate.mp hinodes⟩
  · rintro ⟨hkind, hlen⟩
    have hnum := numbers_of_inodes fun t ht => ⟨hkind t ht, hout t ht (hkind t ht)⟩
    refine ⟨fun t ht _ => ?_, ?_, ?_, fun t ht => ?_⟩
    · have hk := hkind t ht
      rw [InRange, hout t ht hk]
      cases hact : t.act with
      | getBlock bits =>
        rw [hact] at hk
        cases hk
      | getInode bits => exact ⟨by decide, by decide⟩
    · rw [hnum.1]
      exact List.nodup_nil
    · rw [hnum.2]
      exact List.nodup_replicate.mpr hlen
    · have hk := hkind t ht
      cases hact : t.act with
      | getBlock bits =>
        rw [hact] at hk
        cases hk
      | getInode bits => exact marks_getInode (hpre t ht) hact (hstep t ht)

def newDisk : Device := { file := fun _ => 0, stSize := 102400 * blocksize, isOpen := false, devsize := 0 }

theorem newDisk_exclusive_iff :
    ∃ ts, trace step (myMkfs newDisk (fun _ => 0) fun _ => 0) [.getInode fun _ => 0] = some ts ∧
      (Exclusive ts ↔ (∀ c ∈ [Call.getInode fun _ => 0], c.isBlock = false) ∧
        [Call.getInode fun _ => 0].length ≤ 1) :=
  exclusive_iff newDisk ⟨fun _ => rfl, rfl, rfl⟩ _ _ [.getInode fun _ => 0]

/-- Two calls of `get_block` return one number. -/
theorem newDisk_two_blocks_not_exclusive :
    Blank newDisk ∧ ¬ ∃ ts, trace step (myMkfs newDisk (fun _ => 0) fun _ => 0)
      [.getBlock fun _ => 0, .getBlock fun _ => 0] = some ts ∧ Exclusive ts := by
  refine ⟨⟨fun _ => rfl, rfl, rfl⟩, ?_⟩
  rintro ⟨ts, hts, hex⟩
  have hinv := myMkfs_inv (d := newDisk) ⟨fun _ => rfl, rfl, rfl⟩ (fun _ => 0) fun _ => 0
  obtain ⟨d1, h1, hinv1, -⟩ := getBlock_spec hinv fun _ => 0
  obtain ⟨d2, h2, -⟩ := getBlock_spec hinv1 fun _ => 0
  have hstep1 : step _ (.getBlock fun _ => 0) = some (d1, 2517) := h1
  have hstep2 : step d1 (.getBlock fun _ => 0) = some (d2, 2517) := h2
  rw [trace_cons hstep1, trace_cons hstep2] at hts
  obtain rfl := Option.some.inj hts
  have hnodup : [(2517 : Int), 2517].Nodup := hex.blocks
  exact absurd hnodup (by decide)

end SystemProjects.Simdisk
