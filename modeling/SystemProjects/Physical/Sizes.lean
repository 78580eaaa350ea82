import SystemProjects.Physical.Termination

/-!
# The bitmap and the memory it stands for

`physical_init` computes the size of the bitmap and the end of memory from `mem_upper`, each in 32 bits.
-/

open SystemProjects.Memory SystemProjects.Bitmap

namespace SystemProjects.Physical

variable {image : Image} {m : MultibootInfo} {s s' : State} {a b stop : Nat}

/-- The values of the variable of a page loop from `a` on. -/
inductive PageFrom (stop : Nat) : Nat → Nat → Prop
  | here {a : Nat} (h : a < stop) : PageFrom stop a a
  | next {a b : Nat} (h : a < stop) (hb : PageFrom stop (dword (a + size4kb)) b) : PageFrom stop a b

/-- The ranges that `physical_pageAllocLimit` is called for. -/
inductive Searched (s : State) : Nat → Nat → Prop
  | high (h : s.physicalMaxAddress > physicalHighPaddress) :
    Searched s physicalHighPaddress s.physicalMaxAddress
  | all (h : physicalHighPaddress > s.physicalMaxAddress) :
    Searched s physicalLowPaddress s.physicalMaxAddress
  | low (h : ¬ physicalHighPaddress > s.physicalMaxAddress) :
    Searched s physicalLowPaddress physicalHighPaddress

/-- The addresses whose bit is tested, set or cleared. `physical_init` clears bits by `physical_pageFree`. -/
inductive Touched (image : Image) (m : MultibootInfo) (s : State) : Nat → Prop
  | vga (h : m.flags &&& multibootFlagMmap ≠ multibootFlagMmap) : Touched image m s kernelVgaPaddress
  | kernel {a : Nat} (h : PageFrom (dword (v2p image.stop + s.physicalBitmapSize)) (v2p image.start) a) :
      Touched image m s a
  | search {low high a : Nat} (h : Searched s low high) (ha : PageFrom high low a) : Touched image m s a
  | free {a : Nat} (h : a ≠ 0 ∧ a < s.physicalMaxAddress) : Touched image m s a

/-- The bitmap has a bit for each page of memory and no more, and no bit outside of it is touched. -/
structure Covers (image : Image) (m : MultibootInfo) (s : State) : Prop where
  agree : s.physicalMaxAddress = s.physicalBitmapSize * 8 * size4kb
  inside : v2p image.stop + s.physicalBitmapSize ≤ s.physicalMaxAddress → ∀ a, Touched image m s a →
    bitmapByteIndex a < s.physicalBitmapSize

/-! ## The sizes -/

theorem sized_size (s : State) (hm : m.memUpper < 2 ^ 32) :
    (sized m s).physicalBitmapSize = 32 * (m.memUpper / size1kb + 1) := by
  change dword ((m.memUpper / size1kb + 1) * 256) / 8 = _
  unfold dword size1kb
  omega

theorem sized_vga (s : State) (hm : m.memUpper < 2 ^ 32) : InBitmap (sized m s) kernelVgaPaddress := by
  have hbyte : bitmapByteIndex kernelVgaPaddress = 23 := by decide
  have hpos : 0 < m.memUpper / size1kb + 1 := Nat.succ_pos _
  rw [InBitmap, sized_size s hm, hbyte]
  omega

/-! ## The bits that are touched -/

theorem pageFrom_lt (h : PageFrom stop a b) : b < stop := by
  induction h with
  | here h => exact h
  | next _ _ ih => exact ih

theorem Searched.high_le {low high : Nat} (h : Searched s low high) : high ≤ s.physicalMaxAddress := by
  cases h <;> omega

theorem touched_inside (hm : m.memUpper < 2 ^ 32) (hb : SameBounds (sized m s) s')
    (hfits : v2p image.stop + s'.physicalBitmapSize ≤ s'.physicalMaxAddress) (h : Touched image m s' a) :
    InBitmap s' a := by
  have hs := (sized_inv m s).of_sameBounds hb
  cases h with
  | vga _ =>
    have hvga := sized_vga s hm
    rwa [InBitmap, ← hb.1] at hvga
  | free h => exact hs.inBitmap h.2
  | search h ha => exact hs.inBitmap (Nat.lt_of_lt_of_le (pageFrom_lt ha) h.high_le)
  | kernel h =>
    apply hs.inBitmap
    refine Nat.lt_of_lt_of_le (pageFrom_lt h) ?_
    exact Nat.le_trans (Nat.mod_le _ _) hfits

theorem covers_of_bounds (hm : m.memUpper < 2 ^ 32) (hb : SameBounds (sized m s) s') :
    Covers image m s' ↔ m.memUpper / size1kb + 1 < 4096 := by
  have hmax : s'.physicalMaxAddress = dword (2 ^ 20 * (m.memUpper / size1kb + 1)) := hb.2
  have hiff : s'.physicalMaxAddress = s'.physicalBitmapSize * 8 * size4kb ↔
    m.memUpper / size1kb + 1 < 4096 := by
    rw [hmax, hb.1, sized_size s hm]
    unfold dword size4kb
    omega
  rw [← hiff]
  constructor
  · exact fun h => h.agree
  · exact fun h => ⟨h, fun hfits a ha => touched_inside hm hb hfits ha⟩

/-! ## The whole of `physical_init` -/

theorem kernelPages_end (hs : Inv s) (hstop : stop ≤ s.physicalMaxAddress) (hb : SameBounds s s')
    (ha : a < 2 ^ 32) :
    ∃ t, eachPage physicalPageAllocAddress stop pageFuel s' a = some t := by
  refine eachPage_returns (I := SameBounds s) (fun t b ht hlt => ?_) (2 ^ 20) s' a hb ha ?_ ?_
  · have hin := (hs.of_sameBounds ht).inBitmap (a := b) (by rw [ht.2]; omega)
    obtain ⟨t1, h1, took⟩ := allocAddress_spec hin
    exact ⟨t1, h1, ht.trans took.bounds⟩
  · have := hs.aligned
    have := hs.lt
    unfold size4kb at *
    omega
  · have := hs.lt
    unfold size4kb
    omega

theorem mapped_returns (hm : m.memUpper < 2 ^ 32)
    (hscan : m.flags &&& multibootFlagMmap = multibootFlagMmap → ∀ t, Inv t → ScanEnds m t) :
    ∃ t, mapped m s = some t := by
  have hs := sized_inv m s
  unfold mapped
  split
  case isTrue hmmap =>
    refine (hscan hmmap _ ?_).returns
    exact ⟨hs.fits, hs.aligned, hs.lt⟩
  case isFalse =>
    have hvga := sized_vga s hm
    exact ⟨_, allocAddress_eq hvga⟩

/-- `physical_init` returns if the kernel is inside memory and the scan of the memory map ends. -/
theorem physicalInit_returns (image : Image) (m : MultibootInfo) (s : State)
    (hflags : m.flags &&& multibootFlagMem = multibootFlagMem) (hm : m.memUpper < 2 ^ 32)
    (hfits : v2p image.stop + (sized m s).physicalBitmapSize ≤ (sized m s).physicalMaxAddress)
    (hscan : m.flags &&& multibootFlagMmap = multibootFlagMmap → ∀ t, Inv t → ScanEnds m t) :
    ∃ s', physicalInit image m s = some (s', SUCCESS) := by
  obtain ⟨t, ht⟩ := mapped_returns (s := s) hm hscan
  have hle : dword (v2p image.stop + (sized m s).physicalBitmapSize) ≤ (sized m s).physicalMaxAddress :=
    Nat.le_trans (Nat.mod_le _ _) hfits
  have hstart : v2p image.start < 2 ^ 32 := Nat.mod_lt _ (by decide)
  obtain ⟨t', ht'⟩ := kernelPages_end (sized_inv m s) hle (mapped_bounds ht) hstart
  refine ⟨t', ?_⟩
  rw [physicalInit_eq, if_neg (not_not.mpr hflags), ht, Option.bind_some]
  exact congrArg (Option.map _) ht'

/-- **The size of the bitmap.** The two sizes agree exactly below 4 GB, once they are assigned and when `physical_init`
has returned. -/
theorem covers_iff (image : Image) (m : MultibootInfo) (s : State) (hm : m.memUpper < 2 ^ 32) :
    (Covers image m (sized m s) ↔ m.memUpper / size1kb + 1 < 4096) ∧
      ∀ s', physicalInit image m s = some (s', SUCCESS) →
        (Covers image m s' ↔ m.memUpper / size1kb + 1 < 4096) :=
  ⟨covers_of_bounds hm ⟨rfl, rfl⟩, fun _ h => covers_of_bounds hm (physicalInit_bounds h)⟩

/-- Only `mem_upper` is given. -/
def upperMemory (memUpper : Nat) : MultibootInfo := ⟨1, memUpper, 0, 0, fun _ => ⟨0, 0, 0, 0⟩⟩

theorem covers_2mb : ∃ s', physicalInit ⟨0xC0001000, 0xC0002000⟩ (upperMemory 1024) ⟨fun _ => 0, 0, 0⟩ =
    some (s', SUCCESS) ∧ Covers ⟨0xC0001000, 0xC0002000⟩ (upperMemory 1024) s' := by
  obtain ⟨s', hs'⟩ := physicalInit_returns ⟨0xC0001000, 0xC0002000⟩ (upperMemory 1024) ⟨fun _ => 0, 0, 0⟩
    (by decide) (by decide) (by decide) (fun h => absurd h (by decide))
  exact ⟨s', hs', ((covers_iff ⟨0xC0001000, 0xC0002000⟩ (upperMemory 1024) ⟨fun _ => 0, 0, 0⟩
    (by decide)).2 s' hs').mpr
    (by decide)⟩

/-- With 4 GB of memory the bitmap has 131072 bytes, and memory ends at 0. -/
theorem not_covers_4gb : ¬ Covers ⟨0xC0001000, 0xC0002000⟩ (upperMemory 4193280)
    (sized (upperMemory 4193280) ⟨fun _ => 0, 0, 0⟩) := by
  intro h
  exact absurd h.agree (by decide)

end SystemProjects.Physical
