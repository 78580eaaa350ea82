import SystemProjects.Physical.Code

/-!
# Every page is handed out to one owner at a time
-/

open SystemProjects.Memory SystemProjects.Run SystemProjects.Bitmap

namespace SystemProjects.Physical

/-! ## The bitmap as a set of pages -/

def pageOf (a : Nat) : Nat := a / size4kb

abbrev InBitmap (s : State) (a : Nat) : Prop := bitmapByteIndex a < s.physicalBitmapSize

def Taken (s : State) (a : Nat) : Prop := physicalIsPageFree s a = some FAIL

def Free (s : State) (a : Nat) : Prop := physicalIsPageFree s a = some SUCCESS

theorem isPageFree_eq {s : State} {a : Nat} (h : InBitmap s a) :
    physicalIsPageFree s a = some (if isSet s.physicalBitmap (pageOf a) then FAIL else SUCCESS) := by
  have hand : s.physicalBitmap (bitmapByteIndex a) &&& 1#8 <<< bitmapBitIndex a = 0 ↔
    isSet s.physicalBitmap (pageOf a) = false := and_mask_eq_zero _ (pageOf a)
  rw [physicalIsPageFree, if_pos h]
  cases hset : isSet s.physicalBitmap (pageOf a) with
  | true =>
    rw [if_pos, if_pos rfl]
    intro h0
    simp [hset] at hand
    exact hand h0
  | false => rw [if_neg (not_not.mpr (hand.mpr hset)), if_neg (by simp)]

theorem taken_iff {s : State} {a : Nat} (h : InBitmap s a) :
    Taken s a ↔ isSet s.physicalBitmap (pageOf a) = true := by
  rw [Taken, isPageFree_eq h]
  split <;> simp_all [FAIL, SUCCESS]

theorem free_iff {s : State} {a : Nat} (h : InBitmap s a) :
    Free s a ↔ isSet s.physicalBitmap (pageOf a) = false := by
  rw [Free, isPageFree_eq h]
  split <;> simp_all [FAIL, SUCCESS]

theorem isPageFree_congr {s s' : State} {a : Nat} (hs : s'.physicalBitmapSize = s.physicalBitmapSize)
    (h : isSet s'.physicalBitmap (pageOf a) = isSet s.physicalBitmap (pageOf a)) :
    physicalIsPageFree s' a = physicalIsPageFree s a := by
  by_cases ha : InBitmap s a
  · rw [isPageFree_eq ha, isPageFree_eq (by unfold InBitmap; rw [hs]; exact ha), h]
  · have ha' : ¬ bitmapByteIndex a < s.physicalBitmapSize := ha
    rw [physicalIsPageFree, physicalIsPageFree, hs, if_neg ha', if_neg ha']

theorem isPageFree_page {s : State} {a b : Nat} (h : pageOf a = pageOf b) :
    physicalIsPageFree s a = physicalIsPageFree s b := by
  unfold physicalIsPageFree bitmapByteIndex bitmapBitIndex
  unfold pageOf at h
  rw [h]

/-- The two states differ in the bits of the bitmap only. -/
def SameBounds (s s' : State) : Prop :=
  s'.physicalBitmapSize = s.physicalBitmapSize ∧ s'.physicalMaxAddress = s.physicalMaxAddress

/-- `s'` is `s` with the page of `a` taken. -/
structure TookPage (s s' : State) (a : Nat) : Prop where
  bounds : SameBounds s s'
  taken : Taken s' a
  others : ∀ b, pageOf b ≠ pageOf a → physicalIsPageFree s' b = physicalIsPageFree s b

theorem allocAddress_eq {s : State} {a : Nat} (h : InBitmap s a) : physicalPageAllocAddress s a =
    some { s with physicalBitmap := setBit s.physicalBitmap (pageOf a) } := by
  rw [physicalPageAllocAddress, setByte, if_pos h]
  congr 2
  funext x
  by_cases hx : x = bitmapByteIndex a
  · subst hx
    simp [setBit, mask, pageOf, bitmapByteIndex, bitmapBitIndex]
  · rw [if_neg hx, setBit, if_neg (show x ≠ pageOf a / 8 from hx)]

theorem allocAddress_spec {s : State} {a : Nat} (h : InBitmap s a) :
    ∃ s', physicalPageAllocAddress s a = some s' ∧ TookPage s s' a := by
  refine ⟨_, allocAddress_eq h, ⟨rfl, rfl⟩, ?_, fun b hb => ?_⟩
  · refine (taken_iff ?_).mpr ?_
    · exact h
    · simp
  · refine isPageFree_congr ?_ ?_
    · rfl
    · simp [hb]

theorem pageFree_eq {s : State} {a : Nat} (ha : a ≠ 0 ∧ a < s.physicalMaxAddress) (h : InBitmap s a) :
    physicalPageFree s a = some { s with physicalBitmap := clearBit s.physicalBitmap (pageOf a) } := by
  rw [physicalPageFree, if_pos ha, setByte, if_pos h]
  congr 2
  funext x
  by_cases hx : x = bitmapByteIndex a
  · subst hx
    simp [clearBit, mask, pageOf, bitmapByteIndex, bitmapBitIndex]
  · rw [if_neg hx, clearBit, if_neg (show x ≠ pageOf a / 8 from hx)]

theorem pageFree_spec {s : State} {a : Nat} (h : a < s.physicalMaxAddress → InBitmap s a) :
    ∃ s', physicalPageFree s a = some s' ∧ SameBounds s s' ∧
      ∀ b, pageOf b ≠ pageOf a → physicalIsPageFree s' b = physicalIsPageFree s b := by
  by_cases ha : a ≠ 0 ∧ a < s.physicalMaxAddress
  · refine ⟨_, pageFree_eq ha (h ha.2), ⟨rfl, rfl⟩, fun b hb => ?_⟩
    refine isPageFree_congr ?_ ?_
    · rfl
    · simp [hb]
  · exact ⟨s, if_neg ha, ⟨rfl, rfl⟩, fun _ _ => rfl⟩

/-! ## The invariant -/

/-- Every page below `physical_maxAddress` has its bit. -/
structure Inv (s : State) : Prop where
  fits : s.physicalMaxAddress ≤ s.physicalBitmapSize * (8 * size4kb)
  aligned : s.physicalMaxAddress % size4kb = 0
  lt : s.physicalMaxAddress < 2 ^ 32

theorem Inv.inBitmap {s : State} (h : Inv s) {a : Nat} (ha : a < s.physicalMaxAddress) : InBitmap s a := by
  have := h.fits
  unfold InBitmap bitmapByteIndex size4kb at *
  omega

theorem Inv.of_sameBounds {s s' : State} (h : Inv s) (hs : SameBounds s s') : Inv s' := by
  obtain ⟨h1, h2⟩ := hs
  exact ⟨by rw [h1, h2]; exact h.fits, by rw [h2]; exact h.aligned, by rw [h2]; exact h.lt⟩

/-! ## Allocation -/

/-- What an allocation returns: `NULL` and nothing is changed, or a page that was free. -/
inductive Allocated (s : State) : State → Nat → Prop
  | none : Allocated s s 0
  | page {s' : State} {a : Nat} (aligned : a % size4kb = 0) (low : size4kb ≤ a)
      (high : a < s.physicalMaxAddress) (free : Free s a) (took : TookPage s s' a) : Allocated s s' a

theorem allocLimit_spec {s : State} (hs : Inv s) {high : Nat} (hh : high ≤ s.physicalMaxAddress)
    (hha : high % size4kb = 0) :
    ∀ fuel low, low % size4kb = 0 → size4kb ≤ low → 0 < fuel → high < low + fuel * size4kb →
      ∃ s' a, physicalPageAllocLimit fuel s low high = some (s', a) ∧ Allocated s s' a := by
  have hlt := hs.lt
  intro fuel
  induction fuel with
  | zero => intro _ _ _ h0; exact absurd h0 (Nat.lt_irrefl 0)
  | succ fuel ih =>
    intro low hal hlow _ hfuel
    rw [physicalPageAllocLimit]
    by_cases hend : low < high
    · have hin := hs.inBitmap (Nat.lt_of_lt_of_le hend hh)
      rw [if_pos hend, isPageFree_eq hin, Option.bind_some]
      by_cases hset : isSet s.physicalBitmap (pageOf low) = true
      · -- Taken: the search goes on at the next page.
        rw [if_pos hset, if_neg (by decide)]
        have hnext : dword (low + size4kb) = low + size4kb := by
          unfold dword size4kb at *
          omega
        rw [hnext]
        apply ih
        all_goals
          unfold size4kb at *
          omega
      · obtain ⟨s', hs', htook⟩ := allocAddress_spec hin
        rw [if_neg hset, if_pos rfl, hs']
        refine ⟨s', low, rfl, .page hal hlow (by omega) ?_ htook⟩
        exact (free_iff hin).mpr (Bool.eq_false_iff.mpr hset)
    · rw [if_neg hend]
      exact ⟨s, 0, rfl, .none⟩

theorem pageAllocHigh_spec {s : State} (hs : Inv s) :
    ∃ s' a, physicalPageAllocHigh s = some (s', a) ∧ Allocated s s' a := by
  rw [physicalPageAllocHigh]
  split
  · apply allocLimit_spec hs (Nat.le_refl _) hs.aligned
    · rfl
    · decide
    · decide
    · have := hs.lt
      unfold physicalHighPaddress pageFuel size4kb
      omega
  · exact ⟨s, 0, rfl, .none⟩

theorem pageAllocLow_spec {s : State} (hs : Inv s) :
    ∃ s' a, physicalPageAllocLow s = some (s', a) ∧ Allocated s s' a := by
  rw [physicalPageAllocLow]
  split
  · apply allocLimit_spec hs (Nat.le_refl _) hs.aligned
    · rfl
    · decide
    · decide
    · have := hs.lt
      unfold physicalLowPaddress pageFuel size4kb
      omega
  · apply allocLimit_spec hs (by omega) rfl <;> decide

theorem pageAlloc_spec {s : State} (hs : Inv s) :
    ∃ s' a, physicalPageAlloc s = some (s', a) ∧ Allocated s s' a := by
  obtain ⟨s', a, h, ha⟩ := pageAllocHigh_spec hs
  rw [physicalPageAlloc, h, Option.bind_some]
  cases ha with
  | none =>
    -- Nothing was changed above 16 MB, so the low search starts from the same state.
    obtain ⟨s', a, h, ha⟩ := pageAllocLow_spec hs
    exact ⟨s', a, by simpa using h, ha⟩
  | page aligned low high free took =>
    refine ⟨s', a, if_neg ?_, .page aligned low high free took⟩
    unfold size4kb at low
    omega

/-! ## Calls -/

/-- What a call does: an allocation, or a free that changes no page but the one of its address. -/
def Meets (s : State) (op : Op) (s' : State) (out : Nat) : Prop :=
  match op with
  | .pageFree a => out = 0 ∧ SameBounds s s' ∧
      ∀ b, pageOf b ≠ pageOf a → physicalIsPageFree s' b = physicalIsPageFree s b
  | _ => Allocated s s' out

theorem step_spec {s : State} (hs : Inv s) (op : Op) :
    ∃ s' out, step s op = some (s', out) ∧ Meets s op s' out := by
  cases op with
  | pageAllocHigh => exact pageAllocHigh_spec hs
  | pageAllocLow => exact pageAllocLow_spec hs
  | pageAlloc => exact pageAlloc_spec hs
  | pageFree a =>
    obtain ⟨s', h, hb, ho⟩ := pageFree_spec (a := a) hs.inBitmap
    exact ⟨s', 0, by simp [step, h], rfl, hb, ho⟩

theorem Allocated.inv {s s' : State} {a : Nat} (h : Allocated s s' a) (hs : Inv s) : Inv s' := by
  cases h with
  | none => exact hs
  | page _ _ _ _ took => exact hs.of_sameBounds took.bounds

theorem Meets.inv {s s' : State} {op : Op} {out : Nat} (h : Meets s op s' out) (hs : Inv s) : Inv s' := by
  cases op with
  | pageFree a => exact hs.of_sameBounds h.2.1
  | _ => exact Allocated.inv h hs

theorem step_meets {s s' : State} {op : Op} {out : Nat} (hs : Inv s) (h : step s op = some (s', out)) :
    Meets s op s' out := by
  obtain ⟨s1, out1, h1, hm⟩ := step_spec hs op
  rw [h] at h1
  obtain ⟨rfl, rfl⟩ := Prod.mk.inj (Option.some.inj h1)
  exact hm

theorem step_inv (s : State) (op : Op) (hs : Inv s) : ∃ s' out, step s op = some (s', out) ∧ Inv s' := by
  obtain ⟨s', out, h, hm⟩ := step_spec hs op
  exact ⟨s', out, h, hm.inv hs⟩

/-! ## `physical_init` -/

theorem setByte_bounds {s s' : State} {i : Nat} {b : Byte} (h : setByte s i b = some s') :
    SameBounds s s' := by
  rw [setByte] at h
  split at h
  · obtain rfl := Option.some.inj h
    exact ⟨rfl, rfl⟩
  · simp at h

theorem allocAddress_bounds {s s' : State} {a : Nat} (h : physicalPageAllocAddress s a = some s') :
    SameBounds s s' := setByte_bounds h

theorem SameBounds.trans {s s' s'' : State} (h : SameBounds s s') (h' : SameBounds s' s'') :
    SameBounds s s'' :=
  ⟨h'.1.trans h.1, h'.2.trans h.2⟩

theorem pageFree_bounds {s s' : State} {a : Nat} (h : physicalPageFree s a = some s') : SameBounds s s' := by
  rw [physicalPageFree] at h
  split at h
  · exact setByte_bounds h
  · obtain rfl := Option.some.inj h
    exact ⟨rfl, rfl⟩

theorem eachPage_bounds {body : State → Nat → Option State} {stop : Nat}
    (hbody : ∀ s a s', body s a = some s' → SameBounds s s') :
    ∀ fuel s a s', eachPage body stop fuel s a = some s' → SameBounds s s' := by
  intro fuel
  induction fuel with
  | zero => intro s a s' h; simp [eachPage] at h
  | succ fuel ih =>
    intro s a s' h
    rw [eachPage] at h
    split at h
    · obtain ⟨s1, h1, h2⟩ := Option.bind_eq_some_iff.mp h
      exact (hbody s a s1 h1).trans (ih s1 _ s' h2)
    · obtain rfl := Option.some.inj h
      exact ⟨rfl, rfl⟩

theorem eachEntry_bounds (m : MultibootInfo) :
    ∀ fuel s mmap s', eachEntry m fuel s mmap = some s' → SameBounds s s' := by
  intro fuel
  induction fuel with
  | zero => intro s mmap s' h; simp [eachEntry] at h
  | succ fuel ih =>
    intro s mmap s' h
    rw [eachEntry] at h
    split at h
    · obtain ⟨s1, h1, h2⟩ := Option.bind_eq_some_iff.mp h
      refine SameBounds.trans ?_ (ih s1 _ s' h2)
      split at h1
      · exact eachPage_bounds (fun _ _ _ => pageFree_bounds) _ _ _ _ h1
      · obtain rfl := Option.some.inj h1
        exact ⟨rfl, rfl⟩
    · obtain rfl := Option.some.inj h
      exact ⟨rfl, rfl⟩

/-! ## `physical_init` -/

def sized (m : MultibootInfo) (s : State) : State :=
  { s with
    physicalBitmapSize := dword ((m.memUpper / size1kb + 1) * 256) / 8
    physicalMaxAddress := dword (size1kb * size1kb * (m.memUpper / size1kb + 1)) }

theorem sized_inv (m : MultibootInfo) (s : State) : Inv (sized m s) := by
  have hfits : dword (size1kb * size1kb * (m.memUpper / size1kb + 1)) ≤
      dword ((m.memUpper / size1kb + 1) * 256) / 8 * (8 * size4kb) := by
    unfold dword size1kb size4kb
    omega
  have haligned : dword (size1kb * size1kb * (m.memUpper / size1kb + 1)) % size4kb = 0 := by
    unfold dword size1kb size4kb
    omega
  exact ⟨hfits, haligned, Nat.mod_lt _ (by decide)⟩

/-- The bitmap before the kernel is reserved. -/
def mapped (m : MultibootInfo) (s : State) : Option State :=
  let size := (sized m s).physicalBitmapSize
  let cleared := fill s.physicalBitmap 0 size 0
  if m.flags &&& multibootFlagMmap = multibootFlagMmap then
    eachEntry m (2 ^ 32) { sized m s with physicalBitmap := fill cleared 0 size 0xFF } m.mmap
  else physicalPageAllocAddress { sized m s with physicalBitmap := cleared } kernelVgaPaddress

theorem physicalInit_eq (image : Image) (m : MultibootInfo) (s : State) : physicalInit image m s =
    if m.flags &&& multibootFlagMem ≠ multibootFlagMem then some (s, FAIL)
    else (mapped m s).bind fun t => (eachPage physicalPageAllocAddress
      (dword (v2p image.stop + (sized m s).physicalBitmapSize)) pageFuel t (v2p image.start)).map
        (·, SUCCESS) := rfl

theorem mapped_bounds {m : MultibootInfo} {s s' : State} (h : mapped m s = some s') :
    SameBounds (sized m s) s' := by
  unfold mapped at h
  split at h
  · have hb := eachEntry_bounds m _ _ _ _ h
    exact hb
  · have hb := allocAddress_bounds h
    exact hb

section

variable {image : Image} {m : MultibootInfo} {s s' : State}

theorem physicalInit_success (h : physicalInit image m s = some (s', SUCCESS)) :
    ∃ t, mapped m s = some t ∧ eachPage physicalPageAllocAddress
      (dword (v2p image.stop + (sized m s).physicalBitmapSize)) pageFuel t (v2p image.start) = some s' := by
  rw [physicalInit_eq] at h
  split at h
  · simp [FAIL, SUCCESS] at h
  · obtain ⟨t, ht, h⟩ := Option.bind_eq_some_iff.mp h
    obtain ⟨t', ht', heq⟩ := Option.map_eq_some_iff.mp h
    obtain ⟨rfl, -⟩ := Prod.mk.inj heq
    exact ⟨t, ht, ht'⟩

theorem physicalInit_bounds (h : physicalInit image m s = some (s', SUCCESS)) :
    SameBounds (sized m s) s' := by
  obtain ⟨t, ht, hloop⟩ := physicalInit_success h
  exact (mapped_bounds ht).trans (eachPage_bounds (fun _ _ _ => allocAddress_bounds) _ _ _ _ hloop)

theorem physicalInit_inv (h : physicalInit image m s = some (s', SUCCESS)) : Inv s' :=
  (sized_inv m s).of_sameBounds (physicalInit_bounds h)

end

/-! ## Runs -/

/-- What the return of a page other than `NULL` means. -/
structure Exclusive (t : Transition State Op Nat) : Prop where
  aligned : t.out % size4kb = 0
  low : size4kb ≤ t.out
  high : t.out < t.pre.physicalMaxAddress
  free : Free t.pre t.out
  taken : Taken t.post t.out
  others : ∀ b, pageOf b ≠ pageOf t.out → physicalIsPageFree t.post b = physicalIsPageFree t.pre b

theorem Meets.exclusive {t : Transition State Op Nat} (h : Meets t.pre t.act t.post t.out)
    (hout : t.out ≠ 0) : Exclusive t := by
  have halloc : Allocated t.pre t.post t.out := by
    cases hact : t.act with
    | pageFree a =>
      rw [hact] at h
      exact absurd h.1 hout
    | _ =>
      rw [hact] at h
      exact h
  generalize ho : t.out = out at halloc
  generalize hp : t.post = post at halloc
  cases halloc with
  | none => exact absurd ho hout
  | page aligned low high free took =>
    subst ho hp
    exact ⟨aligned, low, high, free, took.taken, took.others⟩

theorem taken_kept {a : Nat} (s : State) (op : Op) (s' : State) (out : Nat) (hs : Inv s ∧ Taken s a)
    (hop : ∀ b, op = .pageFree b → pageOf b ≠ pageOf a) (h : step s op = some (s', out)) :
    Inv s' ∧ Taken s' a := by
  obtain ⟨hinv, htaken⟩ := hs
  have hm := step_meets hinv h
  refine ⟨hm.inv hinv, ?_⟩
  have hsame : ∀ b, pageOf b ≠ pageOf a →
      (∀ c, pageOf c ≠ pageOf b → physicalIsPageFree s' c = physicalIsPageFree s c) → Taken s' a := by
    intro b hb hother
    rw [Taken, hother a (Ne.symm hb)]
    exact htaken
  have halloc : Allocated s s' out → Taken s' a := by
    rintro (_ | ⟨-, -, -, free, took⟩)
    · exact htaken
    · by_cases hpage : pageOf out = pageOf a
      · -- The page cannot be allocated: its bit is set.
        rw [Free, isPageFree_page hpage, htaken] at free
        simp [FAIL, SUCCESS] at free
      · exact hsame out hpage took.others
  cases op with
  | pageFree b => exact hsame b (hop b rfl) hm.2.2
  | _ => exact halloc hm

/-- **Page exclusivity.** After a successful `physical_init`, along every run of the allocator. -/
theorem page_exclusive (image : Image) (m : MultibootInfo) (s0 s : State)
    (hinit : physicalInit image m s0 = some (s, SUCCESS)) (ops : List Op) :
    ∃ ts, trace step s ops = some ts ∧ (∀ t ∈ ts, t.out ≠ 0 → Exclusive t) ∧
      ∀ pre t1 mid t2 post, ts = pre ++ t1 :: (mid ++ t2 :: post) → t1.out ≠ 0 → t2.out = t1.out →
        ∃ t ∈ mid, ∃ a, t.act = .pageFree a ∧ pageOf a = pageOf t1.out := by
  obtain ⟨ts, hts, hl, hpre⟩ := trace_invariant step_inv ops s (physicalInit_inv hinit)
  have hex : ∀ u t us, ts = u ++ t :: us → t.out ≠ 0 → Exclusive t := by
    rintro u t us rfl hout
    exact (step_meets (hpre t (by simp)) hl.step_eq.1).exclusive hout
  refine ⟨ts, hts, fun t ht => ?_, ?_⟩
  · obtain ⟨u, us, heq⟩ := List.append_of_mem ht
    exact hex u t us heq
  · rintro pre t1 mid t2 post rfl hout heq
    by_contra hno
    push Not at hno
    have h1 := hex _ _ _ rfl hout
    have h2 := hex (pre ++ t1 :: mid) t2 post (by simp) (by rw [heq]; exact hout)
    obtain ⟨hstep, hl2⟩ := hl.step_eq
    have hinv : Inv t1.post := (step_meets (hpre t1 (by simp)) hstep).inv (hpre t1 (by simp))
    -- Between the two returns no call frees the page, so it is still taken.
    have htaken := hl2.kept (A := fun op => ∀ b, op = .pageFree b → pageOf b ≠ pageOf t1.out) taken_kept
      ⟨hinv, h1.taken⟩ (fun u hu b hb => hno u hu b hb)
    have hfree : physicalIsPageFree t2.pre t1.out = some SUCCESS := heq ▸ h2.free
    rw [htaken.2] at hfree
    simp [FAIL, SUCCESS] at hfree

/-- Two megabytes of memory, with a kernel of one page at 1 MB. -/
theorem page_exclusive_2mb :
    ∃ s ts, physicalInit ⟨0xC0001000, 0xC0002000⟩ ⟨1, 1024, 0, 0, fun _ => ⟨0, 0, 0, 0⟩⟩ ⟨fun _ => 0, 0, 0⟩ =
        some (s, SUCCESS) ∧
      trace step s [.pageAllocLow, .pageAlloc] = some ts ∧ ∀ t ∈ ts, t.out ≠ 0 → Exclusive t := by
  obtain ⟨ts, hts, hex, -⟩ := page_exclusive ⟨0xC0001000, 0xC0002000⟩
    ⟨1, 1024, 0, 0, fun _ => ⟨0, 0, 0, 0⟩⟩ ⟨fun _ => 0, 0, 0⟩ _ rfl [.pageAllocLow, .pageAlloc]
  exact ⟨_, ts, rfl, hts, hex⟩

end SystemProjects.Physical
