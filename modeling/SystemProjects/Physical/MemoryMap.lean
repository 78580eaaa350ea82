import SystemProjects.Physical.Proofs

/-!
# The memory map of the boot loader

`physical_init` frees page by page from `base_low` on, in 32 bits. It does not read the high words.
-/

open SystemProjects.Memory SystemProjects.Run SystemProjects.Bitmap

namespace SystemProjects.Physical

/-! ## The map -/

/-- The words of a map entry that `physical_init` does not read. -/
structure HighWords where
  baseHigh : Nat
  lengthHigh : Nat

/-- The entries that the loop meets from `mmap` on. -/
inductive EntryFrom (m : MultibootInfo) : Nat → Nat → Prop
  | here {mmap : Nat} (h : mmap < dword (m.mmap + m.mmapLength)) : EntryFrom m mmap mmap
  | next {mmap x : Nat} (h : mmap < dword (m.mmap + m.mmapLength))
      (hx : EntryFrom m (dword (mmap + (m.entry mmap).size + 4)) x) : EntryFrom m mmap x

def InRegion (e : MultibootMemoryMap) (h : HighWords) (x : Nat) : Prop :=
  h.baseHigh * 2 ^ 32 + e.baseLow ≤ x ∧
    x < h.baseHigh * 2 ^ 32 + e.baseLow + (h.lengthHigh * 2 ^ 32 + e.lengthLow)

/-- Some entry of the type `type` has the byte. -/
def Listed (m : MultibootInfo) (high : Nat → HighWords) (type : Nat → Prop) (x : Nat) : Prop :=
  ∃ y, EntryFrom m m.mmap y ∧ type (m.entry y).type ∧ InRegion (m.entry y) (high y) x

def PageAvailable (m : MultibootInfo) (high : Nat → HighWords) (page : Nat) : Prop :=
  ∀ x, pageOf x = page → Listed m high (· = multibootMmapAvailable) x ∧
    ¬ Listed m high (· ≠ multibootMmapAvailable) x

/-- In the run, `physical_pageFree` is called for pages that were handed out. -/
def FreesGiven (given : Nat → Prop) : List (Transition State Op Nat) → Prop
  | [] => True
  | t :: ts => (∀ a, t.act = .pageFree a → given (pageOf a)) ∧
      FreesGiven (fun page => given page ∨ t.out ≠ 0 ∧ page = pageOf t.out) ts

/-- The map is kept: by the bitmap, and by what is handed out from then on. -/
structure MapRespected (m : MultibootInfo) (high : Nat → HighWords) (s : State) : Prop where
  free : ∀ a, Free s a → PageAvailable m high (pageOf a)
  given : ∀ ops ts, trace step s ops = some ts → FreesGiven (fun _ => False) ts →
    ∀ t ∈ ts, t.out ≠ 0 → PageAvailable m high (pageOf t.out)

/-! ## The condition -/

/-- The addresses from `base` on, page by page. -/
def Steps (base stop a : Nat) : Prop := ∃ k, a = base + size4kb * k ∧ a < stop

def Touches (m : MultibootInfo) (e : MultibootMemoryMap) (page : Nat) : Prop :=
  ∃ a, Steps e.baseLow (dword (e.baseLow + e.lengthLow)) a ∧
    (a ≠ 0 ∧ a < dword (size1kb * size1kb * (m.memUpper / size1kb + 1))) ∧ pageOf a = page

def KernelPage (image : Image) (m : MultibootInfo) (page : Nat) : Prop :=
  ∃ a, Steps (v2p image.start)
    (dword (v2p image.stop + dword ((m.memUpper / size1kb + 1) * 256) / 8)) a ∧ pageOf a = page

/-- What the available entries touch, apart from the kernel, is available as a whole. -/
def WholePages (image : Image) (m : MultibootInfo) (high : Nat → HighWords) : Prop :=
  ∀ y page, EntryFrom m m.mmap y → (m.entry y).type = multibootMmapAvailable → Touches m (m.entry y) page →
    ¬ KernelPage image m page → PageAvailable m high page

/-! ## The loops -/

theorem eachPage_wrap {body : State → Nat → Option State} {stop : Nat} :
    ∀ fuel s a, a < 2 ^ 32 → 2 ^ 32 - size4kb + a % size4kb < stop → eachPage body stop fuel s a = none := by
  intro fuel
  induction fuel with
  | zero => intro s a _ _; rfl
  | succ fuel ih =>
    intro s a ha hstop
    have hlt : a < stop := by unfold size4kb at hstop; omega
    rw [eachPage, if_pos hlt]
    cases body s a with
    | none => rfl
    | some s1 =>
      refine ih s1 _ (Nat.mod_lt _ (by decide)) ?_
      unfold dword size4kb at *
      omega

theorem eachPage_iff {body : State → Nat → Option State} {stop : Nat} {I P : State → Prop} {Q : Nat → Prop}
    (hbody : ∀ s a s', I s → body s a = some s' → I s' ∧ (P s' ↔ P s ∨ Q a)) :
    ∀ fuel s a s', I s → stop < 2 ^ 32 → eachPage body stop fuel s a = some s' →
      I s' ∧ (P s' ↔ P s ∨ ∃ b, Steps a stop b ∧ Q b) := by
  intro fuel
  induction fuel with
  | zero => intro s a s' _ _ h; simp [eachPage] at h
  | succ fuel ih =>
    intro s a s' hs hstop h
    by_cases hlt : a < stop
    · have hnext : dword (a + size4kb) = a + size4kb := by
        by_contra hne
        rw [eachPage_wrap] at h
        · simp at h
        · omega
        · unfold dword size4kb at *
          omega
      rw [eachPage, if_pos hlt, hnext] at h
      obtain ⟨s1, h1, h2⟩ := Option.bind_eq_some_iff.mp h
      obtain ⟨hs1, hP1⟩ := hbody s a s1 hs h1
      obtain ⟨hs', hP'⟩ := ih s1 _ s' hs1 hstop h2
      refine ⟨hs', ?_⟩
      rw [hP', hP1, or_assoc]
      refine or_congr Iff.rfl ⟨?_, ?_⟩
      · rintro (hq | ⟨b, ⟨k, rfl, hb⟩, hq⟩)
        · exact ⟨a, ⟨0, rfl, hlt⟩, hq⟩
        · exact ⟨_, ⟨k + 1, by rw [Nat.mul_add]; omega, hb⟩, hq⟩
      · rintro ⟨b, ⟨k, rfl, hb⟩, hq⟩
        cases k with
        | zero => exact .inl hq
        | succ k => exact .inr ⟨_, ⟨k, by rw [Nat.mul_add]; omega, hb⟩, hq⟩
    · rw [eachPage, if_neg hlt] at h
      obtain rfl := Option.some.inj h
      refine ⟨hs, ⟨.inl, ?_⟩⟩
      rintro (hP | ⟨b, ⟨k, rfl, hb⟩, -⟩)
      · exact hP
      · omega

theorem pageFree_isSet {s s' : State} {a : Nat} (h : physicalPageFree s a = some s') (page : Nat) :
    isSet s'.physicalBitmap page = false ↔ isSet s.physicalBitmap page = false ∨
      (a ≠ 0 ∧ a < s.physicalMaxAddress) ∧ pageOf a = page := by
  by_cases ha : a ≠ 0 ∧ a < s.physicalMaxAddress
  · by_cases hin : InBitmap s a
    · rw [pageFree_eq ha hin] at h
      obtain rfl := Option.some.inj h
      by_cases hpage : page = pageOf a
      · simp [hpage, ha]
      · simp [hpage, ha, Ne.symm hpage]
    · rw [physicalPageFree, if_pos ha, setByte, if_neg hin] at h
      cases h
  · rw [physicalPageFree, if_neg ha] at h
    obtain rfl := Option.some.inj h
    simp [ha]

theorem allocAddress_isSet {s s' : State} {a : Nat} (h : physicalPageAllocAddress s a = some s')
    (page : Nat) :
    isSet s'.physicalBitmap page = true ↔ isSet s.physicalBitmap page = true ∨ pageOf a = page := by
  by_cases hin : InBitmap s a
  · rw [allocAddress_eq hin] at h
    obtain rfl := Option.some.inj h
    simp only [isSet_setBit, Bool.or_eq_true, decide_eq_true_eq]
    rw [or_comm, eq_comm (a := page)]
  · rw [physicalPageAllocAddress, setByte, if_neg hin] at h
    cases h

theorem eachEntry_isSet {m : MultibootInfo} (page : Nat) :
    ∀ fuel s mmap s', s.physicalMaxAddress = dword (size1kb * size1kb * (m.memUpper / size1kb + 1)) →
      eachEntry m fuel s mmap = some s' → (isSet s'.physicalBitmap page = false ↔
        isSet s.physicalBitmap page = false ∨ ∃ y, EntryFrom m mmap y ∧
          (m.entry y).type = multibootMmapAvailable ∧ Touches m (m.entry y) page) := by
  intro fuel
  induction fuel with
  | zero => intro s mmap s' _ h; simp [eachEntry] at h
  | succ fuel ih =>
    intro s mmap s' hmax h
    rw [eachEntry] at h
    by_cases hlt : mmap < dword (m.mmap + m.mmapLength)
    · rw [if_pos hlt] at h
      obtain ⟨s1, h1, h2⟩ := Option.bind_eq_some_iff.mp h
      have hfirst : s1.physicalMaxAddress = dword (size1kb * size1kb * (m.memUpper / size1kb + 1)) ∧
          (isSet s1.physicalBitmap page = false ↔ isSet s.physicalBitmap page = false ∨
            (m.entry mmap).type = multibootMmapAvailable ∧ Touches m (m.entry mmap) page) := by
        by_cases htype : (m.entry mmap).type = multibootMmapAvailable
        · rw [if_pos htype] at h1
          obtain ⟨hmax1, hset1⟩ := eachPage_iff (I := fun s => s.physicalMaxAddress =
            dword (size1kb * size1kb * (m.memUpper / size1kb + 1)))
            (P := fun s => isSet s.physicalBitmap page = false)
            (fun t a t' ht hfree => ⟨(pageFree_bounds hfree).2.trans ht, ht ▸ pageFree_isSet hfree page⟩)
            _ _ _ _ hmax (Nat.mod_lt _ (by decide)) h1
          exact ⟨hmax1, by rw [hset1, and_iff_right htype]; rfl⟩
        · rw [if_neg htype] at h1
          obtain rfl := Option.some.inj h1
          exact ⟨hmax, by simp [htype]⟩
      rw [ih s1 _ s' hfirst.1 h2, hfirst.2, or_assoc]
      refine or_congr Iff.rfl ⟨?_, ?_⟩
      · rintro (htouch | ⟨y, hy, htouch⟩)
        · exact ⟨mmap, .here hlt, htouch⟩
        · exact ⟨y, .next hlt hy, htouch⟩
      · rintro ⟨y, hy, htouch⟩
        cases hy with
        | here _ => exact .inl htouch
        | next _ hy => exact .inr ⟨y, hy, htouch⟩
    · rw [if_neg hlt] at h
      obtain rfl := Option.some.inj h
      refine ⟨.inl, ?_⟩
      rintro (hset | ⟨y, hy, -⟩)
      · exact hset
      · cases hy <;> contradiction

theorem reserve_isSet {stop fuel start : Nat} {s s' : State} (hstop : stop < 2 ^ 32)
    (h : eachPage physicalPageAllocAddress stop fuel s start = some s') (page : Nat) :
    isSet s'.physicalBitmap page = true ↔ isSet s.physicalBitmap page = true ∨
      ∃ b, Steps start stop b ∧ pageOf b = page := by
  have hbody : ∀ t b t', True → physicalPageAllocAddress t b = some t' → True ∧
      (isSet t'.physicalBitmap page = true ↔ isSet t.physicalBitmap page = true ∨ pageOf b = page) :=
    fun _ _ _ _ h => ⟨trivial, allocAddress_isSet h _⟩
  exact (eachPage_iff hbody _ _ _ _ trivial hstop h).2

/-! ## `physical_init` -/

theorem physicalInit_free {image : Image} {m : MultibootInfo} {s0 s : State}
    (hinit : physicalInit image m s0 = some (s, SUCCESS))
    (hmmap : m.flags &&& multibootFlagMmap = multibootFlagMmap) (a : Nat) :
    Free s a ↔ (∃ y, EntryFrom m m.mmap y ∧ (m.entry y).type = multibootMmapAvailable ∧
      Touches m (m.entry y) (pageOf a)) ∧ ¬ KernelPage image m (pageOf a) := by
  have hinv := physicalInit_inv hinit
  obtain ⟨hsize, hmax⟩ := physicalInit_bounds hinit
  obtain ⟨t, hmapped, hloop⟩ := physicalInit_success hinit
  rw [mapped, if_pos hmmap] at hmapped
  have hentries := eachEntry_isSet (pageOf a) _ _ _ _ (by rfl) hmapped
  have hkernel := reserve_isSet (Nat.mod_lt _ (by decide)) hloop (pageOf a)
  have hset : isSet s.physicalBitmap (pageOf a) = false ↔
      isSet t.physicalBitmap (pageOf a) = false ∧ ¬ KernelPage image m (pageOf a) := by
    rw [← Bool.not_eq_true, hkernel, not_or, Bool.not_eq_true]
    rfl
  -- At first every page that has a bit is taken.
  have hold : InBitmap s a → isSet (fill (fill s0.physicalBitmap 0 (sized m s0).physicalBitmapSize 0) 0
      (sized m s0).physicalBitmapSize 0xFF) (pageOf a) = true := by
    intro hin
    have hlt : pageOf a / 8 < (sized m s0).physicalBitmapSize := hsize ▸ hin
    rw [isSet, fill, if_pos ⟨Nat.zero_le _, by omega⟩]
    have hones : ∀ k < 8, (0xFF : Byte).getLsbD k = true := by decide
    exact hones _ (by omega)
  constructor
  · intro hfree
    have hin : InBitmap s a := by
      by_contra hin
      rw [Free, physicalIsPageFree, if_neg hin] at hfree
      cases hfree
    rw [free_iff hin, hset, hentries, hold hin] at hfree
    simpa using hfree
  · rintro ⟨htouch, hnk⟩
    have hin : InBitmap s a := by
      obtain ⟨y, -, -, b, -, ⟨-, hb⟩, hpage⟩ := htouch
      have hinb := hinv.inBitmap (Nat.lt_of_lt_of_eq hb hmax.symm)
      unfold InBitmap bitmapByteIndex pageOf at *
      rwa [hpage] at hinb
    rw [free_iff hin, hset, hentries]
    exact ⟨.inr htouch, hnk⟩

/-! ## Runs -/

theorem Meets.free_before {s s' : State} {op : Op} {out b : Nat} (h : Meets s op s' out) (hb : Free s' b) :
    Free s b ∨ ∃ a, op = .pageFree a ∧ pageOf b = pageOf a := by
  have halloc : Allocated s s' out → Free s b := by
    rintro (_ | ⟨-, -, -, -, took⟩)
    · exact hb
    · by_cases hpage : pageOf b = pageOf out
      · have htaken := took.taken
        rw [Taken, isPageFree_page hpage.symm, hb] at htaken
        exact absurd htaken (by decide)
      · rwa [Free, took.others b hpage] at hb
  cases op with
  | pageFree a =>
    by_cases hpage : pageOf b = pageOf a
    · exact .inr ⟨a, rfl, hpage⟩
    · exact .inl (by rwa [Free, h.2.2 b hpage] at hb)
  | _ => exact .inl (halloc h)

/-- What is true of the pages that are free, or were handed out, is true of every page that is. -/
theorem given_good (Good : Nat → Prop) (ops : List Op) :
    ∀ (s : State) (given : Nat → Prop) ts, Inv s → (∀ a, Free s a → Good (pageOf a)) →
      (∀ page, given page → Good page) → trace step s ops = some ts → FreesGiven given ts →
      ∀ t ∈ ts, t.out ≠ 0 → Good (pageOf t.out) := by
  induction ops with
  | nil =>
    intro s given ts _ _ _ hts _ t ht
    obtain rfl := Option.some.inj hts
    cases ht
  | cons op ops ih =>
    intro s given ts hinv hfree hgiven hts hok
    obtain ⟨⟨s1, out⟩, hstep, hrest⟩ := Option.bind_eq_some_iff.mp hts
    obtain ⟨us, hus, rfl⟩ := Option.map_eq_some_iff.mp hrest
    obtain ⟨hop, hoks⟩ := hok
    have hm := step_meets hinv hstep
    have hout : out ≠ 0 → Good (pageOf out) := by
      intro hne
      exact hfree out (hm.exclusive (t := ⟨s, op, out, s1⟩) hne).free
    have hfree1 : ∀ b, Free s1 b → Good (pageOf b) := by
      intro b hb
      rcases hm.free_before hb with hb | ⟨a, rfl, hpage⟩
      · exact hfree b hb
      · rw [hpage]
        exact hgiven _ (hop a rfl)
    intro t ht
    rcases List.mem_cons.mp ht with rfl | ht
    · exact hout
    · refine ih s1 _ us (hm.inv hinv) hfree1 ?_ hus hoks t ht
      rintro page (hpage | ⟨hne, rfl⟩)
      · exact hgiven page hpage
      · exact hout hne

/-! ## The map and the bitmap -/

theorem wholePages_of_aligned (image : Image) {m : MultibootInfo} {high : Nat → HighWords}
    (hbelow : ∀ y, EntryFrom m m.mmap y → (m.entry y).type = multibootMmapAvailable → high y = ⟨0, 0⟩ ∧
      (m.entry y).baseLow + (m.entry y).lengthLow < 2 ^ 32)
    (haligned : ∀ y, EntryFrom m m.mmap y → (m.entry y).type = multibootMmapAvailable →
      (m.entry y).baseLow % size4kb = 0 ∧ (m.entry y).lengthLow % size4kb = 0)
    (hreserved : ∀ x, Listed m high (· = multibootMmapAvailable) x →
    ¬ Listed m high (· ≠ multibootMmapAvailable) x) :
    WholePages image m high := by
  rintro y page hy htype ⟨a, ⟨k, rfl, hstop⟩, -, hpage⟩ - x hx
  obtain ⟨hhigh, hlt⟩ := hbelow y hy htype
  obtain ⟨hbase, hlength⟩ := haligned y hy htype
  rw [dword, Nat.mod_eq_of_lt hlt] at hstop
  have hlisted : Listed m high (· = multibootMmapAvailable) x := by
    refine ⟨y, hy, htype, ?_⟩
    rw [hhigh]
    change 0 * 2 ^ 32 + _ ≤ x ∧ x < 0 * 2 ^ 32 + _ + (0 * 2 ^ 32 + _)
    unfold pageOf size4kb at *
    omega
  exact ⟨hlisted, hreserved x hlisted⟩

/-- **The memory map.** The map is kept exactly when the available entries touch whole available pages. -/
theorem mapRespected_iff (image : Image) (m : MultibootInfo) (high : Nat → HighWords) (s0 s : State)
    (hinit : physicalInit image m s0 = some (s, SUCCESS))
    (hmmap : m.flags &&& multibootFlagMmap = multibootFlagMmap) :
    MapRespected m high s ↔ WholePages image m high := by
  have hfree := physicalInit_free hinit hmmap
  constructor
  · intro h y page hy htype htouch hkernel
    have hpage : pageOf (page * size4kb) = page := Nat.mul_div_cancel _ (by decide)
    have hmem := h.free (page * size4kb)
    rw [hfree, hpage] at hmem
    exact hmem ⟨⟨y, hy, htype, htouch⟩, hkernel⟩
  · intro h
    have hall : ∀ a, Free s a → PageAvailable m high (pageOf a) := by
      intro a ha
      obtain ⟨⟨y, hy, htype, htouch⟩, hkernel⟩ := (hfree a).mp ha
      exact h y _ hy htype htouch hkernel
    exact ⟨hall, fun ops ts hts hok => given_good _ ops s _ ts (physicalInit_inv hinit) hall
      (fun _ h => h.elim) hts hok⟩

def oneRegion (baseLow lengthLow : Nat) : MultibootInfo :=
  ⟨33, 1024, 24, 0, fun _ => ⟨20, baseLow, lengthLow, 1⟩⟩

theorem oneRegion_listed {baseLow lengthLow x : Nat} {type : Nat → Prop}
    (h : Listed (oneRegion baseLow lengthLow) (fun _ => ⟨0, 0⟩) type x) : type 1 ∧ baseLow ≤ x := by
  obtain ⟨y, -, htype, hlow, -⟩ := h
  exact ⟨htype, by simpa [oneRegion] using hlow⟩

theorem oneRegion_1000_respected :
    ∃ s, physicalInit ⟨0xC0001000, 0xC0002000⟩ (oneRegion 0x1000 0x1000) ⟨fun _ => 0, 0, 0⟩ =
      some (s, SUCCESS) ∧
      MapRespected (oneRegion 0x1000 0x1000) (fun _ => ⟨0, 0⟩) s := by
  have hrun : (physicalInit ⟨0xC0001000, 0xC0002000⟩ (oneRegion 0x1000 0x1000) ⟨fun _ => 0, 0, 0⟩).map (·.2) =
      some SUCCESS := by decide +kernel
  obtain ⟨⟨s, r⟩, hinit, rfl⟩ := Option.map_eq_some_iff.mp hrun
  refine ⟨s, hinit, (mapRespected_iff _ _ _ _ s hinit (by decide)).mpr (wholePages_of_aligned _ ?_ ?_ ?_)⟩
  · exact fun _ _ _ => ⟨rfl, (by decide : 0x1000 + 0x1000 < 2 ^ 32)⟩
  · exact fun _ _ _ => ⟨(by decide : 0x1000 % size4kb = 0), (by decide : 0x1000 % size4kb = 0)⟩
  · exact fun x _ h => (oneRegion_listed h).1 rfl

theorem oneRegion_1800_not_respected :
    ∃ s, physicalInit ⟨0xC0001000, 0xC0002000⟩ (oneRegion 0x1800 0x1000) ⟨fun _ => 0, 0, 0⟩ =
      some (s, SUCCESS) ∧
      ¬ MapRespected (oneRegion 0x1800 0x1000) (fun _ => ⟨0, 0⟩) s := by
  have hrun : (physicalInit ⟨0xC0001000, 0xC0002000⟩ (oneRegion 0x1800 0x1000) ⟨fun _ => 0, 0, 0⟩).map
      (fun r => (physicalIsPageFree r.1 0x1000, r.2)) = some (some SUCCESS, SUCCESS) := by decide +kernel
  obtain ⟨⟨s, r⟩, hinit, heq⟩ := Option.map_eq_some_iff.mp hrun
  obtain ⟨hfree, rfl⟩ := Prod.mk.inj heq
  refine ⟨s, hinit, fun h => ?_⟩
  have hpage := h.free 0x1000 hfree 0x1000 rfl
  exact absurd (oneRegion_listed hpage.1).2 (by decide)

end SystemProjects.Physical
