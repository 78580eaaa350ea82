import SystemProjects.Mmu.Code

/-!
# The address space is a map
-/

open SystemProjects.Memory SystemProjects.Run

namespace SystemProjects.Mmu

/-! ## Entries -/

@[simp] theorem present_setPageEntry (entry addr : Nat) : present (setPageEntry entry addr) = true := by
  unfold present setPageEntry setPresent
  rw [decide_eq_true_eq]
  omega

theorem getAddr_setPageEntry {addr : Nat} (entry : Nat) (h : addr < 2 ^ 32) :
    getAddrFromEntry (setPageEntry entry addr) = addr / pageSize * pageSize := by
  unfold getAddrFromEntry pageFrameAddress setPageEntry setPresent setPageFrameAddress pageShift pageSize
  omega

theorem setPageEntry_lt {entry : Nat} (addr : Nat) (h : entry < 2 ^ 32) :
    setPageEntry entry addr < 2 ^ 32 := by
  unfold setPageEntry setPresent setPageFrameAddress
  omega

theorem page_eq (v : Nat) : v / pageSize = 1024 * pageDirectoryIndex v + pageTableIndex v := by
  unfold pageDirectoryIndex pageTableIndex pageSize pageShift
  omega

theorem pageDirectoryIndex_lt (v : BitVec 32) : pageDirectoryIndex v.toNat < 1024 := by
  have := v.isLt
  unfold pageDirectoryIndex
  omega

theorem pageTableIndex_lt (v : Nat) : pageTableIndex v < 1024 := Nat.mod_lt _ (by decide)

/-! ## The relation to the map -/

def EntrySays (entry : Nat) : Option (BitVec 32) → Prop
  | none => present entry = false
  | some pa => present entry = true ∧ getAddrFromEntry entry = pa.toNat / pageSize * pageSize

/-- Directory entry `i`. -/
def dirWord (s : State) (dir i : Nat) : Nat := load32 s.mem (dir + 4 * i)

/-- The table of directory entry `i`. -/
def tableOf (s : State) (dir i : Nat) : Nat := getAddrFromEntry (dirWord s dir i)

structure Represents (dir : Nat) (s : State) (M : PageMap) : Prop where
  dirPage : dir ∈ s.pages
  pages : ∀ p ∈ s.pages, p % pageSize = 0 ∧ p + pageSize ≤ 2 ^ 32
  absent : ∀ i < 1024, present (dirWord s dir i) = false → ∀ k < 1024, M (1024 * i + k) = none
  table : ∀ i < 1024, present (dirWord s dir i) = true → tableOf s dir i ∈ s.pages ∧ tableOf s dir i ≠ dir ∧
    ∀ k < 1024, EntrySays (load32 s.mem (tableOf s dir i + 4 * k)) (M (1024 * i + k))
  apart : ∀ i < 1024, ∀ j < 1024, present (dirWord s dir i) = true → present (dirWord s dir j) = true →
    tableOf s dir i = tableOf s dir j → i = j

theorem load32_store32_page {m : Mem} {p q i k v : Nat} (hp : p % pageSize = 0) (hq : q % pageSize = 0)
    (hi : i < 1024) (hk : k < 1024) (hne : q ≠ p ∨ k ≠ i) :
    load32 (store32 m (p + 4 * i) v) (q + 4 * k) = load32 m (q + 4 * k) := by
  unfold pageSize at hp hq
  apply load32_store32_other
  omega

theorem load32_fill_page {m : Mem} {p q k : Nat} (hp : p % pageSize = 0) (hq : q % pageSize = 0)
    (hk : k < 1024) (hne : q ≠ p) : load32 (fill m p pageSize 0) (q + 4 * k) = load32 m (q + 4 * k) := by
  unfold pageSize at hp hq ⊢
  apply load32_congr
  intro x _ _
  apply fill_other
  omega

theorem load32_fill_self {m : Mem} {p k : Nat} (hk : k < 1024) :
    load32 (fill m p pageSize 0) (p + 4 * k) = 0 := by
  have hsize : pageSize = 4096 := rfl
  have hzero : ∀ x, p ≤ x → x < p + pageSize → fill m p pageSize 0 x = 0 := fun x h h' => if_pos ⟨h, h'⟩
  unfold load32
  rw [hzero _ (by omega) (by omega), hzero _ (by omega) (by omega), hzero _ (by omega) (by omega),
    hzero _ (by omega) (by omega)]
  rfl

/-! ## One insertion -/

theorem insert_eq (M : PageMap) (op : Insert) {j k : Nat} (hk : k < 1024) : M.insert op (1024 * j + k) =
    if j = pageDirectoryIndex op.va.toNat ∧ k = pageTableIndex op.va.toNat then some op.pa
    else M (1024 * j + k) := by
  have hlt := pageTableIndex_lt op.va.toNat
  rw [PageMap.insert, page_eq]
  congr 1
  rw [eq_iff_iff]
  omega

theorem Represents.insertTable {dir : Nat} {s : State} {M : PageMap} (h : Represents dir s M) (op : Insert)
    (hpresent : present (dirWord s dir (pageDirectoryIndex op.va.toNat)) = true) :
    Represents dir (s.setEntry (tableOf s dir (pageDirectoryIndex op.va.toNat) +
      4 * pageTableIndex op.va.toNat) op.pa.toNat) (M.insert op) := by
  have hk := pageTableIndex_lt op.va.toNat
  have hi := pageDirectoryIndex_lt op.va
  generalize hieq : pageDirectoryIndex op.va.toNat = i at *
  generalize hkeq : pageTableIndex op.va.toNat = k at *
  obtain ⟨hin, hne, hsays⟩ := h.table i hi hpresent
  have hti := (h.pages _ hin).1
  have hdir := (h.pages _ h.dirPage).1
  have hword : ∀ j < 1024, dirWord (s.setEntry (tableOf s dir i + 4 * k) op.pa.toNat) dir j =
    dirWord s dir j :=
    fun j hj => load32_store32_page hti hdir hk hj (.inl hne.symm)
  have htable : ∀ j < 1024, tableOf (s.setEntry (tableOf s dir i + 4 * k) op.pa.toNat) dir j =
    tableOf s dir j :=
    fun j hj => congrArg getAddrFromEntry (hword j hj)
  refine ⟨h.dirPage, h.pages, fun j hj habs l hl => ?_, fun j hj hpres => ?_, fun j hj l hl hp hp' heq => ?_⟩
  · rw [hword j hj] at habs
    have hji : j ≠ i := by
      rintro rfl
      rw [habs] at hpresent
      cases hpresent
    rw [insert_eq M op hl, hieq, if_neg fun h => hji h.1]
    exact h.absent j hj habs l hl
  · rw [hword j hj] at hpres
    obtain ⟨hinj, hnej, hsaysj⟩ := h.table j hj hpres
    rw [htable j hj]
    refine ⟨hinj, hnej, fun l hl => ?_⟩
    rw [insert_eq M op hl, hieq, hkeq]
    by_cases hsame : j = i ∧ l = k
    · obtain ⟨rfl, rfl⟩ := hsame
      rw [if_pos ⟨rfl, rfl⟩]
      change EntrySays (load32 (store32 _ _ _) _) _
      rw [load32_store32, Nat.mod_eq_of_lt (setPageEntry_lt _ (load32_lt _ _))]
      exact ⟨present_setPageEntry _ _, getAddr_setPageEntry _ op.pa.isLt⟩
    · rw [if_neg hsame]
      change EntrySays (load32 (store32 _ _ _) _) _
      rw [load32_store32_page hti (h.pages _ hinj).1 hk hl]
      · exact hsaysj l hl
      · by_cases hji : j = i
        · exact .inr fun hlk => hsame ⟨hji, hlk⟩
        · exact .inl fun heq => hji (h.apart j hj i hi hpres hpresent heq)
  · rw [hword j hj] at hp
    rw [hword l hl] at hp'
    rw [htable j hj, htable l hl] at heq
    exact h.apart j hj l hl hp hp' heq

/-- What changes when directory entry `i` gets `page` as its table. -/
structure TableAdded (dir i page : Nat) (s s' : State) : Prop where
  pages : s'.pages = page :: s.pages
  entry : present (dirWord s' dir i) = true
  table : tableOf s' dir i = page
  word : ∀ j < 1024, j ≠ i → dirWord s' dir j = dirWord s dir j
  zero : ∀ k < 1024, load32 s'.mem (page + 4 * k) = 0
  old : ∀ q ∈ s.pages, q ≠ dir → ∀ k < 1024, load32 s'.mem (q + 4 * k) = load32 s.mem (q + 4 * k)

theorem Represents.tableAdded {dir : Nat} {s : State} {M : PageMap} (h : Represents dir s M) {i page : Nat}
    (hi : i < 1024) (hf : FreshPage s page) :
    TableAdded dir i page s ((allocatePage s page).setEntry (dir + 4 * i) page) := by
  have hdir := (h.pages _ h.dirPage).1
  have hne : page ≠ dir := fun heq => hf.new (heq ▸ h.dirPage)
  have hself : dirWord ((allocatePage s page).setEntry (dir + 4 * i) page) dir i =
      setPageEntry (load32 (allocatePage s page).mem (dir + 4 * i)) page := by
    change load32 (store32 _ _ _) _ = _
    rw [load32_store32, Nat.mod_eq_of_lt (setPageEntry_lt _ (load32_lt _ _))]
  refine ⟨rfl, by rw [hself, present_setPageEntry], ?_, fun j hj hji => ?_, fun k hk => ?_, fun q hq hqd k hk => ?_⟩
  · have halign := hf.aligned
    have hbound := hf.bound
    rw [tableOf, hself, getAddr_setPageEntry _ (by unfold pageSize at hbound; omega)]
    unfold pageSize at halign ⊢
    omega
  · change load32 (store32 (fill _ _ _ _) _ _) _ = _
    rw [load32_store32_page hdir hdir hi hj (.inr hji), load32_fill_page hf.aligned hdir hj hne.symm]
    rfl
  · change load32 (store32 (fill _ _ _ _) _ _) _ = _
    rw [load32_store32_page hdir hf.aligned hi hk (.inl hne), load32_fill_self hk]
  · have hqp : q ≠ page := fun heq => hf.new (heq ▸ hq)
    change load32 (store32 (fill _ _ _ _) _ _) _ = _
    rw [load32_store32_page hdir (h.pages q hq).1 hi hk (.inl hqd),
      load32_fill_page hf.aligned (h.pages q hq).1 hk hqp]

theorem TableAdded.tableOf {dir i page j : Nat} {s s' : State} (h : TableAdded dir i page s s')
    (hj : j < 1024)
    (hji : j ≠ i) : Mmu.tableOf s' dir j = Mmu.tableOf s dir j :=
  congrArg getAddrFromEntry (h.word j hj hji)

theorem TableAdded.tableOf_ne {dir i page j : Nat} {s s' : State} {M : PageMap}
    (h : TableAdded dir i page s s')
    (hrep : Represents dir s M) (hf : FreshPage s page) (hj : j < 1024) (hji : j ≠ i)
    (hpres : Mmu.present (dirWord s' dir j) = true) : Mmu.tableOf s' dir j ≠ page := by
  intro heq
  rw [h.word j hj hji] at hpres
  rw [h.tableOf hj hji] at heq
  exact hf.new (heq ▸ (hrep.table j hj hpres).1)

theorem Represents.newTable {dir i page : Nat} {s s' : State} {M : PageMap} (h : Represents dir s M)
    (hadd : TableAdded dir i page s s') (habs : present (dirWord s dir i) = false) (hf : FreshPage s page) :
    Represents dir s' M := by
  have hne : page ≠ dir := fun heq => hf.new (heq ▸ h.dirPage)
  refine ⟨hadd.pages ▸ List.mem_cons_of_mem _ h.dirPage, fun p hp => ?_, fun j hj hj' k hk => ?_,
    fun j hj hj' => ?_,
    fun j hj l hl hp hp' heq => ?_⟩
  · rw [hadd.pages] at hp
    rcases List.mem_cons.mp hp with rfl | hp
    · exact ⟨hf.aligned, hf.bound⟩
    · exact h.pages p hp
  · have hji : j ≠ i := by
      rintro rfl
      rw [hadd.entry] at hj'
      cases hj'
    rw [hadd.word j hj hji] at hj'
    exact h.absent j hj hj' k hk
  · rw [hadd.pages]
    by_cases hji : j = i
    · subst hji
      rw [hadd.table]
      refine ⟨List.mem_cons_self, hne, fun k hk => ?_⟩
      rw [hadd.zero k hk, h.absent j hj habs k hk]
      rfl
    · rw [hadd.word j hj hji] at hj'
      rw [hadd.tableOf hj hji]
      obtain ⟨hin, hnd, hsays⟩ := h.table j hj hj'
      refine ⟨List.mem_cons_of_mem _ hin, hnd, fun k hk => ?_⟩
      rw [hadd.old _ hin hnd k hk]
      exact hsays k hk
  · by_cases hji : j = i
    · by_cases hli : l = i
      · rw [hji, hli]
      · rw [hji, hadd.table] at heq
        exact absurd heq.symm (hadd.tableOf_ne h hf hl hli hp')
    · by_cases hli : l = i
      · rw [hli, hadd.table] at heq
        exact absurd heq (hadd.tableOf_ne h hf hj hji hp)
      · rw [hadd.word j hj hji] at hp
        rw [hadd.word l hl hli] at hp'
        rw [hadd.tableOf hj hji, hadd.tableOf hl hli] at heq
        exact h.apart j hj l hl hp hp' heq

theorem insert_spec {dir : Nat} {s : State} {M : PageMap} (h : Represents dir s M) {op : Insert}
    (ha : Allocates dir s op) : ∃ s', step dir s op = some s' ∧ Represents dir s' (M.insert op) := by
  refine ⟨_, rfl, ?_⟩
  have hi := pageDirectoryIndex_lt op.va
  unfold insertPageIntoAddressSpace
  by_cases hpres : present (load32 s.mem (dirEntry dir op.va.toNat)) = true
  · simp only [hpres, if_true]
    exact h.insertTable op hpres
  · have habs : present (load32 s.mem (dirEntry dir op.va.toNat)) = false := by simpa using hpres
    have hadd := h.tableAdded hi (ha habs)
    have hins := (h.newTable hadd habs (ha habs)).insertTable op hadd.entry
    rw [hadd.table] at hins
    simp only [habs]
    exact hins

theorem get_spec {dir : Nat} {s : State} {M : PageMap} (h : Represents dir s M) (v : BitVec 32) :
    getPageFromAddressSpace s dir v.toNat =
      (M (v.toNat / pageSize)).map fun pa => pa.toNat / pageSize * pageSize := by
  have hi := pageDirectoryIndex_lt v
  have hk := pageTableIndex_lt v.toNat
  rw [page_eq, getPageFromAddressSpace]
  by_cases hpres : present (load32 s.mem (dirEntry dir v.toNat)) = true
  · obtain ⟨-, -, hsays⟩ := h.table _ hi hpres
    have hentry := hsays _ hk
    simp only [hpres, if_true]
    change (if present (load32 s.mem (tableOf s dir _ + _)) = true then _ else _) = _
    cases hM : M (1024 * pageDirectoryIndex v.toNat + pageTableIndex v.toNat) with
    | none =>
      rw [hM] at hentry
      rw [if_neg (by rw [show present _ = false from hentry]; decide)]
      rfl
    | some pa =>
      rw [hM] at hentry
      rw [if_pos hentry.1]
      exact congrArg some hentry.2
  · have habs : present (dirWord s dir (pageDirectoryIndex v.toNat)) = false := Bool.eq_false_iff.mpr hpres
    rw [if_neg hpres, h.absent _ hi habs _ hk]
    rfl

/-! ## Runs -/

theorem represents_zeroed {dir : Nat} {s : State} (h : ZeroedDirectory s dir) :
    Represents dir s fun _ => none := by
  have hzero : ∀ i < 1024, dirWord s dir i = 0 := by
    intro i hi
    have hsize : pageSize = 4096 := rfl
    have hbyte : ∀ k < 4, s.mem (dir + 4 * i + k) = 0 := by
      intro k hk
      rw [Nat.add_assoc]
      exact h.zero _ (by omega)
    have hfirst : s.mem (dir + 4 * i) = 0 := hbyte 0 (by decide)
    unfold dirWord load32
    rw [hfirst, hbyte 1 (by decide), hbyte 2 (by decide), hbyte 3 (by decide)]
    rfl
  have habs : ∀ i < 1024, present (dirWord s dir i) = true → False := by
    intro i hi hp
    rw [hzero i hi] at hp
    exact absurd hp (by decide)
  refine ⟨by rw [h.pages]; exact List.mem_cons_self, fun p hp => ?_, fun _ _ _ _ _ => rfl,
    fun i hi hp => (habs i hi hp).elim, fun i hi _ _ hp => (habs i hi hp).elim⟩
  rw [h.pages, List.mem_singleton] at hp
  exact hp ▸ ⟨h.aligned, h.bound⟩

theorem foldl_insert (ops : List Insert) (v : BitVec 32) :
    ops.foldl PageMap.insert (fun _ => none) (v.toNat / pageSize) = (lastInsert ops v).map (·.pa) := by
  unfold lastInsert
  rw [← List.foldr_reverse]
  induction ops.reverse with
  | nil => rfl
  | cons op ops ih =>
    rw [List.foldr_cons, PageMap.insert, List.find?_cons]
    by_cases heq : v.toNat / pageSize = op.va.toNat / pageSize
    · rw [if_pos heq, samePage, decide_eq_true heq.symm]
      rfl
    · rw [if_neg heq, ih, samePage, decide_eq_false (Ne.symm heq)]

/-- **The map.** After a run, reading an address passes both assertions exactly when some insertion was for
its page, and gives the frame of the last one. -/
theorem get_refines_lastInsert (dir : Nat) (s : State) (hdir : ZeroedDirectory s dir) (ops : List Insert)
    (halloc : Along (step dir) (Allocates dir) s ops) :
    ∃ s', run (step dir) s ops = some s' ∧ ∀ v : BitVec 32, getPageFromAddressSpace s' dir v.toNat =
      (lastInsert ops v).map fun op => op.pa.toNat / pageSize * pageSize := by
  have hstep : ∀ s M op, Represents dir s M → Allocates dir s op →
      ∃ s', step dir s op = some s' ∧ Represents dir s' (M.insert op) := fun _ _ _ h ha => insert_spec h ha
  obtain ⟨s', hrun, hrep⟩ := run_refines hstep ops s _ (represents_zeroed hdir) halloc
  refine ⟨s', hrun, fun v => ?_⟩
  rw [get_spec hrep, foldl_insert, Option.map_map]
  rfl

def emptySpace (dir : Nat) : State := { mem := fun _ => 0, pages := [dir] }

def threeInserts : List Insert :=
  [⟨0x00400123#32, 0x12345678#32, 8192⟩, ⟨0x00401000#32, 0x23456000#32, 0⟩, ⟨0x00400FFF#32, 0x01567ABC#32, 0⟩]

theorem emptySpace_get : ∃ s', run (step 4096) (emptySpace 4096) threeInserts = some s' ∧
    getPageFromAddressSpace s' 4096 0x00400123 = some 0x01567000 ∧
    getPageFromAddressSpace s' 4096 0x00401FFF = some 0x23456000 ∧
    getPageFromAddressSpace s' 4096 0x00402000 = none := by
  have hdir : ZeroedDirectory (emptySpace 4096) 4096 := ⟨by decide, by decide, rfl, fun _ _ => rfl⟩
  have hfresh : FreshPage (emptySpace 4096) 8192 := ⟨by decide, by decide, by simp [emptySpace]⟩
  have halloc : Along (step 4096) (Allocates 4096) (emptySpace 4096) threeInserts :=
    .cons (fun _ => hfresh) rfl (.cons (fun h => absurd h (by decide +kernel)) rfl
      ⟨fun h => absurd h (by decide +kernel), fun _ _ => trivial⟩)
  obtain ⟨s', hrun, hget⟩ := get_refines_lastInsert 4096 _ hdir threeInserts halloc
  exact ⟨s', hrun, hget 0x00400123#32, hget 0x00401FFF#32, hget 0x00402000#32⟩

end SystemProjects.Mmu
