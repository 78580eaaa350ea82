import SystemProjects.Paging.Code

/-!
# Translation refines a map

Along runs in which a table is made by the first page of its region, or is there already.
-/

open SystemProjects.Run

namespace SystemProjects.Paging

/-! ## Addresses -/

def selfMap : Nat := 0xFFC00000

theorem pageAlign_eq {a : Nat} (ha : a % pageSize = 0) (hlt : a < 2 ^ 32) : pageAlign a = a := by
  unfold pageAlign dword pageSize at *
  omega

theorem getDirectoryIndex_lt {v : Nat} (h : v < selfMap) : getDirectoryIndex v < pageEntrys - 1 := by
  unfold getDirectoryIndex directoryShiftR pageEntrys selfMap at *
  omega

theorem lt_of_lt_selfMap {v : Nat} (h : v < selfMap) : v < 2 ^ 32 := by
  unfold selfMap at h
  omega

theorem index_iff {v w : Nat} (hv : v % pageSize = 0) (hw : w % pageSize = 0) (hvlt : v < selfMap)
    (hwlt : w < selfMap) : getDirectoryIndex v = getDirectoryIndex w ∧
    getTableIndex v = getTableIndex w ↔ v = w := by
  constructor
  · rintro ⟨hd, ht⟩
    unfold getDirectoryIndex getTableIndex directoryShiftR tableShiftR pageEntrys pageSize selfMap at *
    omega
  · rintro rfl
    exact ⟨rfl, rfl⟩

/-! ## Fresh pages -/

/-- What `physical_pageAlloc` is trusted with. -/
structure FreshPages (ps : List Nat) : Prop where
  nodup : ps.Nodup
  page : ∀ p ∈ ps, p % pageSize = 0 ∧ 0 < p ∧ p < 2 ^ 32

theorem mapQuick_toNat {p : Nat} (h : p < 2 ^ 32) : (pagingMapQuick p).toNat = p / pageSize := by
  unfold pagingMapQuick tableShiftR pageSize
  rw [BitVec.toNat_ofNat]
  omega

theorem mapQuick_inj {p q : Nat} (hp : p % pageSize = 0 ∧ 0 < p ∧ p < 2 ^ 32)
    (hq : q % pageSize = 0 ∧ 0 < q ∧ q < 2 ^ 32) (h : pagingMapQuick p = pagingMapQuick q) : p = q := by
  have heq := congrArg BitVec.toNat h
  rw [mapQuick_toNat hp.2.2, mapQuick_toNat hq.2.2] at heq
  unfold pageSize at *
  omega

theorem mapQuick_ne_zero {p : Nat} (hp : p % pageSize = 0 ∧ 0 < p ∧ p < 2 ^ 32) :
    pagingMapQuick p ≠ 0 := by
  intro h
  have heq := congrArg BitVec.toNat h
  rw [mapQuick_toNat hp.2.2] at heq
  simp only [BitVec.ofNat_eq_ofNat, BitVec.toNat_ofNat, Nat.zero_mod] at heq
  unfold pageSize at *
  omega

@[simp] theorem mapQuick_frame (f : Frame) : pagingMapQuick (f.toNat * 2 ^ 12) = f := by
  apply BitVec.eq_of_toNat_eq
  have := f.isLt
  unfold pagingMapQuick tableShiftR
  rw [BitVec.toNat_ofNat]
  omega

theorem frame_shift_eq_zero {f : Frame} : f.toNat * 2 ^ 12 = 0 ↔ f = 0 := by
  rw [← BitVec.toNat_inj]
  show f.toNat * 2 ^ 12 = 0 ↔ f.toNat = 0
  omega

/-! ## Entries -/

def dir (s : State) : Frame := pagingMapQuick s.pageDir

/-- The directory entry at `i`. -/
def pde (s : State) (i : Nat) : PageEntry := s.phys (dir s) i

/-- `n` entries from `a` on, as the loop over a new table leaves them. -/
def clearEntries (s : State) (f : Frame) (a n : Nat) : State :=
  { s with phys := fun g i => if g = f ∧ a ≤ i ∧ i < a + n then tableEntry s 0 false else s.phys g i }

theorem getEntry_of_table {set : State → Nat → Option State} {s : State} {la : Nat} {f : Frame}
    (hf : (pde s (getDirectoryIndex la)).address = f) (h0 : f ≠ 0) :
    pagingGetPageTableEntry set s la = some (s, f, getTableIndex la) := by
  have haddr : (s.phys (pagingMapQuick s.pageDir) (getDirectoryIndex la)).address = f := hf
  simp only [pagingGetPageTableEntry, pagingGetPageDirectoryEntry, haddr]
  rw [if_neg (fun h => h0 (frame_shift_eq_zero.mp h)), mapQuick_frame]

theorem setEntry_of_table (fuel : Nat) {s : State} {la : Nat} (pa : Nat) (b : Bool) {f : Frame}
    (hla : la % pageSize = 0) (hlt : la < 2 ^ 32) (hf : (pde s (getDirectoryIndex la)).address = f)
    (h0 : f ≠ 0) : pagingSetPageTableEntry (fuel + 1) s la pa b =
      some (writeEntry s f (getTableIndex la) (tableEntry s pa b)) := by
  rw [pagingSetPageTableEntry, pageAlign_eq hla hlt, getEntry_of_table hf h0]
  rfl

theorem getEntry_of_noTable {set : State → Nat → Option State} {s s' : State} {la p : Nat} {ps : List Nat}
    (hp : s.supply = p :: ps) (h0 : (pde s (getDirectoryIndex la)).address = 0)
    (hclear : clearTable set la pageEntrys (pagingSetPageDirectoryEntry { s with supply := ps } la
    p) = some s') :
    pagingGetPageTableEntry set s la = some (s', pagingMapQuick p, getTableIndex la) := by
  have haddr : (s.phys (pagingMapQuick s.pageDir) (getDirectoryIndex la)).address = 0 := h0
  simp only [pagingGetPageTableEntry, pagingGetPageDirectoryEntry, haddr]
  rw [if_pos (by rfl), physicalPageAlloc, hp]
  simp only [Option.bind_some]
  rw [hclear, Option.map_some]

theorem pde_setDirectoryEntry (s : State) (la p : Nat) :
    (pde (pagingSetPageDirectoryEntry s la p) (getDirectoryIndex la)).address = pagingMapQuick p ∧
      (pde (pagingSetPageDirectoryEntry s la p) (getDirectoryIndex la)).present = true := by
  unfold pde pagingSetPageDirectoryEntry pagingGetPageDirectoryEntry writeEntry dir
  dsimp only
  rw [if_pos ⟨rfl, rfl⟩]
  exact ⟨rfl, rfl⟩

theorem pde_setDirectoryEntry_other (s : State) (la p : Nat) {j : Nat} (hj : j ≠ getDirectoryIndex la) :
    pde (pagingSetPageDirectoryEntry s la p) j = pde s j := by
  unfold pde pagingSetPageDirectoryEntry pagingGetPageDirectoryEntry writeEntry dir
  dsimp only
  rw [if_neg]
  exact fun h => hj h.2

theorem pde_writeEntry {s : State} {f : Frame} (hf : f ≠ dir s) (k : Nat) (e : PageEntry) (j : Nat) :
    pde (writeEntry s f k e) j = pde s j := by
  unfold pde writeEntry dir
  dsimp only
  rw [if_neg]
  exact fun h => hf h.1.symm

theorem pde_clearEntries {s : State} {f : Frame} (hf : f ≠ dir s) (a n j : Nat) :
    pde (clearEntries s f a n) j = pde s j := by
  unfold pde clearEntries dir
  dsimp only
  rw [if_neg]
  exact fun h => hf h.1.symm

/-- `n` steps of the loop over a region whose table is there already, unless they clear its own directory entry. -/
theorem clearTable_part (fuel : Nat) {la i : Nat} {f : Frame} (hla : la % pageSize = 0) (h0 : f ≠ 0)
    (rest : Nat) :
    ∀ n a s, n + rest ≤ pageEntrys → (pde s i).address = f → (f = dir s → i < a ∨ a + n ≤ i) →
      (∀ j < n, getDirectoryIndex (dword (la + (pageEntrys - (n + rest) + j) * pageSize)) = i ∧
        getTableIndex (dword (la + (pageEntrys - (n + rest) + j) * pageSize)) = a + j) →
      clearTable (fun s la => pagingSetPageTableEntry (fuel + 1) s la 0 false) la (n + rest) s =
        clearTable (fun s la => pagingSetPageTableEntry (fuel + 1) s la 0 false) la rest
          (clearEntries s f a n) := by
  intro n
  induction n with
  | zero =>
    intro a s _ _ _ _
    have hnone : (fun g i => if g = f ∧ a ≤ i ∧ i < a + 0 then tableEntry s 0 false else s.phys g i) =
        s.phys := by
      funext g k
      rw [if_neg]
      rintro ⟨-, h1, h2⟩
      omega
    rw [clearEntries, hnone, Nat.zero_add]
  | succ n ih =>
    intro a s hn hf hkeep hidx
    obtain ⟨hd, ht⟩ := hidx 0 (by omega)
    rw [Nat.add_zero] at hd ht
    rw [Nat.add_right_comm] at hd ht ⊢
    have hal : dword (la + (pageEntrys - (n + rest + 1)) * pageSize) % pageSize = 0 := by
      unfold dword pageSize at *
      omega
    rw [clearTable, setEntry_of_table fuel 0 false hal (Nat.mod_lt _ (by decide))
      (by rw [hd]; exact hf) h0, ht,
      Option.bind_some]
    -- The entry just cleared is not the directory entry of the region.
    have hf' : (pde (writeEntry s f (a + 0) (tableEntry s 0 false)) i).address = f := by
      unfold pde writeEntry dir
      dsimp only
      rw [if_neg]
      · exact hf
      · rintro ⟨hfd, rfl⟩
        have := hkeep hfd.symm
        omega
    rw [ih (a + 1) _ (by omega) hf' (fun h => by have := hkeep h; omega)]
    · congr 1
      unfold clearEntries writeEntry
      congr 1
      funext g k
      by_cases hg : g = f
      · simp only [hg, true_and]
        by_cases hk : k = a
        · rw [if_neg (by omega), if_pos (by omega), if_pos (by omega)]
        · rw [if_neg (show ¬ k = a + 0 from hk)]
          exact if_congr (by omega) rfl rfl
      · simp only [hg, false_and, if_false]
    · intro j hj
      have := hidx (j + 1) (by omega)
      rw [show pageEntrys - (n + rest) + j = pageEntrys - (n + 1 + rest) + (j + 1) by unfold pageEntrys at *; omega]
      exact ⟨this.1, by rw [this.2]; omega⟩

theorem clearTable_spec (fuel : Nat) {la i : Nat} {f : Frame} (hla : la % pageSize = 0) (h0 : f ≠ 0)
    (n a : Nat) (s : State) (hn : n ≤ pageEntrys) (hf : (pde s i).address = f)
    (hkeep : f = dir s → i < a ∨ a + n ≤ i)
    (hidx : ∀ j < n, getDirectoryIndex (dword (la + (pageEntrys - n + j) * pageSize)) = i ∧
      getTableIndex (dword (la + (pageEntrys - n + j) * pageSize)) = a + j) :
    clearTable (fun s la => pagingSetPageTableEntry (fuel + 1) s la 0 false) la n s =
      some (clearEntries s f a n) :=
  clearTable_part fuel hla h0 0 n a s hn hf hkeep hidx

/-! ## The invariant -/

/-- The directory entries below the self map: none is used twice, and no page to come is used yet. -/
structure Inv (s : State) : Prop where
  fresh : FreshPages s.supply
  entry : ∀ i < pageEntrys - 1, ((pde s i).address = 0 ∧ (pde s i).present = false) ∨
    ((pde s i).address ≠ 0 ∧ (pde s i).address ≠ dir s ∧ (pde s i).present = true)
  distinct : ∀ i < pageEntrys - 1, ∀ j < pageEntrys - 1, (pde s i).address ≠ 0 →
    (pde s i).address = (pde s j).address → i = j
  unused : ∀ p ∈ s.supply, pagingMapQuick p ≠ dir s ∧
    ∀ i < pageEntrys - 1, (pde s i).address ≠ pagingMapQuick p

theorem Inv.congr {s s' : State} (h : Inv s) (hs : s'.supply = s.supply) (hd : dir s' = dir s)
    (hp : ∀ i < pageEntrys - 1, pde s' i = pde s i) : Inv s' := by
  refine ⟨hs ▸ h.fresh, fun i hi => ?_, fun i hi j hj => ?_, fun p hp' => ?_⟩
  · rw [hp i hi, hd]; exact h.entry i hi
  · rw [hp i hi, hp j hj]; exact h.distinct i hi j hj
  · rw [hd]
    refine ⟨(h.unused p (hs ▸ hp')).1, fun i hi => ?_⟩
    rw [hp i hi]
    exact (h.unused p (hs ▸ hp')).2 i hi

theorem walk_eq (s : State) (v : Nat) : walk s v =
    if (pde s (getDirectoryIndex v)).present then
      some ((s.phys (pde s (getDirectoryIndex v)).address (getTableIndex v)).address,
        (s.phys (pde s (getDirectoryIndex v)).address (getTableIndex v)).present)
    else none := rfl

theorem write_spec {s : State} (hs : Inv s) {i k : Nat} {f : Frame} (hi : i < pageEntrys - 1)
    (hf : (pde s i).address = f) (h0 : f ≠ 0) (e : PageEntry) :
    Inv (writeEntry s f k e) ∧ ∀ v < selfMap, walk (writeEntry s f k e) v =
      if getDirectoryIndex v = i ∧ getTableIndex v = k then some (e.address, e.present) else walk s v := by
  obtain ⟨hfd, hpres⟩ : f ≠ dir s ∧ (pde s i).present = true := by
    rcases hs.entry i hi with h | h
    · exact absurd (hf.symm.trans h.1) h0
    · exact ⟨hf ▸ h.2.1, h.2.2⟩
  have hpde := pde_writeEntry hfd k e
  refine ⟨hs.congr rfl rfl fun j _ => hpde j, fun v hv => ?_⟩
  rw [walk_eq, walk_eq, hpde]
  by_cases hd : getDirectoryIndex v = i
  · rw [hd, hpres, hf]
    by_cases ht : getTableIndex v = k
    · simp [writeEntry, ht]
    · simp [writeEntry, ht]
  · -- Another region has another table.
    have hne : (pde s (getDirectoryIndex v)).address ≠ f := by
      intro heq
      exact hd (hs.distinct _ (getDirectoryIndex_lt hv) i hi (heq ▸ h0) (heq.trans hf.symm))
    simp [hd, hne, writeEntry]

theorem Inv.addTable {s s' : State} (hs : Inv s) {p i : Nat} {ps : List Nat} (hp : s.supply = p :: ps)
    (hi : i < pageEntrys - 1) (h0 : (pde s i).address = 0) (hsup : s'.supply = ps) (hd : dir s' = dir s)
    (hnew : (pde s' i).address = pagingMapQuick p ∧ (pde s' i).present = true)
    (hold : ∀ j, j ≠ i → pde s' j = pde s j) : Inv s' := by
  have hpage := hs.fresh.page p (by rw [hp]; exact List.mem_cons_self)
  have hunused := hs.unused p (by rw [hp]; exact List.mem_cons_self)
  have hnodup := hs.fresh.nodup
  rw [hp] at hnodup
  have hps : ∀ q ∈ ps, q ∈ s.supply := fun q hq => by rw [hp]; exact List.mem_cons_of_mem _ hq
  refine ⟨?_, ?_, ?_, ?_⟩
  · rw [hsup]
    exact ⟨(List.nodup_cons.mp hnodup).2, fun q hq => hs.fresh.page q (hps q hq)⟩
  · intro j hj
    by_cases hji : j = i
    · subst hji
      rw [hnew.1, hnew.2, hd]
      exact Or.inr ⟨mapQuick_ne_zero hpage, hunused.1, rfl⟩
    · rw [hold j hji, hd]
      exact hs.entry j hj
  · intro j hj k hk hj0 heq
    by_cases hji : j = i <;> by_cases hki : k = i
    · rw [hji, hki]
    · rw [hji, hnew.1, hold k hki] at heq
      exact absurd heq.symm (hunused.2 k hk)
    · rw [hki, hnew.1, hold j hji] at heq
      exact absurd heq (hunused.2 j hj)
    · rw [hold j hji] at hj0 heq
      rw [hold k hki] at heq
      exact hs.distinct j hj k hk hj0 heq
  · intro q hq
    rw [hsup] at hq
    rw [hd]
    refine ⟨(hs.unused q (hps q hq)).1, fun j hj => ?_⟩
    by_cases hji : j = i
    · subst hji
      rw [hnew.1]
      intro heq
      rw [mapQuick_inj hpage (hs.fresh.page q (hps q hq)) heq] at hnodup
      exact (List.nodup_cons.mp hnodup).1 hq
    · rw [hold j hji]
      exact (hs.unused q (hps q hq)).2 j hj

theorem newTable_spec (fuel : Nat) {s : State} (hs : Inv s) {la p : Nat} {ps : List Nat}
    (hla : la % pageSize = 0) (hlt : la < selfMap) (ht : getTableIndex la = 0)
    (hp : s.supply = p :: ps) (h0 : (pde s (getDirectoryIndex la)).address = 0) :
    ∃ s', pagingGetPageTableEntry (fun s la => pagingSetPageTableEntry (fuel + 1) s la 0 false) s la =
        some (s', pagingMapQuick p, 0) ∧
      Inv s' ∧ s'.supply = ps ∧ (pde s' (getDirectoryIndex la)).address = pagingMapQuick p ∧
      ∀ v < selfMap, walk s' v =
        if getDirectoryIndex v = getDirectoryIndex la then some (0, false) else walk s v := by
  have hi := getDirectoryIndex_lt hlt
  have hpage := hs.fresh.page p (by rw [hp]; exact List.mem_cons_self)
  have hunused := hs.unused p (by rw [hp]; exact List.mem_cons_self)
  set i := getDirectoryIndex la with hidx
  set s2 := pagingSetPageDirectoryEntry { s with supply := ps } la p with hs2
  have hnew2 : (pde s2 i).address = pagingMapQuick p ∧ (pde s2 i).present = true :=
    pde_setDirectoryEntry _ la p
  have hpde2 : ∀ j, j ≠ i → pde s2 j = pde s j := fun j hj => pde_setDirectoryEntry_other _ la p hj
  have hpde3 : ∀ j, pde (clearEntries s2 (pagingMapQuick p) 0 pageEntrys) j = pde s2 j :=
    pde_clearEntries (s := s2) hunused.1 0 pageEntrys
  have hclear := clearTable_spec fuel hla (mapQuick_ne_zero hpage) pageEntrys 0 s2 (Nat.le_refl _)
    hnew2.1 (fun h => absurd h hunused.1) (fun j hj => by
      unfold getDirectoryIndex getTableIndex directoryShiftR tableShiftR dword pageEntrys pageSize
        selfMap at *
      omega)
  refine ⟨clearEntries s2 (pagingMapQuick p) 0 pageEntrys, ?_, ?_, rfl, ?_, ?_⟩
  · rw [getEntry_of_noTable hp h0 hclear, ht]
  · refine hs.addTable hp hi h0 rfl rfl ?_ fun j hj => (hpde3 j).trans (hpde2 j hj)
    rw [hpde3]
    exact hnew2
  · rw [hpde3]
    exact hnew2.1
  · intro v hv
    rw [walk_eq, walk_eq, hpde3]
    have hk : getTableIndex v < 0 + pageEntrys := by
      unfold getTableIndex pageEntrys
      omega
    by_cases hd : getDirectoryIndex v = i
    · rw [hd, if_pos hnew2.2, hnew2.1, if_pos rfl]
      have hread : (clearEntries s2 (pagingMapQuick p) 0 pageEntrys).phys (pagingMapQuick p)
          (getTableIndex v) = tableEntry s2 0 false := if_pos ⟨rfl, Nat.zero_le _, hk⟩
      rw [hread]
      rfl
    · have hne : (pde s (getDirectoryIndex v)).address ≠ pagingMapQuick p :=
        hunused.2 _ (getDirectoryIndex_lt hv)
      rw [hpde2 _ hd, if_neg hd]
      have hread : ∀ k, (clearEntries s2 (pagingMapQuick p) 0 pageEntrys).phys
          (pde s (getDirectoryIndex v)).address k = s2.phys (pde s (getDirectoryIndex v)).address k :=
        fun k => if_neg fun h => hne h.1
      rcases hs.entry _ (getDirectoryIndex_lt hv) with ⟨-, hno⟩ | ⟨-, hfd, -⟩
      · simp [hno]
      · have hs2read : s2.phys (pde s (getDirectoryIndex v)).address (getTableIndex v) =
            s.phys (pde s (getDirectoryIndex v)).address (getTableIndex v) := if_neg fun h => hfd h.1
        rw [hread, hs2read]

/-! ## Calls -/

/-- Both addresses are aligned, the page is below the self map, and a page is left for a table. -/
def Allowed (s : State) (op : Op) : Prop :=
  op.va % pageSize = 0 ∧ op.va < selfMap ∧ op.pa % pageSize = 0 ∧ op.pa < 2 ^ 32 ∧ s.supply ≠ []

/-- The region has a table, or the page is the first of its region. -/
def RegionReady (s : State) (op : Op) : Prop :=
  (pde s (getDirectoryIndex op.va)).address ≠ 0 ∨ getTableIndex op.va = 0

/-- What a call for the page says: its frame and its present flag. -/
def Op.entry (op : Op) : Frame × Bool := (BitVec.ofNat 20 (op.pa / pageSize), op.present)

/-- No call was made for the page, as far as the walk can tell. -/
def NotPresent (r : Option (Frame × Bool)) : Prop := ∀ f, r ≠ some (f, true)

theorem tableEntry_eq (s : State) {op : Op} (hpa : op.pa % pageSize = 0) (hlt : op.pa < 2 ^ 32) :
    ((tableEntry s op.pa op.present).address, (tableEntry s op.pa op.present).present) = op.entry := by
  rw [tableEntry, Op.entry, pageAlign_eq hpa hlt]
  rfl

theorem set_spec {s : State} {op : Op} (hs : Inv s) (ha : Allowed s op) (hr : RegionReady s op) :
    ∃ s', step s op = some s' ∧ Inv s' ∧ s.supply.length ≤ s'.supply.length + 1 ∧ ∀ v < selfMap,
      v % pageSize = 0 →
      (v = op.va → walk s' v = some op.entry) ∧
      (v ≠ op.va → walk s' v = walk s v ∨ walk s v = none ∧ NotPresent (walk s' v)) := by
  obtain ⟨hva, hlt, hpa, hpalt, hsupply⟩ := ha
  have hi := getDirectoryIndex_lt hlt
  by_cases h0 : (pde s (getDirectoryIndex op.va)).address = 0
  · -- The first page of a region without a table.
    have ht := hr.resolve_left (not_not.mpr h0)
    obtain ⟨p, ps, hp⟩ := List.exists_cons_of_ne_nil hsupply
    obtain ⟨s1, h1, hinv1, rfl, hf1, hw1⟩ := newTable_spec 1024 hs hva hlt ht hp h0
    have hpage := hs.fresh.page p (by rw [hp]; exact List.mem_cons_self)
    obtain ⟨hinv, hw⟩ := write_spec hinv1 (k := 0) hi hf1 (mapQuick_ne_zero hpage)
      (tableEntry s1 op.pa op.present)
    refine ⟨_, ?_, hinv, by rw [hp]; exact Nat.le_refl _, fun v hv hvp => ⟨?_, ?_⟩⟩
    · rw [step, setFuel, pagingSetPageTableEntry, pageAlign_eq hva (lt_of_lt_selfMap hlt), h1]
      rfl
    · rintro rfl
      rw [hw op.va hv, if_pos ⟨rfl, ht⟩, tableEntry_eq s1 hpa hpalt]
    · intro hne
      rw [hw v hv, if_neg (by rw [← ht, index_iff hvp hva hv hlt]; exact hne), hw1 v hv]
      split
      · rename_i hd
        right
        have hno : (pde s (getDirectoryIndex op.va)).present = false :=
          ((hs.entry _ hi).resolve_right fun h => h.1 h0).2
        rw [walk_eq, hd, hno]
        exact ⟨by simp, fun f => by simp⟩
      · exact Or.inl rfl
  · obtain ⟨hinv, hw⟩ := write_spec hs (k := getTableIndex op.va) hi rfl h0 (tableEntry s op.pa op.present)
    refine ⟨_, setEntry_of_table _ op.pa op.present hva (lt_of_lt_selfMap hlt) rfl h0, hinv,
      Nat.le_succ _, fun v hv hvp => ⟨?_, ?_⟩⟩
    · rintro rfl
      rw [hw op.va hv, if_pos ⟨rfl, rfl⟩, tableEntry_eq s hpa hpalt]
    · intro hne
      rw [hw v hv, if_neg (by rw [index_iff hvp hva hv hlt]; exact hne)]
      exact Or.inl rfl

/-! ## The abstract map -/

def setMap (M : Nat → Option (Frame × Bool)) (op : Op) : Nat → Option (Frame × Bool) :=
  fun v => if v = op.va then some op.entry else M v

def lastCalls (ops : List Op) : Nat → Option (Frame × Bool) := ops.foldl setMap fun _ => none

/-- The walk of every page gives what the map says, or not present. -/
def Refines (s : State) (M : Nat → Option (Frame × Bool)) : Prop :=
  ∀ v < selfMap, v % pageSize = 0 → match M v with
    | some r => walk s v = some r
    | none => NotPresent (walk s v)

theorem refines_step (s : State) (M : Nat → Option (Frame × Bool)) (op : Op)
    (hs : Inv s ∧ Refines s M) (hok : Allowed s op ∧ RegionReady s op) :
    ∃ s', step s op = some s' ∧ Inv s' ∧ Refines s' (setMap M op) := by
  obtain ⟨s', h, hinv, -, hw⟩ := set_spec hs.1 hok.1 hok.2
  refine ⟨s', h, hinv, fun v hv hvp => ?_⟩
  have hold := hs.2 v hv hvp
  unfold setMap
  by_cases hva : v = op.va
  · simp only [if_pos hva]
    exact (hw v hv hvp).1 hva
  · simp only [if_neg hva]
    rcases (hw v hv hvp).2 hva with heq | ⟨hno, hno'⟩
    · rw [heq]
      exact hold
    · -- Only a new table can change the walk, and it says not present as before.
      cases hM : M v with
      | none => exact hno'
      | some r =>
        rw [hM] at hold
        exact absurd (hold.symm.trans hno) (by simp)

/-! ## Runs -/

theorem createDirectory_spec {s s' : State} (hs : FreshPages s.supply)
    (h : pagingCreateDirectory s = some (s', SUCCESS)) :
    Inv s' ∧ Refines s' (fun _ => none) := by
  obtain ⟨⟨s1, p⟩, h1, h2⟩ := Option.map_eq_some_iff.mp h
  have hsup : s.supply = p :: s1.supply := by
    unfold physicalPageAlloc at h1
    split at h1
    · simp at h1
    · rename_i q ps hps
      obtain ⟨rfl, rfl⟩ := Prod.mk.inj (Option.some.inj h1)
      exact hps
  have hpage := hs.page p (by rw [hsup]; exact List.mem_cons_self)
  have hnodup := hs.nodup
  rw [hsup] at hnodup
  dsimp only at h2
  rw [if_neg (by omega)] at h2
  obtain ⟨rfl, -⟩ := Prod.mk.inj h2
  clear h2 h
  set s' : State := { s1 with
    pageDir := p
    phys := fun g i => if g = pagingMapQuick p ∧ i < pageEntrys then defaultEntry { s1 with pageDir := p } i
      else s1.phys g i } with hs'
  have hpde : ∀ i < pageEntrys - 1, (pde s' i).address = 0 ∧ (pde s' i).present = false := by
    intro i hi
    have hread : pde s' i = defaultEntry { s1 with pageDir := p } i := by
      rw [hs']
      exact if_pos ⟨rfl, by omega⟩
    rw [hread, defaultEntry, if_neg (by omega)]
    exact ⟨rfl, rfl⟩
  refine ⟨⟨⟨(List.nodup_cons.mp hnodup).2, fun q hq => hs.page q ?_⟩, fun i hi => Or.inl (hpde i hi),
    fun i hi j hj h0 => absurd (hpde i hi).1 h0, fun q hq => ⟨fun heq => ?_, fun i hi => ?_⟩⟩, ?_⟩
  · rw [hsup]
    exact List.mem_cons_of_mem _ hq
  · have hq' : q ∈ s.supply := by
      rw [hsup]
      exact List.mem_cons_of_mem _ hq
    rw [mapQuick_inj (hs.page q hq') hpage heq] at hq
    exact (List.nodup_cons.mp hnodup).1 hq
  · have hq' : q ∈ s.supply := by
      rw [hsup]
      exact List.mem_cons_of_mem _ hq
    rw [(hpde i hi).1]
    exact (mapQuick_ne_zero (hs.page q hq')).symm
  · intro v hv hvp f
    rw [walk_eq, (hpde _ (getDirectoryIndex_lt hv)).2]
    simp

/-- **Translation.** After `paging_createDirectory`, along every run of calls whose region is ready,
the walk gives the last call made for each page. -/
theorem walk_refines_lastCalls (s0 s : State) (hfresh : FreshPages s0.supply)
    (hcreate : pagingCreateDirectory s0 = some (s, SUCCESS)) (ops : List Op)
    (h : Along step (fun s op => Allowed s op ∧ RegionReady s op) s ops) :
    ∃ s', run step s ops = some s' ∧ Refines s' (lastCalls ops) := by
  obtain ⟨s', hrun, -, hr⟩ := run_refines (R := fun s M => Inv s ∧ Refines s M)
    (fun s M op hr hok => refines_step s M op hr hok) ops s _ (createDirectory_spec hfresh hcreate) h
  exact ⟨s', hrun, hr⟩

/-- The first page of the second region, then another page of it. -/
def twoPages : List Op := [⟨0x400000, 0x5000, true⟩, ⟨0x401000, 0x6000, true⟩]

theorem walk_refines_two_calls :
    ∃ s s', pagingCreateDirectory ⟨fun _ _ => zeroEntry, [4096, 8192, 12288], 0, false⟩ = some (s, SUCCESS) ∧
      run step s twoPages = some s' ∧ Refines s' (lastCalls twoPages) := by
  have hfresh : FreshPages [4096, 8192, 12288] := ⟨by decide, by decide⟩
  obtain ⟨s, hcreate, hsupply, hready⟩ : ∃ s,
    pagingCreateDirectory ⟨fun _ _ => zeroEntry, [4096, 8192, 12288], 0, false⟩ =
      some (s, SUCCESS) ∧ s.supply = [8192, 12288] ∧ RegionReady s ⟨0x400000, 0x5000, true⟩ :=
        ⟨_, rfl, rfl, .inr (by decide)⟩
  have hallowed : Allowed s ⟨0x400000, 0x5000, true⟩ :=
    ⟨by decide, by decide, by decide, by decide, by rw [hsupply]; exact List.cons_ne_nil _ _⟩
  obtain ⟨s1, h1, hinv1, hleft, hw1⟩ := set_spec (createDirectory_spec hfresh hcreate).1 hallowed hready
  -- The first page is present, so the region has a table.
  have hwalk := (hw1 0x400000 (by decide) (by decide)).1 rfl
  have htable : (pde s1 (getDirectoryIndex 0x401000)).address ≠ 0 := by
    intro h0
    have hno := ((hinv1.entry 1 (by decide)).resolve_right fun h => h.1 h0).2
    rw [walk_eq, show getDirectoryIndex 0x400000 = 1 by decide, hno] at hwalk
    cases hwalk
  have hleft1 : s1.supply ≠ [] := by
    intro hnil
    rw [hsupply, hnil] at hleft
    exact absurd hleft (by decide)
  obtain ⟨s', hrun, hrefines⟩ := walk_refines_lastCalls _ s hfresh hcreate twoPages
    (.cons ⟨hallowed, hready⟩ h1 ⟨⟨⟨by decide, by decide, by decide, by decide, hleft1⟩, .inl htable⟩,
      fun _ _ => trivial⟩)
  exact ⟨s, s', hcreate, hrun, hrefines⟩

/-! ## Where the loop runs out of its region -/

def lastPage : Nat := selfMap - pageSize

/-- Mapping it first makes the loop run on into the self map, where it clears the directory. -/
theorem lastPage_clears_directory {s : State} {p : Nat} (pa : Nat) (b : Bool) {ps : List Nat}
    (hfresh : FreshPages s.supply) (hp : s.supply = p :: ps) (hdir : pagingMapQuick p ≠ dir s)
    (hself : (pde s (pageEntrys - 1)).address = dir s) (hdir0 : dir s ≠ 0)
    (h0 : (pde s (pageEntrys - 2)).address = 0) :
    ∃ s', step s ⟨lastPage, pa, b⟩ = some s' ∧ ∀ v < selfMap, walk s' v = none := by
  have hpage := hfresh.page p (by rw [hp]; exact List.mem_cons_self)
  have hd : getDirectoryIndex lastPage = pageEntrys - 2 := by decide
  have ht : getTableIndex lastPage = pageEntrys - 1 := by decide
  set s2 := pagingSetPageDirectoryEntry { s with supply := ps } lastPage p with hs2
  have hnew2 : (pde s2 (getDirectoryIndex lastPage)).address = pagingMapQuick p :=
    (pde_setDirectoryEntry _ lastPage p).1
  have hself2 : pde s2 (pageEntrys - 1) = pde s (pageEntrys - 1) :=
    pde_setDirectoryEntry_other _ lastPage p (by decide)
  have hfirst := setEntry_of_table (s := s2) 1024 0 false (show lastPage % pageSize = 0 by decide) (by decide)
    hnew2 (mapQuick_ne_zero hpage)
  set s3 := writeEntry s2 (pagingMapQuick p) (getTableIndex lastPage) (tableEntry s2 0 false) with hs3
  have hself3 : (pde s3 (pageEntrys - 1)).address = dir s3 := by
    rw [hs3, pde_writeEntry (s := s2) hdir, hself2, hself]
    rfl
  have hrest := clearTable_spec 1024 (show lastPage % pageSize = 0 by decide) (show dir s3 ≠ 0 from hdir0)
    (pageEntrys - 1) 0 s3 (by decide) hself3 (fun _ => Or.inr (by decide)) (fun j hj => by
      unfold getDirectoryIndex getTableIndex directoryShiftR tableShiftR dword lastPage pageEntrys pageSize
        selfMap at *
      omega)
  have hclear : clearTable (fun s la => pagingSetPageTableEntry (1024 + 1) s la 0 false) lastPage
      (pageEntrys - 1 + 1) s2 = some (clearEntries s3 (dir s3) 0 (pageEntrys - 1)) := by
    have haddr : dword (lastPage + (pageEntrys - (pageEntrys - 1 + 1)) * pageSize) = lastPage := by decide
    rw [clearTable, haddr, hfirst, Option.bind_some, hrest]
  rw [show pageEntrys - 1 + 1 = pageEntrys from rfl] at hclear
  have hget : pagingGetPageTableEntry (fun s la => pagingSetPageTableEntry (1024 + 1) s la 0 false) s
    lastPage =
      some (clearEntries s3 (dir s3) 0 (pageEntrys - 1), pagingMapQuick p, getTableIndex lastPage) :=
    getEntry_of_noTable hp (by rw [hd]; exact h0) hclear
  set s4 := clearEntries s3 (dir s3) 0 (pageEntrys - 1) with hs4
  have hstep : step s ⟨lastPage, pa, b⟩ =
      some (writeEntry s4 (pagingMapQuick p) (getTableIndex lastPage) (tableEntry s4 pa b)) := by
    rw [step, setFuel, pagingSetPageTableEntry, pageAlign_eq (show lastPage % pageSize = 0 by decide)
      (by decide), hget]
    rfl
  refine ⟨_, hstep, fun v hv => ?_⟩
  have hi := getDirectoryIndex_lt hv
  have hpde : pde (writeEntry s4 (pagingMapQuick p) (getTableIndex lastPage) (tableEntry s4 pa b))
      (getDirectoryIndex v) = tableEntry s3 0 false := by
    refine (if_neg fun h => hdir h.1.symm).trans ?_
    exact if_pos ⟨rfl, Nat.zero_le _, by omega⟩
  rw [walk_eq, hpde]
  rfl

/-- Two fresh pages, and one call. -/
theorem lastPage_not_mapped :
    ∃ s s', pagingCreateDirectory ⟨fun _ _ => zeroEntry, [4096, 8192], 0, false⟩ = some (s, SUCCESS) ∧
      FreshPages [4096, 8192] ∧ Along step Allowed s [⟨lastPage, 0x5000, true⟩] ∧
      run step s [⟨lastPage, 0x5000, true⟩] = some s' ∧
        ¬ Refines s' (lastCalls [⟨lastPage, 0x5000, true⟩]) := by
  have hfresh : FreshPages [4096, 8192] := ⟨by decide, by decide⟩
  obtain ⟨s', h, hw⟩ := lastPage_clears_directory 0x5000 true
    (s := ((pagingCreateDirectory ⟨fun _ _ => zeroEntry, [4096, 8192], 0, false⟩).get rfl).1)
    ⟨by decide, by decide⟩ rfl (by decide) (by decide) (by decide) (by decide)
  refine ⟨_, s', rfl, hfresh, ⟨?_, fun _ _ => trivial⟩, run_cons h [], fun hr => ?_⟩
  · exact ⟨by decide, by decide, by decide, by decide, by decide⟩
  · have hlast : walk s' lastPage = some (5, true) := hr lastPage (by decide) (by decide)
    rw [hw lastPage (by decide)] at hlast
    simp at hlast

end SystemProjects.Paging
