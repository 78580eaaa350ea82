import SystemProjects.Paging.Proofs

/-!
# How many pages a call takes

The directory may hold anything that `paging_createDirectory` and later calls leave in it, for any addresses.
-/

open SystemProjects.Run

namespace SystemProjects.Paging

variable {s s' s'' : State} {la p : Nat} {ps : List Nat}

/-- The pages that are left, and the directory. No call gives pages back. -/
structure Spends (s s' : State) : Prop where
  supply : s'.supply <:+ s.supply
  pageDir : s'.pageDir = s.pageDir

theorem Spends.refl (s : State) : Spends s s := ⟨List.suffix_refl _, rfl⟩

theorem Spends.trans (h : Spends s s') (h' : Spends s' s'') : Spends s s'' :=
  ⟨h'.supply.trans h.supply, h'.pageDir.trans h.pageDir⟩

theorem Spends.length_le (h : Spends s s') : s'.supply.length ≤ s.supply.length := h.supply.length_le

theorem clearTable_spends {set : State → Nat → Option State}
    (hset : ∀ s la s', set s la = some s' → Spends s s') :
    ∀ n s s', clearTable set la n s = some s' → Spends s s' := by
  intro n
  induction n with
  | zero =>
    intro s s' h
    obtain rfl := Option.some.inj h
    exact .refl s
  | succ n ih =>
    intro s s' h
    obtain ⟨s1, h1, h2⟩ := Option.bind_eq_some_iff.mp h
    exact (hset _ _ _ h1).trans (ih _ _ h2)

theorem getEntry_loop {set : State → Nat → Option State} {r : Frame × Nat}
    (h0 : (pde s (getDirectoryIndex la)).address = 0) (h : pagingGetPageTableEntry set s la = some (s', r)) :
    ∃ p ps, s.supply = p :: ps ∧
      clearTable set la pageEntrys (pagingSetPageDirectoryEntry { s with supply := ps } la p) = some s' := by
  have haddr : (s.phys (pagingMapQuick s.pageDir) (getDirectoryIndex la)).address = 0 := h0
  simp only [pagingGetPageTableEntry, pagingGetPageDirectoryEntry, haddr] at h
  rw [if_pos (by rfl), physicalPageAlloc] at h
  cases hp : s.supply with
  | nil => simp [hp] at h
  | cons p ps =>
    rw [hp, Option.bind_some] at h
    obtain ⟨s2, h2, heq⟩ := Option.map_eq_some_iff.mp h
    obtain ⟨rfl, -⟩ := Prod.mk.inj heq
    exact ⟨p, ps, rfl, h2⟩

theorem getEntry_spends {set : State → Nat → Option State}
    (hset : ∀ s la s', set s la = some s' → Spends s s')
    {r : Frame × Nat} (h : pagingGetPageTableEntry set s la = some (s', r)) :
    Spends s s' ∧ ((pde s (getDirectoryIndex la)).address = 0 → s'.supply.length < s.supply.length) := by
  by_cases h0 : (pde s (getDirectoryIndex la)).address = 0
  · obtain ⟨p, ps, hp, hclear⟩ := getEntry_loop h0 h
    have hloop := clearTable_spends hset _ _ _ hclear
    have hsuffix : s'.supply <:+ ps := hloop.supply
    rw [hp]
    exact ⟨⟨hp ▸ hsuffix.trans (List.suffix_cons p ps), hloop.pageDir⟩, fun _ =>
      Nat.lt_succ_of_le hsuffix.length_le⟩
  · rw [getEntry_of_table rfl h0] at h
    obtain ⟨rfl, -⟩ := Prod.mk.inj (Option.some.inj h)
    exact ⟨.refl s, fun hz => absurd hz h0⟩

theorem set_spends : ∀ fuel s la pa b s', pagingSetPageTableEntry fuel s la pa b = some s' → Spends s s' := by
  intro fuel
  induction fuel with
  | zero => intro s la pa b s' h; cases h
  | succ fuel ih =>
    intro s la pa b s' h
    obtain ⟨⟨s1, f, k⟩, h1, rfl⟩ := Option.map_eq_some_iff.mp h
    have hspends := (getEntry_spends (fun s la s' => ih s la 0 false s') h1).1
    exact ⟨hspends.supply, hspends.pageDir⟩

theorem set_takes {fuel pa : Nat} {b : Bool} (hla : la % pageSize = 0) (hlt : la < 2 ^ 32)
    (h0 : (pde s (getDirectoryIndex la)).address = 0) (h : pagingSetPageTableEntry fuel s la pa b = some s') :
    s'.supply.length < s.supply.length := by
  cases fuel with
  | zero => cases h
  | succ fuel =>
    obtain ⟨⟨s1, f, k⟩, h1, rfl⟩ := Option.map_eq_some_iff.mp h
    rw [pageAlign_eq hla hlt] at h1
    exact (getEntry_spends (fun s la s' => set_spends fuel s la 0 false s') h1).2 h0

/-! ## The loop over a new table -/

theorem loop_here (hla : la % pageSize = 0) {j : Nat} (hj : j < pageEntrys - getTableIndex la) :
    getDirectoryIndex (dword (la + j * pageSize)) = getDirectoryIndex la ∧
      getTableIndex (dword (la + j * pageSize)) = getTableIndex la + j := by
  unfold getDirectoryIndex getTableIndex directoryShiftR tableShiftR dword pageEntrys pageSize at *
  omega

theorem loop_next (hla : la % pageSize = 0) (hlt : la < selfMap) {j : Nat} (hj : j < getTableIndex la) :
    getDirectoryIndex (dword (la + (pageEntrys - getTableIndex la + j) * pageSize)) =
      getDirectoryIndex la + 1 ∧
      getTableIndex (dword (la + (pageEntrys - getTableIndex la + j) * pageSize)) = j := by
  unfold getDirectoryIndex getTableIndex directoryShiftR tableShiftR dword pageEntrys pageSize selfMap at *
  omega

theorem getTableIndex_lt (la : Nat) : getTableIndex la < pageEntrys := Nat.mod_lt _ (by decide)

theorem next_aligned (hla : la % pageSize = 0) (k : Nat) : dword (la + k * pageSize) % pageSize = 0 := by
  unfold dword pageSize at *
  omega

theorem loop_left (hla : la % pageSize = 0) (hlt : la < selfMap) {r : Nat} (hr : r < getTableIndex la) :
    getDirectoryIndex (dword (la + (pageEntrys - (r + 1)) * pageSize)) = getDirectoryIndex la + 1 ∧
      getTableIndex (dword (la + (pageEntrys - (r + 1)) * pageSize)) = getTableIndex la - (r + 1) := by
  have hidx := loop_next hla hlt (j := getTableIndex la - (r + 1)) (by omega)
  have hle := getTableIndex_lt la
  rwa [show pageEntrys - getTableIndex la + (getTableIndex la - (r + 1)) =
    pageEntrys - (r + 1) by omega] at hidx

/-- The state once the entries of the region itself are cleared. -/
def regionCleared (s : State) (la p : Nat) (ps : List Nat) : State :=
  clearEntries (pagingSetPageDirectoryEntry { s with supply := ps } la p) (pagingMapQuick p)
    (getTableIndex la)
    (pageEntrys - getTableIndex la)

/-- What is trusted of the pages that are left. -/
structure FreshSupply (s : State) : Prop where
  fresh : FreshPages s.supply
  notDir : ∀ p ∈ s.supply, pagingMapQuick p ≠ dir s

theorem FreshSupply.head (hs : FreshSupply s) (hp : s.supply = p :: ps) :
    pagingMapQuick p ≠ 0 ∧ pagingMapQuick p ≠ dir s := by
  have hmem : p ∈ s.supply := by rw [hp]; exact List.mem_cons_self
  exact ⟨mapQuick_ne_zero (hs.fresh.page p hmem), hs.notDir p hmem⟩

theorem clearTable_here (hs : FreshSupply s) (fuel : Nat) (hla : la % pageSize = 0)
    (hp : s.supply = p :: ps) :
    clearTable (fun s la => pagingSetPageTableEntry (fuel + 1) s la 0 false) la pageEntrys
        (pagingSetPageDirectoryEntry { s with supply := ps } la p) =
      clearTable (fun s la => pagingSetPageTableEntry (fuel + 1) s la 0 false) la (getTableIndex la)
        (regionCleared s la p ps) := by
  obtain ⟨h0, hdir⟩ := hs.head hp
  have hlen : pageEntrys - getTableIndex la + getTableIndex la = pageEntrys :=
    Nat.sub_add_cancel (Nat.le_of_lt (getTableIndex_lt la))
  have hpart := clearTable_part fuel hla h0 (getTableIndex la) (pageEntrys - getTableIndex la)
    (getTableIndex la)
    (pagingSetPageDirectoryEntry { s with supply := ps } la p) (Nat.le_of_eq hlen)
      (pde_setDirectoryEntry _ la p).1
    (fun h => absurd h hdir)
  rw [hlen, Nat.sub_self] at hpart
  refine hpart fun j hj => ?_
  rw [Nat.zero_add]
  exact loop_here hla hj

theorem regionCleared_pde (hs : FreshSupply s) (hp : s.supply = p :: ps) {j : Nat}
    (hj : j ≠ getDirectoryIndex la) :
    pde (regionCleared s la p ps) j = pde s j := by
  rw [regionCleared, pde_clearEntries (f := pagingMapQuick p)]
  · exact pde_setDirectoryEntry_other _ la p hj
  · exact (hs.head hp).2

theorem clearTable_next (hs : FreshSupply s) (fuel : Nat) (hla : la % pageSize = 0) (hlt : la < selfMap)
    (hp : s.supply = p :: ps) {n rest : Nat} (hn : n + rest = getTableIndex la)
    (h0 : (pde s (getDirectoryIndex la + 1)).address ≠ 0)
    (hkeep : (pde s (getDirectoryIndex la + 1)).address = dir s → n ≤ getDirectoryIndex la + 1) :
    ∃ s', clearTable (fun s la => pagingSetPageTableEntry (fuel + 1) s la 0 false) la (getTableIndex la)
        (regionCleared s la p ps) =
          clearTable (fun s la => pagingSetPageTableEntry (fuel + 1) s la 0 false) la rest s' ∧
      s'.supply = ps ∧ pde s' (getDirectoryIndex la + 1) = pde s (getDirectoryIndex la + 1) ∧
        dir s' = dir s := by
  have hpde := regionCleared_pde hs hp (Nat.succ_ne_self (getDirectoryIndex la))
  have hf := congrArg PageEntry.address hpde
  have hle : getTableIndex la ≤ pageEntrys := Nat.le_of_lt (getTableIndex_lt la)
  have hpart := clearTable_part fuel hla h0 rest n 0 (regionCleared s la p ps) (by omega) hf
    (fun h => .inr (by have := hkeep h; omega))
  rw [hn] at hpart
  refine ⟨_, hpart fun j hj => ?_, rfl, ?_, rfl⟩
  · rw [Nat.zero_add]
    exact loop_next hla hlt (by omega)
  · refine Eq.trans (if_neg fun h => ?_) hpde
    have := hkeep h.1.symm
    omega

/-! ## The budget -/

def OnePage (s : State) (op : Op) : Prop :=
  ∃ fuel s', pagingSetPageTableEntry fuel s op.va op.pa op.present = some s' ∧
    s.supply.length ≤ s'.supply.length + 1

/-- The loop over a new table meets no missing table. The table of the next region may be the directory, if the step
that clears its entry is the last one. -/
def NoMissingTable (s : State) (la : Nat) : Prop :=
  (pde s (getDirectoryIndex la)).address ≠ 0 ∨ getTableIndex la = 0 ∨
    ((pde s (getDirectoryIndex la + 1)).address ≠ 0 ∧
      ((pde s (getDirectoryIndex la + 1)).address = dir s → getTableIndex la ≤ getDirectoryIndex la + 2))

theorem clearTable_ends (hs : FreshSupply s) (hla : la % pageSize = 0) (hlt : la < selfMap)
    (hp : s.supply = p :: ps) (hi : (pde s (getDirectoryIndex la)).address = 0) (h : NoMissingTable s la) :
    ∃ s', clearTable (fun s la => pagingSetPageTableEntry (0 + 1) s la 0 false) la (getTableIndex la)
      (regionCleared s la p ps) = some s' ∧ s'.supply = ps := by
  rcases h with h | h | ⟨h0, hself⟩
  · exact absurd hi h
  · rw [h]
    exact ⟨_, rfl, rfl⟩
  · cases ht : getTableIndex la with
    | zero => exact ⟨_, rfl, rfl⟩
    | succ n =>
      obtain ⟨s1, h1, hsup, hpde, -⟩ := clearTable_next hs 0 hla hlt hp ht.symm h0
        (fun h => by have := hself h; omega)
      -- The last step.
      have hidx := loop_left hla hlt (r := 0) (by omega)
      have hal := next_aligned hla (pageEntrys - (0 + 1))
      have hlast := setEntry_of_table 0 0 false hal (Nat.mod_lt _ (by decide)) (by rw [hidx.1, hpde]) h0
      rw [← ht, h1, clearTable, hlast]
      exact ⟨_, rfl, hsup⟩

theorem onePage_of_noMissingTable {op : Op} (hs : FreshSupply s) (hne : s.supply ≠ [])
    (hva : op.va % pageSize = 0)
    (hlt : op.va < selfMap) (h : NoMissingTable s op.va) : OnePage s op := by
  by_cases hi : (pde s (getDirectoryIndex op.va)).address = 0
  · obtain ⟨p, ps, hp⟩ := List.exists_cons_of_ne_nil hne
    obtain ⟨s1, h1, hsup⟩ := clearTable_ends hs hva hlt hp hi h
    have hget := getEntry_of_noTable hp hi ((clearTable_here hs 0 hva hp).trans h1)
    refine ⟨2, writeEntry s1 (pagingMapQuick p) (getTableIndex op.va)
      (tableEntry s1 op.pa op.present), ?_, ?_⟩
    · rw [pagingSetPageTableEntry, pageAlign_eq hva (lt_of_lt_selfMap hlt), hget]
      rfl
    · rw [hp]
      exact Nat.succ_le_succ (Nat.le_of_eq (congrArg List.length hsup.symm))
  · refine ⟨1, _, setEntry_of_table 0 op.pa op.present hva (lt_of_lt_selfMap hlt) rfl hi, ?_⟩
    exact Nat.le_succ _

theorem tableEntry_null (s : State) : (tableEntry s 0 false).address = 0 :=
  (by decide : BitVec.ofNat 20 (tableShiftR (pageAlign 0)) = 0)

theorem clearTable_missing {fuel r : Nat} (hla : la % pageSize = 0) (hlt : la < selfMap)
    (hr : r < getTableIndex la) (h0 : (pde s (getDirectoryIndex la + 1)).address = 0)
    (hloop : clearTable (fun s la => pagingSetPageTableEntry fuel s la 0 false) la (r + 1) s = some s') :
    s'.supply.length < s.supply.length := by
  have hidx := loop_left hla hlt hr
  obtain ⟨s1, h1, h2⟩ := Option.bind_eq_some_iff.mp hloop
  have htakes := set_takes (next_aligned hla _) (Nat.mod_lt _ (by decide)) (by rw [hidx.1]; exact h0) h1
  have hrest := clearTable_spends (fun s la s' => set_spends fuel s la 0 false s') _ _ _ h2
  exact Nat.lt_of_le_of_lt hrest.length_le htakes

theorem clearTable_takes {fuel : Nat} (hs : FreshSupply s) (hla : la % pageSize = 0) (hlt : la < selfMap)
    (hp : s.supply = p :: ps) (h : ¬ NoMissingTable s la)
    (hloop : clearTable (fun s la => pagingSetPageTableEntry (fuel + 1) s la 0 false) la (getTableIndex la)
      (regionCleared s la p ps) = some s') : s'.supply.length < ps.length := by
  unfold NoMissingTable at h
  push Not at h
  obtain ⟨-, ht, hnext⟩ := h
  obtain ⟨t, ht⟩ := Nat.exists_eq_succ_of_ne_zero ht
  by_cases h0 : (pde s (getDirectoryIndex la + 1)).address = 0
  · have hpde := regionCleared_pde hs hp (Nat.succ_ne_self (getDirectoryIndex la))
    rw [ht] at hloop
    exact clearTable_missing hla hlt (by omega) (by rw [hpde]; exact h0) hloop
  · -- The next region has the directory as its table. Step `i + 1` clears its own entry.
    obtain ⟨hself, hlong⟩ := hnext h0
    obtain ⟨r, hr⟩ := Nat.exists_eq_add_of_lt hlong
    obtain ⟨s1, h1, hsup, hpde, hdir⟩ := clearTable_next hs fuel hla hlt hp
      (show getDirectoryIndex la + 1 + (r + 1 + 1) = getTableIndex la by omega) h0 (fun _ => Nat.le_refl _)
    have hidx := loop_left hla hlt (r := r + 1) (by omega)
    have hslot : getTableIndex la - (r + 1 + 1) = getDirectoryIndex la + 1 := by omega
    have hstep := setEntry_of_table fuel 0 false (next_aligned hla (pageEntrys - (r + 1 + 1)))
      (Nat.mod_lt _ (by decide)) (by rw [hidx.1, hpde]) h0
    rw [h1, clearTable, hstep, Option.bind_some, hidx.2, hslot, hself] at hloop
    rw [← hsup]
    refine clearTable_missing (s := writeEntry s1 (dir s) (getDirectoryIndex la + 1) (tableEntry s1 0 false))
      hla hlt (by omega) ?_ hloop
    exact (congrArg PageEntry.address (if_pos ⟨hdir, rfl⟩)).trans (tableEntry_null s1)

theorem not_onePage {op : Op} (hs : FreshSupply s) (hva : op.va % pageSize = 0) (hlt : op.va < selfMap)
    (h : ¬ NoMissingTable s op.va) : ¬ OnePage s op := by
  rintro ⟨fuel, s', hset, hlen⟩
  have hi : (pde s (getDirectoryIndex op.va)).address = 0 := by
    unfold NoMissingTable at h
    exact not_not.mp (not_or.mp h).1
  cases fuel with
  | zero => cases hset
  | succ fuel =>
    obtain ⟨⟨s1, f, k⟩, h1, rfl⟩ := Option.map_eq_some_iff.mp hset
    rw [pageAlign_eq hva (lt_of_lt_selfMap hlt)] at h1
    obtain ⟨p, ps, hp, hclear⟩ := getEntry_loop hi h1
    cases fuel with
    | zero => cases hclear
    | succ fuel =>
      rw [clearTable_here hs fuel hva hp] at hclear
      have htakes := clearTable_takes hs hva hlt hp h hclear
      rw [hp] at hlen
      have hle : ps.length + 1 ≤ s1.supply.length + 1 := hlen
      omega

/-! ## Every directory -/

/-- What `paging_createDirectory` and later calls leave, for any addresses. -/
inductive Built (s0 : State) : State → Prop
  | created {s : State} (h : pagingCreateDirectory s0 = some (s, SUCCESS)) : Built s0 s
  | set {s s' : State} {fuel : Nat} {op : Op} (h : Built s0 s)
      (hset : pagingSetPageTableEntry fuel s op.va op.pa op.present = some s') : Built s0 s'

theorem FreshSupply.spends (hs : FreshSupply s) (h : Spends s s') : FreshSupply s' := by
  have hsub : ∀ p ∈ s'.supply, p ∈ s.supply := fun p hp => h.supply.subset hp
  refine ⟨⟨hs.fresh.nodup.sublist h.supply.sublist, fun p hp => hs.fresh.page p (hsub p hp)⟩, fun p hp => ?_⟩
  rw [dir, h.pageDir]
  exact hs.notDir p (hsub p hp)

theorem Built.fresh {s0 : State} (hfresh : FreshPages s0.supply) (h : Built s0 s) : FreshSupply s := by
  induction h with
  | created h =>
    have hinv := (createDirectory_spec hfresh h).1
    exact ⟨hinv.fresh, fun p hp => (hinv.unused p hp).1⟩
  | set _ hset ih => exact ih.spends (set_spends _ _ _ _ _ _ hset)

/-- **The page budget.** A call ends and takes one page at most exactly when its loop meets no missing table. -/
theorem onePage_iff (s0 s : State) (hfresh : FreshPages s0.supply) (h : Built s0 s)
    (hleft : s.supply ≠ []) (op : Op)
    (hva : op.va % pageSize = 0) (hlt : op.va < selfMap) : OnePage s op ↔ NoMissingTable s op.va := by
  have hs := h.fresh hfresh
  constructor
  · intro hone
    by_contra hmissing
    exact not_onePage hs hva hlt hmissing hone
  · exact onePage_of_noMissingTable hs hleft hva hlt

def threePages : State := ⟨fun _ _ => zeroEntry, [4096, 8192, 12288], 0, false⟩

/-- The first page of a region. -/
theorem onePage_400000 : ∃ s, pagingCreateDirectory threePages = some (s, SUCCESS) ∧
    OnePage s ⟨0x400000, 0x5000, true⟩ := by
  refine ⟨_, rfl, (onePage_iff threePages _ ⟨by decide, by decide⟩ (.created rfl) (by decide)
    ⟨0x400000, 0x5000, true⟩ (by decide) (by decide)).mpr ?_⟩
  exact .inr (.inl (by decide))

/-- The second page of memory, in an empty directory. -/
theorem not_onePage_1000 : ∃ s, pagingCreateDirectory threePages = some (s, SUCCESS) ∧ Built threePages s ∧
    s.supply ≠ [] ∧ ¬ OnePage s ⟨0x1000, 0x5000, true⟩ := by
  have hbuilt : Built threePages _ := .created rfl
  refine ⟨_, rfl, hbuilt, by decide, not_onePage (hbuilt.fresh ⟨by decide, by decide⟩) (by decide) (by decide) ?_⟩
  unfold NoMissingTable
  decide

end SystemProjects.Paging
