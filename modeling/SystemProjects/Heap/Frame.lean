import SystemProjects.Heap.Proofs

/-!
# What `mm_kfree` leaves alone

On any chain in address order, with gaps or without, and for any address.
-/

open SystemProjects.Memory

namespace SystemProjects.Heap

variable {m m' : Mem} {lo hi : Nat} {bs : List Item} {b d : Item}

def FreeApart (bs : List Item) : Prop :=
  ∀ c ∈ bs, ∀ d ∈ bs, c.used = false → d.used = true → c.stop ≤ d.addr ∨ d.stop ≤ c.addr

theorem Within.freeApart (h : Within lo hi bs) : FreeApart bs := by
  intro c hc d hd hfree hused
  rcases h.apart hc hd with rfl | hcd
  · simp [hfree] at hused
  · exact hcd

theorem Within.clearOf (h : Within lo hi bs) (hb : b ∈ bs) (hd : d ∈ bs) (hne : b.addr ≠ d.addr) :
    ClearOf b.addr d.addr := by
  unfold ClearOf
  rcases h.apart hb hd with rfl | hbd | hdb
  · exact absurd rfl hne
  · left
    unfold Item.stop at hbd
    omega
  · right
    unfold Item.stop at hdb
    omega

/-! ## Used items -/

theorem mergeNext_used {tmp fuel : Nat} (h : mergeNext tmp fuel m = some m')
    (hu : itemUsed m tmp ≠ 0) : m' = m := by
  cases fuel with
  | zero => cases h
  | succ fuel =>
    rw [mergeNext, if_neg fun hc => hu hc.1] at h
    exact (Option.some.inj h).symm

/-- The nested loops write to headers of free items only. -/
theorem coalesceFrom_used (hi32 : hi ≤ 2 ^ 32) :
    ∀ {m m' : Mem} {a : Nat} (fuel : Nat), ChainAt m a bs → Within lo hi bs → bs.length < fuel →
      bs.length < walkFuel → coalesceFrom fuel a m = some m' → ∀ d ∈ bs, d.used = true →
        SameHeader m m' d.addr := by
  induction bs using coalesce.induct generalizing lo with
  | case1 =>
    intro m m' a fuel _ _ _ _ _ d hd
    cases hd
  | case2 b bs ih =>
    intro m m' a fuel h hw hf hfuel hrun d hd hused
    obtain ⟨n, rfl⟩ : ∃ n, fuel = n + 1 := ⟨fuel - 1, by omega⟩
    obtain rfl : a = b.addr := h.1
    obtain ⟨m1, hm1, hch1, hout⟩ := mergeNext_spec hi32 walkFuel h hw (by simp at hfuel; omega)
    have hw1 := within_absorb hw
    have hlen := absorb_length b bs
    obtain ⟨-, h0, -, -, hn⟩ := hch1
    rw [coalesceFrom, if_neg h0, hm1, Option.bind_some] at hrun
    have hlen1 : (absorb b bs).2.length < n := by simp at hf; omega
    have hlen2 : (absorb b bs).2.length < walkFuel := by simp at hfuel; omega
    by_cases hdb : d.addr = b.addr
    · -- The item itself is used, so it takes in nothing, and the rest of the walk stays behind it.
      obtain rfl := hw.eq_of_addr hd List.mem_cons_self hdb
      have hused1 : itemUsed m d.addr ≠ 0 := by
        intro hz
        rw [h.2.2.2.1.mp hz] at hused
        cases hused
      obtain rfl := mergeNext_used hm1 hused1
      obtain ⟨m2, hm2, -, hout2⟩ := coalesceFrom_spec hi32 n hn hw1.2 hlen1 hlen2
      obtain rfl := Option.some.inj (hm2.symm.trans hrun)
      refine hout2.agree fun c hc => .inl ?_
      have := (hw1.2.mem hc).1
      unfold Item.stop at this
      rw [absorb_addr] at this
      omega
    · have hrest : d ∈ (absorb b bs).2 := by
        refine (List.mem_cons.mp (mem_absorb_of_used hused hd)).resolve_left fun heq => hdb ?_
        rw [heq, absorb_addr]
      have hsame := hout.sameHeader (hw.clearOf hd List.mem_cons_self hdb)
      exact hsame.trans (ih n hn hw1.2 hlen1 hlen2 hrun d hrest hused)

/-! ## `mm_kfree` -/

theorem itemOf_eq_iff {p a : Nat} (hp : p < 2 ^ 32) (hp0 : p ≠ 0) (ha : a + itemSizeof ≤ 2 ^ 32) :
    itemOf p = a ↔ p = a + itemSizeof := by
  unfold itemOf itemSizeof at *
  omega

theorem kfree_frame_item {h : ProcessHeap} (hch : ChainAt h.mem heapBase bs)
    (hw : Within 0 (2 ^ 32) bs) (hb : b ∈ bs) (hp : b.addr + itemSizeof < 2 ^ 32) :
    ∃ h' bs', mmKfree h (b.addr + itemSizeof) = some h' ∧ ChainAt h'.mem heapBase bs' ∧
      Within 0 (2 ^ 32) bs' ∧
      ∀ u ∈ bs, u.used = true → u.addr ≠ b.addr → u ∈ bs' ∧ SameHeader h.mem h'.mem u.addr := by
  have hlen := hw.length
  have hfuel : bs.length < walkFuel := by unfold itemSizeof walkFuel at *; omega
  have hlen' : (freeAt b.addr bs).length < walkFuel := by simpa [freeAt] using hfuel
  have hch' := chainAt_freeAt hch hw hb
  have hw' := within_freeAt (a := b.addr) hw
  obtain ⟨m', hrun, hfreed, -⟩ := coalesceFrom_spec (Nat.le_refl _) walkFuel hch' hw' hlen' hlen'
  refine ⟨{ h with mem := m' }, _, ?_, hfreed, hw'.coalesce, fun u hu hused hne => ?_⟩
  · rw [mmKfree_item (Nat.le_refl _) hch hw hb hp, hrun]
    rfl
  · have hu' : u ∈ freeAt b.addr bs := List.mem_map.mpr ⟨u, hu, if_neg hne⟩
    have hset := (onlyHeader_setUsed h.mem b.addr 0).sameHeader (hw.clearOf hu hb hne)
    have hwalk := coalesceFrom_used (Nat.le_refl _) walkFuel hch' hw' hlen' hlen' hrun u hu' hused
    exact ⟨mem_coalesce_of_used hused hu', hset.trans hwalk⟩

/-- **The frame of `mm_kfree`.** -/
theorem kfree_frame (h : ProcessHeap) (bs : List Item) (hch : ChainAt h.mem heapBase bs)
    (hw : Within 0 (2 ^ 32) bs) (p : Nat) (hp : p < 2 ^ 32) :
    ∃ h' bs', mmKfree h p = some h' ∧ ChainAt h'.mem heapBase bs' ∧ Within 0 (2 ^ 32) bs' ∧ FreeApart bs' ∧
      (∀ u ∈ bs, u.used = true → u.addr ≠ itemOf p → u ∈ bs' ∧ SameHeader h.mem h'.mem u.addr) ∧
      ((∀ b ∈ bs, b.addr ≠ itemOf p) → h' = h) := by
  by_cases hfound : p ≠ 0 ∧ ∃ b ∈ bs, b.addr = itemOf p
  · obtain ⟨hp0, b, hb, hbp⟩ := hfound
    have hstop := (hw.mem hb).2
    unfold Item.stop at hstop
    obtain rfl := (itemOf_eq_iff hp hp0 (by omega)).mp hbp.symm
    obtain ⟨h', bs', hk, hch', hw', hkept⟩ := kfree_frame_item hch hw hb hp
    rw [← hbp]
    exact ⟨h', bs', hk, hch', hw', hw'.freeApart, hkept, fun hnone => absurd rfl (hnone b hb)⟩
  · have hk : mmKfree h p = some h := by
      by_cases hp0 : p = 0
      · exact if_pos hp0
      · exact mmKfree_notFound (Nat.le_refl _) hch hw fun b hb hbp => hfound ⟨hp0, b, hb, hbp⟩
    exact ⟨h, bs, hk, hch, hw, hw.freeApart, fun u hu _ _ => ⟨hu, fun _ _ _ => rfl⟩, fun _ => rfl⟩

/-- The only block of a heap of one page. -/
theorem kfree_frame_one_page : ∃ h, mmKmalloc ⟨fun _ => 0, 0⟩ 8 = some (h, heapBase + itemSizeof) ∧
    ∃ h' bs', mmKfree h (heapBase + itemSizeof) = some h' ∧ ChainAt h'.mem heapBase bs' ∧
      Within 0 (2 ^ 32) bs' := by
  obtain ⟨m', hk, hch, -⟩ := @mmKmalloc_grow ⟨fun _ => 0, 0⟩ 8 (.inl rfl) (by decide) rfl (by decide)
    (by decide)
  have hw : Within 0 (2 ^ 32) (grownItems heapBase 8 (roundTotal 8)) :=
    ⟨by decide, by decide, (by decide : heapBase + 20 + 12 + 4064 ≤ 2 ^ 32)⟩
  obtain ⟨h', bs', hfree, hch', hw', -⟩ := kfree_frame ⟨m', _⟩ _ hch hw (heapBase + itemSizeof) (by decide)
  exact ⟨_, hk, h', bs', hfree, hch', hw'⟩

end SystemProjects.Heap
