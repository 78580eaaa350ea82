import SystemProjects.Heap.Coalesced

/-!
# Allocating and freeing again

`mm_kmalloc` cuts an item by the rounded size and records the other one, and `mm_kfree` adds up what is recorded.
-/

open SystemProjects.Memory SystemProjects.Run SystemProjects.Lists

namespace SystemProjects.Heap

/-! ## What is claimed of a state -/

/-- The chain from `heapBase` is the same: items, sizes, flags and links. -/
def SameChain (m m' : Mem) : Prop := ∀ x, OnChain m heapBase x →
  itemNext m' x = itemNext m x ∧ itemSize m' x = itemSize m x ∧ itemUsed m' x = itemUsed m x

/-- `mm_kfree` of what `mm_kmalloc` returns gives the chain back. -/
def Undone (h : ProcessHeap) (size : Nat) : Prop :=
  ∃ h1 p h2, mmKmalloc h size = some (h1, p) ∧ mmKfree h1 p = some h2 ∧ SameChain h.mem h2.mem

/-! ## A walk with nothing to merge -/

variable {m : Mem} {x a : Nat} {xs pre post : List Nat}

theorem mergeNext_separate (h : itemNext m x ≠ 0 → Separate m x (itemNext m x)) (fuel : Nat) :
    mergeNext x (fuel + 1) m = some m := by
  rw [mergeNext, if_neg]
  rintro ⟨hu, h0, hn⟩
  rcases h h0 with h | h
  · exact h hu
  · exact h hn

/-- The walk gets to `x` if there is nothing to merge before it. -/
theorem coalesceFrom_skips (fuel : Nat) : ∀ {a : Nat}, Links (itemNext m) 0 a (pre ++ x :: post) →
    (pre ++ [x]).IsChain (Separate m) → coalesceFrom (pre.length + fuel) a m = coalesceFrom fuel x m := by
  induction pre with
  | nil =>
    rintro a ⟨rfl, -⟩ -
    rw [List.length_nil, Nat.zero_add]
  | cons y pre ih =>
    rintro a ⟨rfl, h0, hn⟩ hsep
    have hnext : itemNext m a ≠ 0 → Separate m a (itemNext m a) := by
      intro _
      cases pre with
      | nil => exact hn.1 ▸ (List.isChain_cons_cons.mp hsep).1
      | cons z pre => exact hn.1 ▸ (List.isChain_cons_cons.mp hsep).1
    obtain ⟨n, hfuel⟩ : ∃ n, walkFuel = n + 1 := ⟨2 ^ 32 - 1, rfl⟩
    have hmerge : mergeNext a walkFuel m = some m := by
      rw [hfuel]
      exact mergeNext_separate hnext n
    rw [List.length_cons, Nat.add_right_comm, coalesceFrom, if_neg h0, hmerge, Option.bind_some]
    exact ih hn hsep.tail

theorem coalesceFrom_separate (h : Links (itemNext m) 0 a xs) (hsep : xs.IsChain (Separate m)) {fuel : Nat}
    (hfuel : xs.length < fuel) : coalesceFrom fuel a m = some m := by
  rcases List.eq_nil_or_concat xs with rfl | ⟨ys, y, rfl⟩
  · obtain ⟨n, rfl⟩ : ∃ n, fuel = n + 1 := ⟨fuel - 1, by omega⟩
    exact if_pos h
  · rw [List.concat_eq_append] at *
    rw [List.length_append, List.length_singleton] at hfuel
    obtain ⟨n, rfl⟩ : ∃ n, fuel = ys.length + (n + 1 + 1) := ⟨fuel - ys.length - 2, by omega⟩
    have hlast : itemNext m y = 0 := h.last_eq
    obtain ⟨k, hk⟩ : ∃ k, walkFuel = k + 1 := ⟨2 ^ 32 - 1, rfl⟩
    rw [coalesceFrom_skips _ h hsep, coalesceFrom, if_neg (h.ne_end (by simp)), hk,
      mergeNext_separate (fun h0 => absurd hlast h0), Option.bind_some, hlast]
    rfl

/-! ## The merge that undoes the cut -/

/-- The size that `x` has after its own rest is merged into it again. -/
def rejoinedSize (size rest : Nat) : Nat := (size % 2 ^ 32 + (itemSizeof + rest)) % 2 ^ 32

theorem mergeNext_rest {tmp link : Nat} (hclear : ClearOf x tmp) (hlink : link < 2 ^ 32)
    (hx : itemUsed m x = 0)
    (hnext : itemNext m x = tmp) (h0 : tmp ≠ 0) (htmp : itemUsed m tmp = 0) (hrest : itemNext m tmp = link)
    (hstop : link ≠ 0 → itemUsed m link ≠ 0 ∧ ClearOf link x) (fuel : Nat) :
    ∃ m', mergeNext x (fuel + 2) m = some m' ∧ OnlyHeader m m' x ∧ itemNext m' x = link ∧ itemUsed m' x = 0 ∧
      itemSize m' x = (itemSize m x + (itemSizeof + itemSize m tmp)) % 2 ^ 32 := by
  rw [mergeNext, hnext, if_pos ⟨hx, h0, htmp⟩]
  generalize hsize : (itemSize m x + (itemSizeof + itemSize m tmp)) % 2 ^ 32 = total
  have hsame := (onlyHeader_setSize m x total).sameHeader hclear.symm
  have hout := (onlyHeader_setSize m x total).trans (onlyHeader_setNext _ x link)
  simp only [itemNext_setSize, hnext]
  rw [← hsame.next, hrest]
  have hlt : total < 2 ^ 32 := hsize ▸ Nat.mod_lt _ (by decide)
  refine ⟨_, mergeNext_separate ?_ fuel, hout, ?_, ?_, ?_⟩
  · rw [itemNext_setNext, Nat.mod_eq_of_lt hlink]
    intro hne
    obtain ⟨hu, hc⟩ := hstop hne
    right
    rwa [← (hout.sameHeader hc).used]
  · rw [itemNext_setNext, Nat.mod_eq_of_lt hlink]
  · rw [itemUsed_setNext, itemUsed_setSize, hx]
  · rw [itemSize_setNext, itemSize_setSize, Nat.mod_eq_of_lt hlt]

/-- `m2` is `m` with the item at `x` cut, and both parts free. -/
structure Cut (m m2 : Mem) (pre post : List Nat) (x tmp size rest : Nat) : Prop where
  links : Links (itemNext m2) 0 heapBase (pre ++ x :: tmp :: post)
  same : ∀ y ∈ pre ++ post, SameHeader m m2 y
  clear : ∀ y ∈ pre ++ post, ClearOf y x
  next : itemNext m2 x = tmp
  used : itemUsed m2 x = 0
  size : itemSize m2 x = size % 2 ^ 32
  restNext : itemNext m2 tmp = itemNext m x
  restUsed : itemUsed m2 tmp = 0
  restSize : itemSize m2 tmp = rest

theorem cut_of_placed {m1 : Mem} {tmp size rest : Nat} (hch : Chained m (pre ++ x :: post)) (h0 : tmp ≠ 0)
    (hclear : ∀ y ∈ pre ++ x :: post, ClearOf y tmp) (hm : Placed m m1 x tmp size rest (itemNext m x)) :
    Cut m (setUsed m1 x 0) pre post x tmp size rest := by
  obtain ⟨hlinks, hother⟩ := carve_links hch h0 hclear hm
  have hmemx : x ∈ pre ++ x :: post := List.mem_append_right _ List.mem_cons_self
  have hnot : x ∉ pre ++ post := (List.nodup_cons.mp (List.nodup_middle.mp hch.links.nodup)).1
  have hclearx : ∀ y ∈ pre ++ post, ClearOf y x := by
    intro y hy
    have hmem : y ∈ pre ++ x :: post :=
      List.mem_append.mpr ((List.mem_append.mp hy).imp_right (List.mem_cons_of_mem x))
    exact hch.clear.forall hmem hmemx (ne_of_mem_of_not_mem hy hnot)
  have hset := onlyHeader_setUsed m1 x 0
  have htmp := hset.sameHeader (hclear x hmemx).symm
  refine ⟨?_, fun y hy => (hother y hy).trans (hset.sameHeader (hclearx y hy)), hclearx,
    ?_, by simp, ?_, ?_, ?_, ?_⟩
  · refine hlinks.congr fun y hy => ?_
    simp only [List.mem_append, List.mem_cons] at hy
    rcases hy with hy | rfl | rfl | hy
    · exact (hset.sameHeader (hclearx y (List.mem_append_left _ hy))).next.symm
    · exact itemNext_setUsed _ _ _
    · exact htmp.next.symm
    · exact (hset.sameHeader (hclearx y (List.mem_append_right _ hy))).next.symm
  · rw [itemNext_setUsed, hm.next]
  · rw [itemSize_setUsed, hm.size]
  · rw [← htmp.next, hm.restNext]
  · rw [← htmp.used, hm.restUsed]
  · rw [← htmp.size, hm.restSize]

theorem Chained.next_used (hch : Chained m (pre ++ x :: post)) (hu : itemUsed m x = 0)
    (h0 : itemNext m x ≠ 0) :
    itemNext m x ∈ post ∧ itemUsed m (itemNext m x) ≠ 0 := by
  have hl := hch.links.suffix.2.2
  cases post with
  | nil => exact absurd hl h0
  | cons z post =>
    rw [hl.1]
    refine ⟨List.mem_cons_self, ?_⟩
    exact ((List.isChain_append_cons_cons.mp hch.separate).2.1).resolve_left (not_not.mpr hu)

/-- The walk over the cut item puts it together again, and does nothing else. -/
theorem coalesceFrom_cut {m2 : Mem} {tmp size rest : Nat} (hch : Chained m (pre ++ x :: post))
    (hu : itemUsed m x = 0)
    (h0 : tmp ≠ 0) (hclear : ClearOf x tmp) (hm : Cut m m2 pre post x tmp size rest) :
    ∃ m', coalesceFrom walkFuel heapBase m2 = some m' ∧ (∀ y ∈ pre ++ post, SameHeader m m' y) ∧
      itemNext m' x = itemNext m x ∧ itemUsed m' x = 0 ∧ itemSize m' x = rejoinedSize size rest := by
  have hlen := links_length hm.links (by decide)
  simp only [List.length_append, List.length_cons] at hlen
  obtain ⟨n, hn⟩ : ∃ n, walkFuel = pre.length + (n + 1) := ⟨walkFuel - pre.length - 1, by omega⟩
  obtain ⟨k, hk⟩ : ∃ k, walkFuel = k + 2 := ⟨2 ^ 32 - 2, rfl⟩
  obtain ⟨m', hmerge, hout, hnext', hused', hsize'⟩ :=
    mergeNext_rest hclear (itemNext_lt m x) hm.used hm.next h0
    hm.restUsed hm.restNext (fun hl => by
      obtain ⟨hmem, hused⟩ := hch.next_used hu hl
      rw [← (hm.same _ (List.mem_append_right _ hmem)).used]
      exact ⟨hused, hm.clear _ (List.mem_append_right _ hmem)⟩) k
  have hsame : ∀ y ∈ pre ++ post, SameHeader m m' y := fun y hy =>
    (hm.same y hy).trans (hout.sameHeader (hm.clear y hy))
  refine ⟨m', ?_, hsame, hnext', hused', ?_⟩
  · have hsep : (pre ++ [x]).IsChain (Separate m2) := by
      have hpre := hch.separate
      rw [List.append_cons] at hpre
      refine separate_congr (fun y hy => ?_) (List.isChain_append.mp hpre).1
      rcases List.mem_append.mp hy with hy | hy
      · exact (hm.same y (List.mem_append_left _ hy)).used.symm
      · rw [List.mem_singleton.mp hy, hm.used, hu]
    have hpost : coalesceFrom n (itemNext m x) m' = some m' := by
      have hlinks := hch.links.suffix.2.2
      have hchain := (List.isChain_append.mp hch.separate).2.1.tail
      refine coalesceFrom_separate (hlinks.congr fun y hy => ?_)
        (separate_congr (fun y hy => ?_) hchain) (by omega)
      · exact (hsame y (List.mem_append_right _ hy)).next.symm
      · exact (hsame y (List.mem_append_right _ hy)).used.symm
    have hx0 : x ≠ 0 := hch.links.suffix.2.1
    rw [hn, coalesceFrom_skips _ hm.links hsep, coalesceFrom, if_neg hx0, hk, hmerge,
      Option.bind_some, hnext', hpost]
  · rw [hsize', hm.size, hm.restSize]
    rfl

/-! ## Calls -/

theorem rejoinedSize_iff {total size : Nat} (htotal : total < 2 ^ 32) :
    rejoinedSize size ((total + 2 ^ 32 - totalSize size) % 2 ^ 32) = total ↔ size % 8 = 0 := by
  unfold rejoinedSize totalSize itemSizeof
  omega

theorem onChain_lt (h : OnChain m a x) (ha : a < 2 ^ 32) : x < 2 ^ 32 := by
  induction h with
  | here _ => exact ha
  | next _ _ ih => exact ih (itemNext_lt m _)

theorem mmKmalloc_found {h : ProcessHeap} {size : Nat} (hsize : size ≠ 0)
    (hfit : searchFit h (totalSize size) = some x) (hx : x ≠ 0) :
    mmKmalloc h size = some (
      { h with
        mem := placeItem (carveRest h.mem x ((x + totalSize size) % 2 ^ 32) (totalSize size)) x
          ((x + totalSize size) % 2 ^ 32) size },
      (x + itemSizeof) % 2 ^ 32) := by
  rw [mmKmalloc, if_neg hsize, hfit, Option.bind_some, if_pos hx]

theorem mmKfree_links {h : ProcessHeap} {p : Nat} (hl : Links (itemNext h.mem) 0 heapBase xs) (hp : p ≠ 0)
    (hmem : itemOf p ∈ xs) : mmKfree h p =
      (coalesceFrom walkFuel heapBase (setUsed h.mem (itemOf p) 0)).map fun m => { h with mem := m } := by
  rw [mmKfree, if_neg hp, findItem_links hl walkFuel (links_length hl (by decide)), Option.bind_some,
    if_pos (decide_eq_true hmem)]

theorem undone_iff_sameChain {h h1 h2 : ProcessHeap} {size p : Nat} (hk : mmKmalloc h size = some (h1, p))
    (hfree : mmKfree h1 p = some h2) : Undone h size ↔ SameChain h.mem h2.mem := by
  constructor
  · rintro ⟨h1', p', h2', hk', hfree', hsame⟩
    obtain ⟨rfl, rfl⟩ := Prod.mk.inj (Option.some.inj (hk.symm.trans hk'))
    obtain rfl := Option.some.inj (hfree.symm.trans hfree')
    exact hsame
  · exact fun hsame => ⟨h1, p, h2, hk, hfree, hsame⟩

/-- Where all other headers are as before, only the size of `x` is left to compare. -/
theorem sameChain_iff_size {m' : Mem} (hl : Links (itemNext m) 0 heapBase (pre ++ x :: post))
    (hsame : ∀ y ∈ pre ++ post, SameHeader m m' y) (hnext : itemNext m' x = itemNext m x)
    (hused : itemUsed m' x = itemUsed m x) : SameChain m m' ↔ itemSize m' x = itemSize m x := by
  constructor
  · intro h
    have hmem : x ∈ pre ++ x :: post := List.mem_append_right _ List.mem_cons_self
    exact (h x (onChain_of_mem hl hmem)).2.1
  · intro hsize y hy
    by_cases hyx : y = x
    · rw [hyx]
      exact ⟨hnext, hsize, hused⟩
    · have hother : y ∈ pre ++ post := by
        refine List.mem_append.mpr ((List.mem_append.mp (mem_of_onChain hl hy)).imp_right fun hmem => ?_)
        exact (List.mem_cons.mp hmem).resolve_left hyx
      have hheader := hsame y hother
      exact ⟨hheader.next.symm, hheader.size.symm, hheader.used.symm⟩

theorem undone_iff_of_chained {h : ProcessHeap} {size : Nat} (hch : Chained h.mem (pre ++ x :: post))
    (hu : itemUsed h.mem x = 0) (hx : x < 2 ^ 32) (hsize : size ≠ 0)
    (hfit : searchFit h (totalSize size) = some x) (hclear : CarveClear h x (totalSize size)) :
    Undone h size ↔ size % 8 = 0 ∧ x + itemSizeof ≠ 2 ^ 32 := by
  have hx0 : x ≠ 0 := hch.links.suffix.2.1
  have hon : ∀ y ∈ pre ++ x :: post, OnChain h.mem heapBase y := fun y hy => onChain_of_mem hch.links hy
  have hmemx : x ∈ pre ++ x :: post := List.mem_append_right _ List.mem_cons_self
  have hclear' : ∀ y ∈ pre ++ x :: post, ClearOf y ((x + totalSize size) % 2 ^ 32) :=
    fun y hy => hclear.2 y (hon y hy)
  have hm := carve_placed (m := h.mem) (hclear' x hmemx) (Nat.mod_lt _ (by decide)) (totalSize size) size
  have hcut := cut_of_placed hch hclear.1 hclear' hm
  obtain ⟨m', hrun, hsame, hnext', hused', hsize'⟩ := coalesceFrom_cut hch hu hclear.1 (hclear' x hmemx) hcut
  have hk := mmKmalloc_found hsize hfit hx0
  generalize placeItem (carveRest h.mem x ((x + totalSize size) % 2 ^ 32) (totalSize size)) x
    ((x + totalSize size) % 2 ^ 32) size = m1 at hm hcut hrun hk
  by_cases hp : x + itemSizeof = 2 ^ 32
  · -- The pointer is `NULL`, and nothing is freed.
    have hnull : mmKfree { h with mem := m1 } ((x + itemSizeof) % 2 ^ 32) = some { h with mem := m1 } := by
      rw [hp, Nat.mod_self, mmKfree, if_pos rfl]
    rw [undone_iff_sameChain hk hnull]
    refine iff_of_false (fun hsame => ?_) (fun hc => hc.2 hp)
    have hused := (hsame x (hon x hmemx)).2.2
    rw [hu, hm.used] at hused
    cases hused
  · have hitem : itemOf ((x + itemSizeof) % 2 ^ 32) = x := by
      unfold itemOf itemSizeof at *
      omega
    have hp0 : (x + itemSizeof) % 2 ^ 32 ≠ 0 := by
      unfold itemSizeof at *
      omega
    have hfree : mmKfree { h with mem := m1 } ((x + itemSizeof) % 2 ^ 32) = some { h with mem := m' } := by
      have hlinks := (carve_links hch hclear.1 hclear' hm).1
      have heq := @mmKfree_links _ { h with mem := m1 } _ hlinks hp0 (by rw [hitem]; simp)
      rw [heq, hitem, hrun]
      rfl
    have htotal : itemSize h.mem x < 2 ^ 32 := load32_lt _ _
    rw [undone_iff_sameChain hk hfree, sameChain_iff_size hch.links hsame hnext'
      (hused'.trans hu.symm), hsize',
      rejoinedSize_iff htotal]
    exact (and_iff_left hp).symm

/-! ## Runs -/

/-- **Allocating and freeing.** In every state of a run in which no header of the chain is written over, `mm_kfree`
gives the chain back exactly for the sizes that are not rounded. -/
theorem undone_iff (m : Mem) (ops : List Op) (h : Along step Undisturbed (emptyWorld m) ops) (w : World)
    (hrun : run step (emptyWorld m) ops = some w) (size x : Nat) (hsize : 0 < size)
    (hfit : searchFit w.heap (totalSize size) = some x) (hx : x ≠ 0) (hnext : Undisturbed w (.kmalloc size)) :
    Undone w.heap size ↔ size % 8 = 0 ∧ x + itemSizeof ≠ 2 ^ 32 := by
  have hsize0 : size ≠ 0 := by omega
  have hclear := hnext hsize0 x hfit
  rw [if_pos hx] at hclear
  have hi := run_keeps (I := fun w => ChainedHeap w.heap) chainedHeap_step ops _ w (.inl rfl) h hrun
  have htop : w.heap.top ≠ 0 := by
    intro h0
    rw [searchFit, if_neg (by simp [h0])] at hfit
    exact hx (Option.some.inj hfit).symm
  obtain ⟨xs, hch⟩ := hi.resolve_left htop
  have hsearch := hfit
  rw [searchFit, if_pos htop] at hsearch
  obtain ⟨hon, hu⟩ := firstFit_some walkFuel hsearch hx
  obtain ⟨pre, post, rfl⟩ := List.append_of_mem (mem_of_onChain hch.links hon)
  exact undone_iff_of_chained hch hu (onChain_lt hon (by decide)) hsize0 hfit hclear

theorem undisturbed_kmalloc_8 : Along step Undisturbed (emptyWorld fun _ => 0) [.kmalloc 8] := by
  refine ⟨fun _ x hsearch => ?_, fun _ _ => trivial⟩
  cases hsearch
  exact ⟨by decide, by decide, fun h => absurd rfl h⟩

theorem run_kmalloc_8 : ∃ w, run step (emptyWorld fun _ => 0) [.kmalloc 8] = some w ∧ w.heap.top ≠ 0 ∧
    ChainAt w.heap.mem heapBase (grownItems heapBase 8 20) := by
  obtain ⟨m', hk, hch, -⟩ := @mmKmalloc_grow ⟨fun _ => 0, 0⟩ 8 (.inl rfl) (by decide) rfl (by decide)
    (by decide)
  exact ⟨_, run_cons (step_kmalloc hk (by decide) _ rfl) [],
    (by decide : growTop ⟨fun _ => 0, 0⟩ 20 ≠ 0), hch⟩

theorem second_carve {h : ProcessHeap} (htop : h.top ≠ 0)
    (hch : ChainAt h.mem heapBase (grownItems heapBase 8 20)) :
    searchFit h 20 = some (heapBase + 20) ∧ CarveClear h (heapBase + 20) 20 := by
  refine ⟨?_, by decide, fun y hy => ?_⟩
  · rw [searchFit, if_pos htop, firstFit_spec hch walkFuel (by decide)]
    rfl
  · have hmem : y ∈ [heapBase, heapBase + 20] := mem_of_onChain hch.links hy
    simp only [List.mem_cons, List.not_mem_nil, or_false] at hmem
    rcases hmem with rfl | rfl
    · exact .inl (by decide)
    · exact .inl (by decide)

theorem kmalloc_8_undone : ∃ w, run step (emptyWorld fun _ => 0) [.kmalloc 8] = some w ∧ Undone w.heap 8 := by
  obtain ⟨w, hrun, htop, hch⟩ := run_kmalloc_8
  obtain ⟨hfit, hclear⟩ := second_carve htop hch
  have hfit8 : searchFit w.heap (totalSize 8) = some (heapBase + 20) := hfit
  refine ⟨w, hrun, (undone_iff _ _ undisturbed_kmalloc_8 w hrun 8 (heapBase + 20) (by decide) hfit8
    (by decide)
    fun _ x hx => ?_).mpr (by decide)⟩
  obtain rfl := Option.some.inj (hfit8.symm.trans hx)
  exact hclear

/-- One byte: the item is cut after 20 bytes, and 13 of them come back. -/
theorem kmalloc_1_not_undone : ∃ w, run step (emptyWorld fun _ => 0) [.kmalloc 8] = some w ∧
    Along step Undisturbed (emptyWorld fun _ => 0) [.kmalloc 8] ∧
    searchFit w.heap (totalSize 1) = some (heapBase + 20) ∧ ¬ Undone w.heap 1 := by
  obtain ⟨w, hrun, htop, hch⟩ := run_kmalloc_8
  obtain ⟨hfit, hclear⟩ := second_carve htop hch
  refine ⟨w, hrun, undisturbed_kmalloc_8, hfit, fun hundone => ?_⟩
  have hi := run_keeps (I := fun w => ChainedHeap w.heap) chainedHeap_step _ _ w
    (.inl rfl) undisturbed_kmalloc_8 hrun
  obtain ⟨xs, hchained⟩ := hi.resolve_left htop
  have hlinks : xs = [heapBase, heapBase + 20] := hchained.links.unique hch.links
  subst hlinks
  have hused : itemUsed w.heap.mem (heapBase + 20) = 0 :=
    (hch.header (List.mem_cons_of_mem _ List.mem_cons_self)).1.mpr rfl
  have hiff := undone_iff_of_chained (show Chained _ ([heapBase] ++ (heapBase + 20) :: [])
    from hchained) hused (by decide) (by decide : 1 ≠ 0) hfit hclear
  exact absurd (hiff.mp hundone).1 (by decide)

end SystemProjects.Heap
