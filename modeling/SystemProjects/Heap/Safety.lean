import SystemProjects.Heap.Proofs

/-!
# Heap safety

Live blocks are apart and inside the heap, along every run whose requests are served without a
size that wraps or a remainder that has no room for its header.
-/

open SystemProjects.Memory SystemProjects.Run SystemProjects.Lists

namespace SystemProjects.Heap

/-! ## What is claimed of a state -/

/-- `x` is reached from `a` along the `next` links. -/
inductive OnChain (m : Mem) : Nat → Nat → Prop
  | here {a : Nat} (h : a ≠ 0) : OnChain m a a
  | next {a x : Nat} (h : a ≠ 0) (hx : OnChain m (itemNext m a) x) : OnChain m a x

/-- A live block is its header and the bytes that were asked for. -/
structure HeapSafe (w : World) : Prop where
  inside : ∀ p n, (p, n) ∈ w.live → heapBase + itemSizeof ≤ p ∧ p + n ≤ w.heap.top
  apart : w.live.Pairwise fun b c => b.1 + b.2 + itemSizeof ≤ c.1 ∨ c.1 + c.2 + itemSizeof ≤ b.1
  /-- Also the free items of pages that no chain from `heapBase` reaches. -/
  free : ∀ g ∈ w.grown, ∀ x, OnChain w.heap.mem g x → itemUsed w.heap.mem x = 0 →
    heapBase ≤ x ∧ x + itemSizeof ≤ w.heap.top

/-! ## When a request is served as meant -/

/-- A free item of the chain has room for the rounded request. -/
def HasFit (h : ProcessHeap) (size : Nat) : Prop :=
  h.top ≠ 0 ∧ ∃ x, OnChain h.mem heapBase x ∧ itemUsed h.mem x = 0 ∧ roundTotal size ≤ itemSize h.mem x

/-- The pages that the request adds end below `2 ^ 32`, and what is left of them has room for one
more header. -/
def GrowthFits (h : ProcessHeap) (size : Nat) : Prop :=
  growTop h (roundTotal size) < 2 ^ 32 ∧ roundTotal size % pageSize + itemSizeof ≤ pageSize

def Served (w : World) : Op → Prop
  | .kmalloc size => HasFit w.heap size ∨ GrowthFits w.heap size
  | _ => True

/-! ## The invariant -/

theorem mem_of_onChain {m : Mem} {a x : Nat} {xs : List Nat} (h : Links (itemNext m) 0 a xs)
    (hx : OnChain m a x) : x ∈ xs := by
  induction hx generalizing xs with
  | here h0 =>
    cases xs with
    | nil => exact absurd h h0
    | cons y ys => exact h.1 ▸ List.mem_cons_self
  | next h0 _ ih =>
    cases xs with
    | nil => exact absurd h h0
    | cons y ys =>
      obtain ⟨rfl, -, h⟩ := h
      exact List.mem_cons_of_mem _ (ih h)

theorem onChain_of_mem {m : Mem} {a x : Nat} {xs : List Nat} (h : Links (itemNext m) 0 a xs)
    (hx : x ∈ xs) : OnChain m a x := by
  induction xs generalizing a with
  | nil => simp at hx
  | cons y ys ih =>
    obtain ⟨rfl, h0, h⟩ := h
    rcases List.mem_cons.mp hx with rfl | hx
    · exact OnChain.here h0
    · exact OnChain.next h0 (ih h hx)

theorem ChainAt.mem_of_onChain {m : Mem} {a x : Nat} {bs : List Item} (h : ChainAt m a bs)
    (hx : OnChain m a x) : ∃ b ∈ bs, b.addr = x ∧ (itemUsed m x = 0 ↔ b.used = false) ∧
      itemSize m x = b.size := by
  obtain ⟨b, hb, rfl⟩ := List.mem_map.mp (Heap.mem_of_onChain h.links hx)
  exact ⟨b, hb, rfl, h.header hb⟩

/-- The heap is a chain from `heapBase` up to `mid`, and pages above it that the chain has lost. -/
structure Layout (w : World) (chain : List Item) (lost : List (List Item)) (mid : Nat) : Prop where
  chainAt : ChainAt w.heap.mem heapBase chain
  grown : ∀ g ∈ w.grown, ∃ l ∈ chain :: lost, ChainAt w.heap.mem g l
  chainIn : Within heapBase mid chain
  lostIn : Within mid w.heap.top lost.flatten
  top : w.heap.top < 2 ^ 32
  live : ∀ p n, (p, n) ∈ w.live → ∃ b ∈ chain ++ lost.flatten,
    b.used = true ∧ p = b.addr + itemSizeof ∧ n = b.size
  nodup : w.live.Pairwise fun b c => b.1 ≠ c.1

def Inv (w : World) : Prop :=
  (w.heap.top = 0 ∧ w.live = [] ∧ w.grown = []) ∨ ∃ chain lost mid, Layout w chain lost mid

theorem inv_emptyWorld (m : Mem) : Inv (emptyWorld m) := Or.inl ⟨rfl, rfl, rfl⟩

theorem Layout.within {w : World} {chain : List Item} {lost : List (List Item)} {mid : Nat}
    (h : Layout w chain lost mid) : Within heapBase w.heap.top (chain ++ lost.flatten) :=
  within_append.mpr ⟨mid, h.chainIn, h.lostIn⟩

theorem Layout.base_le_top {w : World} {chain : List Item} {lost : List (List Item)} {mid : Nat}
    (h : Layout w chain lost mid) : heapBase ≤ w.heap.top := h.within.le

theorem Layout.heapSafe {w : World} {chain : List Item} {lost : List (List Item)} {mid : Nat}
    (h : Layout w chain lost mid) : HeapSafe w where
  inside := by
    intro p n hp
    obtain ⟨b, hb, -, rfl, rfl⟩ := h.live p n hp
    have := h.within.mem hb
    unfold Item.stop at this
    omega
  apart := by
    apply List.Pairwise.imp_of_mem _ h.nodup
    rintro ⟨p, n⟩ ⟨q, k⟩ hp hq hne
    obtain ⟨b, hb, -, rfl, rfl⟩ := h.live p n hp
    obtain ⟨c, hc, -, rfl, rfl⟩ := h.live q k hq
    rcases h.within.apart hb hc with rfl | hbc | hcb
    · exact absurd rfl hne
    all_goals
      unfold Item.stop at *
      dsimp only
      omega
  free := by
    intro g hg x hx _
    obtain ⟨l, hl, hchain⟩ := h.grown g hg
    obtain ⟨b, hb, rfl, -⟩ := hchain.mem_of_onChain hx
    have hmem : b ∈ chain ++ lost.flatten := by
      rcases List.mem_cons.mp hl with rfl | hl
      · exact List.mem_append_left _ hb
      · exact List.mem_append_right _ (List.mem_flatten.mpr ⟨l, hl, hb⟩)
    have := h.within.mem hmem
    unfold Item.stop at this
    omega

theorem Inv.heapSafe {w : World} (h : Inv w) : HeapSafe w := by
  rcases h with ⟨h1, h2, h3⟩ | ⟨_, _, _, h⟩
  · exact ⟨by simp [h2], by simp [h2], by simp [h3]⟩
  · exact h.heapSafe

/-! ## Steps -/

theorem Layout.live_mono {w : World} {chain : List Item} {lost : List (List Item)} {mid : Nat}
    (h : Layout w chain lost mid) {items : List Item}
    (hi : ∀ b ∈ chain ++ lost.flatten, b.used = true → b ∈ items) (p n : Nat) (hp : (p, n) ∈ w.live) :
    ∃ b ∈ items, b.used = true ∧ p = b.addr + itemSizeof ∧ n = b.size := by
  obtain ⟨b, hb, hu, hpn⟩ := h.live p n hp
  exact ⟨b, hi b hb hu, hu, hpn⟩

theorem Layout.fresh {w : World} {chain : List Item} {lost : List (List Item)} {mid : Nat}
    (h : Layout w chain lost mid) {a : Nat}
    (ha : ∀ b ∈ chain ++ lost.flatten, b.used = true → b.addr ≠ a) {size : Nat} :
    ((a + itemSizeof, size) :: w.live).Pairwise fun b c => b.1 ≠ c.1 := by
  refine List.pairwise_cons.mpr ⟨?_, h.nodup⟩
  rintro ⟨p, n⟩ hp heq
  obtain ⟨b, hb, hu, rfl, -⟩ := h.live p n hp
  apply ha b hb hu
  dsimp only at heq
  omega

/-- Memory that changed only below `mid` is still the same for the chains above it. -/
theorem Layout.grown_mono {w : World} {chain : List Item} {lost : List (List Item)} {mid : Nat}
    (h : Layout w chain lost mid) {m' : Mem} {chain' : List Item} (hm : ∀ x, mid ≤ x → m' x = w.heap.mem x)
    (hc : ∀ g, ChainAt w.heap.mem g chain → ChainAt m' g chain') :
    ∀ g ∈ w.grown, ∃ l ∈ chain' :: lost, ChainAt m' g l := by
  intro g hg
  obtain ⟨l, hl, hchain⟩ := h.grown g hg
  rcases List.mem_cons.mp hl with rfl | hl
  · exact ⟨chain', List.mem_cons_self, hc g hchain⟩
  · refine ⟨l, List.mem_cons_of_mem _ hl, hchain.congr fun b hb x hx _ => (hm x ?_).symm⟩
    have := (h.lostIn.mem (List.mem_flatten.mpr ⟨l, hl, hb⟩)).1
    omega

theorem ChainAt.start_eq {m : Mem} {a a' : Nat} {bs : List Item} (h : ChainAt m a bs)
    (h' : ChainAt m a' bs) : a = a' := by
  cases bs with
  | nil => exact h.trans h'.symm
  | cons b bs => exact h.1.trans h'.1.symm

theorem step_kmalloc {w : World} {size p : Nat} {h' : ProcessHeap}
    (hk : mmKmalloc w.heap size = some (h', p)) (hp : p ≠ 0) (grown : List Nat)
    (hg : (if searchFit w.heap (totalSize size) = some 0 then prevTop w.heap :: w.grown else w.grown) =
      grown) :
    step w (.kmalloc size) = some { heap := h', live := (p, size) :: w.live, grown := grown } := by
  simp only [step, hk, Option.map_some, if_neg hp, hg]

theorem layout_carve {w : World} {chain : List Item} {lost : List (List Item)} {mid size : Nat} {b : Item}
    (h : Layout w chain lost mid) (hsize : 0 < size) (hround : roundTotal size < 2 ^ 32)
    (hfind : chain.find? (fits (roundTotal size)) = some b) :
    ∃ w' pre post, step w (.kmalloc size) = some w' ∧ chain = pre ++ b :: post ∧ b.used = false ∧
      Layout w' (pre ++ carved b size (roundTotal size) ++ post) lost mid := by
  have hmid := h.lostIn.le
  have htop := h.top
  have hbase := h.base_le_top
  have htop0 : w.heap.top ≠ 0 := by unfold heapBase at hbase; omega
  obtain ⟨pre, post, m', rfl, hb, hbu, hk, hch, hout⟩ :=
    mmKmalloc_carve (by omega) h.chainAt h.chainIn htop0 hsize hround hfind
  have hsearch : searchFit w.heap (totalSize size) ≠ some 0 := by
    have hlen := h.chainIn.length
    rw [searchFit, if_pos htop0, totalSize_eq hround,
      firstFit_spec h.chainAt walkFuel (by unfold itemSizeof walkFuel at *; omega), hfind]
    obtain ⟨_, rfl, hb0, -⟩ := h.chainAt.head
    simpa using hb0
  have hstop := h.chainIn.mem (b := b) (by simp)
  have hused : ∀ d ∈ (pre ++ b :: post) ++ lost.flatten, d.used = true →
      d ∈ (pre ++ carved b size (roundTotal size) ++ post) ++ lost.flatten := by
    intro d hd hdu
    simp only [List.mem_append, List.mem_cons] at hd ⊢
    rcases hd with (hd | rfl | hd) | hd
    · exact Or.inl (Or.inl (Or.inl hd))
    · simp [hbu] at hdu
    · exact Or.inl (Or.inr hd)
    · exact Or.inr hd
  refine ⟨_, pre, post, step_kmalloc hk (by unfold itemSizeof; omega) _ (if_neg hsearch), rfl, hbu, ?_⟩
  refine ⟨hch, ?_, within_carved h.chainIn (le_roundTotal size) hb, h.lostIn, h.top, ?_, ?_⟩
  · refine h.grown_mono (fun x hx => hout x (Or.inr (by omega))) fun g hg => ?_
    rw [hg.start_eq h.chainAt]
    exact hch
  · intro p n hp
    rcases List.mem_cons.mp hp with heq | hp
    · obtain ⟨rfl, rfl⟩ := Prod.mk.inj heq
      refine ⟨{ b with size := n, used := true }, ?_, rfl, rfl, rfl⟩
      simp [carved]
    · exact h.live_mono hused p n hp
  · refine h.fresh fun d hd hdu heq => ?_
    have := h.within.eq_of_addr hd (c := b) (by simp) heq
    simp [this, hbu] at hdu

theorem layout_grow_empty {w : World} {size : Nat} (h0 : w.heap.top = 0) (hl : w.live = [])
    (hg : w.grown = []) (hsize : 0 < size) (hgrow : GrowthFits w.heap size) :
    ∃ w', step w (.kmalloc size) = some w' ∧
      Layout w' (grownItems heapBase size (roundTotal size)) [] (growTop w.heap (roundTotal size)) := by
  have hsearch : searchFit w.heap (roundTotal size) = some 0 := by rw [searchFit, if_neg (by simp [h0])]
  have hprev : prevTop w.heap = heapBase := by rw [prevTop, if_pos h0]
  have htotal : roundTotal size < 2 ^ 32 := by
    have := hgrow.1
    unfold growTop pageSize at this
    omega
  obtain ⟨m', hk, hch, -⟩ := mmKmalloc_grow (Or.inl h0) hsize hsearch hgrow.1 hgrow.2
  have hin := within_grownItems (h := w.heap) (le_roundTotal size) hgrow.2
  rw [hprev] at hch hin hk
  refine ⟨_, step_kmalloc hk (by unfold itemSizeof; omega) [heapBase] ?_, ?_⟩
  · rw [totalSize_eq htotal, if_pos hsearch, hg, hprev]
  refine ⟨hch, ?_, hin, Nat.le_refl _, hgrow.1, ?_, by simp [hl]⟩
  · intro g hgm
    rw [List.mem_singleton.mp hgm]
    exact ⟨_, List.mem_cons_self, hch⟩
  · intro p n hp
    rw [hl] at hp
    obtain ⟨rfl, rfl⟩ := Prod.mk.inj (List.mem_singleton.mp hp)
    exact ⟨⟨heapBase, n, true⟩, by simp [grownItems], rfl, rfl, rfl⟩

theorem layout_grow_more {w : World} {chain : List Item} {lost : List (List Item)} {mid size : Nat}
    (h : Layout w chain lost mid) (hsize : 0 < size)
    (hsearch : searchFit w.heap (roundTotal size) = some 0) (hgrow : GrowthFits w.heap size) :
    ∃ w' lost', step w (.kmalloc size) = some w' ∧ Layout w' chain lost' mid := by
  have hbase := h.base_le_top
  have hprev : prevTop w.heap = w.heap.top := by
    rw [prevTop, if_neg (by unfold heapBase at hbase; omega)]
  have htotal : roundTotal size < 2 ^ 32 := by
    have := hgrow.1
    unfold growTop pageSize at this
    omega
  obtain ⟨m', hk, hch, hout⟩ := mmKmalloc_grow (Or.inr hbase) hsize hsearch hgrow.1 hgrow.2
  have hin := within_grownItems (h := w.heap) (le_roundTotal size) hgrow.2
  rw [hprev] at hch hin hk hout
  have hsame : ∀ l : List Item, (∀ b ∈ l, b ∈ chain ++ lost.flatten) → ∀ g,
      ChainAt w.heap.mem g l → ChainAt m' g l := by
    intro l hl g hg
    refine hg.congr fun b hb x _ hx => (hout x ?_).symm
    have := (h.within.mem (hl b hb)).2
    unfold Item.stop at this
    omega
  have hflat : (lost ++ [grownItems w.heap.top size (roundTotal size)]).flatten =
      lost.flatten ++ grownItems w.heap.top size (roundTotal size) := by simp
  refine ⟨_, lost ++ [grownItems w.heap.top size (roundTotal size)],
    step_kmalloc hk (by unfold itemSizeof; omega) (w.heap.top :: w.grown) ?_, ?_⟩
  · rw [totalSize_eq htotal, if_pos hsearch, hprev]
  refine ⟨hsame chain (fun b hb => List.mem_append_left _ hb) _ h.chainAt, ?_, h.chainIn, ?_,
    hgrow.1, ?_, ?_⟩
  · intro g hgm
    rcases List.mem_cons.mp hgm with rfl | hgm
    · exact ⟨_, by simp, hch⟩
    · obtain ⟨l, hl, hchain⟩ := h.grown g hgm
      refine ⟨l, ?_, hsame l ?_ g hchain⟩
      · rcases List.mem_cons.mp hl with rfl | hl
        · exact List.mem_cons_self
        · exact List.mem_cons_of_mem _ (List.mem_append_left _ hl)
      · intro b hb
        rcases List.mem_cons.mp hl with rfl | hl
        · exact List.mem_append_left _ hb
        · exact List.mem_append_right _ (List.mem_flatten.mpr ⟨l, hl, hb⟩)
  · rw [hflat]
    exact within_append.mpr ⟨_, h.lostIn, hin⟩
  · intro p n hp
    rw [hflat]
    rcases List.mem_cons.mp hp with heq | hp
    · obtain ⟨rfl, rfl⟩ := Prod.mk.inj heq
      exact ⟨⟨w.heap.top, n, true⟩, by simp [grownItems], rfl, rfl, rfl⟩
    · refine h.live_mono (fun b hb _ => ?_) p n hp
      rw [← List.append_assoc]
      exact List.mem_append_left _ hb
  · refine h.fresh fun d hd _ heq => ?_
    have := (h.within.mem hd).2
    unfold Item.stop itemSizeof at this
    omega

theorem Layout.find_of_hasFit {w : World} {chain : List Item} {lost : List (List Item)} {mid size : Nat}
    (h : Layout w chain lost mid) (hf : HasFit w.heap size) :
    ∃ b, chain.find? (fits (roundTotal size)) = some b := by
  obtain ⟨-, x, hx, hu, hs⟩ := hf
  obtain ⟨b, hb, -, hbu, hbs⟩ := h.chainAt.mem_of_onChain hx
  apply Option.isSome_iff_exists.mp
  rw [List.find?_isSome]
  exact ⟨b, hb, by simp [fits, hbu.mp hu, ← hbs, hs]⟩

theorem Layout.roundTotal_lt {w : World} {chain : List Item} {lost : List (List Item)} {mid size : Nat}
    (h : Layout w chain lost mid) {b : Item} (hfind : chain.find? (fits (roundTotal size)) = some b) :
    roundTotal size < 2 ^ 32 := by
  have hb := List.find?_some hfind
  have hstop := (h.chainIn.mem (List.mem_of_find?_eq_some hfind)).2
  have htop := h.top
  have hmid := h.lostIn.le
  simp only [fits, Bool.and_eq_true, decide_eq_true_eq] at hb
  unfold Item.stop at hstop
  omega

theorem inv_kmalloc {w : World} {size : Nat} (h : Inv w) (hsize : 0 < size)
    (hok : HasFit w.heap size ∨ GrowthFits w.heap size) :
    ∃ w', step w (.kmalloc size) = some w' ∧ Inv w' := by
  rcases h with ⟨h0, hl, hg⟩ | ⟨chain, lost, mid, h⟩
  · obtain ⟨w', hw, h'⟩ := layout_grow_empty h0 hl hg hsize (hok.resolve_left fun hf => hf.1 h0)
    exact ⟨w', hw, Or.inr ⟨_, _, _, h'⟩⟩
  cases hfind : chain.find? (fits (roundTotal size)) with
  | some b =>
    obtain ⟨w', _, _, hw, -, -, h'⟩ := layout_carve h hsize (h.roundTotal_lt hfind) hfind
    exact ⟨w', hw, Or.inr ⟨_, _, _, h'⟩⟩
  | none =>
    -- No item of the chain fits, so the request grows the heap.
    have hbase := h.base_le_top
    have hlen := h.chainIn.length
    have hmid := h.lostIn.le
    have htop := h.top
    have hsearch : firstFit w.heap.mem (roundTotal size) walkFuel heapBase = _ :=
      firstFit_spec h.chainAt walkFuel (by unfold itemSizeof walkFuel at *; omega)
    rw [hfind] at hsearch
    obtain ⟨w', lost', hw, h'⟩ := layout_grow_more h hsize
      (by rw [searchFit, if_pos (by unfold heapBase at hbase; omega)]; exact hsearch)
      (hok.resolve_left fun hf => by
        obtain ⟨b, hb⟩ := h.find_of_hasFit hf
        simp [hfind] at hb)
    exact ⟨w', hw, Or.inr ⟨_, _, _, h'⟩⟩

theorem mem_freeAt {a : Nat} {bs : List Item} {b : Item} (hb : b ∈ bs) (ha : b.addr ≠ a) :
    b ∈ freeAt a bs :=
  List.mem_map.mpr ⟨b, hb, if_neg ha⟩

theorem mem_live_filter {w : World} {p q n : Nat} :
    (q, n) ∈ w.live.filter (fun b => decide (b.1 ≠ p)) ↔ (q, n) ∈ w.live ∧ q ≠ p := by
  simp [List.mem_filter]

theorem layout_kfree {w : World} {chain : List Item} {lost : List (List Item)} {mid : Nat} {b : Item}
    (h : Layout w chain lost mid) (hb : b ∈ chain) :
    ∃ w', step w (.kfree (b.addr + itemSizeof)) = some w' ∧
      Layout w' (coalesce (freeAt b.addr chain)) lost mid := by
  have htop := h.top
  have hmid := h.lostIn.le
  have hstop := h.chainIn.mem hb
  obtain ⟨m', hk, hch, hout⟩ := mmKfree_found (by omega) h.chainAt h.chainIn hb
    (by unfold Item.stop at hstop; omega)
  refine ⟨_, by rw [step, hk]; rfl, ?_⟩
  refine ⟨hch, ?_, (within_freeAt h.chainIn).coalesce, h.lostIn, h.top, ?_, h.nodup.filter _⟩
  · refine h.grown_mono (fun x hx => hout x fun c hc => Or.inr ?_) fun g hg => ?_
    · have := (h.chainIn.mem hc).2
      unfold Item.stop at this
      omega
    · rw [hg.start_eq h.chainAt]
      exact hch
  · intro q k hq
    obtain ⟨hq, hne⟩ := mem_live_filter.mp hq
    obtain ⟨c, hc, hcu, rfl, rfl⟩ := h.live q k hq
    refine ⟨c, ?_, hcu, rfl, rfl⟩
    rcases List.mem_append.mp hc with hc | hc
    · exact List.mem_append_left _ (mem_coalesce_of_used hcu (mem_freeAt hc (by omega)))
    · exact List.mem_append_right _ hc

/-- A block in lost pages stays as it is, because the walk never gets to it. -/
theorem layout_kfree_lost {w : World} {chain : List Item} {lost : List (List Item)} {mid : Nat} {b : Item}
    (h : Layout w chain lost mid) (hb : b ∈ lost.flatten) :
    ∃ w', step w (.kfree (b.addr + itemSizeof)) = some w' ∧ Layout w' chain lost mid := by
  have htop := h.top
  have hmid := h.lostIn.le
  have hstop := h.lostIn.mem hb
  have hk : mmKfree w.heap (b.addr + itemSizeof) = some w.heap := by
    refine mmKfree_missing (by omega) h.chainAt h.chainIn (fun c hc => ?_)
      (by unfold Item.stop at hstop; omega)
    have := (h.chainIn.mem hc).2
    unfold Item.stop itemSizeof at *
    omega
  refine ⟨_, by rw [step, hk]; rfl, ?_⟩
  refine ⟨h.chainAt, h.grown, h.chainIn, h.lostIn, h.top, ?_, h.nodup.filter _⟩
  intro q k hq
  exact h.live q k (mem_live_filter.mp hq).1

theorem layout_write {w : World} {chain : List Item} {lost : List (List Item)} {mid a p n : Nat} {v : Byte}
    (h : Layout w chain lost mid) (hp : (p, n) ∈ w.live) (hpa : p ≤ a) (han : a < p + n) :
    ∃ w', step w (.write a v) = some w' ∧ Layout w' chain lost mid := by
  obtain ⟨b, hb, -, rfl, rfl⟩ := h.live p n hp
  have hsame : ∀ c ∈ chain ++ lost.flatten, SameHeader w.heap.mem (fill w.heap.mem a 1 v) c.addr := by
    intro c hc x hx1 hx2
    refine (fill_other ?_).symm
    rcases h.within.apart hb hc with rfl | hbc | hcb
    · left; omega
    all_goals
      unfold Item.stop at *
      omega
  refine ⟨_, rfl, ?_⟩
  refine ⟨h.chainAt.congr fun c hc => hsame c (List.mem_append_left _ hc), ?_, h.chainIn, h.lostIn,
    h.top, h.live, h.nodup⟩
  intro g hg
  obtain ⟨l, hl, hchain⟩ := h.grown g hg
  refine ⟨l, hl, hchain.congr fun c hc => hsame c ?_⟩
  rcases List.mem_cons.mp hl with rfl | hl
  · exact List.mem_append_left _ hc
  · exact List.mem_append_right _ (List.mem_flatten.mpr ⟨l, hl, hc⟩)

theorem inv_kfree {w : World} {p n : Nat} (h : Inv w) (hp : (p, n) ∈ w.live) :
    ∃ w', step w (.kfree p) = some w' ∧ Inv w' := by
  rcases h with ⟨-, hl, -⟩ | ⟨chain, lost, mid, h⟩
  · simp [hl] at hp
  obtain ⟨b, hb, -, rfl, rfl⟩ := h.live p n hp
  rcases List.mem_append.mp hb with hb | hb
  · obtain ⟨w', hw, h'⟩ := layout_kfree h hb
    exact ⟨w', hw, Or.inr ⟨_, _, _, h'⟩⟩
  · obtain ⟨w', hw, h'⟩ := layout_kfree_lost h hb
    exact ⟨w', hw, Or.inr ⟨_, _, _, h'⟩⟩

theorem inv_write {w : World} {a p n : Nat} {v : Byte} (h : Inv w) (hp : (p, n) ∈ w.live) (hpa : p ≤ a)
    (han : a < p + n) : ∃ w', step w (.write a v) = some w' ∧ Inv w' := by
  rcases h with ⟨-, hl, -⟩ | ⟨chain, lost, mid, h⟩
  · simp [hl] at hp
  obtain ⟨w', hw, h'⟩ := layout_write (v := v) h hp hpa han
  exact ⟨w', hw, Or.inr ⟨_, _, _, h'⟩⟩

theorem inv_step {w : World} {op : Op} (h : Inv w) (ha : Allowed w op) (hs : Served w op) :
    ∃ w', step w op = some w' ∧ Inv w' := by
  cases op with
  | kmalloc size => exact inv_kmalloc h ha.1 hs
  | kfree p => obtain ⟨n, hn⟩ := ha; exact inv_kfree h hn
  | write a v => obtain ⟨p, n, hp, h1, h2⟩ := ha; exact inv_write h hp h1 h2

/-! ## Runs -/

/-- **Heap safety.** Along every run of allowed calls whose requests are served as meant. -/
theorem heap_safe_of_served (m : Mem) (ops : List Op)
    (h : Along step (fun w op => Allowed w op ∧ Served w op) (emptyWorld m) ops) :
    ∃ w, run step (emptyWorld m) ops = some w ∧ HeapSafe w := by
  obtain ⟨w, hw, hinv⟩ := run_invariant (fun w op hi hok => inv_step hi hok.1 hok.2) ops _
    (inv_emptyWorld m) h
  exact ⟨w, hw, hinv.heapSafe⟩

/-- The block of the first request is freed, and the last request is served from it. -/
def reuseBlock : List Op := [.kmalloc 32, .kmalloc 8, .write (heapBase + 56) 7,
    .kfree (heapBase + 12), .kmalloc 8]

theorem reuseBlock_ok : Along step (fun w op => Allowed w op ∧
    ∀ size, op = .kmalloc size → HasFit w.heap size ∨ (w.heap.top = 0 ∧ GrowthFits w.heap size))
    (emptyWorld fun _ => 0) reuseBlock := by
  obtain ⟨w1, w2, w3, w4, h1, h2, h3, h4, hfit1, hlive2, hlive3, hfit4⟩ : ∃ w1 w2 w3 w4,
      step (emptyWorld fun _ => 0) (.kmalloc 32) = some w1 ∧ step w1 (.kmalloc 8) = some w2 ∧
      step w2 (.write (heapBase + 56) 7) = some w3 ∧ step w3 (.kfree (heapBase + 12)) = some w4 ∧
      HasFit w1.heap 8 ∧ (heapBase + 56, 8) ∈ w2.live ∧ (heapBase + 12, 32) ∈ w3.live ∧ HasFit w4.heap 8 :=
    ⟨_, _, _, _, rfl, rfl, rfl, rfl,
      ⟨by decide, heapBase + 44, .next (by decide) (.here (by decide)), by decide, by decide⟩,
      by decide +kernel, by decide +kernel,
      ⟨by decide, heapBase, .here (by decide), by decide +kernel, by decide +kernel⟩⟩
  refine .cons ⟨⟨by decide, by decide⟩, ?_⟩ h1
    (.cons ⟨⟨by decide, by decide⟩, ?_⟩ h2 (.cons ⟨⟨_, _, hlive2, by decide, by decide⟩, nofun⟩ h3
    (.cons ⟨⟨_, hlive3⟩, nofun⟩ h4 ⟨⟨⟨by decide, by decide⟩, ?_⟩, fun _ _ => trivial⟩)))
  · rintro _ ⟨⟩
    exact .inr ⟨rfl, by decide, by decide⟩
  · rintro _ ⟨⟩
    exact .inl hfit1
  · rintro _ ⟨⟩
    exact .inl hfit4

theorem heap_safe_after_reuse : ∃ w, run step (emptyWorld fun _ => 0) reuseBlock = some w ∧ HeapSafe w := by
  refine heap_safe_of_served _ _ (reuseBlock_ok.imp (fun w op h => ⟨h.1, ?_⟩) _)
  cases op with
  | kmalloc size => exact (h.2 size rfl).imp_right And.right
  | kfree p => trivial
  | write a v => trivial

/-- The rest of the page is four bytes, and the header of the free item for it does not fit. -/
theorem kmalloc_4080_not_safe :
    ∃ w, run step (emptyWorld fun _ => 0) [.kmalloc 4080] = some w ∧
      Along step Allowed (emptyWorld fun _ => 0) [.kmalloc 4080] ∧ ¬ HeapSafe w := by
  refine ⟨_, rfl, ⟨⟨by decide, by decide⟩, fun w _ => trivial⟩, fun h => ?_⟩
  have hx : heapBase + 4092 + itemSizeof ≤ heapBase + 4096 :=
    (h.free heapBase (by decide) (heapBase + 4092)
      (OnChain.next (by decide) (OnChain.here (by decide))) (by decide)).2
  revert hx
  decide

end SystemProjects.Heap
