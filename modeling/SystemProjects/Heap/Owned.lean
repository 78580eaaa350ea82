import SystemProjects.Heap.Safety

/-!
# Live blocks on the chain

`mm_kmalloc` never links the pages of a second growth into the chain. While requests are served from
the chain every live block stays on it, and `mm_kfree` finds it.
-/

open SystemProjects.Memory SystemProjects.Run

namespace SystemProjects.Heap

/-! ## What is claimed of a state -/

/-- The block is a used item of the chain from `heapBase`. -/
def OwnedBlock (h : ProcessHeap) (p : Nat) : Prop :=
  ∃ x, OnChain h.mem heapBase x ∧ itemUsed h.mem x ≠ 0 ∧ p = x + itemSizeof

/-- After `mm_kfree` the bytes of the block belong to a free item of the chain. -/
def Released (h : ProcessHeap) (p n : Nat) : Prop :=
  ∃ h', mmKfree h p = some h' ∧ ∃ x, OnChain h'.mem heapBase x ∧ itemUsed h'.mem x = 0 ∧
    x + itemSizeof ≤ p ∧ p + n ≤ x + itemSizeof + itemSize h'.mem x

/-! ## When that holds -/

/-- The request is served from the chain, or it is the first one. -/
def ServedOnChain (w : World) : Op → Prop
  | .kmalloc size => HasFit w.heap size ∨ (w.heap.top = 0 ∧ GrowthFits w.heap size)
  | _ => True

/-- What the item at `a` gains when it is freed and the item after it is free. -/
def freeAfter (m : Mem) (a : Nat) : Nat :=
  if itemNext m a ≠ 0 ∧ itemUsed m (itemNext m a) = 0 then itemSizeof + itemSize m (itemNext m a) else 0

/-- A free item right before the one at `a` ends at it, or the free item after makes up for the gap.
The size in a header is not rounded, so free items can end short of the next header. -/
def Flush (m : Mem) (a : Nat) : Prop :=
  ∀ x, OnChain m heapBase x → itemUsed m x = 0 → itemNext m x = a →
    a ≤ x + itemSizeof + itemSize m x + freeAfter m a

/-! ## Items of a chain -/

theorem ChainAt.onChain {m : Mem} {a : Nat} {bs : List Item} (h : ChainAt m a bs) {b : Item}
    (hb : b ∈ bs) : OnChain m a b.addr :=
  onChain_of_mem h.links (List.mem_map_of_mem hb)

/-- What the header of an item says, where its list is cut before it. -/
theorem ChainAt.item {m : Mem} {a : Nat} {pre post : List Item} {b : Item}
    (h : ChainAt m a (pre ++ b :: post)) : itemSize m b.addr = b.size ∧
      (itemUsed m b.addr = 0 ↔ b.used = false) ∧ ChainAt m (itemNext m b.addr) post := by
  obtain ⟨_, rfl, -, hs, hu, hn⟩ := h.head
  exact ⟨hs, hu, hn⟩

theorem ChainAt.freeAfter_eq {m : Mem} {a : Nat} {pre post : List Item} {b : Item}
    (h : ChainAt m a (pre ++ b :: post)) : freeAfter m b.addr = freeHead post := by
  obtain ⟨-, -, hn⟩ := h.item
  cases post with
  | nil =>
    have h0 : itemNext m b.addr = 0 := hn
    rw [freeAfter, h0, if_neg (by simp), freeHead]
  | cons c post =>
    obtain ⟨hc, h0, hs, hu, -⟩ := hn
    rw [freeAfter, freeHead, hs]
    apply if_congr _ rfl rfl
    rw [← hu]
    exact and_iff_right h0

theorem Within.notMem {lo hi : Nat} {pre post : List Item} {b : Item}
    (h : Within lo hi (pre ++ b :: post)) : b ∉ pre ∧ b ∉ post := by
  obtain ⟨mid, h1, h2⟩ := within_append.mp h
  constructor
  · intro hb
    have := (h1.mem hb).2
    have := h2.1
    unfold Item.stop itemSizeof at *
    omega
  · intro hb
    have := (h2.2.mem hb).1
    unfold Item.stop itemSizeof at this
    omega

theorem freeAt_append {lo hi : Nat} {pre post : List Item} {b : Item}
    (h : Within lo hi (pre ++ b :: post)) :
    freeAt b.addr (pre ++ b :: post) = pre ++ { b with used := false } :: post := by
  have hother : ∀ d ∈ pre ++ b :: post, d ≠ b → d.addr ≠ b.addr :=
    fun d hd hne heq => hne (h.eq_of_addr hd (by simp) heq)
  have hid : ∀ bs : List Item, (∀ d ∈ bs, d ∈ pre ++ b :: post ∧ d ≠ b) → freeAt b.addr bs = bs := by
    intro bs hbs
    refine (List.map_congr_left fun d hd => ?_).trans (List.map_id _)
    exact if_neg (hother d (hbs d hd).1 (hbs d hd).2)
  have h1 := hid pre fun d hd => ⟨List.mem_append_left _ hd, fun he => h.notMem.1 (he ▸ hd)⟩
  have h2 := hid post fun d hd =>
    ⟨List.mem_append_right _ (List.mem_cons_of_mem _ hd), fun he => h.notMem.2 (he ▸ hd)⟩
  unfold freeAt at *
  rw [List.map_append, List.map_cons, h1, h2, if_pos rfl]

/-! ## What a freed block becomes -/

theorem coalesce_freed {pre post : List Item} {b : Item}
    (hpre : ∀ d ∈ pre.getLast?, d.used = true) (hs : Separated (pre ++ b :: post)) :
    ∃ rest, rest <:+ post ∧ coalesce (pre ++ { b with used := false } :: post) =
      pre ++ { b with size := b.size + freeHead post, used := false } :: coalesce rest := by
  obtain ⟨h1, h2, -⟩ := List.isChain_append.mp hs
  have hsep : Separated (pre ++ [{ b with used := false }]) :=
    List.isChain_append.mpr ⟨h1, List.isChain_singleton _, fun d hd _ _ => Or.inl (hpre d hd)⟩
  obtain ⟨ha, hr⟩ := absorb_separated (b := { b with used := false }) rfl (Separated.tail h2)
  refine ⟨_, hr, ?_⟩
  rw [coalesce_append hsep, coalesce_cons, ha]

theorem coalesce_freed_after {pre post : List Item} {d b : Item} (hd : d.used = false)
    (hs : Separated (pre ++ d :: b :: post)) :
    ∃ rest, rest <:+ post ∧ coalesce (pre ++ d :: { b with used := false } :: post) =
      pre ++ { d with size := d.size + itemSizeof + b.size + freeHead post } :: coalesce rest := by
  obtain ⟨h1, h2, h3⟩ := List.isChain_append.mp hs
  have hsep : Separated (pre ++ [d]) :=
    List.isChain_append.mpr ⟨h1, List.isChain_singleton _, fun x hx y hy => h3 x hx y (by simpa using hy)⟩
  obtain ⟨ha, hr⟩ := absorb_separated (b := { d with size := d.size + itemSizeof + b.size }) hd
    (Separated.tail (Separated.tail h2))
  refine ⟨_, hr, ?_⟩
  rw [coalesce_append hsep, coalesce_cons, absorb, if_pos ⟨hd, rfl⟩, ha]

/-- The bytes of the block at `b` are part of the free item `c`. -/
def Covers (c b : Item) : Prop := c.used = false ∧ c.addr ≤ b.addr ∧ b.stop ≤ c.stop

/-- A freed block is part of a free item, unless the gap in front of it is too wide. -/
theorem covers_freed_iff {lo hi : Nat} {pre post : List Item} {b : Item}
    (hw : Within lo hi (pre ++ b :: post)) (hs : Separated (pre ++ b :: post)) :
    (∃ c ∈ coalesce (freeAt b.addr (pre ++ b :: post)), Covers c b) ↔
      ∀ d ∈ pre.getLast?, d.used = false → b.addr ≤ d.stop + freeHead post := by
  rw [freeAt_append hw]
  by_cases hpre : ∀ d ∈ pre.getLast?, d.used = true
  · obtain ⟨rest, -, heq⟩ := coalesce_freed hpre hs
    rw [heq]
    constructor
    · intro _ d hd hu
      simp [hpre d hd] at hu
    · intro _
      refine ⟨{ b with size := b.size + freeHead post, used := false }, by simp, rfl, Nat.le_refl _, ?_⟩
      unfold Item.stop
      dsimp only
      omega
  rcases pre.eq_nil_or_concat' with rfl | ⟨pre, d, rfl⟩
  · simp at hpre
  have hdu : d.used = false := by simpa using hpre
  rw [List.append_assoc, List.singleton_append] at hw hs ⊢
  obtain ⟨mid, hw1, hw2, hw3, hw4⟩ := within_append.mp hw
  obtain ⟨rest, hrest, heq⟩ := coalesce_freed_after hdu hs
  have hstop : ∀ k, Item.stop { d with size := d.size + itemSizeof + b.size + k } =
      d.stop + itemSizeof + b.size + k := by
    intro k
    unfold Item.stop
    dsimp only
    omega
  have hbstop : b.stop = b.addr + itemSizeof + b.size := rfl
  rw [heq]
  constructor
  · rintro ⟨c, hc, -, hcb, hbc⟩ e he -
    obtain rfl : d = e := by simpa using he
    rcases List.mem_append.mp hc with hc | hc
    · -- The items before `d` end before the block starts.
      have := (hw1.mem hc).2
      unfold Item.stop itemSizeof at *
      omega
    · rcases List.mem_cons.mp hc with rfl | hc
      · rw [hstop] at hbc
        omega
      · -- The items after the block start behind it.
        have := ((hw4.suffix hrest).coalesce.mem hc).1
        unfold itemSizeof at hbstop
        omega
  · intro hgap
    have := hgap d (by simp) hdu
    refine ⟨_, List.mem_append_right _ List.mem_cons_self, hdu, ?_, ?_⟩
    · unfold Item.stop at hw3
      dsimp only
      omega
    · rw [hstop]
      omega

/-! ## A state whose live blocks are all on the chain -/

/-- Nothing was asked for yet, or every page is on the chain and it has nothing left to coalesce. -/
def OwnedInv (w : World) : Prop :=
  (w.heap.top = 0 ∧ w.live = [] ∧ w.grown = []) ∨
    ∃ chain mid, Layout w chain [] mid ∧ Separated chain

theorem Layout.owned {w : World} {chain : List Item} {mid p n : Nat} (h : Layout w chain [] mid)
    (hp : (p, n) ∈ w.live) : OwnedBlock w.heap p := by
  obtain ⟨b, hb, hbu, rfl, -⟩ := h.live p n hp
  rw [List.flatten_nil, List.append_nil] at hb
  refine ⟨b.addr, h.chainAt.onChain hb, ?_, rfl⟩
  obtain ⟨pre, post, rfl⟩ := List.append_of_mem hb
  rw [ne_eq, h.chainAt.item.2.1, hbu]
  simp

theorem Layout.flush_iff {w : World} {chain pre post : List Item} {b : Item} {mid : Nat}
    (h : Layout w chain [] mid) (hc : chain = pre ++ b :: post) :
    Flush w.heap.mem b.addr ↔ ∀ d ∈ pre.getLast?, d.used = false → b.addr ≤ d.stop + freeHead post := by
  subst hc
  unfold Flush
  rw [h.chainAt.freeAfter_eq]
  constructor
  · intro hf d hd hdu
    obtain ⟨pre', rfl⟩ : ∃ pre', pre = pre' ++ [d] := by
      rcases pre.eq_nil_or_concat' with rfl | ⟨pre', e, rfl⟩
      · simp at hd
      · exact ⟨pre', by simpa using hd⟩
    have hch := h.chainAt
    rw [List.append_assoc, List.singleton_append] at hch
    obtain ⟨hs, hu, hn⟩ := hch.item
    have := hf d.addr (hch.onChain (by simp)) (hu.mpr hdu) hn.1
    rw [hs] at this
    exact this
  · intro hf x hx hxu hxn
    obtain ⟨d, hd, rfl, hdu, hds⟩ := h.chainAt.mem_of_onChain hx
    obtain ⟨l, r, hlr⟩ := List.append_of_mem hd
    have hch := h.chainAt
    rw [hlr] at hch
    obtain ⟨hs, -, hn⟩ := hch.item
    rw [hxn] at hn
    -- The item after `d` on the chain is the block itself.
    cases r with
    | nil =>
      have hb0 : b.addr = 0 := hn
      obtain ⟨_, rfl, hne, -⟩ := h.chainAt.head
      exact absurd hb0 hne
    | cons c r =>
      have hcb : c = b := by
        have hmem : c ∈ pre ++ b :: post := by rw [hlr]; simp
        exact h.chainIn.eq_of_addr hmem (by simp) hn.1.symm
      subst hcb
      rw [show l ++ d :: c :: r = (l ++ [d]) ++ c :: r by simp] at hlr
      obtain ⟨rfl, -, rfl⟩ := (List.append_cons_inj_of_notMem h.chainIn.notMem.1 h.chainIn.notMem.2).mp hlr
      have := hf d (by simp) (hdu.mp hxu)
      rw [hs]
      exact this

/-- A live block of such a state is released, unless the gap in front of it is too wide. -/
theorem Layout.released_iff {w : World} {chain : List Item} {mid p n : Nat} (h : Layout w chain [] mid)
    (hs : Separated chain) (hp : (p, n) ∈ w.live) :
    Released w.heap p n ↔ Flush w.heap.mem (itemOf p) := by
  obtain ⟨b, hb, hbu, rfl, rfl⟩ := h.live p n hp
  rw [List.flatten_nil, List.append_nil] at hb
  have htop := h.top
  have hmid := h.lostIn.le
  have hstop := h.chainIn.mem hb
  have hp32 : b.addr + itemSizeof < 2 ^ 32 := by unfold Item.stop at hstop; omega
  obtain ⟨m', hk, hch, -⟩ := mmKfree_found (by omega) h.chainAt h.chainIn hb hp32
  obtain ⟨pre, post, hc⟩ := List.append_of_mem hb
  rw [itemOf_eq hp32, h.flush_iff hc, ← covers_freed_iff (hc ▸ h.chainIn) (hc ▸ hs), ← hc]
  unfold Released
  rw [hk]
  constructor
  · rintro ⟨_, heq, x, hx, hxu, hx1, hx2⟩
    obtain rfl := Option.some.inj heq
    obtain ⟨c, hcm, rfl, hcu, hcs⟩ := hch.mem_of_onChain hx
    refine ⟨c, hcm, hcu.mp hxu, by omega, ?_⟩
    unfold Item.stop
    dsimp only at hx2
    omega
  · rintro ⟨c, hcm, hcu, hc1, hc2⟩
    obtain ⟨l, r, hlr⟩ := List.append_of_mem hcm
    have hch' := hch
    rw [hlr] at hch'
    obtain ⟨hcs, hcu', -⟩ := hch'.item
    refine ⟨_, rfl, c.addr, hch.onChain hcm, hcu'.mpr hcu, by omega, ?_⟩
    dsimp only
    unfold Item.stop at hc2
    omega

/-! ## Steps -/

theorem separated_carved {pre post : List Item} {b : Item} (hb : b.used = false) (size total : Nat)
    (h : Separated (pre ++ b :: post)) : Separated (pre ++ carved b size total ++ post) := by
  obtain ⟨h1, h2, -⟩ := List.isChain_append.mp h
  obtain ⟨h3, h4⟩ := List.isChain_cons.mp h2
  rw [List.append_assoc, carved]
  refine List.isChain_append.mpr ⟨h1, ?_, ?_⟩
  · refine List.isChain_cons.mpr ⟨by simp, List.isChain_cons.mpr ⟨?_, h4⟩⟩
    intro c hc
    exact Or.inr ((h3 c hc).resolve_left (by simp [hb]))
  · rintro d - e he
    right
    simp only [List.cons_append, List.head?_cons, Option.mem_def, Option.some.injEq] at he
    rw [← he]

theorem owned_step {w : World} {op : Op} (h : OwnedInv w) (ha : Allowed w op) (hs : ServedOnChain w op) :
    ∃ w', step w op = some w' ∧ OwnedInv w' := by
  rcases h with ⟨h0, hl, hg⟩ | ⟨chain, mid, h, hsep⟩
  · cases op with
    | kmalloc size =>
      have hgrow := (hs.resolve_left fun hf => hf.1 h0).2
      obtain ⟨w', hw, h'⟩ := layout_grow_empty h0 hl hg ha.1 hgrow
      exact ⟨w', hw, Or.inr ⟨_, _, h', List.isChain_cons_cons.mpr ⟨Or.inl rfl, List.isChain_singleton _⟩⟩⟩
    | kfree p => obtain ⟨n, hn⟩ := ha; simp [hl] at hn
    | write a v => obtain ⟨p, n, hp, -⟩ := ha; simp [hl] at hp
  cases op with
  | kmalloc size =>
    have hbase := h.base_le_top
    have hfit := hs.resolve_right fun hf => by unfold heapBase at hbase; omega
    obtain ⟨b, hfind⟩ := h.find_of_hasFit hfit
    obtain ⟨w', pre, post, hw, rfl, hbu, h'⟩ := layout_carve h ha.1 (h.roundTotal_lt hfind) hfind
    exact ⟨w', hw, Or.inr ⟨_, _, h', separated_carved hbu _ _ hsep⟩⟩
  | kfree p =>
    obtain ⟨n, hn⟩ := ha
    obtain ⟨b, hb, -, rfl, -⟩ := h.live p n hn
    rw [List.flatten_nil, List.append_nil] at hb
    obtain ⟨w', hw, h'⟩ := layout_kfree h hb
    exact ⟨w', hw, Or.inr ⟨_, _, h', separated_coalesce _⟩⟩
  | write a v =>
    obtain ⟨p, n, hp, h1, h2⟩ := ha
    obtain ⟨w', hw, h'⟩ := layout_write (v := v) h hp h1 h2
    exact ⟨w', hw, Or.inr ⟨_, _, h', hsep⟩⟩

/-! ## Runs -/

/-- **Ownership.** Along every run that grows the heap only while it is empty, the live blocks stay
on the chain, and exactly the blocks with no gap in front of them are released whole. -/
theorem owned_of_servedOnChain (m : Mem) (ops : List Op)
    (h : Along step (fun w op => Allowed w op ∧ ServedOnChain w op) (emptyWorld m) ops) :
    ∃ w, run step (emptyWorld m) ops = some w ∧ ∀ p n, (p, n) ∈ w.live →
      OwnedBlock w.heap p ∧ (Released w.heap p n ↔ Flush w.heap.mem (itemOf p)) := by
  obtain ⟨w, hw, hinv⟩ := run_invariant (fun w op hi hok => owned_step hi hok.1 hok.2) ops _
    (Or.inl ⟨rfl, rfl, rfl⟩) h
  refine ⟨w, hw, fun p n hp => ?_⟩
  rcases hinv with ⟨-, hl, -⟩ | ⟨chain, mid, hlay, hsep⟩
  · simp [hl] at hp
  · exact ⟨hlay.owned hp, hlay.released_iff hsep hp⟩

theorem owned_after_reuse : ∃ w, run step (emptyWorld fun _ => 0) reuseBlock = some w ∧ ∀ p n,
    (p, n) ∈ w.live →
    OwnedBlock w.heap p ∧ (Released w.heap p n ↔ Flush w.heap.mem (itemOf p)) := by
  refine owned_of_servedOnChain _ _ (reuseBlock_ok.imp (fun w op h => ⟨h.1, ?_⟩) _)
  cases op with
  | kmalloc size => exact h.2 size rfl
  | kfree p => trivial
  | write a v => trivial

/-- The second request grows the heap again, and the chain does not reach its block. -/
theorem second_growth_not_owned :
    ∃ w p, run step (emptyWorld fun _ => 0) [.kmalloc 4000, .kmalloc 4000] = some w ∧
      Along step Allowed (emptyWorld fun _ => 0) [.kmalloc 4000, .kmalloc 4000] ∧
      (p, 4000) ∈ w.live ∧ ¬ OwnedBlock w.heap p ∧ mmKfree w.heap p = some w.heap := by
  refine ⟨_, heapBase + 4096 + itemSizeof, rfl, ?_, by decide +kernel, ?_, ?_⟩
  · refine ⟨⟨by decide, by decide⟩, fun w _ => ⟨⟨by decide, by decide⟩, fun w _ => trivial⟩⟩
  · rintro ⟨x, hx, -, hp⟩
    obtain ⟨b, hb, rfl, -⟩ := @ChainAt.mem_of_onChain _ _ x
      [⟨heapBase, 4000, true⟩, ⟨heapBase + 4012, 72, false⟩]
      ⟨rfl, by decide, by decide, by decide, by decide, by decide, by decide, by decide,
        show _ = 0 by decide⟩ hx
    clear hx
    revert hp
    revert b
    decide
  · rfl

end SystemProjects.Heap
