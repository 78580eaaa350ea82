import SystemProjects.Heap.Chain

/-!
# What `mm_kmalloc` and `mm_kfree` do to the chain

One spec for each way a call can go.
-/

open SystemProjects.Memory

namespace SystemProjects.Heap

/-! ## Sizes -/

/-- The total of `mm_kmalloc` before it is cut to 32 bits. -/
def roundTotal (size : Nat) : Nat := (size + 7) / 8 * 8 + itemSizeof

theorem totalSize_eq {size : Nat} (h : roundTotal size < 2 ^ 32) : totalSize size = roundTotal size := by
  unfold totalSize roundTotal itemSizeof at *
  omega

theorem le_roundTotal (size : Nat) : size + itemSizeof ≤ roundTotal size := by
  unfold roundTotal
  omega

theorem roundTotal_mod (size : Nat) : roundTotal size % pageSize ≠ 0 := by
  unfold roundTotal itemSizeof pageSize
  omega

theorem pageRest_eq {total : Nat} (h31 : total < 2 ^ 31) (h0 : total % pageSize ≠ 0)
    (hfit : total % pageSize + itemSizeof ≤ pageSize) :
    pageRest total = pageSize - total % pageSize - itemSizeof := by
  have hrem : (toInt32 total).tmod pageSize = ((total % pageSize : Nat) : Int) := by
    rw [toInt32, if_pos h31]
    rfl
  unfold pageRest
  simp only [hrem]
  rw [if_pos (by omega)]
  unfold pageSize itemSizeof at *
  omega

/-! ## Serving a request from a free item -/

/-- `m'` is `m` with the headers of the new item at `x` and of the free item at `tmp` behind it. -/
structure Placed (m m' : Mem) (x tmp n rest link : Nat) : Prop where
  next : itemNext m' x = tmp
  size : itemSize m' x = n % 2 ^ 32
  used : itemUsed m' x = 1
  restNext : itemNext m' tmp = link
  restSize : itemSize m' tmp = rest
  restUsed : itemUsed m' tmp = 0
  other : ∀ u, u < x ∨ x + itemSizeof ≤ u → u < tmp ∨ tmp + itemSizeof ≤ u → m' u = m u

theorem Placed.sameHeader {m m' : Mem} {x tmp n rest link : Nat} (h : Placed m m' x tmp n rest link)
    {y : Nat} (hx : ClearOf y x) (htmp : ClearOf y tmp) : SameHeader m m' y := by
  intro u hu hu'
  unfold ClearOf at hx htmp
  exact (h.other u (by omega) (by omega)).symm

theorem Placed.chainAt {m m' : Mem} {x tmp n rest link : Nat} (h : Placed m m' x tmp n rest link)
    (hx : x ≠ 0) (htmp : tmp ≠ 0) (hsize : n < 2 ^ 32) {bs : List Item} (hn : ChainAt m' link bs) :
    ChainAt m' x (⟨x, n, true⟩ :: ⟨tmp, rest, false⟩ :: bs) := by
  refine ⟨rfl, hx, h.size.trans (Nat.mod_eq_of_lt hsize), by simp [h.used], ?_⟩
  rw [h.next]
  refine ⟨rfl, htmp, h.restSize, by simp [h.restUsed], ?_⟩
  rw [h.restNext]
  exact hn

theorem placeItem_placed {m m1 : Mem} {x tmp : Nat} (hclear : ClearOf x tmp) (htmp : tmp < 2 ^ 32)
    (h1 : OnlyHeader m m1 tmp) (hu : itemUsed m1 tmp = 0) (size : Nat) :
    Placed m (placeItem m1 x tmp size) x tmp size (itemSize m1 tmp) (itemNext m1 tmp) := by
  have hp : OnlyHeader m1 (placeItem m1 x tmp size) x :=
    ((onlyHeader_setSize _ _ _).trans (onlyHeader_setUsed _ _ _)).trans (onlyHeader_setNext _ _ _)
  have hsame := hp.sameHeader hclear.symm
  refine ⟨?_, by simp [placeItem], by simp [placeItem], hsame.next.symm, hsame.size.symm,
    hsame.used.symm.trans hu, fun u hux hut => (hp u hux).trans (h1 u hut)⟩
  rw [placeItem, itemNext_setNext, Nat.mod_eq_of_lt htmp]

theorem carve_placed {m : Mem} {x tmp : Nat} (hclear : ClearOf x tmp) (htmp : tmp < 2 ^ 32)
    (total size : Nat) :
    Placed m (placeItem (carveRest m x tmp total) x tmp size) x tmp size
      ((itemSize m x + 2 ^ 32 - total) % 2 ^ 32) (itemNext m x) := by
  have h1 : OnlyHeader m (carveRest m x tmp total) tmp :=
    ((onlyHeader_setSize _ _ _).trans (onlyHeader_setUsed _ _ _)).trans (onlyHeader_setNext _ _ _)
  have hm := placeItem_placed hclear htmp h1 (by simp [carveRest]) size
  -- The link of `x` is read after two words of the header at `tmp` are written.
  have hx := ((onlyHeader_setSize m tmp ((itemSize m x + 2 ^ 32 - total) % 2 ^ 32)).trans
    (onlyHeader_setUsed _ tmp 0)).sameHeader hclear
  have hnext : itemNext (carveRest m x tmp total) tmp = itemNext m x := by
    simp only [carveRest, itemNext_setNext, ← hx.next, Nat.mod_eq_of_lt (itemNext_lt m x)]
  have hsize : itemSize (carveRest m x tmp total) tmp = (itemSize m x + 2 ^ 32 - total) % 2 ^ 32 := by
    simp [carveRest]
  rwa [hnext, hsize] at hm

theorem grow_placed {m : Mem} {x tmp : Nat} (hclear : ClearOf x tmp) (htmp : tmp < 2 ^ 32)
    (total size : Nat) :
    Placed m (placeItem (growRest m tmp total) x tmp size) x tmp size (pageRest total % 2 ^ 32) 0 := by
  have h1 : OnlyHeader m (growRest m tmp total) tmp :=
    ((onlyHeader_setSize _ _ _).trans (onlyHeader_setUsed _ _ _)).trans (onlyHeader_setNext _ _ _)
  have hm := placeItem_placed hclear htmp h1 (by simp [growRest]) size
  have hnext : itemNext (growRest m tmp total) tmp = 0 := by simp [growRest]
  have hsize : itemSize (growRest m tmp total) tmp = pageRest total % 2 ^ 32 := by simp [growRest]
  rwa [hnext, hsize] at hm

/-- The two items that replace the free item `b`. -/
def carved (b : Item) (size total : Nat) : List Item :=
  [{ b with size := size, used := true }, { addr := b.addr + total, size := b.size - total, used := false }]

theorem within_carved {lo hi : Nat} {pre post : List Item} {b : Item} {size total : Nat}
    (h : Within lo hi (pre ++ b :: post)) (hs : size + itemSizeof ≤ total) (ht : total ≤ b.size) :
    Within lo hi (pre ++ carved b size total ++ post) := by
  rw [List.append_assoc]
  obtain ⟨mid, h1, h2, h3⟩ := within_append.mp h
  refine within_append.mpr ⟨mid, h1, h2, ?_, h3.mono ?_ (Nat.le_refl _)⟩
  all_goals
    unfold Item.stop itemSizeof at *
    dsimp only
    omega

theorem carve_spec {m : Mem} {a lo hi size total : Nat} {pre post : List Item} {b : Item}
    (hi32 : hi ≤ 2 ^ 32) (h : ChainAt m a (pre ++ b :: post)) (hw : Within lo hi (pre ++ b :: post))
    (hsize : size < 2 ^ 32) (hs : size + itemSizeof ≤ total) (ht : total ≤ b.size) :
    ChainAt (placeItem (carveRest m b.addr (b.addr + total) total) b.addr (b.addr + total) size) a
      (pre ++ carved b size total ++ post) ∧
    ∀ x, x < b.addr ∨ b.stop ≤ x →
      placeItem (carveRest m b.addr (b.addr + total) total) b.addr (b.addr + total) size x = m x := by
  obtain ⟨mid, hw1, hw2, hw3⟩ := within_append.mp hw
  obtain ⟨_, rfl, hb0, hbs, -, hbn⟩ := h.head
  have hstop : b.stop ≤ hi := hw3.le
  have hb : b.stop = b.addr + itemSizeof + b.size := rfl
  have hsep : ClearOf b.addr (b.addr + total) := Or.inl (by omega)
  have hm := carve_placed (m := m) hsep (by unfold itemSizeof at *; omega) total size
  have hrest : (itemSize m b.addr + 2 ^ 32 - total) % 2 ^ 32 = b.size - total := by
    rw [hbs]
    unfold itemSizeof at *
    omega
  rw [hrest] at hm
  generalize placeItem (carveRest m b.addr (b.addr + total) total) b.addr (b.addr + total) size = m' at hm ⊢
  have hout : ∀ x, x < b.addr ∨ b.stop ≤ x → m' x = m x := fun x hx => hm.other x (by omega) (by omega)
  refine ⟨?_, hout⟩
  rw [List.append_assoc, carved, List.cons_append, List.cons_append, List.nil_append]
  refine h.replace (fun d hd x _ _ => (hout x ?_).symm) (hm.chainAt hb0 (by omega) hsize ?_)
  · have := (hw1.mem hd).2
    unfold Item.stop at this
    left; omega
  · refine hbn.congr fun d hd x _ _ => (hout x ?_).symm
    have := (hw3.mem hd).1
    right; omega

/-! ## Growing the heap -/

theorem morecorePages_spec (pages : Nat) :
    ∀ h : ProcessHeap, h.top + pages * pageSize < 2 ^ 32 →
      (morecorePages pages h).top = h.top + pages * pageSize ∧
        ∀ x, x < h.top ∨ h.top + pages * pageSize ≤ x → (morecorePages pages h).mem x = h.mem x := by
  induction pages with
  | zero => intro h _; simp [morecorePages]
  | succ pages ih =>
    intro h hlt
    rw [Nat.succ_mul] at hlt ⊢
    have htop : (h.top + pageSize) % 2 ^ 32 = h.top + pageSize := by
      apply Nat.mod_eq_of_lt
      omega
    obtain ⟨h1, h2⟩ := ih { mem := fill h.mem h.top pageSize 0, top := (h.top + pageSize) % 2 ^ 32 }
      (by dsimp only; omega)
    rw [morecorePages]
    refine ⟨by rw [h1]; dsimp only; omega, fun x hx => ?_⟩
    rw [h2 x (by dsimp only; omega)]
    exact fill_other (by omega)

/-- Where the pages for `total` bytes end, with no wrapping. -/
def growTop (h : ProcessHeap) (total : Nat) : Nat := prevTop h + (total / pageSize + 1) * pageSize

/-- The two items of the pages added at `a`. -/
def grownItems (a size total : Nat) : List Item :=
  [{ addr := a, size := size, used := true },
   { addr := a + total, size := pageSize - total % pageSize - itemSizeof, used := false }]

theorem within_grownItems {h : ProcessHeap} {size total : Nat} (hs : size + itemSizeof ≤ total)
    (hfit : total % pageSize + itemSizeof ≤ pageSize) :
    Within (prevTop h) (growTop h total) (grownItems (prevTop h) size total) := by
  refine ⟨Nat.le_refl _, ?_, ?_⟩
  · unfold Item.stop
    dsimp only
    omega
  · have := Nat.div_add_mod total pageSize
    have := Nat.mul_comm pageSize (total / pageSize)
    unfold Within Item.stop growTop
    rw [Nat.succ_mul]
    dsimp only
    omega

theorem heapBase_le_prevTop {h : ProcessHeap} (htop : h.top = 0 ∨ heapBase ≤ h.top) :
    heapBase ≤ prevTop h := by
  unfold prevTop
  split <;> omega

theorem grow_spec {h : ProcessHeap} {size total : Nat} (htop : h.top = 0 ∨ heapBase ≤ h.top)
    (hlt : growTop h total < 2 ^ 32) (hs : size + itemSizeof ≤ total)
    (h0 : total % pageSize ≠ 0) (hfit : total % pageSize + itemSizeof ≤ pageSize) :
    let h' := (mmMorecore h total).1
    let m' := placeItem (growRest h'.mem (prevTop h + total) total) (prevTop h) (prevTop h + total) size
    h'.top = growTop h total ∧ ChainAt m' (prevTop h) (grownItems (prevTop h) size total) ∧
      ∀ x, x < prevTop h → m' x = h.mem x := by
  intro h' m'
  have hbase := heapBase_le_prevTop htop
  have htotal : total < 2 ^ 31 ∧ prevTop h + total < growTop h total := by
    unfold growTop heapBase pageSize at *
    omega
  obtain ⟨h1, h2⟩ := morecorePages_spec (total / pageSize + 1) { h with top := prevTop h } hlt
  have hm := grow_placed (m := h'.mem) (show ClearOf (prevTop h) (prevTop h + total) from Or.inl (by omega))
    (by omega) total size
  have hrest : pageRest total % 2 ^ 32 = pageSize - total % pageSize - itemSizeof := by
    rw [pageRest_eq htotal.1 h0 hfit]
    apply Nat.mod_eq_of_lt
    unfold pageSize
    omega
  rw [hrest] at hm
  unfold heapBase at hbase
  refine ⟨h1, hm.chainAt (by omega) (by omega) (by omega) rfl, fun x hx => ?_⟩
  exact (hm.other x (Or.inl hx) (Or.inl (by omega))).trans (h2 x (Or.inl hx))

/-! ## `mm_kmalloc` -/

theorem mmKmalloc_carve {h : ProcessHeap} {lo hi size : Nat} {bs : List Item} {b : Item}
    (hi32 : hi ≤ 2 ^ 32) (hch : ChainAt h.mem heapBase bs) (hw : Within lo hi bs) (htop : h.top ≠ 0)
    (hsize : 0 < size) (hround : roundTotal size < 2 ^ 32)
    (hfind : bs.find? (fits (roundTotal size)) = some b) :
    ∃ pre post m', bs = pre ++ b :: post ∧ roundTotal size ≤ b.size ∧ b.used = false ∧
      mmKmalloc h size = some ({ h with mem := m' }, b.addr + itemSizeof) ∧
      ChainAt m' heapBase (pre ++ carved b size (roundTotal size) ++ post) ∧
      ∀ x, x < b.addr ∨ b.stop ≤ x → m' x = h.mem x := by
  have hb := List.find?_some hfind
  simp only [fits, Bool.and_eq_true, Bool.not_eq_true', decide_eq_true_eq] at hb
  obtain ⟨pre, post, rfl⟩ := List.append_of_mem (List.mem_of_find?_eq_some hfind)
  have hle := le_roundTotal size
  have hlen := hw.length
  have hfit : firstFit h.mem (roundTotal size) walkFuel heapBase = _ :=
    firstFit_spec hch walkFuel (by unfold itemSizeof walkFuel at *; omega)
  rw [hfind] at hfit
  obtain ⟨_, rfl, hb0, -⟩ := hch.head
  have hstop := (hw.mem (b := b) (by simp)).2
  have hmod : (b.addr + roundTotal size) % 2 ^ 32 = b.addr + roundTotal size := by
    apply Nat.mod_eq_of_lt
    unfold Item.stop itemSizeof at *
    omega
  obtain ⟨h1, h2⟩ := carve_spec hi32 hch hw (show size < 2 ^ 32 by omega) hle hb.2
  refine ⟨pre, post, _, rfl, hb.2, hb.1, ?_, h1, h2⟩
  rw [mmKmalloc, if_neg (by omega), totalSize_eq hround, searchFit, if_pos htop, hfit]
  simp only [Option.elim_some, Option.bind_some, ne_eq, hb0, not_false_eq_true, if_true, hmod]
  rw [Nat.mod_eq_of_lt (by unfold Item.stop itemSizeof at *; omega)]

theorem mmKmalloc_grow {h : ProcessHeap} {size : Nat} (htop : h.top = 0 ∨ heapBase ≤ h.top)
    (hsize : 0 < size) (hsearch : searchFit h (roundTotal size) = some 0)
    (hlt : growTop h (roundTotal size) < 2 ^ 32)
    (hfit : roundTotal size % pageSize + itemSizeof ≤ pageSize) :
    ∃ m', mmKmalloc h size =
        some ({ mem := m', top := growTop h (roundTotal size) }, prevTop h + itemSizeof) ∧
      ChainAt m' (prevTop h) (grownItems (prevTop h) size (roundTotal size)) ∧
      ∀ x, x < prevTop h → m' x = h.mem x := by
  have hbase := heapBase_le_prevTop htop
  have hle := le_roundTotal size
  obtain ⟨h1, h2, h3⟩ := grow_spec htop hlt hle (roundTotal_mod size) hfit
  refine ⟨_, ?_, h2, h3⟩
  have hround : prevTop h + roundTotal size < 2 ^ 32 := by
    unfold growTop heapBase pageSize at *
    omega
  rw [mmKmalloc, if_neg (by omega), totalSize_eq (by omega), hsearch]
  simp only [Option.bind_some, ne_eq, not_true_eq_false, if_false]
  rw [show (mmMorecore h (roundTotal size)).2 = prevTop h from rfl,
    if_neg (by unfold heapBase at hbase; omega), Nat.mod_eq_of_lt hround,
    Nat.mod_eq_of_lt (by unfold itemSizeof at *; omega), ← h1]

/-! ## `mm_kfree` -/

theorem itemOf_eq {a : Nat} (h : a + itemSizeof < 2 ^ 32) : itemOf (a + itemSizeof) = a := by
  unfold itemOf
  omega

/-- The list with the item at `a` set free. -/
def freeAt (a : Nat) (bs : List Item) : List Item :=
  bs.map fun b => if b.addr = a then { b with used := false } else b

theorem within_freeAt {lo hi a : Nat} {bs : List Item} (h : Within lo hi bs) :
    Within lo hi (freeAt a bs) := by
  induction bs generalizing lo with
  | nil => exact h
  | cons b bs ih =>
    rw [freeAt, List.map_cons]
    split
    · exact ⟨h.1, ih h.2⟩
    · exact ⟨h.1, ih h.2⟩

theorem chainAt_freeAt {m : Mem} {a lo hi : Nat} {bs : List Item} {b : Item}
    (h : ChainAt m a bs) (hw : Within lo hi bs) (hb : b ∈ bs) :
    ChainAt (setUsed m b.addr 0) a (freeAt b.addr bs) := by
  induction bs generalizing a lo with
  | nil => simp at hb
  | cons c bs ih =>
    obtain ⟨rfl, h0, hs, hu, hn⟩ := h
    rw [freeAt, List.map_cons, ← freeAt]
    rcases List.mem_cons.mp hb with rfl | hb'
    · -- No later item lies at this address.
      have hrest : freeAt b.addr bs = bs := by
        refine (List.map_congr_left fun d hd => ?_).trans (List.map_id _)
        rw [if_neg, id]
        have := (hw.2.mem hd).1
        unfold Item.stop itemSizeof at this
        omega
      rw [if_pos rfl, hrest]
      refine ⟨rfl, h0, by simpa using hs, by simp, ?_⟩
      rw [itemNext_setUsed]
      refine hn.congr fun d hd => (onlyHeader_setUsed m b.addr 0).agree (Or.inr ?_)
      have := (hw.2.mem hd).1
      unfold Item.stop at this
      omega
    · have hsep : c.addr + itemSizeof ≤ b.addr := by
        have := (hw.2.mem hb').1
        unfold Item.stop at this
        omega
      have hc : SameHeader m (setUsed m b.addr 0) c.addr :=
        (onlyHeader_setUsed m b.addr 0).agree (Or.inl hsep)
      rw [if_neg (by unfold itemSizeof at hsep; omega)]
      refine ⟨rfl, h0, SameHeader.size hc ▸ hs, SameHeader.used hc ▸ hu, ?_⟩
      rw [← SameHeader.next hc]
      exact ih hn hw.2 hb'

theorem mmKfree_item {h : ProcessHeap} {lo hi : Nat} {bs : List Item} {b : Item} (hi32 : hi ≤ 2 ^ 32)
    (hch : ChainAt h.mem heapBase bs) (hw : Within lo hi bs) (hb : b ∈ bs)
    (hp : b.addr + itemSizeof < 2 ^ 32) :
    mmKfree h (b.addr + itemSizeof) =
      (coalesceFrom walkFuel heapBase (setUsed h.mem b.addr 0)).map fun m => { h with mem := m } := by
  have hlen := hw.length
  have hfuel : bs.length < walkFuel := by unfold itemSizeof walkFuel at *; omega
  have hfound : findItem h.mem b.addr walkFuel heapBase = _ :=
    findItem_links hch.links walkFuel (by simpa using hfuel)
  rw [decide_eq_true (List.mem_map_of_mem hb)] at hfound
  rw [mmKfree, if_neg (by unfold itemSizeof; omega), itemOf_eq hp, hfound, Option.bind_some, if_pos rfl]

theorem mmKfree_found {h : ProcessHeap} {lo hi : Nat} {bs : List Item} {b : Item} (hi32 : hi ≤ 2 ^ 32)
    (hch : ChainAt h.mem heapBase bs) (hw : Within lo hi bs) (hb : b ∈ bs)
    (hp : b.addr + itemSizeof < 2 ^ 32) :
    ∃ m', mmKfree h (b.addr + itemSizeof) = some { h with mem := m' } ∧
      ChainAt m' heapBase (coalesce (freeAt b.addr bs)) ∧ SameOutside h.mem m' bs := by
  have hlen := hw.length
  have hlen' : (freeAt b.addr bs).length = bs.length := by simp [freeAt]
  have hfuel : bs.length < walkFuel := by unfold itemSizeof walkFuel at *; omega
  obtain ⟨m', h1, h2, h3⟩ := coalesceFrom_spec hi32 walkFuel (chainAt_freeAt hch hw hb)
    (within_freeAt hw) (by omega) (by omega)
  refine ⟨m', ?_, h2, ?_⟩
  · rw [mmKfree_item hi32 hch hw hb hp, h1]
    rfl
  · intro x hx
    have hfree : ∀ c ∈ freeAt b.addr bs, x < c.addr ∨ c.addr + itemSizeof ≤ x := by
      intro c hc
      obtain ⟨d, hd, rfl⟩ := List.mem_map.mp hc
      have := hx d hd
      split <;> exact this
    rw [h3 x hfree]
    exact onlyHeader_setUsed _ _ _ x (hx b hb)

theorem mmKfree_notFound {h : ProcessHeap} {lo hi p : Nat} {bs : List Item} (hi32 : hi ≤ 2 ^ 32)
    (hch : ChainAt h.mem heapBase bs) (hw : Within lo hi bs) (hp : ∀ b ∈ bs, b.addr ≠ itemOf p) :
    mmKfree h p = some h := by
  by_cases hp0 : p = 0
  · exact if_pos hp0
  · have hlen := hw.length
    have hfuel : bs.length < walkFuel := by unfold itemSizeof walkFuel at *; omega
    have hfound : findItem h.mem (itemOf p) walkFuel heapBase = _ :=
      findItem_links hch.links walkFuel (by simpa using hfuel)
    have hnot : itemOf p ∉ bs.map (·.addr) := by
      rw [List.mem_map]
      rintro ⟨b, hb, heq⟩
      exact hp b hb heq
    rw [decide_eq_false hnot] at hfound
    rw [mmKfree, if_neg hp0, hfound, Option.bind_some, if_neg Bool.false_ne_true]

theorem mmKfree_missing {h : ProcessHeap} {lo hi a : Nat} {bs : List Item} (hi32 : hi ≤ 2 ^ 32)
    (hch : ChainAt h.mem heapBase bs) (hw : Within lo hi bs) (hb : ∀ b ∈ bs, b.addr ≠ a)
    (hp : a + itemSizeof < 2 ^ 32) : mmKfree h (a + itemSizeof) = some h :=
  mmKfree_notFound hi32 hch hw (by rwa [itemOf_eq hp])

end SystemProjects.Heap
