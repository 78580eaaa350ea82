import SystemProjects.Heap.Safety
import SystemProjects.Heap.Threads

/-!
# What the heap's calls touch

The sections of `mm_kmalloc` and `mm_kfree` read and write headers and fresh pages only, so they are apart
from what the clients write into their blocks meanwhile.
-/

open SystemProjects.Memory SystemProjects.Run SystemProjects.Threads

namespace SystemProjects.Heap

variable {ρ τ : Type} {R : Nat × Byte → Prop} {h : ProcessHeap} {m m' : Mem} {xs : List Nat} {x tmp n : Nat}

/-! ## Accesses apart from the writes -/

/-- No write changes the header at `x`. -/
def Spared (R : Nat × Byte → Prop) (x : Nat) : Prop := ∀ u, R u → u.1 < x ∨ x + itemSizeof ≤ u.1

abbrev ApartFrom (R : Nat × Byte → Prop) (c : HeapCode ρ) (h : ProcessHeap) : Prop :=
    c.Apart heapMonitor.write R h

theorem apart_bind_loadMem {f : Mem → ρ} {k : ρ → HeapCode τ}
    (hf : ∀ u, R u → ∀ m, f (fill m u.1 1 u.2) = f m)
    (hk : ApartFrom R (k (f h.mem)) h) : ApartFrom R ((loadMem f).bind k) h := by
  refine Code.Apart.bind (Code.apart_load fun u hu x => hf u hu x.mem) ?_
  rintro s' r hrun
  obtain ⟨rfl, rfl⟩ := Prod.mk.inj (Option.some.inj hrun)
  exact hk

theorem apart_storeMem {f : Mem → Mem} (hf : ∀ u, R u → ∀ m, f (fill m u.1 1 u.2) = fill (f m) u.1 1 u.2) :
    ApartFrom R (storeMem f) h := by
  apply Code.apart_store
  intro u hu x
  simp only [heapMonitor, hf u hu]

theorem apart_bind_storeMem {f : Mem → Mem} {k : Unit → HeapCode τ}
    (hf : ∀ u, R u → ∀ m, f (fill m u.1 1 u.2) = fill (f m) u.1 1 u.2)
    (hk : ApartFrom R (k ()) { h with mem := f h.mem }) : ApartFrom R ((storeMem f).bind k) h := by
  refine Code.Apart.bind (apart_storeMem hf) ?_
  rintro s' r hrun
  obtain ⟨rfl, rfl⟩ := Prod.mk.inj (Option.some.inj hrun)
  exact hk

theorem apart_bind_loadTop {k : Nat → HeapCode τ} (hk : ApartFrom R (k h.top) h) :
    ApartFrom R (loadTop.bind k) h := by
  refine Code.Apart.bind (Code.apart_load fun u _ x => rfl) ?_
  rintro s' r hrun
  obtain ⟨rfl, rfl⟩ := Prod.mk.inj (Option.some.inj hrun)
  exact hk

theorem apart_bind_storeTop {top : Nat} {k : Unit → HeapCode τ}
    (hk : ApartFrom R (k ()) { h with top := top }) :
    ApartFrom R ((storeTop top).bind k) h := by
  refine Code.Apart.bind (Code.apart_store fun u _ x => rfl) ?_
  rintro s' r hrun
  obtain ⟨rfl, rfl⟩ := Prod.mk.inj (Option.some.inj hrun)
  exact hk

theorem apart_of_none (hR : ∀ u, ¬ R u) (c : HeapCode ρ) : ∀ h, ApartFrom R c h := by
  induction c with
  | ret r => intro h; trivial
  | act upd next ih => intro h; exact ⟨fun u hu => absurd hu (hR u), ih h _⟩
  | stuck => intro h; trivial

/-! ## Headers -/

theorem sameHeader_fill {u : Nat × Byte} (hx : Spared R x) (hu : R u) (m : Mem) :
    SameHeader (fill m u.1 1 u.2) m x := by
  intro y hy1 hy2
  apply fill_other
  have := hx u hu
  omega

theorem Spared.next (hx : Spared R x) (u : Nat × Byte) (hu : R u) (m : Mem) :
    itemNext (fill m u.1 1 u.2) x = itemNext m x := (sameHeader_fill hx hu m).next

theorem Spared.size (hx : Spared R x) (u : Nat × Byte) (hu : R u) (m : Mem) :
    itemSize (fill m u.1 1 u.2) x = itemSize m x := (sameHeader_fill hx hu m).size

theorem Spared.used (hx : Spared R x) (u : Nat × Byte) (hu : R u) (m : Mem) :
    itemUsed (fill m u.1 1 u.2) x = itemUsed m x := (sameHeader_fill hx hu m).used

theorem store32_fill {a v y : Nat} {b : Byte} (hy : y < a ∨ a + 4 ≤ y) (m : Mem) :
    store32 (fill m y 1 b) a v = fill (store32 m a v) y 1 b := by
  funext z
  by_cases hz : z = y
  · subst hz
    rw [store32_other hy, fill, fill, if_pos (by omega), if_pos (by omega)]
  · rw [fill_other (by omega)]
    unfold store32
    rw [fill_other (by omega)]

theorem Spared.setNext (hx : Spared R x) (v : Nat) (u : Nat × Byte) (hu : R u) (m : Mem) :
    setNext (fill m u.1 1 u.2) x v = fill (setNext m x v) u.1 1 u.2 := by
  apply store32_fill
  have := hx u hu
  unfold itemSizeof at this
  omega

theorem Spared.setSize (hx : Spared R x) (v : Nat) (u : Nat × Byte) (hu : R u) (m : Mem) :
    setSize (fill m u.1 1 u.2) x v = fill (setSize m x v) u.1 1 u.2 := by
  apply store32_fill
  have := hx u hu
  unfold itemSizeof at this
  omega

theorem Spared.setUsed (hx : Spared R x) (v : Nat) (u : Nat × Byte) (hu : R u) (m : Mem) :
    setUsed (fill m u.1 1 u.2) x v = fill (setUsed m x v) u.1 1 u.2 := by
  apply store32_fill
  have := hx u hu
  unfold itemSizeof at this
  omega

/-! ## The headers of the chain -/

/-- The headers at `xs` share no byte, and no write changes one. -/
structure Headers (R : Nat × Byte → Prop) (xs : List Nat) : Prop where
  clear : ∀ x ∈ xs, ∀ y ∈ xs, x = y ∨ ClearOf x y
  spared : ∀ x ∈ xs, Spared R x

/-- The links lead from `xs` into `xs`. -/
def Closed (m : Mem) (xs : List Nat) : Prop := ∀ x ∈ xs, itemNext m x = 0 ∨ itemNext m x ∈ xs

theorem Closed.of_header (hc : Closed m xs) (hh : Headers R xs) (hx : x ∈ xs) (hm : OnlyHeader m m' x)
    (hnext : itemNext m' x = 0 ∨ itemNext m' x ∈ xs) : Closed m' xs := by
  intro y hy
  rcases hh.clear y hy x hx with rfl | hclear
  · exact hnext
  · rw [← (hm.sameHeader hclear).next]
    exact hc y hy

theorem Closed.setSize (hc : Closed m xs) (hh : Headers R xs) (hx : x ∈ xs) (v : Nat) :
    Closed (setSize m x v) xs :=
  hc.of_header hh hx (onlyHeader_setSize m x v) (by rw [itemNext_setSize]; exact hc x hx)

theorem Closed.setUsed (hc : Closed m xs) (hh : Headers R xs) (hx : x ∈ xs) (v : Nat) :
    Closed (setUsed m x v) xs :=
  hc.of_header hh hx (onlyHeader_setUsed m x v) (by rw [itemNext_setUsed]; exact hc x hx)

theorem Closed.setNext {v : Nat} (hc : Closed m xs) (hh : Headers R xs) (hx : x ∈ xs) (hv : v < 2 ^ 32)
    (hnext : v = 0 ∨ v ∈ xs) : Closed (setNext m x v) xs :=
  hc.of_header hh hx (onlyHeader_setNext m x v) (by rw [itemNext_setNext, Nat.mod_eq_of_lt hv]; exact hnext)

def mergeOnce (tmp : Nat) (m : Mem) : Mem :=
  let m1 := setSize m tmp ((itemSize m tmp + (itemSizeof + itemSize m (itemNext m tmp))) % 2 ^ 32)
  setNext m1 tmp (itemNext m1 (itemNext m1 tmp))

theorem mergeNext_succ (tmp fuel : Nat) (m : Mem) : mergeNext tmp (fuel + 1) m =
    if itemUsed m tmp = 0 ∧ itemNext m tmp ≠ 0 ∧ itemUsed m (itemNext m tmp) = 0 then
      mergeNext tmp fuel (mergeOnce tmp m)
    else some m := rfl

theorem Closed.mergeOnce (hc : Closed m xs) (hh : Headers R xs) (hx : tmp ∈ xs) (hnext : itemNext m tmp ≠ 0) :
    Closed (mergeOnce tmp m) xs := by
  have h1 := hc.setSize hh hx ((itemSize m tmp + (itemSizeof + itemSize m (itemNext m tmp))) % 2 ^ 32)
  refine h1.setNext hh hx (itemNext_lt _ _) ?_
  apply h1
  rw [itemNext_setSize]
  exact (hc tmp hx).resolve_left hnext

theorem Closed.mergeNext (hh : Headers R xs) (hx : tmp ∈ xs) : ∀ {fuel : Nat} {m m' : Mem}, Closed m xs →
    mergeNext tmp fuel m = some m' → Closed m' xs := by
  intro fuel
  induction fuel with
  | zero => intro m m' _ h; cases h
  | succ fuel ih =>
    intro m m' hc h
    rw [mergeNext_succ] at h
    split at h
    case isTrue hboth => exact ih (hc.mergeOnce hh hx hboth.2.1) h
    case isFalse => exact Option.some.inj h ▸ hc

theorem findItem_mem {item : Nat} (hc : Closed m xs) : ∀ {fuel tmp : Nat}, (tmp = 0 ∨ tmp ∈ xs) →
    findItem m item fuel tmp = some true → item ∈ xs := by
  intro fuel
  induction fuel with
  | zero => intro tmp _ h; cases h
  | succ fuel ih =>
    intro tmp htmp h
    rw [findItem] at h
    split at h
    · cases h
    case isFalse h0 =>
      have hx := htmp.resolve_left h0
      split at h
      case isTrue hitem => exact hitem ▸ hx
      case isFalse => exact ih (hc tmp hx) h

/-! ## The sections -/

theorem findItemCode_apart {item : Nat} (hc : Closed h.mem xs) (hh : Headers R xs) : ∀ {fuel tmp : Nat},
    (tmp = 0 ∨ tmp ∈ xs) → ApartFrom R (findItemCode item fuel tmp) h := by
  intro fuel
  induction fuel with
  | zero => intro tmp _; trivial
  | succ fuel ih =>
    intro tmp htmp
    rw [findItemCode]
    split
    · trivial
    case isFalse h0 =>
      have hx := htmp.resolve_left h0
      split
      · trivial
      · exact apart_bind_loadMem (hh.spared tmp hx).next (ih (hc tmp hx))

theorem loadOfNext_apart {f : Mem → Nat → Nat} (htmp : Spared R tmp)
    (hf : ∀ u, R u → ∀ m, f (fill m u.1 1 u.2) (itemNext h.mem tmp) = f m (itemNext h.mem tmp)) :
    ApartFrom R (loadOfNext f tmp) h :=
  apart_bind_loadMem htmp.next (Code.apart_load fun u hu x => hf u hu x.mem)

theorem mergeTest_apart (hc : Closed h.mem xs) (hh : Headers R xs) (hx : tmp ∈ xs) :
    ApartFrom R (mergeTest tmp) h := by
  have hs := hh.spared tmp hx
  apply apart_bind_loadMem hs.used
  split
  · trivial
  apply apart_bind_loadMem hs.next
  split
  · trivial
  case isFalse hnext =>
    have hs' := hh.spared _ ((hc tmp hx).resolve_left hnext)
    exact Code.Apart.bind (loadOfNext_apart hs hs'.used) fun _ _ _ => trivial

theorem mergeNextCode_apart (hh : Headers R xs) (hx : tmp ∈ xs) : ∀ {fuel : Nat} {h : ProcessHeap},
    Closed h.mem xs →
    ApartFrom R (mergeNextCode tmp fuel) h := by
  have hs := hh.spared tmp hx
  intro fuel
  induction fuel with
  | zero => intro h _; trivial
  | succ fuel ih =>
    intro h hc
    rw [mergeNextCode]
    apply Code.Apart.bind (mergeTest_apart hc hh hx)
    intro h' both hrun
    rw [mergeTest_run] at hrun
    obtain ⟨rfl, rfl⟩ := Prod.mk.inj (Option.some.inj hrun)
    split
    case isFalse => trivial
    case isTrue hboth =>
      obtain ⟨-, hnext, -⟩ := of_decide_eq_true hboth
      have hs' := hh.spared _ ((hc tmp hx).resolve_left hnext)
      apply apart_bind_loadMem hs.size
      apply Code.Apart.bind (loadOfNext_apart hs hs'.size)
      intro h' size' hrun
      obtain ⟨rfl, rfl⟩ := Prod.mk.inj (Option.some.inj hrun)
      apply apart_bind_storeMem (hs.setSize _)
      apply Code.Apart.bind (loadOfNext_apart hs (by rw [itemNext_setSize]; exact hs'.next))
      intro h' next hrun
      obtain ⟨rfl, rfl⟩ := Prod.mk.inj (Option.some.inj hrun)
      exact apart_bind_storeMem (hs.setNext _) (ih (hc.mergeOnce hh hx hnext))

theorem coalesceFromCode_apart (hh : Headers R xs) : ∀ {fuel tmp : Nat} {h : ProcessHeap}, Closed h.mem xs →
    (tmp = 0 ∨ tmp ∈ xs) → ApartFrom R (coalesceFromCode fuel tmp) h := by
  intro fuel
  induction fuel with
  | zero => intro tmp h _ _; trivial
  | succ fuel ih =>
    intro tmp h hc htmp
    rw [coalesceFromCode]
    split
    · trivial
    case isFalse h0 =>
      have hx := htmp.resolve_left h0
      apply Code.Apart.bind (mergeNextCode_apart hh hx hc)
      intro h' r hrun
      rw [mergeNextCode_run] at hrun
      obtain ⟨m', hm', heq⟩ := Option.map_eq_some_iff.mp hrun
      obtain ⟨rfl, -⟩ := Prod.mk.inj heq
      have hc' := hc.mergeNext hh hx hm'
      exact apart_bind_loadMem (hh.spared tmp hx).next (ih hc' (hc' tmp hx))

theorem kfreeBody_apart (hc : Closed h.mem xs) (hh : Headers R xs) (hbase : heapBase ∈ xs) (address : Nat) :
    ApartFrom R (kfreeBody address) h := by
  rw [kfreeBody]
  generalize walkFuel = fuel
  apply Code.Apart.bind (findItemCode_apart hc hh (.inr hbase))
  intro h' found hrun
  rw [findItemCode_run] at hrun
  obtain ⟨found', hfound, heq⟩ := Option.map_eq_some_iff.mp hrun
  obtain ⟨rfl, rfl⟩ := Prod.mk.inj heq
  split
  case isFalse => trivial
  case isTrue htrue =>
    have hitem := findItem_mem hc (.inr hbase) (htrue ▸ hfound)
    apply apart_bind_storeMem ((hh.spared _ hitem).setUsed 0)
    apply Code.Apart.bind (coalesceFromCode_apart hh (hc.setUsed hh hitem 0) (.inr hbase))
    intro _ _ _
    trivial

theorem firstFitCode_apart {total : Nat} (hc : Closed h.mem xs) (hh : Headers R xs) : ∀ {fuel item : Nat},
    (item = 0 ∨ item ∈ xs) → ApartFrom R (firstFitCode total fuel item) h := by
  intro fuel
  induction fuel with
  | zero => intro item _; trivial
  | succ fuel ih =>
    intro item hitem
    rw [firstFitCode]
    split
    · trivial
    case isFalse h0 =>
      have hx := hitem.resolve_left h0
      have hs := hh.spared item hx
      have hrest : ApartFrom R ((loadMem (itemNext · item)).bind (firstFitCode total fuel)) h :=
        apart_bind_loadMem hs.next (ih (hc item hx))
      apply apart_bind_loadMem hs.used
      split
      · exact hrest
      apply apart_bind_loadMem hs.size
      split
      · trivial
      · exact hrest

theorem searchFitCode_apart (hc : Closed h.mem xs) (hh : Headers R xs) (hbase : heapBase ∈ xs) (total : Nat) :
    ApartFrom R (searchFitCode total) h := by
  apply apart_bind_loadTop
  split
  · exact firstFitCode_apart hc hh (.inr hbase)
  · trivial

theorem carveRestCode_apart {newItem total : Nat} (hn : Spared R newItem) (ht : Spared R tmp) :
    ApartFrom R (carveRestCode newItem tmp total) h := by
  apply apart_bind_loadMem hn.size
  apply apart_bind_storeMem (ht.setSize _)
  apply apart_bind_storeMem (ht.setUsed _)
  apply apart_bind_loadMem hn.next
  exact apart_storeMem (ht.setNext _)

theorem growRestCode_apart {total : Nat} (ht : Spared R tmp) : ApartFrom R (growRestCode tmp total) h := by
  apply apart_bind_storeMem (ht.setSize _)
  apply apart_bind_storeMem (ht.setUsed _)
  exact apart_storeMem (ht.setNext _)

theorem placeItemCode_apart {newItem : Nat} (hn : Spared R newItem) :
    ApartFrom R (placeItemCode newItem tmp n) h := by
  apply apart_bind_storeMem (hn.setSize _)
  apply apart_bind_storeMem (hn.setUsed _)
  apply apart_bind_storeMem (hn.setNext _)
  trivial

theorem memsetCode_apart {lo : Nat} (hR : ∀ u, R u → u.1 < lo) : ∀ (n : Nat) {a : Nat}
    {h : ProcessHeap}, lo ≤ a →
    ApartFrom R (memsetCode a n) h := by
  intro n
  induction n with
  | zero => intro a h _; trivial
  | succ n ih =>
    intro a h ha
    refine apart_bind_storeMem (fun u hu m => ?_) (ih (by omega))
    have := hR u hu
    funext y
    unfold fill
    split
    · rw [if_neg (by omega)]
    · rfl

theorem morecorePagesCode_apart {lo : Nat} (hR : ∀ u, R u → u.1 < lo) (pages : Nat) :
    ∀ {h : ProcessHeap}, lo ≤ h.top →
    h.top + pages * pageSize < 2 ^ 32 → ApartFrom R (morecorePagesCode pages) h := by
  induction pages with
  | zero => intro h _ _; trivial
  | succ pages ih =>
    intro h hlo hlt
    rw [Nat.succ_mul] at hlt
    apply apart_bind_loadTop
    apply Code.Apart.bind (memsetCode_apart hR pageSize hlo)
    intro h' r hrun
    rw [memsetCode_run] at hrun
    obtain ⟨rfl, -⟩ := Prod.mk.inj (Option.some.inj hrun)
    apply apart_bind_loadTop
    apply apart_bind_storeTop
    have htop : (h.top + pageSize) % 2 ^ 32 = h.top + pageSize := by
      apply Nat.mod_eq_of_lt
      omega
    apply ih
    · show lo ≤ (h.top + pageSize) % 2 ^ 32
      omega
    · show (h.top + pageSize) % 2 ^ 32 + pages * pageSize < 2 ^ 32
      omega

theorem morecoreCode_apart (hR : ∀ u, R u → u.1 < prevTop h)
    (hlt : prevTop h + (n / pageSize + 1) * pageSize < 2 ^ 32) : ApartFrom R (morecoreCode n) h := by
  have hpages : ApartFrom R (morecorePagesCode (n / pageSize + 1)) { h with top := prevTop h } :=
    morecorePagesCode_apart hR _ (Nat.le_refl _) hlt
  apply apart_bind_loadTop
  unfold prevTop at hpages
  split
  case isTrue h0 =>
    rw [if_pos h0] at hpages
    apply apart_bind_storeTop
    apply apart_bind_loadTop
    exact Code.Apart.bind hpages fun _ _ _ => trivial
  case isFalse h0 =>
    rw [if_neg h0] at hpages
    apply Code.Apart.bind (c := .ret ()) trivial
    intro h' r hrun
    obtain ⟨rfl, -⟩ := Prod.mk.inj (Option.some.inj hrun)
    apply apart_bind_loadTop
    exact Code.Apart.bind hpages fun _ _ _ => trivial

/-! ## In a heap that is laid out -/

def LiveByte (w : World) (u : Nat × Byte) : Prop := ∃ p n, (p, n) ∈ w.live ∧ p ≤ u.1 ∧ u.1 < p + n

variable {w : World} {chain : List Item} {lost : List (List Item)} {mid size : Nat}

theorem no_liveByte (hl : w.live = []) (hR : ∀ u, R u → LiveByte w u) (u : Nat × Byte) : ¬ R u := by
  intro hu
  obtain ⟨p, n, hp, -⟩ := hR u hu
  simp [hl] at hp

theorem Layout.liveByte {u : Nat × Byte} (h : Layout w chain lost mid) (hu : LiveByte w u) :
    ∃ b ∈ chain ++ lost.flatten, b.used = true ∧ b.addr + itemSizeof ≤ u.1 ∧ u.1 < b.stop := by
  obtain ⟨p, n, hp, h1, h2⟩ := hu
  obtain ⟨b, hb, hbu, rfl, rfl⟩ := h.live p n hp
  exact ⟨b, hb, hbu, h1, h2⟩

theorem Layout.spared (h : Layout w chain lost mid) (hR : ∀ u, R u → LiveByte w u) {c : Item}
    (hc : c ∈ chain) :
    Spared R c.addr := by
  intro u hu
  obtain ⟨b, hb, -, h1, h2⟩ := h.liveByte (hR u hu)
  rcases h.within.apart hb (List.mem_append_left _ hc) with rfl | hbc | hcb
  · exact .inr h1
  · exact .inl (Nat.lt_of_lt_of_le h2 hbc)
  · unfold Item.stop at hcb
    omega

theorem Layout.headers (h : Layout w chain lost mid) (hR : ∀ u, R u → LiveByte w u) :
    Headers R (chain.map (·.addr)) where
  clear x hx y hy := by
    obtain ⟨b, hb, rfl⟩ := List.mem_map.mp hx
    obtain ⟨c, hc, rfl⟩ := List.mem_map.mp hy
    rcases h.chainIn.apart hb hc with rfl | hbc | hcb
    · exact .inl rfl
    all_goals
      unfold ClearOf Item.stop at *
      omega
  spared x hx := by
    obtain ⟨b, hb, rfl⟩ := List.mem_map.mp hx
    exact h.spared hR hb

theorem closed_of_links {a : Nat} (h : Lists.Links (itemNext m) 0 a xs) : Closed m xs := by
  induction xs generalizing a with
  | nil => intro x hx; cases hx
  | cons y ys ih =>
    obtain ⟨rfl, -, h⟩ := h
    intro x hx
    rcases List.mem_cons.mp hx with rfl | hx
    · cases ys with
      | nil => exact .inl h
      | cons z zs => exact .inr (by rw [h.1]; simp)
    · rcases ih h x hx with h0 | hmem
      · exact .inl h0
      · exact .inr (List.mem_cons_of_mem _ hmem)

theorem Layout.closed (h : Layout w chain lost mid) : Closed w.heap.mem (chain.map (·.addr)) :=
  closed_of_links h.chainAt.links

theorem Layout.base_mem (h : Layout w chain lost mid) : heapBase ∈ chain.map (·.addr) := by
  have hch := h.chainAt
  cases chain with
  | nil => cases (show heapBase = 0 from hch)
  | cons b bs => exact hch.1 ▸ List.mem_cons_self

/-- The header behind a request that is cut from a free item is in the data of that item. -/
theorem Layout.spared_cut (h : Layout w chain lost mid) (hR : ∀ u, R u → LiveByte w u) {c : Item}
    (hc : c ∈ chain)
    (hfree : c.used = false) {total : Nat} (hfit : total ≤ c.size) : Spared R (c.addr + total) := by
  intro u hu
  obtain ⟨b, hb, hbu, h1, h2⟩ := h.liveByte (hR u hu)
  rcases h.within.apart hb (List.mem_append_left _ hc) with rfl | hbc | hcb
  · rw [hfree] at hbu
    cases hbu
  · exact .inl (by omega)
  · unfold Item.stop at hcb
    omega

theorem Layout.search (h : Layout w chain lost mid) (total : Nat) :
    searchFit w.heap total = some ((chain.find? (fits total)).elim 0 (·.addr)) := by
  have hbase := h.base_le_top
  have hlen := h.chainIn.length
  have hmid := h.lostIn.le
  have htop := h.top
  rw [searchFit, if_pos (by unfold heapBase at hbase; omega)]
  exact firstFit_spec h.chainAt walkFuel (by unfold itemSizeof walkFuel at *; omega)

theorem growCode_apart {total : Nat} (hR : ∀ u, R u → u.1 < prevTop h) (hlt : growTop h total < 2 ^ 32)
    (hbase : prevTop h ≠ 0) : ApartFrom R ((morecoreCode total).bind fun newItem =>
      if newItem = 0 then .ret 0
      else (growRestCode ((newItem + total) % 2 ^ 32) total).bind fun _ =>
        placeItemCode newItem ((newItem + total) % 2 ^ 32) n) h := by
  have hspared : ∀ x, prevTop h ≤ x → Spared R x := by
    intro x hx u hu
    have := hR u hu
    omega
  have hmod : (prevTop h + total) % 2 ^ 32 = prevTop h + total := by
    apply Nat.mod_eq_of_lt
    unfold growTop pageSize at hlt
    omega
  apply Code.Apart.bind (morecoreCode_apart hR hlt)
  intro h' r hrun
  rw [morecoreCode_run] at hrun
  obtain ⟨-, rfl⟩ := Prod.mk.inj (Option.some.inj hrun)
  show ApartFrom R (if prevTop h = 0 then _ else _) h'
  rw [if_neg hbase, hmod]
  apply Code.Apart.bind (growRestCode_apart (hspared _ (Nat.le_add_right _ _)))
  intro _ _ _
  exact placeItemCode_apart (hspared _ (Nat.le_refl _))

theorem Layout.carve_apart (h : Layout w chain lost mid) (hR : ∀ u, R u → LiveByte w u) {b : Item}
    (hfind : chain.find? (fits (roundTotal size)) = some b) : ApartFrom R (kmallocBody size) w.heap := by
  have hb := List.mem_of_find?_eq_some hfind
  have hfits := List.find?_some hfind
  simp only [fits, Bool.and_eq_true, Bool.not_eq_true', decide_eq_true_eq] at hfits
  have hsearch := h.search (roundTotal size)
  rw [hfind, Option.elim_some] at hsearch
  have hstop := (h.chainIn.mem hb).2
  have htop := h.top
  have hmid := h.lostIn.le
  have hmod : (b.addr + roundTotal size) % 2 ^ 32 = b.addr + roundTotal size := by
    apply Nat.mod_eq_of_lt
    unfold Item.stop at hstop
    omega
  have hn := h.spared hR hb
  have hb0 : b.addr ≠ 0 := by
    have := (h.chainIn.mem hb).1
    unfold heapBase at this
    omega
  rw [kmallocBody, totalSize_eq (h.roundTotal_lt hfind)]
  apply Code.Apart.bind (searchFitCode_apart h.closed (h.headers hR) h.base_mem _)
  intro h' r hrun
  rw [searchFitCode_run, hsearch] at hrun
  obtain ⟨rfl, rfl⟩ := Prod.mk.inj (Option.some.inj hrun)
  show ApartFrom R (if b.addr ≠ 0 then _ else _) w.heap
  rw [if_pos hb0]
  dsimp only
  rw [hmod]
  apply Code.Apart.bind (carveRestCode_apart hn (h.spared_cut hR hb hfits.1 hfits.2))
  intro _ _ _
  exact placeItemCode_apart hn

theorem Layout.grow_apart (h : Layout w chain lost mid) (hR : ∀ u, R u → LiveByte w u)
    (hfind : chain.find? (fits (roundTotal size)) = none) (hgrow : GrowthFits w.heap size) :
    ApartFrom R (kmallocBody size) w.heap := by
  have hbase := h.base_le_top
  have hprev : prevTop w.heap = w.heap.top := by
    rw [prevTop, if_neg (by unfold heapBase at hbase; omega)]
  have hround : roundTotal size < 2 ^ 32 := by
    have := hgrow.1
    unfold growTop pageSize at this
    omega
  have hsearch := h.search (roundTotal size)
  rw [hfind, Option.elim_none] at hsearch
  rw [kmallocBody, totalSize_eq hround]
  apply Code.Apart.bind (searchFitCode_apart h.closed (h.headers hR) h.base_mem _)
  intro h' r hrun
  rw [searchFitCode_run, hsearch] at hrun
  obtain ⟨rfl, rfl⟩ := Prod.mk.inj (Option.some.inj hrun)
  dsimp only
  rw [if_neg (fun h0 => h0 rfl)]
  refine growCode_apart (fun u hu => ?_) hgrow.1 (by unfold heapBase at hbase; omega)
  obtain ⟨b, hb, -, -, hlt⟩ := h.liveByte (hR u hu)
  have := (h.within.mem hb).2
  omega

theorem kmallocBody_apart (h : Inv w) (hR : ∀ u, R u → LiveByte w u)
    (hok : HasFit w.heap size ∨ GrowthFits w.heap size) :
    ApartFrom R (kmallocBody size) w.heap := by
  rcases h with ⟨-, hl, -⟩ | ⟨chain, lost, mid, h⟩
  · exact apart_of_none (no_liveByte hl hR) (kmallocBody size) w.heap
  cases hfind : chain.find? (fits (roundTotal size)) with
  | some b => exact h.carve_apart hR hfind
  | none =>
    refine h.grow_apart hR hfind (hok.resolve_left fun hf => ?_)
    obtain ⟨b, hb⟩ := h.find_of_hasFit hf
    simp [hfind] at hb

theorem kfreeBody_apart_live (h : Inv w) (hR : ∀ u, R u → LiveByte w u) (address : Nat) :
    ApartFrom R (kfreeBody address) w.heap := by
  rcases h with ⟨-, hl, -⟩ | ⟨chain, lost, mid, h⟩
  · exact apart_of_none (no_liveByte hl hR) (kfreeBody address) w.heap
  · exact kfreeBody_apart h.closed (h.headers hR) h.base_mem address

end SystemProjects.Heap
