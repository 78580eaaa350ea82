import Mathlib.Data.List.Perm.Subperm
import SystemProjects.Heap.Safety

/-!
# Free neighbours

`mm_kfree` leaves no two free items next to each other, for any pointer and whatever the sizes say.
Only the headers have to stay apart.
-/

open SystemProjects.Memory SystemProjects.Run SystemProjects.Lists

namespace SystemProjects.Heap

/-! ## What is claimed of a state -/

def Separate (m : Mem) (x y : Nat) : Prop := itemUsed m x ≠ 0 ∨ itemUsed m y ≠ 0

/-- `x` and the `n` items after it are free. -/
def FreeRun (m : Mem) : Nat → Nat → Prop
  | 0, x => itemUsed m x = 0
  | n + 1, x => itemUsed m x = 0 ∧ itemNext m x ≠ 0 ∧ FreeRun m n (itemNext m x)

/-- The size of `x` and the `n` items after it, if they were one. -/
def joinedSize (m : Mem) : Nat → Nat → Nat
  | 0, x => itemSize m x
  | n + 1, x => itemSize m x + itemSizeof + joinedSize m n (itemNext m x)

structure Coalesced (h : ProcessHeap) : Prop where
  separate : ∀ x, OnChain h.mem heapBase x → itemNext h.mem x ≠ 0 → Separate h.mem x (itemNext h.mem x)
  /-- Where first fit finds nothing, no free items taken together have room either. -/
  noMiss : ∀ total, searchFit h total = some 0 → ∀ x n, OnChain h.mem heapBase x →
    FreeRun h.mem n x → joinedSize h.mem n x < total

/-! ## When that holds -/

/-- The item behind `x` gets a header that lies over no header of the chain. -/
def CarveClear (h : ProcessHeap) (x total : Nat) : Prop :=
  (x + total) % 2 ^ 32 ≠ 0 ∧ ∀ y, OnChain h.mem heapBase y → ClearOf y ((x + total) % 2 ^ 32)

/-- The new pages end below `2 ^ 32` and their two headers are apart, and all of that lies over no
header of the chain. -/
def GrowClear (h : ProcessHeap) (total : Nat) : Prop :=
  growTop h total < 2 ^ 32 ∧ itemSizeof ≤ total ∧ (h.top ≠ 0 → ∀ y, OnChain h.mem heapBase y →
    y + itemSizeof ≤ h.top ∨ growTop h total ≤ y ∧ h.top + total + itemSizeof ≤ y)

def Undisturbed (w : World) : Op → Prop
  | .kmalloc size => size ≠ 0 → ∀ x, searchFit w.heap (totalSize size) = some x →
    if x ≠ 0 then CarveClear w.heap x (totalSize size) else GrowClear w.heap (totalSize size)
  | .kfree _ => True
  | .write a _ => w.heap.top ≠ 0 → ∀ y, OnChain w.heap.mem heapBase y → a < y ∨ y + itemSizeof ≤ a

/-! ## The invariant -/

structure Chained (m : Mem) (xs : List Nat) : Prop where
  links : Links (itemNext m) 0 heapBase xs
  clear : xs.Pairwise ClearOf
  separate : xs.IsChain (Separate m)

theorem length_lt_of_nodup {n : Nat} {xs : List Nat} (h : xs.Nodup) (hn : 0 < n)
    (hx : ∀ x ∈ xs, 0 < x ∧ x < n) : xs.length < n := by
  have hsub : xs ⊆ List.range' 1 (n - 1) := by
    intro x hm
    have := hx x hm
    rw [List.mem_range'_1]
    omega
  have hle := (h.subperm hsub).length_le
  rw [List.length_range'] at hle
  omega

theorem links_length {m : Mem} {a : Nat} {xs : List Nat} (h : Links (itemNext m) 0 a xs)
    (ha : a < 2 ^ 32) : xs.length < walkFuel := by
  apply length_lt_of_nodup h.nodup (by unfold walkFuel; omega)
  intro x hx
  refine ⟨Nat.pos_of_ne_zero (h.ne_end hx), ?_⟩
  induction xs generalizing a with
  | nil => simp at hx
  | cons y ys ih =>
    obtain ⟨rfl, -, h⟩ := h
    rcases List.mem_cons.mp hx with rfl | hx
    · exact ha
    · exact ih h (itemNext_lt m _) hx

/-! ## Walks -/

theorem firstFit_some {m : Mem} {total x : Nat} (fuel : Nat) :
    ∀ {a : Nat}, firstFit m total fuel a = some x → x ≠ 0 → OnChain m a x ∧ itemUsed m x = 0 := by
  induction fuel with
  | zero => intro a h; simp [firstFit] at h
  | succ fuel ih =>
    intro a h hx
    rw [firstFit] at h
    split at h
    · exact absurd (Option.some.inj h).symm hx
    · rename_i h0
      split at h
      · rename_i hfit
        rw [← Option.some.inj h]
        exact ⟨OnChain.here h0, hfit.1⟩
      · exact (ih h hx).imp_left (OnChain.next h0)

theorem firstFit_zero {m : Mem} {total : Nat} (fuel : Nat) :
    ∀ {a x : Nat}, firstFit m total fuel a = some 0 → OnChain m a x → itemUsed m x = 0 →
      itemSize m x < total := by
  induction fuel with
  | zero => intro a x h; simp [firstFit] at h
  | succ fuel ih =>
    intro a x h hx hu
    rw [firstFit] at h
    have h0 : a ≠ 0 := by
      cases hx with
      | here h0 => exact h0
      | next h0 _ => exact h0
    rw [if_neg h0] at h
    split at h
    · exact absurd (Option.some.inj h) h0
    · rename_i hfit
      cases hx with
      | here _ => exact Nat.lt_of_not_le fun hle => hfit ⟨hu, hle⟩
      | next _ hx => exact ih h hx hu

theorem Chained.coalesced {h : ProcessHeap} {xs : List Nat} (hch : Chained h.mem xs)
    (htop : h.top ≠ 0) : Coalesced h := by
  have hsep : ∀ x, OnChain h.mem heapBase x → itemNext h.mem x ≠ 0 →
      Separate h.mem x (itemNext h.mem x) := by
    intro x hx hn
    obtain ⟨pre, post, hxs⟩ := List.append_of_mem (mem_of_onChain hch.links hx)
    have hl := hch.links
    rw [hxs] at hl
    cases post with
    | nil => exact absurd hl.last_eq hn
    | cons y post =>
      have hs := hch.separate
      rw [hxs] at hs
      rw [hl.next_eq]
      exact (List.isChain_append_cons_cons.mp hs).2.1
  refine ⟨hsep, fun total hsearch x n hx hrun => ?_⟩
  rw [searchFit, if_pos htop] at hsearch
  cases n with
  | zero => exact firstFit_zero walkFuel hsearch hx hrun
  | succ n =>
    -- Two free neighbours would have to be next to each other.
    obtain ⟨hu, hn, hrun⟩ := hrun
    have hu' : itemUsed h.mem (itemNext h.mem x) = 0 := by
      cases n with
      | zero => exact hrun
      | succ n => exact hrun.1
    rcases hsep x hx hn with h | h
    · exact absurd hu h
    · exact absurd hu' h

/-! ## Coalescing -/

theorem mergeNext_links {x : Nat} {xs : List Nat} :
    ∀ {m : Mem} (fuel : Nat), Links (itemNext m) 0 x (x :: xs) → (x :: xs).Pairwise ClearOf →
      xs.length < fuel →
      ∃ m' ys, mergeNext x fuel m = some m' ∧ ys <:+ xs ∧ Links (itemNext m') 0 x (x :: ys) ∧
        OnlyHeader m m' x ∧ itemUsed m' x = itemUsed m x ∧ ∀ y ∈ ys.head?, Separate m' x y := by
  induction xs with
  | nil =>
    intro m fuel h _ hf
    obtain ⟨n, rfl⟩ : ∃ n, fuel = n + 1 := ⟨fuel - 1, by omega⟩
    have h0 : itemNext m x = 0 := h.2.2
    refine ⟨m, [], by simp [mergeNext, h0], List.suffix_refl _, h, fun _ _ => rfl, rfl, by simp⟩
  | cons y xs ih =>
    intro m fuel h hclear hf
    obtain ⟨n, rfl⟩ : ∃ n, fuel = n + 1 := ⟨fuel - 1, by omega⟩
    obtain ⟨-, hx0, hnext, hy0, hn⟩ := id h
    obtain ⟨hx, hrest⟩ := List.pairwise_cons.mp hclear
    rw [mergeNext, hnext]
    by_cases hfree : itemUsed m x = 0 ∧ itemUsed m y = 0
    · rw [if_pos ⟨hfree.1, hy0, hfree.2⟩]
      generalize hs : (itemSize m x + (itemSizeof + itemSize m y)) % 2 ^ 32 = size
      -- The link of `y` is read after the size of `x` is written.
      have hy : SameHeader m (setSize m x size) y :=
        (onlyHeader_setSize m x size).sameHeader (hx y List.mem_cons_self).symm
      simp only [itemNext_setSize, hnext]
      rw [← hy.next]
      have hout := (onlyHeader_setSize m x size).trans (onlyHeader_setNext _ x (itemNext m y))
      have hnext2 : itemNext (setNext (setSize m x size) x (itemNext m y)) x = itemNext m y := by
        rw [itemNext_setNext, Nat.mod_eq_of_lt (itemNext_lt m y)]
      have hused2 : itemUsed (setNext (setSize m x size) x (itemNext m y)) x = itemUsed m x := by
        rw [itemUsed_setNext, itemUsed_setSize]
      generalize setNext (setSize m x size) x (itemNext m y) = m2 at hout hnext2 hused2
      have hlinks : Links (itemNext m2) 0 x (x :: xs) := by
        refine ⟨rfl, hx0, ?_⟩
        rw [hnext2]
        refine hn.congr fun z hz => ?_
        exact (hout.sameHeader (hx z (List.mem_cons_of_mem _ hz)).symm).next.symm
      have hclear2 : (x :: xs).Pairwise ClearOf :=
        List.pairwise_cons.mpr ⟨fun z hz => hx z (List.mem_cons_of_mem _ hz), (List.pairwise_cons.mp hrest).2⟩
      obtain ⟨m', ys, hm', hys, hl, ho, hu, hsep⟩ := ih n hlinks hclear2 (by simpa using hf)
      exact ⟨m', ys, hm', hys.trans (List.suffix_cons _ _), hl, hout.trans ho, hu.trans hused2, hsep⟩
    · rw [if_neg fun hc => hfree ⟨hc.1, hc.2.2⟩]
      refine ⟨m, y :: xs, rfl, List.suffix_refl _, h, fun _ _ => rfl, rfl, ?_⟩
      intro z hz
      rw [← Option.some.inj hz]
      exact Classical.or_iff_not_imp_left.mpr fun hu hy => hfree ⟨not_not.mp hu, hy⟩

theorem coalesceFrom_links (fuel : Nat) :
    ∀ {m : Mem} {a : Nat} {xs : List Nat}, Links (itemNext m) 0 a xs → xs.Pairwise ClearOf →
      xs.length < fuel → xs.length < walkFuel →
      ∃ m' ys, coalesceFrom fuel a m = some m' ∧ ys.Sublist xs ∧ Links (itemNext m') 0 a ys ∧
        ys.IsChain (Separate m') ∧ (∀ z, (∀ y ∈ xs, ClearOf y z) → SameHeader m m' z) ∧
        (xs ≠ [] → itemUsed m' a = itemUsed m a) := by
  induction fuel with
  | zero => intro m a xs _ _ hf; omega
  | succ fuel ih =>
    intro m a xs h hclear hf hw
    cases xs with
    | nil =>
      refine ⟨m, [], ?_, List.Sublist.refl _, h, List.isChain_nil, fun _ _ _ _ _ => rfl, by simp⟩
      rw [coalesceFrom, if_pos (links_nil.mp h)]
    | cons x xs =>
      obtain ⟨rfl, h0, hn⟩ := h
      obtain ⟨m1, ys, hm1, hys, hl1, ho1, hu1, hsep1⟩ :=
        mergeNext_links walkFuel ⟨rfl, h0, hn⟩ hclear (by simp at hw; omega)
      obtain ⟨hx, hrest⟩ := List.pairwise_cons.mp hclear
      have hlen := hys.length_le
      simp only [List.length_cons] at hf hw
      obtain ⟨m2, zs, hm2, hzs, hl2, hchain, hsame, hu2⟩ :=
        ih hl1.2.2 (hrest.sublist hys.sublist) (by omega) (by omega)
      -- The walk over the rest leaves the header of `a` alone.
      have ha : SameHeader m1 m2 a := hsame a fun y hy => (hx y (hys.mem hy)).symm
      refine ⟨m2, a :: zs, ?_, (hzs.trans hys.sublist).cons_cons a, ?_, ?_, ?_, ?_⟩
      · rw [coalesceFrom, if_neg h0, hm1]
        exact hm2
      · exact ⟨rfl, h0, ha.next ▸ hl2⟩
      · refine List.isChain_cons.mpr ⟨fun z hz => ?_, hchain⟩
        obtain ⟨zs', rfl⟩ : ∃ zs', zs = z :: zs' := by
          cases zs with
          | nil => simp at hz
          | cons w ws => exact ⟨ws, by rw [Option.some.inj hz]⟩
        cases ys with
        | nil => simp at hzs
        | cons y ys =>
          -- Both lists start where the link of `a` leads.
          obtain rfl : y = z := hl1.2.2.1.symm.trans hl2.1
          have hy := hu2 (by simp)
          rw [hl2.1] at hy
          unfold Separate
          rw [← ha.used, hy]
          exact hsep1 y rfl
      · intro z hz u hu hu'
        exact (ho1.sameHeader (hz a List.mem_cons_self).symm u hu hu').trans
          (hsame z (fun y hy => hz y (List.mem_cons_of_mem _ (hys.mem hy))) u hu hu')
      · intro _
        rw [← ha.used, hu1]

/-! ## Calls -/

theorem separate_congr {m m' : Mem} {xs : List Nat} (hm : ∀ y ∈ xs, itemUsed m' y = itemUsed m y)
    (h : xs.IsChain (Separate m)) : xs.IsChain (Separate m') :=
  h.imp_of_mem_imp fun x y hx hy hs => by
    unfold Separate
    rwa [hm x hx, hm y hy]

theorem Chained.congr {m m' : Mem} {xs : List Nat} (h : Chained m xs)
    (hm : ∀ y ∈ xs, SameHeader m m' y) : Chained m' xs where
  links := h.links.congr fun y hy => (hm y hy).next.symm
  clear := h.clear
  separate := separate_congr (fun y hy => (hm y hy).used.symm) h.separate

theorem Chained.length {m : Mem} {xs : List Nat} (h : Chained m xs) : xs.length < walkFuel :=
  links_length h.links (by decide)

theorem mmKfree_chained {h : ProcessHeap} {xs : List Nat} (hch : Chained h.mem xs) (p : Nat) :
    ∃ m' ys, mmKfree h p = some { h with mem := m' } ∧ Chained m' ys := by
  by_cases hp : p = 0
  · exact ⟨h.mem, xs, by rw [mmKfree, if_pos hp], hch⟩
  rw [mmKfree, if_neg hp, findItem_links hch.links _ hch.length, Option.bind_some]
  by_cases hmem : itemOf p ∈ xs
  · rw [if_pos (decide_eq_true hmem)]
    have hout := onlyHeader_setUsed h.mem (itemOf p) 0
    have hlinks : Links (itemNext (setUsed h.mem (itemOf p) 0)) 0 heapBase xs := by
      refine hch.links.congr fun y hy => ?_
      by_cases hy' : y = itemOf p
      · rw [hy', itemNext_setUsed]
      · exact (hout.sameHeader (hch.clear.forall hy hmem hy')).next.symm
    obtain ⟨m', ys, hm', hys, hl, hchain, -⟩ :=
      coalesceFrom_links walkFuel hlinks hch.clear hch.length hch.length
    exact ⟨m', ys, by rw [hm']; rfl, hl, hch.clear.sublist hys, hchain⟩
  · rw [if_neg (by simpa using hmem)]
    exact ⟨h.mem, xs, rfl, hch⟩

/-- The free item behind the carved one is linked in after it, and the other headers stay. -/
theorem carve_links {m m' : Mem} {x tmp size rest : Nat} {pre post : List Nat}
    (hch : Chained m (pre ++ x :: post)) (h0 : tmp ≠ 0) (hclear : ∀ y ∈ pre ++ x :: post, ClearOf y tmp)
    (hm : Placed m m' x tmp size rest (itemNext m x)) :
    Links (itemNext m') 0 heapBase (pre ++ x :: tmp :: post) ∧ ∀ y ∈ pre ++ post, SameHeader m m' y := by
  have hx : x ∈ pre ++ x :: post := List.mem_append_right _ List.mem_cons_self
  have hnot : x ∉ pre ++ post := (List.nodup_cons.mp (List.nodup_middle.mp hch.links.nodup)).1
  have hother : ∀ y ∈ pre ++ post, SameHeader m m' y := by
    intro y hy
    have hmem : y ∈ pre ++ x :: post :=
      List.mem_append.mpr ((List.mem_append.mp hy).imp_right (List.mem_cons_of_mem x))
    exact hm.sameHeader (hch.clear.forall hmem hx (ne_of_mem_of_not_mem hy hnot)) (hclear y hmem)
  have hlx := hch.links.suffix
  refine ⟨?_, hother⟩
  apply hch.links.replace fun y hy => (hother y (List.mem_append_left post hy)).next.symm
  refine ⟨rfl, hlx.2.1, hm.next, h0, ?_⟩
  rw [hm.restNext]
  exact hlx.2.2.congr fun y hy => (hother y (List.mem_append_right pre hy)).next.symm

theorem carve_chained {m : Mem} {x tmp : Nat} {xs : List Nat} (hch : Chained m xs) (hx : x ∈ xs)
    (hu : itemUsed m x = 0) (h0 : tmp ≠ 0) (htmp : tmp < 2 ^ 32) (hclear : ∀ y ∈ xs, ClearOf y tmp)
    (total size : Nat) : ∃ ys, Chained (placeItem (carveRest m x tmp total) x tmp size) ys := by
  have hm := carve_placed (m := m) (hclear x hx) htmp total size
  generalize placeItem (carveRest m x tmp total) x tmp size = m' at *
  obtain ⟨pre, post, rfl⟩ := List.append_of_mem hx
  obtain ⟨hlinks, hother⟩ := carve_links hch h0 hclear hm
  have hpre := fun y hy => (hother y (List.mem_append_left post hy)).used.symm
  have hpost := fun y hy => (hother y (List.mem_append_right pre hy)).used.symm
  refine ⟨pre ++ x :: tmp :: post, hlinks, ?_, ?_⟩
  · have hperm : (pre ++ x :: tmp :: post).Perm (tmp :: (pre ++ x :: post)) := by
      rw [show pre ++ x :: tmp :: post = (pre ++ [x]) ++ tmp :: post by simp,
        show pre ++ x :: post = (pre ++ [x]) ++ post by simp]
      exact List.perm_middle
    exact (hperm.pairwise_iff Or.symm).mpr
      (List.pairwise_cons.mpr ⟨fun y hy => (hclear y hy).symm, hch.clear⟩)
  · obtain ⟨h1, h2, -⟩ := List.isChain_append.mp hch.separate
    obtain ⟨h3, h4⟩ := List.isChain_cons.mp h2
    refine List.isChain_append.mpr ⟨separate_congr hpre h1, ?_, ?_⟩
    · apply List.isChain_cons_cons.mpr
      refine ⟨Or.inl (by simp [hm.used]), List.isChain_cons.mpr ⟨?_, separate_congr hpost h4⟩⟩
      intro y hy
      right
      rw [hpost y (List.mem_of_mem_head? hy)]
      exact (h3 y hy).resolve_left (not_not.mpr hu)
    · rintro y - z hz
      right
      rw [← Option.some.inj hz, hm.used]
      simp

/-! ## Steps -/

/-- No request was served yet, or the heap has a coalesced chain. -/
def ChainedHeap (h : ProcessHeap) : Prop := h.top = 0 ∨ ∃ xs, Chained h.mem xs

theorem mmKfree_top {h h' : ProcessHeap} {p : Nat} (hk : mmKfree h p = some h') : h'.top = h.top := by
  rw [mmKfree] at hk
  split at hk
  · rw [Option.some.inj hk]
  · obtain ⟨found, -, hk⟩ := Option.bind_eq_some_iff.mp hk
    split at hk
    · obtain ⟨m, -, rfl⟩ := Option.map_eq_some_iff.mp hk
      rfl
    · rw [Option.some.inj hk]

theorem kfree_keeps {h h' : ProcessHeap} {p : Nat} (hi : ChainedHeap h) (hk : mmKfree h p = some h') :
    ChainedHeap h' := by
  rcases hi with h0 | ⟨xs, hch⟩
  · exact Or.inl (mmKfree_top hk ▸ h0)
  · obtain ⟨m', ys, hm', hch'⟩ := mmKfree_chained hch p
    obtain rfl := Option.some.inj (hm'.symm.trans hk)
    exact Or.inr ⟨ys, hch'⟩

theorem write_keeps {h : ProcessHeap} {a : Nat} {b : Byte} (hi : ChainedHeap h)
    (hclear : h.top ≠ 0 → ∀ y, OnChain h.mem heapBase y → a < y ∨ y + itemSizeof ≤ a) :
    ChainedHeap { h with mem := fill h.mem a 1 b } := by
  by_cases h0 : h.top = 0
  · exact Or.inl h0
  · obtain ⟨xs, hch⟩ := hi.resolve_left h0
    refine Or.inr ⟨xs, hch.congr fun y hy u hu hu' => (fill_other ?_).symm⟩
    have := hclear h0 y (onChain_of_mem hch.links hy)
    omega

theorem carve_keeps {h : ProcessHeap} {x total size : Nat} (hi : ChainedHeap h)
    (hsearch : searchFit h total = some x) (hx : x ≠ 0) (hclear : CarveClear h x total) :
    let tmp := (x + total) % 2 ^ 32
    ChainedHeap { h with mem := placeItem (carveRest h.mem x tmp total) x tmp size } := by
  intro tmp
  have h0 : h.top ≠ 0 := fun h0 => by
    rw [searchFit, if_neg (by simp [h0])] at hsearch
    exact hx (Option.some.inj hsearch).symm
  obtain ⟨xs, hch⟩ := hi.resolve_left h0
  rw [searchFit, if_pos h0] at hsearch
  obtain ⟨hon, hu⟩ := firstFit_some walkFuel hsearch hx
  exact Or.inr (carve_chained hch (mem_of_onChain hch.links hon) hu hclear.1 (Nat.mod_lt _ (by decide))
    (fun y hy => hclear.2 y (onChain_of_mem hch.links hy)) total size)

theorem grow_keeps {h : ProcessHeap} {total size : Nat} (hi : ChainedHeap h) (hclear : GrowClear h total) :
    let h' := (mmMorecore h total).1
    let tmp := (prevTop h + total) % 2 ^ 32
    ChainedHeap { h' with mem := placeItem (growRest h'.mem tmp total) (prevTop h) tmp size } := by
  intro h' tmp
  obtain ⟨hlt, htotal, hold⟩ := hclear
  have hroom : prevTop h + total < growTop h total := by
    unfold growTop pageSize
    omega
  obtain ⟨-, hpages⟩ := morecorePages_spec (total / pageSize + 1) { h with top := prevTop h } hlt
  have htmp : tmp = prevTop h + total := Nat.mod_eq_of_lt (by omega)
  have hsep : ClearOf (prevTop h) tmp := Or.inl (by omega)
  have hm := grow_placed (m := h'.mem) hsep (by omega) total size
  right
  dsimp only
  generalize placeItem (growRest h'.mem tmp total) (prevTop h) tmp size = m' at *
  by_cases h0 : h.top = 0
  · have hprev : prevTop h = heapBase := if_pos h0
    rw [hprev] at hm htmp
    refine ⟨[heapBase, tmp], ⟨rfl, by decide, hm.next, ?_, hm.restNext⟩, ?_, ?_⟩
    · rw [htmp]
      unfold heapBase
      omega
    · simp only [List.pairwise_cons, List.mem_singleton, forall_eq]
      exact ⟨Or.inl (by omega), by simp⟩
    · exact List.isChain_cons_cons.mpr ⟨Or.inl (by simp [hm.used]), List.isChain_singleton _⟩
  · have hprev : prevTop h = h.top := if_neg h0
    obtain ⟨xs, hch⟩ := hi.resolve_left h0
    refine ⟨xs, hch.congr fun y hy => ?_⟩
    have hy := hold h0 y (onChain_of_mem hch.links hy)
    have hzero : SameHeader h.mem h'.mem y := fun u hu hu' => (hpages u (by
      dsimp only
      unfold growTop at hy
      omega)).symm
    have hnew := hm.sameHeader (y := y) (by unfold ClearOf; omega) (by unfold ClearOf; omega)
    exact hzero.trans hnew

theorem kmalloc_keeps {h h' : ProcessHeap} {size p : Nat} (hi : ChainedHeap h)
    (hk : mmKmalloc h size = some (h', p))
    (hclear : size ≠ 0 → ∀ x, searchFit h (totalSize size) = some x →
      if x ≠ 0 then CarveClear h x (totalSize size) else GrowClear h (totalSize size)) : ChainedHeap h' := by
  rw [mmKmalloc] at hk
  split at hk
  · cases hk
    exact hi
  rename_i hsize
  obtain ⟨x, hsearch, hk⟩ := Option.bind_eq_some_iff.mp hk
  have hx := hclear hsize x hsearch
  split at hk
  · rename_i hx0
    rw [if_pos hx0] at hx
    cases hk
    exact carve_keeps hi hsearch hx0 hx
  · rename_i hx0
    rw [if_neg hx0] at hx
    have hne : prevTop h ≠ 0 := by
      unfold prevTop
      split
      · decide
      · assumption
    simp only [show (mmMorecore h (totalSize size)).2 = prevTop h from rfl, if_neg hne] at hk
    cases hk
    exact grow_keeps hi hx

theorem chainedHeap_step (w : World) (op : Op) (w' : World) (hi : ChainedHeap w.heap)
    (hclear : Undisturbed w op) (h : step w op = some w') : ChainedHeap w'.heap := by
  cases op with
  | kmalloc size =>
    obtain ⟨⟨h', p⟩, hk, rfl⟩ := Option.map_eq_some_iff.mp h
    exact kmalloc_keeps hi hk hclear
  | kfree p =>
    obtain ⟨h', hk, rfl⟩ := Option.map_eq_some_iff.mp h
    exact kfree_keeps hi hk
  | write a b =>
    cases h
    exact write_keeps hi hclear

/-! ## Runs -/

/-- **Coalescing.** Along every run that writes over no header of the chain, with any pointers given
to `mm_kfree`, no two neighbours of the chain are both free. -/
theorem coalesced_of_undisturbed (m : Mem) (ops : List Op) (h : Along step Undisturbed (emptyWorld m) ops)
    (w : World) (hrun : run step (emptyWorld m) ops = some w) (htop : w.heap.top ≠ 0) : Coalesced w.heap := by
  have hi := run_keeps (I := fun w => ChainedHeap w.heap) chainedHeap_step ops _ w (Or.inl rfl) h hrun
  obtain ⟨xs, hch⟩ := hi.resolve_left htop
  exact hch.coalesced htop

theorem coalesced_after_double_kfree :
    ∃ w, run step (emptyWorld fun _ => 0)
        [.kmalloc 8, .kfree (heapBase + 12), .kfree (heapBase + 12)] = some w ∧ Coalesced w.heap := by
  have halong : Along step Undisturbed (emptyWorld fun _ => 0)
      [.kmalloc 8, .kfree (heapBase + 12), .kfree (heapBase + 12)] := by
    refine ⟨fun _ x hsearch => ?_, fun _ _ => ⟨trivial, fun _ _ => ⟨trivial, fun _ _ => trivial⟩⟩⟩
    cases hsearch
    exact ⟨by decide, by decide, fun h => absurd rfl h⟩
  exact ⟨_, rfl, coalesced_of_undisturbed _ _ halong _ rfl (by decide +kernel)⟩

theorem OnChain.of_next {m : Mem} {a b x : Nat} (ha : a ≠ 0) (hb : itemNext m a = b) (hx : OnChain m b x) :
    OnChain m a x :=
  OnChain.next ha (hb ▸ hx)

/-- A size that wraps is recorded as nearly 4 GiB. When its item is carved again, the header behind it
falls on the item at `heapBase + 52`, and the free item at `heapBase + 32` is still linked to that. -/
theorem wrapped_size_not_coalesced :
    ∃ w, run step (emptyWorld fun _ => 0)
        [.kmalloc 0xFFFFFFFF, .kmalloc 8, .kmalloc 8, .kmalloc 8, .kfree (heapBase + 44),
          .kfree (heapBase + 12), .kmalloc 40] = some w ∧
      w.heap.top ≠ 0 ∧ ¬ Coalesced w.heap := by
  refine ⟨_, rfl, by decide +kernel, fun h => ?_⟩
  have hx := h.separate (heapBase + 32) ?_ (by decide +kernel)
  · revert hx
    unfold Separate
    decide +kernel
  · apply OnChain.of_next (b := heapBase + 52) (by decide) (by decide +kernel)
    apply OnChain.of_next (b := heapBase + 12) (by decide) (by decide +kernel)
    apply OnChain.of_next (b := heapBase + 32) (by decide) (by decide +kernel)
    exact OnChain.here (by decide)

end SystemProjects.Heap
