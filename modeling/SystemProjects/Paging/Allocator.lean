import SystemProjects.Paging.Isolation
import SystemProjects.Physical.Concurrent
import Mathlib.Data.Set.Card

/-!
# The page tables on the page allocator

`physical_pageAlloc` as it is in `physical.c`, in place of a supply of pages. The supply is what it would return
from here on, and every call goes the same way with the one and with the other.
-/

open SystemProjects.Run SystemProjects.Threads SystemProjects.Physical

namespace SystemProjects.Paging

/-! ## The code -/

/-- The allocator, and the calls that one of its clients has made. -/
structure Client where
  allocator : Physical.State
  history : PageHistory

def Client.physicalPageAlloc (c : Client) : Option (Client × Nat) :=
  (physicalPageAllocHigh c.allocator).bind fun (s, p) =>
    let history := c.history ++ [(.pageAllocHigh, p)]
    if p = 0 then (physicalPageAllocLow s).map fun (s, p) => (⟨s, history ++ [(.pageAllocLow, p)]⟩, p)
    else some (⟨s, history⟩, p)

structure Linked where
  phys : Frame → Nat → PageEntry
  client : Client
  pageDir : Nat
  privilege : Bool

/-- The state with the pages `ps` to come. -/
def Linked.seen (l : Linked) (ps : List Nat) : State :=
  { phys := l.phys, supply := ps, pageDir := l.pageDir, privilege := l.privilege }

namespace Linked

def physicalPageAlloc (l : Linked) : Option (Linked × Nat) :=
  l.client.physicalPageAlloc.map fun (c, p) => ({ l with client := c }, p)

def writeEntry (l : Linked) (f : Frame) (index : Nat) (e : PageEntry) : Linked :=
  { l with phys := (Paging.writeEntry (l.seen []) f index e).phys }

def pagingSetPageDirectoryEntry (l : Linked) (linearAddress pt : Nat) : Linked :=
  { l with phys := (Paging.pagingSetPageDirectoryEntry (l.seen []) linearAddress pt).phys }

def clearTable (set : Linked → Nat → Option Linked) (linearAddress : Nat) : Nat → Linked → Option Linked
  | 0, l => some l
  | n + 1, l =>
    (set l (dword (linearAddress + (pageEntrys - (n + 1)) * pageSize))).bind (clearTable set linearAddress n)

def pagingGetPageTableEntry (set : Linked → Nat → Option Linked) (l : Linked) (linearAddress : Nat) :
    Option (Linked × Frame × Nat) :=
  let (pd, index) := pagingGetPageDirectoryEntry (l.seen []) linearAddress
  let pde := l.phys pd index
  let pt := pde.address.toNat * 2 ^ 12
  if pt = 0 then
    l.physicalPageAlloc.bind fun (l1, pt) =>
      (clearTable set linearAddress pageEntrys (l1.pagingSetPageDirectoryEntry linearAddress pt)).map
        fun l2 => (l2, pagingMapQuick pt, getTableIndex linearAddress)
  else some (l, pagingMapQuick pt, getTableIndex linearAddress)

def pagingSetPageTableEntry : Nat → Linked → Nat → Nat → Bool → Option Linked
  | 0, _, _, _, _ => none
  | fuel + 1, l, linearAddress, physicalAddress, present =>
    (pagingGetPageTableEntry (fun l la => pagingSetPageTableEntry fuel l la 0 false) l
      (pageAlign linearAddress)).map fun (l', pt, index) =>
        l'.writeEntry pt index (tableEntry (l'.seen []) physicalAddress present)

def pagingCreateDirectory (l : Linked) : Option (Linked × Int) :=
  l.physicalPageAlloc.map fun (l1, p) =>
    let l2 := { l1 with pageDir := p }
    if p = 0 then (l2, FAIL)
    else
      ({ l2 with phys := fun g i =>
          if g = pagingMapQuick p ∧ i < pageEntrys then defaultEntry (l2.seen []) i else l1.phys g i
            }, SUCCESS)

end Linked

/-! ## What the allocator returns from here on -/

/-- `physical_pageAlloc` returns `ps`, one after another. -/
inductive Gives : Client → List Nat → Client → Prop
  | nil (c : Client) : Gives c [] c
  | cons {c c1 c2 : Client} {p : Nat} {ps : List Nat} (alloc : c.physicalPageAlloc = some (c1, p))
    (page : p ≠ 0)
      (rest : Gives c1 ps c2) : Gives c (p :: ps) c2

def Exhausted (c : Client) : Prop :=
  Physical.Inv c.allocator ∧ ∃ c', c.physicalPageAlloc = some (c', 0)

/-- `ps` are all the pages that are left. -/
def Drains (c : Client) (ps : List Nat) : Prop := ∃ c', Gives c ps c' ∧ Exhausted c'

/-- Of the pages `all` that `c0` had left, the supply is what is left now. -/
structure Follows (c0 : Client) (all : List Nat) (l : Linked) (s : State) : Prop where
  seen : s = l.seen s.supply
  left : Drains l.client s.supply
  taken : ∃ qs, all = qs ++ s.supply ∧ Gives c0 qs l.client

variable {c c' c0 : Client} {l l' : Linked} {s s' : State} {p la : Nat} {ps qs all : List Nat}

theorem allocated_null {a a' : Physical.State} (h : Allocated a a' p) (hp : p = 0) : a' = a := by
  cases h with
  | none => rfl
  | page aligned low high free took =>
    unfold size4kb at low
    omega

theorem pageAlloc_spec (hc : Physical.Inv c.allocator) : ∃ c' p, c.physicalPageAlloc = some (c', p) ∧
    Allocated c.allocator c'.allocator p := by
  obtain ⟨s1, p1, h1, ha1⟩ := pageAllocHigh_spec hc
  rw [Client.physicalPageAlloc, h1, Option.bind_some]
  cases ha1 with
  | none =>
    obtain ⟨s2, p2, h2, ha2⟩ := pageAllocLow_spec hc
    refine ⟨⟨s2, c.history ++ [(.pageAllocHigh, 0)] ++ [(.pageAllocLow, p2)]⟩, p2, ?_, ha2⟩
    dsimp only
    rw [if_pos rfl, h2]
    rfl
  | page aligned low high free took =>
    refine ⟨_, _, if_neg ?_, .page aligned low high free took⟩
    unfold size4kb at low
    omega

theorem pageAlloc_allocated (hc : Physical.Inv c.allocator) (h : c.physicalPageAlloc = some (c', p)) :
    Allocated c.allocator c'.allocator p := by
  obtain ⟨c1, p1, h1, ha⟩ := pageAlloc_spec hc
  obtain ⟨rfl, rfl⟩ := Prod.mk.inj (Option.some.inj (h1.symm.trans h))
  exact ha

theorem pageAlloc_same (h : c.physicalPageAlloc = some (c', p)) :
    Physical.physicalPageAlloc c.allocator = some (c'.allocator, p) := by
  obtain ⟨⟨s1, p1⟩, h1, h⟩ := Option.bind_eq_some_iff.mp h
  rw [Physical.physicalPageAlloc, h1, Option.bind_some]
  dsimp only at h ⊢
  split at h
  case isTrue h0 =>
    obtain ⟨⟨s2, p2⟩, h2, heq⟩ := Option.map_eq_some_iff.mp h
    obtain ⟨rfl, rfl⟩ := Prod.mk.inj heq
    rw [if_pos h0, h2]
  case isFalse h0 =>
    obtain ⟨rfl, rfl⟩ := Prod.mk.inj (Option.some.inj h)
    rw [if_neg h0]

theorem Exhausted.alloc (h : Exhausted c) : ∃ c', c.physicalPageAlloc = some (c', 0) ∧ Exhausted c' := by
  obtain ⟨hc, c', hnull⟩ := h
  refine ⟨c', hnull, ?_⟩
  have hsame : c'.allocator = c.allocator := allocated_null (pageAlloc_allocated hc hnull) rfl
  have hinv : Physical.Inv c'.allocator := hsame ▸ hc
  obtain ⟨c2, p, h2, -⟩ := pageAlloc_spec hinv
  have hsame2 := pageAlloc_same h2
  rw [hsame, pageAlloc_same hnull] at hsame2
  obtain ⟨-, rfl⟩ := Prod.mk.inj (Option.some.inj hsame2)
  exact ⟨hinv, c2, h2⟩

theorem Gives.snoc (h : Gives c ps c') {c2 : Client} (halloc : c'.physicalPageAlloc = some (c2, p))
    (hp : p ≠ 0) :
    Gives c (ps ++ [p]) c2 := by
  induction h with
  | nil c => exact .cons halloc hp (.nil c2)
  | cons alloc page rest ih => exact .cons alloc page (ih halloc)

theorem Gives.inv (h : Gives c ps c') (hc : Physical.Inv c.allocator) : Physical.Inv c'.allocator := by
  induction h with
  | nil c => exact hc
  | cons alloc page rest ih => exact ih ((pageAlloc_allocated hc alloc).inv hc)

/-! ## Both ways -/

theorem linked_alloc (h : l.client.physicalPageAlloc = some (c, p)) :
    l.physicalPageAlloc = some ({ l with client := c }, p) := by
  rw [Linked.physicalPageAlloc, h]
  rfl

theorem follows_alloc (h : Follows c0 all l s) :
    (s.supply = [] ∧ Exhausted l.client) ∨
    ∃ p ps c, p ≠ 0 ∧ s.supply = p :: ps ∧ l.physicalPageAlloc = some ({ l with client := c }, p) ∧
      Follows c0 all { l with client := c } { s with supply := ps } := by
  obtain ⟨hseen, ⟨c', hgives, hend⟩, qs, hall, hqs⟩ := h
  generalize s.supply = supply at *
  cases hgives with
  | nil => exact .inl ⟨rfl, hend⟩
  | @cons _ c1 _ p ps alloc page rest =>
    right
    refine ⟨p, ps, c1, page, rfl, linked_alloc alloc, ?_, ⟨c', rest, hend⟩, qs ++ [p], ?_,
      hqs.snoc alloc page⟩
    · rw [hseen]
      rfl
    · rw [hall, List.append_assoc]
      rfl

theorem Follows.write (h : Follows c0 all l s) (phys : Frame → Nat → PageEntry) :
    Follows c0 all { l with phys := phys } { s with phys := phys } :=
  ⟨by rw [h.seen]; rfl, h.left, h.taken⟩

theorem clearTable_follows {lset : Linked → Nat → Option Linked} {set : State → Nat → Option State}
    (hset : ∀ l s la, Follows c0 all l s → Option.Rel (Follows c0 all) (lset l la) (set s la)) (la : Nat) :
    ∀ n l s, Follows c0 all l s → Option.Rel (Follows c0 all) (Linked.clearTable lset la n l)
      (clearTable set la n s) := by
  intro n
  induction n with
  | zero => exact fun l s h => .some h
  | succ n ih => exact fun l s h => rel_bind (hset l s _ h) ih

theorem pageAlign_aligned (a : Nat) : pageAlign a % pageSize = 0 := Nat.mul_mod_left _ _

theorem pageAlign_lt (a : Nat) : pageAlign a < 2 ^ 32 := by
  have : dword (a + pageSize - 1) < 2 ^ 32 := Nat.mod_lt _ (by decide)
  unfold pageAlign pageSize at *
  omega

theorem pageAlign_first (a : Nat) :
    pageAlign (dword (pageAlign a + (pageEntrys - pageEntrys) * pageSize)) = pageAlign a := by
  rw [Nat.sub_self, Nat.zero_mul, Nat.add_zero, dword, Nat.mod_eq_of_lt (pageAlign_lt a)]
  exact pageAlign_eq (pageAlign_aligned a) (pageAlign_lt a)

theorem clearTable_none {lset : Linked → Nat → Option Linked}
    (h : lset l (dword (la + (pageEntrys - pageEntrys) * pageSize)) = none) :
    Linked.clearTable lset la pageEntrys l = none := by
  rw [show Linked.clearTable lset la pageEntrys l =
    (lset l (dword (la + (pageEntrys - pageEntrys) * pageSize))).bind (Linked.clearTable lset la 1023)
      from rfl, h]
  rfl

def Missing (l : Linked) (la : Nat) : Prop := (pde (l.seen []) (getDirectoryIndex (pageAlign la))).address = 0

theorem getEntry_missing {lset : Linked → Nat → Option Linked} (h0 : Missing l la)
    (halloc : l.physicalPageAlloc = some (l', p)) : Linked.pagingGetPageTableEntry lset l (pageAlign la) =
      (Linked.clearTable lset (pageAlign la) pageEntrys (l'.pagingSetPageDirectoryEntry (pageAlign la) p)).map
        fun l2 => (l2, pagingMapQuick p, getTableIndex (pageAlign la)) := by
  have h0 : (l.phys (pagingMapQuick l.pageDir) (getDirectoryIndex (pageAlign la))).address = 0 := h0
  rw [Linked.pagingGetPageTableEntry]
  simp only [pagingGetPageDirectoryEntry, Linked.seen, h0]
  rw [if_pos (by rfl), halloc, Option.bind_some]

theorem getEntry_table {lset : Linked → Nat → Option Linked} {f : Frame}
    (hf : (pde (l.seen []) (getDirectoryIndex la)).address = f) (h0 : f ≠ 0) :
    Linked.pagingGetPageTableEntry lset l la = some (l, f, getTableIndex la) := by
  have haddr : (l.phys (pagingMapQuick l.pageDir) (getDirectoryIndex la)).address = f := hf
  rw [Linked.pagingGetPageTableEntry]
  simp only [pagingGetPageDirectoryEntry, Linked.seen, haddr]
  rw [if_neg (fun h => h0 (frame_shift_eq_zero.mp h)), mapQuick_frame]

/-- Without a page the call makes itself again and again. -/
theorem getEntry_exhausted : ∀ fuel l la, Exhausted l.client → Missing l la →
    Linked.pagingGetPageTableEntry (fun l la => Linked.pagingSetPageTableEntry fuel l la 0 false) l
      (pageAlign la) = none := by
  intro fuel
  induction fuel with
  | zero =>
    intro l la hl h0
    obtain ⟨c, hnull, -⟩ := hl.alloc
    rw [getEntry_missing h0 (linked_alloc hnull), clearTable_none rfl]
    rfl
  | succ fuel ih =>
    intro l la hl h0
    obtain ⟨c, hnull, hc⟩ := hl.alloc
    rw [getEntry_missing h0 (linked_alloc hnull), clearTable_none]
    · rfl
    · rw [Linked.pagingSetPageTableEntry, ih]
      · rfl
      · exact hc
      · rw [Missing, pageAlign_first]
        exact congrArg PageEntry.address (if_pos ⟨rfl, rfl⟩)

theorem getEntry_supply {set : State → Nat → Option State} (h0 : (pde s (getDirectoryIndex la)).address = 0) :
    pagingGetPageTableEntry set s la = (physicalPageAlloc s).bind fun (s1, p) =>
      (clearTable set la pageEntrys (pagingSetPageDirectoryEntry s1 la p)).map
        fun s2 => (s2, pagingMapQuick p, getTableIndex la) := by
  have haddr : (s.phys (pagingMapQuick s.pageDir) (getDirectoryIndex la)).address = 0 := h0
  simp only [pagingGetPageTableEntry, pagingGetPageDirectoryEntry, haddr]
  exact if_pos rfl

theorem Follows.pde_eq (h : Follows c0 all l s) (i : Nat) : pde s i = pde (l.seen []) i := by
  rw [h.seen]
  rfl

theorem Follows.writeEntry (h : Follows c0 all l s) (f : Frame) (k pa : Nat) (b : Bool) :
    Follows c0 all (l.writeEntry f k (tableEntry (l.seen []) pa b))
      (Paging.writeEntry s f k (tableEntry s pa b)) := by
  have hs := h.seen
  generalize s.supply = supply at hs
  subst hs
  exact h.write _

theorem Follows.setDirectoryEntry (h : Follows c0 all l s) (la p : Nat) :
    Follows c0 all (l.pagingSetPageDirectoryEntry la p) (Paging.pagingSetPageDirectoryEntry s la p) := by
  have hs := h.seen
  generalize s.supply = supply at hs
  subst hs
  exact h.write _

theorem getEntry_follows {lset : Linked → Nat → Option Linked} {set : State → Nat → Option State}
    (hset : ∀ l s la, Follows c0 all l s → Option.Rel (Follows c0 all) (lset l la) (set s la))
    (hnone : Exhausted l.client → Missing l la → Linked.pagingGetPageTableEntry lset l (pageAlign la) = none)
    (h : Follows c0 all l s) : Option.Rel (fun x y => Follows c0 all x.1 y.1 ∧ x.2 = y.2)
      (Linked.pagingGetPageTableEntry lset l (pageAlign la))
        (pagingGetPageTableEntry set s (pageAlign la)) := by
  by_cases h0 : Missing l la
  · rw [getEntry_supply ((congrArg _ (h.pde_eq _)).trans h0), physicalPageAlloc]
    obtain ⟨hnil, hc⟩ | ⟨p, ps, c, -, hsupply, halloc, hnext⟩ := follows_alloc h
    · rw [hnil, hnone hc h0]
      exact .none
    · rw [getEntry_missing h0 halloc, hsupply]
      have hclear := clearTable_follows hset (pageAlign la) pageEntrys _ _
        (hnext.setDirectoryEntry (pageAlign la) p)
      exact rel_map hclear fun _ _ h' => ⟨h', rfl⟩
  · have hf : (pde s (getDirectoryIndex (pageAlign la))).address =
        (pde (l.seen []) (getDirectoryIndex (pageAlign la))).address := congrArg _ (h.pde_eq _)
    rw [getEntry_of_table hf h0, getEntry_table rfl h0]
    exact .some ⟨h, rfl⟩

theorem set_follows : ∀ fuel l s la pa b, Follows c0 all l s → Option.Rel (Follows c0 all)
    (Linked.pagingSetPageTableEntry fuel l la pa b) (pagingSetPageTableEntry fuel s la pa b) := by
  intro fuel
  induction fuel with
  | zero => exact fun _ _ _ _ _ _ => .none
  | succ fuel ih =>
    intro l s la pa b h
    have hentry := getEntry_follows (fun l s la => ih l s la 0 false) (getEntry_exhausted fuel l la) h
    refine rel_map hentry ?_
    rintro ⟨l', f, k⟩ ⟨s', f', k'⟩ ⟨h', heq⟩
    obtain ⟨rfl, rfl⟩ := Prod.mk.inj heq
    exact h'.writeEntry f k pa b

theorem createDirectory_follows (h : Follows c0 all l s) :
    (s.supply = [] ∧ ∃ c, l.client.physicalPageAlloc = some (c, 0) ∧
      Linked.pagingCreateDirectory l = some ({ l with client := c, pageDir := 0 }, FAIL)) ∨
    ∃ l' s', Linked.pagingCreateDirectory l = some (l', SUCCESS) ∧ pagingCreateDirectory s =
      some (s', SUCCESS) ∧
      Follows c0 all l' s' := by
  obtain ⟨hnil, hend⟩ | ⟨p, ps, c, hp, hsupply, halloc, hnext⟩ := follows_alloc h
  · obtain ⟨c, hnull, -⟩ := hend.alloc
    left
    refine ⟨hnil, c, hnull, ?_⟩
    rw [Linked.pagingCreateDirectory, linked_alloc hnull, Option.map_some]
    rfl
  · right
    have hs := h.seen
    rw [hsupply] at hs
    subst hs
    have hlinked : Linked.pagingCreateDirectory l = some
      (⟨fun g i => if g = pagingMapQuick p ∧ i < pageEntrys then
        defaultEntry (Linked.seen { l with pageDir := p } []) i else l.phys g i, c, p, l.privilege⟩,
          SUCCESS) := by
      rw [Linked.pagingCreateDirectory, halloc, Option.map_some]
      exact congrArg some (if_neg hp)
    exact ⟨_, _, hlinked, congrArg some (if_neg hp), rfl, hnext.left, hnext.taken⟩

/-! ## The pages that are left -/

theorem freePages_finite (s : Physical.State) :
    (freePages s physicalLowPaddress s.physicalMaxAddress).Finite :=
  (Set.finite_lt_nat s.physicalMaxAddress).subset fun _ h => h.2.1

theorem freePages_lt {a a' : Physical.State} (h : Allocated a a' p) (hp : p ≠ 0) :
    (freePages a' physicalLowPaddress a'.physicalMaxAddress).ncard <
      (freePages a physicalLowPaddress a.physicalMaxAddress).ncard := by
  cases h with
  | none => exact absurd rfl hp
  | page aligned low high free took =>
    apply Set.ncard_lt_ncard
    · rw [Set.ssubset_iff_of_subset]
      · refine ⟨p, ⟨low, high, aligned, free⟩, ?_⟩
        rintro ⟨-, -, -, hfree⟩
        exact page_ne_of_free took.taken hfree rfl
      · rintro b ⟨hlow, hhigh, hal, hfree⟩
        refine ⟨hlow, took.bounds.2 ▸ hhigh, hal, ?_⟩
        rw [Physical.Free, ← took.others b (page_ne_of_free took.taken hfree).symm]
        exact hfree
    · exact freePages_finite a

theorem drains_exists : ∀ n (c : Client), Physical.Inv c.allocator →
    (freePages c.allocator physicalLowPaddress c.allocator.physicalMaxAddress).ncard < n → ∃ ps,
      Drains c ps := by
  intro n
  induction n with
  | zero => intro c _ h; cases h
  | succ n ih =>
    intro c hc hn
    obtain ⟨c', p, halloc, ha⟩ := pageAlloc_spec hc
    by_cases hp : p = 0
    · subst hp
      exact ⟨[], c, .nil c, hc, c', halloc⟩
    · have hless := freePages_lt ha hp
      obtain ⟨ps, c2, hgives, hend⟩ := ih c' (ha.inv hc) (by omega)
      exact ⟨p :: ps, c2, .cons halloc hp hgives, hend⟩

theorem follows_start (hl : Physical.Inv l.client.allocator) :
    ∃ all, Follows l.client all l (l.seen all) := by
  obtain ⟨ps, hps⟩ := drains_exists _ l.client hl (Nat.lt_succ_self _)
  exact ⟨ps, rfl, hps, [], rfl, .nil _⟩

end SystemProjects.Paging
