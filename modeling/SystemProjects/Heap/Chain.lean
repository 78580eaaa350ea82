import SystemProjects.Lib.Links
import SystemProjects.Heap.Spec

/-!
# The chain of headers stands for a list of items

One spec per walk of `mm.c`, in terms of `Spec.lean`.
-/

open SystemProjects.Memory SystemProjects.Lists

namespace SystemProjects.Heap

/-! ## Headers -/

section
variable (m : Mem) (a v : Nat)

@[simp] theorem itemNext_setNext : itemNext (setNext m a v) a = v % 2 ^ 32 := load32_store32 m a v
@[simp] theorem itemSize_setSize : itemSize (setSize m a v) a = v % 2 ^ 32 := load32_store32 m _ v
@[simp] theorem itemUsed_setUsed : itemUsed (setUsed m a v) a = v % 2 ^ 32 := load32_store32 m _ v

@[simp] theorem itemSize_setNext : itemSize (setNext m a v) a = itemSize m a :=
  load32_store32_other (by omega)
@[simp] theorem itemUsed_setNext : itemUsed (setNext m a v) a = itemUsed m a :=
  load32_store32_other (by omega)
@[simp] theorem itemNext_setSize : itemNext (setSize m a v) a = itemNext m a :=
  load32_store32_other (by omega)
@[simp] theorem itemUsed_setSize : itemUsed (setSize m a v) a = itemUsed m a :=
  load32_store32_other (by omega)
@[simp] theorem itemNext_setUsed : itemNext (setUsed m a v) a = itemNext m a :=
  load32_store32_other (by omega)
@[simp] theorem itemSize_setUsed : itemSize (setUsed m a v) a = itemSize m a :=
  load32_store32_other (by omega)

end

/-- Outside the header at `a` nothing has changed. -/
def OnlyHeader (m m' : Mem) (a : Nat) : Prop := ∀ x, x < a ∨ a + itemSizeof ≤ x → m' x = m x

theorem onlyHeader_setNext (m : Mem) (a v : Nat) : OnlyHeader m (setNext m a v) a :=
  fun x hx => store32_other (by unfold itemSizeof at hx; omega)

theorem onlyHeader_setSize (m : Mem) (a v : Nat) : OnlyHeader m (setSize m a v) a :=
  fun x hx => store32_other (by unfold itemSizeof at hx; omega)

theorem onlyHeader_setUsed (m : Mem) (a v : Nat) : OnlyHeader m (setUsed m a v) a :=
  fun x hx => store32_other (by unfold itemSizeof at hx; omega)

theorem OnlyHeader.trans {m m' m'' : Mem} {a : Nat} (h : OnlyHeader m m' a)
    (h' : OnlyHeader m' m'' a) : OnlyHeader m m'' a :=
  fun x hx => (h' x hx).trans (h x hx)

theorem OnlyHeader.agree {m m' : Mem} {a lo hi : Nat} (h : OnlyHeader m m' a)
    (hx : hi ≤ a ∨ a + itemSizeof ≤ lo) : Agree m m' lo hi :=
  fun x _ _ => (h x (by omega)).symm

/-! ## Chains -/

/-- The chain of headers from `a` is the list `bs`. -/
def ChainAt (m : Mem) : Nat → List Item → Prop
  | a, [] => a = 0
  | a, b :: bs =>
    a = b.addr ∧ a ≠ 0 ∧ itemSize m a = b.size ∧ (itemUsed m a = 0 ↔ b.used = false) ∧
      ChainAt m (itemNext m a) bs

/-- The header at `a` is the same in both memories. -/
abbrev SameHeader (m m' : Mem) (a : Nat) : Prop := Agree m m' a (a + itemSizeof)

theorem SameHeader.next {m m' : Mem} {a : Nat} (h : SameHeader m m' a) :
    itemNext m a = itemNext m' a := h.load32 (Nat.le_refl _) (by simp [itemSizeof])

theorem SameHeader.size {m m' : Mem} {a : Nat} (h : SameHeader m m' a) :
    itemSize m a = itemSize m' a := h.load32 (by omega) (by simp [itemSizeof])

theorem SameHeader.used {m m' : Mem} {a : Nat} (h : SameHeader m m' a) :
    itemUsed m a = itemUsed m' a := h.load32 (by omega) (by simp [itemSizeof])

theorem itemNext_lt (m : Mem) (a : Nat) : itemNext m a < 2 ^ 32 := load32_lt m a

def ClearOf (a b : Nat) : Prop := a + itemSizeof ≤ b ∨ b + itemSizeof ≤ a

instance : Std.Symm ClearOf := ⟨fun _ _ => Or.symm⟩

theorem OnlyHeader.sameHeader {m m' : Mem} {a y : Nat} (h : OnlyHeader m m' a) (hy : ClearOf y a) :
    SameHeader m m' y :=
  h.agree hy

theorem ChainAt.congr {m m' : Mem} {a : Nat} {bs : List Item} (h : ChainAt m a bs)
    (hm : ∀ b ∈ bs, SameHeader m m' b.addr) : ChainAt m' a bs := by
  induction bs generalizing a with
  | nil => exact h
  | cons b bs ih =>
    obtain ⟨rfl, h0, hs, hu, hn⟩ := h
    have hb := hm b List.mem_cons_self
    refine ⟨rfl, h0, hb.size ▸ hs, hb.used ▸ hu, ?_⟩
    rw [← hb.next]
    exact ih hn fun c hc => hm c (List.mem_cons_of_mem _ hc)

theorem ChainAt.links {m : Mem} {a : Nat} {bs : List Item} (h : ChainAt m a bs) :
    Links (itemNext m) 0 a (bs.map (·.addr)) := by
  induction bs generalizing a with
  | nil => exact h
  | cons b bs ih =>
    obtain ⟨rfl, h0, -, -, hn⟩ := h
    exact ⟨rfl, h0, ih hn⟩

theorem ChainAt.head {m : Mem} {a : Nat} {bs cs : List Item} (h : ChainAt m a (bs ++ cs)) :
    ∃ a', ChainAt m a' cs := by
  induction bs generalizing a with
  | nil => exact ⟨a, h⟩
  | cons b bs ih => exact ih h.2.2.2.2

theorem ChainAt.header {m : Mem} {a : Nat} {bs : List Item} {b : Item} (h : ChainAt m a bs) (hb : b ∈ bs) :
    (itemUsed m b.addr = 0 ↔ b.used = false) ∧ itemSize m b.addr = b.size := by
  obtain ⟨pre, post, rfl⟩ := List.append_of_mem hb
  obtain ⟨_, rfl, -, hs, hu, -⟩ := h.head
  exact ⟨hu, hs⟩

theorem ChainAt.replace {m m' : Mem} {a : Nat} {pre : List Item} {b c : Item} {post cs : List Item}
    (h : ChainAt m a (pre ++ b :: post)) (hm : ∀ d ∈ pre, SameHeader m m' d.addr)
    (h' : ChainAt m' b.addr (c :: cs)) :
    ChainAt m' a (pre ++ c :: cs) := by
  induction pre generalizing a with
  | nil => rw [List.nil_append, h.1]; exact h'
  | cons d pre ih =>
    obtain ⟨rfl, h0, hs, hu, hn⟩ := h
    have hd := hm d List.mem_cons_self
    refine ⟨rfl, h0, hd.size ▸ hs, hd.used ▸ hu, ?_⟩
    rw [← hd.next]
    exact ih hn fun x hx => hm x (List.mem_cons_of_mem _ hx)

/-! ## Reading walks -/

theorem findItem_links {m : Mem} {a item : Nat} {xs : List Nat} (h : Links (itemNext m) 0 a xs) :
    ∀ fuel, xs.length < fuel → findItem m item fuel a = some (decide (item ∈ xs)) := by
  induction xs generalizing a with
  | nil =>
    intro fuel hf
    obtain ⟨n, rfl⟩ : ∃ n, fuel = n + 1 := ⟨fuel - 1, by omega⟩
    rw [findItem, if_pos (links_nil.mp h)]
    simp
  | cons x xs ih =>
    intro fuel hf
    obtain ⟨n, rfl⟩ : ∃ n, fuel = n + 1 := ⟨fuel - 1, by omega⟩
    obtain ⟨rfl, h0, hn⟩ := h
    rw [findItem, if_neg h0]
    split
    · rename_i hai
      simp [hai]
    · rename_i hai
      rw [ih hn n (by simpa using hf)]
      simp [Ne.symm hai]

def fits (total : Nat) (b : Item) : Bool := !b.used && decide (total ≤ b.size)

theorem firstFit_spec {m : Mem} {a total : Nat} {bs : List Item} (h : ChainAt m a bs) :
    ∀ fuel, bs.length < fuel →
      firstFit m total fuel a = some ((bs.find? (fits total)).elim 0 (·.addr)) := by
  induction bs generalizing a with
  | nil =>
    intro fuel hf
    obtain ⟨n, rfl⟩ : ∃ n, fuel = n + 1 := ⟨fuel - 1, by omega⟩
    have ha : a = 0 := h
    simp [firstFit, ha]
  | cons b bs ih =>
    intro fuel hf
    obtain ⟨n, rfl⟩ : ∃ n, fuel = n + 1 := ⟨fuel - 1, by omega⟩
    obtain ⟨ha, h0, hs, hu, hn⟩ := h
    rw [firstFit, if_neg h0]
    by_cases hfit : b.used = false ∧ total ≤ b.size
    · rw [if_pos ⟨hu.mpr hfit.1, hs ▸ hfit.2⟩, List.find?_cons_of_pos (by simp [fits, hfit])]
      simp [ha]
    · have hfit' : fits total b = false := by
        simpa [fits, Bool.and_eq_false_imp] using hfit
      rw [if_neg (by rw [hu, hs]; exact hfit), ih hn n (by simp at hf; omega),
        List.find?_cons_of_neg (by simp [hfit'])]

/-! ## Coalescing -/

/-- Outside the headers of `bs` nothing has changed. -/
def SameOutside (m m' : Mem) (bs : List Item) : Prop :=
  ∀ x, (∀ b ∈ bs, x < b.addr ∨ b.addr + itemSizeof ≤ x) → m' x = m x

theorem SameOutside.refl (m : Mem) (bs : List Item) : SameOutside m m bs := fun _ _ => rfl

theorem SameOutside.agree {m m' : Mem} {bs : List Item} (h : SameOutside m m' bs) {lo hi : Nat}
    (hb : ∀ b ∈ bs, hi ≤ b.addr ∨ b.addr + itemSizeof ≤ lo) : Agree m m' lo hi :=
  fun x _ _ => (h x fun b hm => by have := hb b hm; omega).symm

theorem mergeNext_spec {lo hi : Nat} {bs : List Item} {b : Item} (hi32 : hi ≤ 2 ^ 32) :
    ∀ {m : Mem} (fuel : Nat), ChainAt m b.addr (b :: bs) → Within lo hi (b :: bs) →
      bs.length < fuel →
      ∃ m', mergeNext b.addr fuel m = some m' ∧
        ChainAt m' b.addr ((absorb b bs).1 :: (absorb b bs).2) ∧ OnlyHeader m m' b.addr := by
  induction bs generalizing b with
  | nil =>
    intro m fuel h _ hf
    obtain ⟨n, rfl⟩ : ∃ n, fuel = n + 1 := ⟨fuel - 1, by omega⟩
    have h0 : itemNext m b.addr = 0 := h.2.2.2.2
    exact ⟨m, by simp [mergeNext, h0], h, fun _ _ => rfl⟩
  | cons c cs ih =>
    intro m fuel h hw hf
    obtain ⟨n, rfl⟩ : ∃ n, fuel = n + 1 := ⟨fuel - 1, by omega⟩
    obtain ⟨-, hb0, hbs, hbu, hbn⟩ := h
    obtain ⟨hnext, hc0, hcs, hcu, hcn⟩ := hbn
    rw [hnext] at hc0 hcs hcu hcn
    rw [mergeNext, hnext]
    by_cases hfree : b.used = false ∧ c.used = false
    · rw [if_pos ⟨hbu.mpr hfree.1, hc0, hcu.mpr hfree.2⟩]
      obtain ⟨h1, h2, h3⟩ := hw
      have hroom := h3.le
      have hsize : b.size + itemSizeof + c.size < 2 ^ 32 := by unfold Item.stop itemSizeof at *; omega
      have hsep : b.addr + itemSizeof ≤ c.addr := by unfold Item.stop at h2; omega
      rw [hbs, hcs, ← Nat.add_assoc, Nat.mod_eq_of_lt hsize]
      -- The size is written before the links are read again, but the two headers lie apart.
      have hc1 : SameHeader m (setSize m b.addr (b.size + itemSizeof + c.size)) c.addr :=
        (onlyHeader_setSize _ _ _).agree (Or.inr hsep)
      simp only [itemNext_setSize, hnext]
      rw [← SameHeader.next hc1]
      have hout := (onlyHeader_setSize m b.addr (b.size + itemSizeof + c.size)).trans
        (onlyHeader_setNext _ b.addr (itemNext m c.addr))
      generalize hm2 : setNext (setSize m b.addr (b.size + itemSizeof + c.size)) b.addr
        (itemNext m c.addr) = m2 at hout
      have hchain : ChainAt m2 b.addr ({ b with size := b.size + itemSizeof + c.size } :: cs) := by
        have hlt : itemNext m c.addr < 2 ^ 32 := load32_lt _ _
        refine ⟨rfl, hb0, ?_, ?_, ?_⟩
        · rw [← hm2, itemSize_setNext, itemSize_setSize, Nat.mod_eq_of_lt hsize]
        · rw [← hm2, itemUsed_setNext, itemUsed_setSize]; exact hbu
        · rw [← hm2, itemNext_setNext, Nat.mod_eq_of_lt hlt, hm2]
          refine hcn.congr fun d hd => hout.agree (Or.inr ?_)
          have := (h3.mem hd).1
          unfold Item.stop at this
          omega
      have hw2 : Within lo hi ({ b with size := b.size + itemSizeof + c.size } :: cs) := by
        refine ⟨h1, h3.mono ?_ (Nat.le_refl _)⟩
        unfold Item.stop at *
        dsimp only
        omega
      obtain ⟨m', hm', hch, hso⟩ := ih (b := { b with size := b.size + itemSizeof + c.size })
        n hchain hw2 (by simp at hf; omega)
      refine ⟨m', hm', ?_, hout.trans hso⟩
      rw [absorb, if_pos hfree]; exact hch
    · rw [if_neg (by rw [hbu, hcu]; tauto), absorb, if_neg hfree]
      exact ⟨m, rfl, ⟨rfl, hb0, hbs, hbu, hnext, hnext ▸ hc0, hnext ▸ hcs, hnext ▸ hcu, hnext ▸ hcn⟩,
        fun _ _ => rfl⟩

theorem absorb_suffix (b : Item) (cs : List Item) : (absorb b cs).2 <:+ cs := by
  induction cs generalizing b with
  | nil => exact List.suffix_refl _
  | cons c cs ih =>
    rw [absorb]
    split
    · exact (ih _).trans (List.suffix_cons _ _)
    · exact List.suffix_refl _

theorem coalesceFrom_spec {lo hi : Nat} {bs : List Item} (hi32 : hi ≤ 2 ^ 32) :
    ∀ {m : Mem} {a : Nat} (fuel : Nat), ChainAt m a bs → Within lo hi bs → bs.length < fuel →
      bs.length < walkFuel →
      ∃ m', coalesceFrom fuel a m = some m' ∧ ChainAt m' a (coalesce bs) ∧ SameOutside m m' bs := by
  induction bs using coalesce.induct generalizing lo with
  | case1 =>
    intro m a fuel h _ hf _
    obtain ⟨n, rfl⟩ : ∃ n, fuel = n + 1 := ⟨fuel - 1, by omega⟩
    have ha : a = 0 := h
    exact ⟨m, by simp [coalesceFrom, ha], by simpa using h, SameOutside.refl _ _⟩
  | case2 b bs ih =>
    intro m a fuel h hw hf hfuel
    obtain ⟨n, rfl⟩ : ∃ n, fuel = n + 1 := ⟨fuel - 1, by omega⟩
    obtain rfl : a = b.addr := h.1
    obtain ⟨m1, hm1, hch1, hso1⟩ := mergeNext_spec hi32 walkFuel h hw (by simp at hfuel; omega)
    have hw1 := within_absorb hw
    have hlen := absorb_length b bs
    obtain ⟨ha, h0, hs, hu, hn⟩ := hch1
    obtain ⟨m2, hm2, hch2, hso2⟩ := ih n hn hw1.2 (by simp at hf; omega) (by simp at hfuel; omega)
    refine ⟨m2, ?_, ?_, ?_⟩
    · rw [coalesceFrom, if_neg h0, hm1]; exact hm2
    · -- The walk over the rest leaves the header of the merged item alone.
      have hsame : SameHeader m1 m2 b.addr := hso2.agree fun c hc => by
        have := (hw1.2.mem hc).1
        unfold Item.stop at this
        rw [absorb_addr] at this
        left; omega
      rw [coalesce_cons]
      exact ⟨ha, h0, hsame.size ▸ hs, hsame.used ▸ hu, hsame.next ▸ hch2⟩
    · intro x hx
      rw [hso2 x fun c hc => hx c (List.mem_cons_of_mem _ ((absorb_suffix b bs).mem hc)),
        hso1 x (hx b List.mem_cons_self)]

end SystemProjects.Heap
