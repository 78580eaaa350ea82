import Mathlib.Data.List.Chain
import SystemProjects.Heap.Code

/-!
# A heap as a list of items

What the chain of headers in memory stands for, with no memory in it. `Chain.lean` shows that the
code works on such lists.
-/

namespace SystemProjects.Heap

/-- One item: a header at `addr` and `size` bytes of data after it. -/
structure Item where
  addr : Nat
  size : Nat
  used : Bool
deriving DecidableEq

def Item.stop (b : Item) : Nat := b.addr + itemSizeof + b.size

/-! ## Items in address order -/

/-- The items lie one after another between `lo` and `hi`. Gaps are allowed. -/
def Within (lo hi : Nat) : List Item → Prop
  | [] => lo ≤ hi
  | b :: bs => lo ≤ b.addr ∧ Within b.stop hi bs

theorem Within.le {lo hi : Nat} {bs : List Item} (h : Within lo hi bs) : lo ≤ hi := by
  induction bs generalizing lo with
  | nil => exact h
  | cons b bs ih =>
    have := ih h.2
    have := h.1
    unfold Item.stop at *
    omega

theorem within_append {lo hi : Nat} {bs cs : List Item} :
    Within lo hi (bs ++ cs) ↔ ∃ mid, Within lo mid bs ∧ Within mid hi cs := by
  induction bs generalizing lo with
  | nil =>
    constructor
    · intro h; exact ⟨lo, Nat.le_refl lo, h⟩
    · rintro ⟨mid, hle, h⟩
      cases cs with
      | nil => exact Nat.le_trans hle h
      | cons c cs => exact ⟨Nat.le_trans hle h.1, h.2⟩
  | cons b bs ih =>
    simp only [List.cons_append, Within, ih]
    constructor
    · rintro ⟨h, mid, h1, h2⟩; exact ⟨mid, ⟨h, h1⟩, h2⟩
    · rintro ⟨mid, ⟨h, h1⟩, h2⟩; exact ⟨h, mid, h1, h2⟩

theorem Within.mono {lo hi lo' hi' : Nat} {bs : List Item} (h : Within lo hi bs) (hlo : lo' ≤ lo)
    (hhi : hi ≤ hi') : Within lo' hi' bs := by
  induction bs generalizing lo lo' with
  | nil => exact Nat.le_trans hlo (Nat.le_trans h hhi)
  | cons b bs ih => exact ⟨Nat.le_trans hlo h.1, ih h.2 (Nat.le_refl _)⟩

theorem Within.mem {lo hi : Nat} {bs : List Item} (h : Within lo hi bs) {b : Item} (hb : b ∈ bs) :
    lo ≤ b.addr ∧ b.stop ≤ hi := by
  obtain ⟨pre, post, rfl⟩ := List.append_of_mem hb
  obtain ⟨mid, h1, h2⟩ := within_append.mp h
  exact ⟨Nat.le_trans h1.le h2.1, h2.2.le⟩

theorem Within.suffix {lo hi : Nat} {bs cs : List Item} (h : Within lo hi bs) (hc : cs <:+ bs) :
    Within lo hi cs := by
  obtain ⟨pre, rfl⟩ := hc
  obtain ⟨mid, h1, h2⟩ := within_append.mp h
  exact h2.mono h1.le (Nat.le_refl _)

theorem Within.apart {lo hi : Nat} {bs : List Item} (h : Within lo hi bs) {b c : Item}
    (hb : b ∈ bs) (hc : c ∈ bs) : b = c ∨ b.stop ≤ c.addr ∨ c.stop ≤ b.addr := by
  induction bs generalizing lo with
  | nil => simp at hb
  | cons d bs ih =>
    rcases List.mem_cons.mp hb with hbd | hb' <;> rcases List.mem_cons.mp hc with hcd | hc'
    · exact Or.inl (hbd.trans hcd.symm)
    · exact Or.inr (Or.inl (hbd ▸ (h.2.mem hc').1))
    · exact Or.inr (Or.inr (hcd ▸ (h.2.mem hb').1))
    · exact ih h.2 hb' hc'

theorem Within.eq_of_addr {lo hi : Nat} {bs : List Item} (h : Within lo hi bs) {b c : Item}
    (hb : b ∈ bs) (hc : c ∈ bs) (ha : b.addr = c.addr) : b = c := by
  rcases h.apart hb hc with rfl | h' | h'
  · rfl
  all_goals unfold Item.stop itemSizeof at h'; omega

theorem Within.length {lo hi : Nat} {bs : List Item} (h : Within lo hi bs) :
    lo + itemSizeof * bs.length ≤ hi := by
  induction bs generalizing lo with
  | nil => exact h
  | cons b bs ih =>
    have := ih h.2
    have := h.1
    simp only [List.length_cons]
    unfold Item.stop itemSizeof at *
    omega

/-! ## Coalescing -/

/-- `b` takes in the items after it while both are free. -/
def absorb (b : Item) : List Item → Item × List Item
  | [] => (b, [])
  | c :: cs =>
    if b.used = false ∧ c.used = false then absorb { b with size := b.size + itemSizeof + c.size } cs
    else (b, c :: cs)

theorem absorb_length (b : Item) (cs : List Item) : (absorb b cs).2.length ≤ cs.length := by
  induction cs generalizing b with
  | nil => simp [absorb]
  | cons c cs ih =>
    rw [absorb]
    split
    · exact Nat.le_succ_of_le (ih _)
    · exact Nat.le_refl _

def coalesce : List Item → List Item
  | [] => []
  | b :: bs => (absorb b bs).1 :: coalesce (absorb b bs).2
termination_by bs => bs.length
decreasing_by
  have := absorb_length b bs
  simp only [List.length_cons]
  omega

@[simp] theorem coalesce_nil : coalesce [] = [] := by rw [coalesce]

theorem coalesce_cons (b : Item) (bs : List Item) :
    coalesce (b :: bs) = (absorb b bs).1 :: coalesce (absorb b bs).2 := by rw [coalesce]

@[simp] theorem absorb_addr (b : Item) (cs : List Item) : (absorb b cs).1.addr = b.addr := by
  induction cs generalizing b with
  | nil => rfl
  | cons c cs ih => rw [absorb]; split <;> simp [ih]

@[simp] theorem absorb_used (b : Item) (cs : List Item) : (absorb b cs).1.used = b.used := by
  induction cs generalizing b with
  | nil => rfl
  | cons c cs ih => rw [absorb]; split <;> simp [ih]

theorem within_absorb {lo hi : Nat} {b : Item} {cs : List Item} (h : Within lo hi (b :: cs)) :
    Within lo hi ((absorb b cs).1 :: (absorb b cs).2) := by
  induction cs generalizing b with
  | nil => exact h
  | cons c cs ih =>
    rw [absorb]
    split
    · apply ih
      obtain ⟨h1, h2, h3⟩ := h
      refine ⟨h1, h3.mono ?_ (Nat.le_refl _)⟩
      unfold Item.stop at *
      dsimp only
      omega
    · exact h

theorem Within.coalesce {lo hi : Nat} {bs : List Item} (h : Within lo hi bs) :
    Within lo hi (coalesce bs) := by
  induction bs using coalesce.induct generalizing lo with
  | case1 => rw [coalesce_nil]; exact h
  | case2 b bs ih =>
    rw [coalesce_cons]
    obtain ⟨h1, h2⟩ := within_absorb h
    exact ⟨h1, ih h2⟩

theorem mem_absorb_of_used {b : Item} {cs : List Item} {u : Item} (hu : u.used = true)
    (h : u ∈ b :: cs) : u ∈ (absorb b cs).1 :: (absorb b cs).2 := by
  induction cs generalizing b with
  | nil => exact h
  | cons c cs ih =>
    rw [absorb]
    split
    · rename_i hfree
      apply ih
      rcases List.mem_cons.mp h with rfl | h
      · simp [hu] at hfree
      · rcases List.mem_cons.mp h with rfl | h
        · simp [hu] at hfree
        · exact List.mem_cons_of_mem _ h
    · exact h

theorem mem_coalesce_of_used {bs : List Item} {u : Item} (hu : u.used = true) (h : u ∈ bs) :
    u ∈ coalesce bs := by
  induction bs using coalesce.induct with
  | case1 => simp at h
  | case2 b bs ih =>
    rw [coalesce_cons]
    rcases List.mem_cons.mp (mem_absorb_of_used hu h) with h | h
    · rw [h]; exact List.mem_cons_self
    · exact List.mem_cons_of_mem _ (ih h)

/-! ## Lists with nothing left to coalesce -/

def Separated (bs : List Item) : Prop := bs.IsChain fun b c => b.used = true ∨ c.used = true

theorem Separated.tail {b : Item} {bs : List Item} (h : Separated (b :: bs)) : Separated bs :=
  List.IsChain.tail h

theorem absorb_of_separated {b : Item} {cs : List Item} (h : Separated (b :: cs)) :
    absorb b cs = (b, cs) := by
  cases cs with
  | nil => rfl
  | cons c cs =>
    rw [absorb, if_neg]
    rintro ⟨hb, hc⟩
    rcases (List.isChain_cons_cons.mp h).1 with h | h
    · simp [hb] at h
    · simp [hc] at h

theorem coalesce_append {pre : List Item} {c : Item} (h : Separated (pre ++ [c])) (cs : List Item) :
    coalesce (pre ++ c :: cs) = pre ++ coalesce (c :: cs) := by
  induction pre with
  | nil => rfl
  | cons d pre ih =>
    have hd : absorb d (pre ++ c :: cs) = (d, pre ++ c :: cs) := by
      cases pre with
      | nil =>
        rw [List.nil_append, absorb, if_neg]
        rintro ⟨hd, hc⟩
        simpa [hd, hc] using (List.isChain_cons_cons.mp h).1
      | cons e pre =>
        rw [List.cons_append, absorb, if_neg]
        rintro ⟨hd, he⟩
        simpa [hd, he] using (List.isChain_cons_cons.mp h).1
    rw [List.cons_append, coalesce_cons, hd]
    exact congrArg (d :: ·) (ih (Separated.tail h))

/-- What is left of the list once `b` has taken in what it can starts with an item it cannot. -/
theorem absorb_head (b : Item) (cs : List Item) :
    ∀ c ∈ (absorb b cs).2.head?, b.used = true ∨ c.used = true := by
  induction cs generalizing b with
  | nil => simp [absorb]
  | cons c cs ih =>
    rw [absorb]
    split
    · exact ih _
    · rename_i hne
      simpa [Classical.or_iff_not_imp_left] using hne

theorem coalesce_head_used (bs : List Item) :
    (coalesce bs).head?.map (·.used) = bs.head?.map (·.used) := by
  cases bs with
  | nil => simp
  | cons b bs => simp [coalesce_cons]

theorem separated_coalesce (bs : List Item) : Separated (coalesce bs) := by
  induction bs using coalesce.induct with
  | case1 => rw [coalesce_nil]; exact List.isChain_nil
  | case2 b bs ih =>
    rw [coalesce_cons]
    refine List.isChain_cons.mpr ⟨?_, ih⟩
    intro c hc
    have hused := coalesce_head_used (absorb b bs).2
    rw [Option.mem_def.mp hc] at hused
    obtain ⟨d, hd, hdc⟩ := Option.map_eq_some_iff.mp hused.symm
    have hdc : d.used = c.used := hdc
    rw [absorb_used, ← hdc]
    exact absorb_head b bs d hd

def freeHead : List Item → Nat
  | c :: _ => if c.used = false then itemSizeof + c.size else 0
  | [] => 0

theorem absorb_separated {b : Item} {cs : List Item} (hb : b.used = false) (h : Separated cs) :
    (absorb b cs).1 = { b with size := b.size + freeHead cs } ∧ (absorb b cs).2 <:+ cs := by
  cases cs with
  | nil => exact ⟨rfl, List.suffix_refl _⟩
  | cons c cs =>
    rw [absorb, freeHead]
    split
    · rename_i hfree
      have hsep : Separated ({ b with size := b.size + itemSizeof + c.size } :: cs) := by
        refine List.isChain_cons.mpr ⟨fun d hd => Or.inr ?_, List.IsChain.tail h⟩
        exact ((List.isChain_cons.mp h).1 d hd).resolve_left (by simp [hfree.2])
      rw [absorb_of_separated hsep, if_pos hfree.2, Nat.add_assoc]
      exact ⟨rfl, List.suffix_cons _ _⟩
    · rename_i hne
      rw [if_neg fun hc => hne ⟨hb, hc⟩]
      exact ⟨rfl, List.suffix_refl _⟩

end SystemProjects.Heap
