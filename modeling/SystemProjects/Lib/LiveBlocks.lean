import SystemProjects.Lib.Run

/-!
# Heaps as sets of live blocks

A block is known by its address. Nothing can be said of the memory of a block that is not live.
-/

namespace SystemProjects.LiveBlocks

variable {α : Type*} {a e : Nat} {b c : α}

/-- The contents of the live blocks. -/
abbrev Heap (α : Type*) := Nat → Option α

def set (h : Heap α) (a : Nat) (b : Option α) : Heap α := fun x => if x = a then b else h x

/-- A new block, at an address that no live one has. -/
def alloc (h : Heap α) (a : Nat) (b : α) : Option (Heap α) :=
    if (h a).isNone then some (set h a (some b)) else none

def free (h : Heap α) (a : Nat) : Option (Heap α) := if (h a).isSome then some (set h a none) else none

def write (h : Heap α) (a : Nat) (b : α) : Option (Heap α) :=
    if (h a).isSome then some (set h a (some b)) else none

variable {h h' : Heap α}

@[simp] theorem set_self {o : Option α} : set h a o a = o := if_pos rfl

@[simp] theorem set_other {o : Option α} (hae : e ≠ a) : set h a o e = h e := if_neg hae

theorem alloc_fresh (ha : h a = none) : alloc h a b = some (set h a (some b)) := if_pos (by rw [ha]; rfl)

theorem free_live (ha : h a = some b) : free h a = some (set h a none) := if_pos (by rw [ha]; rfl)

theorem write_live (ha : h a = some b) : write h a c = some (set h a (some c)) := if_pos (by rw [ha]; rfl)

theorem set_set {o o' : Option α} : set (set h a o) a o' = set h a o' := by
  funext x
  simp only [set]
  split <;> rfl

theorem set_comm {o o' : Option α} (hae : a ≠ e) : set (set h a o) e o' = set (set h e o') a o := by
  funext x
  simp only [set]
  by_cases hx : x = e
  · rw [if_pos hx, if_neg (by rw [hx]; exact hae.symm), if_pos hx]
  · rw [if_neg hx, if_neg hx]

theorem set_none (ha : h a = none) (o : Option α) : set (set h a o) a none = h := by
  funext x
  simp only [set]
  split
  case isTrue hx => rw [hx, ha]
  case isFalse => rfl

/-! ## Heaps that differ in one block -/

/-- `h'` has all blocks of `h`, and `c` at `e`. -/
structure OneMore (e : Nat) (c : α) (h h' : Heap α) : Prop where
  fresh : h e = none
  extra : h' e = some c
  same : ∀ a, a ≠ e → h' a = h a

theorem oneMore_set (he : h e = none) (c : α) : OneMore e c h (set h e (some c)) :=
  ⟨he, set_self, fun _ ha => set_other ha⟩

theorem OneMore.set (hm : OneMore e c h h') (ha : a ≠ e) (o : Option α) :
    OneMore e c (LiveBlocks.set h a o) (LiveBlocks.set h' a o) := by
  refine ⟨(set_other ha.symm).trans hm.fresh, (set_other ha.symm).trans hm.extra, fun x hx => ?_⟩
  rw [LiveBlocks.set, LiveBlocks.set, hm.same x hx]

/-- What the blocks but the one at `e` decide, they decide in both heaps. -/
theorem OneMore.guarded (hm : OneMore e c h h') (ha : a ≠ e) (p : Option α → Bool) (o : Option α) :
    Option.Rel (OneMore e c) (if p (h a) then some (LiveBlocks.set h a o) else none)
      (if p (h' a) then some (LiveBlocks.set h' a o) else none) := by
  rw [hm.same a ha]
  split
  · exact .some (hm.set ha o)
  · exact .none

theorem OneMore.alloc (hm : OneMore e c h h') (ha : a ≠ e) (b : α) :
    Option.Rel (OneMore e c) (alloc h a b) (alloc h' a b) := hm.guarded ha Option.isNone _

theorem OneMore.free (hm : OneMore e c h h') (ha : a ≠ e) : Option.Rel (OneMore e c) (free h a) (free h' a) :=
  hm.guarded ha Option.isSome _

theorem OneMore.write (hm : OneMore e c h h') (ha : a ≠ e) (b : α) :
    Option.Rel (OneMore e c) (write h a b) (write h' a b) := hm.guarded ha Option.isSome _

end SystemProjects.LiveBlocks
