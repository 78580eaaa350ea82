import Mathlib.Data.List.Basic
import Mathlib.Data.List.Nodup

/-!
# Linked lists

`next` gives the link of each cell and `e` is the mark at the end.
-/

namespace SystemProjects.Lists

variable {α : Type*} {next next' : α → α} {e a b x : α} {xs ys zs : List α}

/-- The cells from `a` up to the end mark are `xs`. -/
def Links (next : α → α) (e : α) : α → List α → Prop
  | a, [] => a = e
  | a, x :: xs => a = x ∧ x ≠ e ∧ Links next e (next x) xs

theorem links_nil : Links next e a [] ↔ a = e := Iff.rfl

theorem links_end : Links next e e xs ↔ xs = [] := by
  cases xs with
  | nil => simp [Links]
  | cons x xs =>
    simp only [Links, reduceCtorEq, iff_false, not_and]
    rintro rfl h
    exact absurd rfl h

theorem Links.ne_end (h : Links next e a xs) (hx : x ∈ xs) : x ≠ e := by
  induction xs generalizing a with
  | nil => simp at hx
  | cons y ys ih =>
    rcases List.mem_cons.mp hx with rfl | hx
    · exact h.2.1
    · exact ih h.2.2 hx

theorem Links.unique (h : Links next e a xs) (h' : Links next e a ys) : xs = ys := by
  induction xs generalizing a ys with
  | nil => exact (links_end.mp (h ▸ h')).symm
  | cons x xs ih =>
    obtain ⟨rfl, hx, h⟩ := h
    cases ys with
    | nil => exact absurd h' hx
    | cons y ys =>
      obtain ⟨rfl, -, h'⟩ := h'
      rw [ih h h']

theorem Links.suffix (h : Links next e a (xs ++ x :: ys)) : Links next e x (x :: ys) := by
  induction xs generalizing a with
  | nil => obtain ⟨rfl, h⟩ := h; exact ⟨rfl, h⟩
  | cons z zs ih => exact ih h.2.2

theorem Links.next_eq (h : Links next e a (xs ++ x :: b :: ys)) : next x = b := h.suffix.2.2.1

theorem Links.last_eq (h : Links next e a (xs ++ [x])) : next x = e := h.suffix.2.2

theorem Links.nodup (h : Links next e a xs) : xs.Nodup := by
  induction xs generalizing a with
  | nil => exact List.nodup_nil
  | cons x xs ih =>
    refine List.nodup_cons.mpr ⟨fun hx => ?_, ih h.2.2⟩
    obtain ⟨us, vs, rfl⟩ := List.append_of_mem hx
    have hself : Links next e x (x :: (us ++ x :: vs)) := ⟨rfl, h.2⟩
    have heq := hself.unique h.2.2.suffix
    have hlen := congrArg List.length heq
    simp at hlen
    omega

theorem Links.congr (h : Links next e a xs) (hn : ∀ x ∈ xs, next' x = next x) : Links next' e a xs := by
  induction xs generalizing a with
  | nil => exact h
  | cons x xs ih =>
    obtain ⟨rfl, hx, h⟩ := h
    refine ⟨rfl, hx, ?_⟩
    rw [hn a List.mem_cons_self]
    exact ih h fun y hy => hn y (List.mem_cons_of_mem _ hy)

theorem Links.replace (h : Links next e a (xs ++ x :: ys)) (hn : ∀ y ∈ xs, next' y = next y)
    (h' : Links next' e x (x :: zs)) : Links next' e a (xs ++ x :: zs) := by
  induction xs generalizing a with
  | nil => obtain ⟨rfl, -⟩ := h; exact h'
  | cons y xs ih =>
    obtain ⟨rfl, hy, h⟩ := h
    refine ⟨rfl, hy, ?_⟩
    rw [hn a List.mem_cons_self]
    exact ih h fun z hz => hn z (List.mem_cons_of_mem _ hz)

theorem Links.snoc (h : Links next e a (xs ++ [x])) (hn : ∀ y ∈ xs, next' y = next y)
    (hx : next' x = b) (hb : b ≠ e) (hnb : next' b = e) : Links next' e a (xs ++ [x, b]) := by
  apply h.replace hn
  have hxe : x ≠ e := h.ne_end (by simp)
  exact ⟨rfl, hxe, hx, hb, hnb⟩

theorem exists_links [DecidableEq α] (hnodup : xs.Nodup) (he : e ∉ xs) : ∃ next a, Links next e a xs := by
  induction xs with
  | nil => exact ⟨id, e, rfl⟩
  | cons x xs ih =>
    obtain ⟨hx, hnodup⟩ := List.nodup_cons.mp hnodup
    rw [List.mem_cons, not_or] at he
    obtain ⟨next, a, h⟩ := ih hnodup he.2
    refine ⟨Function.update next x a, x, rfl, Ne.symm he.1, ?_⟩
    rw [Function.update_self]
    apply h.congr
    rintro y hy
    apply Function.update_of_ne
    rintro rfl
    exact hx hy

/-- Where one cell at most passes the test, the order of the search does not matter. -/
theorem find?_eq_of_perm {p : α → Bool} (hperm : ys.Perm xs)
    (hone : ∀ x ∈ xs, ∀ y ∈ xs, p x = true → p y = true → x = y) : ys.find? p = xs.find? p := by
  cases hx : xs.find? p with
  | none =>
    rw [List.find?_eq_none] at hx ⊢
    exact fun y hy => hx y (hperm.mem_iff.mp hy)
  | some x =>
    have hxp := List.find?_some hx
    have hxmem := List.mem_of_find?_eq_some hx
    cases hy : ys.find? p with
    | none => exact absurd hxp (List.find?_eq_none.mp hy x (hperm.mem_iff.mpr hxmem))
    | some y =>
      have hymem := hperm.mem_iff.mp (List.mem_of_find?_eq_some hy)
      rw [hone y hymem x hxmem (List.find?_some hy) hxp]

end SystemProjects.Lists
