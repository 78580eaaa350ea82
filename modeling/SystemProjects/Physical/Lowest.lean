import SystemProjects.Physical.Proofs
import Mathlib.Order.Bounds.Basic

/-!
# Which page is allocated

High memory first, and in each part of memory the lowest page that is free.
-/

open SystemProjects.Memory SystemProjects.Bitmap

namespace SystemProjects.Physical

variable {s s' : State} {low high a : Nat}

/-- The free pages from `low` up to `high`. -/
def freePages (s : State) (low high : Nat) : Set Nat :=
  {a | low ≤ a ∧ a < high ∧ a % size4kb = 0 ∧ Free s a}

/-- What a search among `pages` returns: `NULL` and nothing is changed, or the lowest page, which is taken now. -/
inductive Found (s : State) (pages : Set Nat) : State → Nat → Prop
  | none (h : pages = ∅) : Found s pages s 0
  | least {s' : State} {a : Nat} (h : IsLeast pages a) (took : TookPage s s' a) : Found s pages s' a

theorem freePages_empty (h : high ≤ low) : freePages s low high = ∅ := by
  apply Set.eq_empty_of_forall_notMem
  rintro a ⟨hlow, hhigh, -⟩
  omega

theorem freePages_skip (hal : low % size4kb = 0) (h : ¬ Free s low) :
    freePages s low high = freePages s (low + size4kb) high := by
  ext a
  constructor
  · rintro ⟨hlow, hhigh, haligned, hfree⟩
    have hne : a ≠ low := by
      rintro rfl
      exact h hfree
    refine ⟨?_, hhigh, haligned, hfree⟩
    unfold size4kb at *
    omega
  · rintro ⟨hlow, hrest⟩
    exact ⟨by omega, hrest⟩

theorem allocLimit_found (hs : Inv s) (hh : high ≤ s.physicalMaxAddress) (hha : high % size4kb = 0) :
    ∀ fuel low s' a, low % size4kb = 0 → physicalPageAllocLimit fuel s low high = some (s', a) →
      Found s (freePages s low high) s' a := by
  have hlt := hs.lt
  intro fuel
  induction fuel with
  | zero =>
    intro low s' a _ h
    simp [physicalPageAllocLimit] at h
  | succ fuel ih =>
    intro low s' a hal h
    rw [physicalPageAllocLimit] at h
    split at h
    case isTrue hend =>
      have hin := hs.inBitmap (Nat.lt_of_lt_of_le hend hh)
      rw [isPageFree_eq hin, Option.bind_some] at h
      cases hset : isSet s.physicalBitmap (pageOf low) with
      | true =>
        -- The page is taken, so the pages from the next one on are all that can be found.
        have hnot : ¬ Free s low := by
          rw [free_iff hin, hset]
          simp
        have hnext : dword (low + size4kb) = low + size4kb := by
          unfold dword size4kb at *
          omega
        rw [hset, if_pos rfl, if_neg (by decide), hnext] at h
        rw [freePages_skip hal hnot]
        apply ih _ _ _ _ h
        unfold size4kb at *
        omega
      | false =>
        obtain ⟨s1, hs1, htook⟩ := allocAddress_spec hin
        rw [hset, if_neg Bool.false_ne_true, if_pos rfl, hs1] at h
        obtain ⟨rfl, rfl⟩ := Prod.mk.inj (Option.some.inj h)
        refine .least ⟨⟨Nat.le_refl _, hend, hal, (free_iff hin).mpr hset⟩, ?_⟩ htook
        exact fun b hb => hb.1
    case isFalse hend =>
      obtain ⟨rfl, rfl⟩ := Prod.mk.inj (Option.some.inj h)
      exact .none (freePages_empty (by omega))

theorem pageAllocHigh_found (hs : Inv s) (h : physicalPageAllocHigh s = some (s', a)) :
    Found s (freePages s physicalHighPaddress s.physicalMaxAddress) s' a := by
  rw [physicalPageAllocHigh] at h
  split at h
  · exact allocLimit_found hs (Nat.le_refl _) hs.aligned _ _ _ _ rfl h
  · obtain ⟨rfl, rfl⟩ := Prod.mk.inj (Option.some.inj h)
    exact .none (freePages_empty (by omega))

theorem pageAllocLow_found (hs : Inv s) (h : physicalPageAllocLow s = some (s', a)) :
    Found s (freePages s physicalLowPaddress (min physicalHighPaddress s.physicalMaxAddress)) s' a := by
  rw [physicalPageAllocLow] at h
  split at h
  case isTrue hmax =>
    rw [Nat.min_eq_right (Nat.le_of_lt hmax)]
    exact allocLimit_found hs (Nat.le_refl _) hs.aligned _ _ _ _ rfl h
  case isFalse hmax =>
    rw [Nat.min_eq_left (Nat.le_of_not_lt hmax)]
    exact allocLimit_found hs (by omega) rfl _ _ _ _ rfl h

theorem freePages_split (s : State) : freePages s physicalLowPaddress s.physicalMaxAddress =
    freePages s physicalLowPaddress (min physicalHighPaddress s.physicalMaxAddress) ∪
      freePages s physicalHighPaddress s.physicalMaxAddress := by
  ext a
  constructor
  · rintro ⟨hlow, hhigh, hrest⟩
    rcases Nat.lt_or_ge a physicalHighPaddress with h | h
    · exact .inl ⟨hlow, Nat.lt_min.mpr ⟨h, hhigh⟩, hrest⟩
    · exact .inr ⟨h, hhigh, hrest⟩
  · rintro (⟨hlow, hhigh, hrest⟩ | ⟨hlow, hhigh, hrest⟩)
    · exact ⟨hlow, (Nat.lt_min.mp hhigh).2, hrest⟩
    · refine ⟨?_, hhigh, hrest⟩
      unfold physicalHighPaddress physicalLowPaddress size4kb at *
      omega

theorem pos_of_mem_freePages (h : a ∈ freePages s low high) (hlow : physicalLowPaddress ≤ low) : a ≠ 0 := by
  have := h.1
  unfold physicalLowPaddress size4kb at hlow
  omega

theorem pageAlloc_found (hs : Inv s) (h : physicalPageAlloc s = some (s', a)) :
    (IsLeast (freePages s physicalHighPaddress s.physicalMaxAddress) a ∧ TookPage s s' a) ∨
      freePages s physicalHighPaddress s.physicalMaxAddress = ∅ ∧
        Found s (freePages s physicalLowPaddress (min physicalHighPaddress s.physicalMaxAddress)) s' a := by
  obtain ⟨⟨s1, a1⟩, h1, h⟩ := Option.bind_eq_some_iff.mp h
  dsimp only at h
  cases pageAllocHigh_found hs h1 with
  | none hempty =>
    -- Nothing above 16 MB: the search below starts from the same state.
    rw [if_pos rfl] at h
    exact .inr ⟨hempty, pageAllocLow_found hs h⟩
  | least hleast took =>
    rw [if_neg (pos_of_mem_freePages hleast.1 (by decide))] at h
    obtain ⟨rfl, rfl⟩ := Prod.mk.inj (Option.some.inj h)
    exact .inl ⟨hleast, took⟩

/-- **The page that is allocated.** The lowest free page from 16 MB on, else the lowest one below, else `NULL`. -/
theorem pageAlloc_lowest (s : State) (hmax : s.physicalMaxAddress % (size1kb * size1kb) = 0)
    (hlt : s.physicalMaxAddress < 2 ^ 32) (hfits :
    s.physicalMaxAddress ≤ s.physicalBitmapSize * (8 * size4kb)) :
    ∃ s' a, physicalPageAlloc s = some (s', a) ∧
      ((freePages s physicalHighPaddress s.physicalMaxAddress).Nonempty →
        IsLeast (freePages s physicalHighPaddress s.physicalMaxAddress) a) ∧
      (freePages s physicalHighPaddress s.physicalMaxAddress = ∅ →
        (freePages s physicalLowPaddress (min physicalHighPaddress s.physicalMaxAddress)).Nonempty →
        IsLeast (freePages s physicalLowPaddress (min physicalHighPaddress s.physicalMaxAddress)) a) ∧
      (a = 0 ↔ freePages s physicalLowPaddress s.physicalMaxAddress = ∅) ∧
      (a = 0 → s' = s) ∧ (a ≠ 0 → TookPage s s' a) := by
  have hs : Inv s := by
    refine ⟨hfits, ?_, hlt⟩
    unfold size1kb at hmax
    unfold size4kb
    omega
  obtain ⟨s', a, h, -⟩ := pageAlloc_spec hs
  refine ⟨s', a, h, ?_⟩
  rw [freePages_split]
  rcases pageAlloc_found hs h with ⟨hleast, took⟩ | ⟨hhigh, hempty | ⟨hleast, took⟩⟩
  · have hpos := pos_of_mem_freePages hleast.1 (by decide)
    refine ⟨fun _ => hleast, fun hempty => ?_, ?_, fun h0 => absurd h0 hpos, fun _ => took⟩
    · exact absurd hempty (Set.Nonempty.ne_empty ⟨a, hleast.1⟩)
    · exact iff_of_false hpos (Set.Nonempty.ne_empty ⟨a, .inr hleast.1⟩)
  · refine ⟨fun hne => absurd hhigh hne.ne_empty, fun _ hne => absurd hempty hne.ne_empty, ?_,
      fun _ => rfl, ?_⟩
    · simp [hhigh, hempty]
    · exact fun hne => absurd rfl hne
  · have hpos := pos_of_mem_freePages hleast.1 (Nat.le_refl _)
    refine ⟨fun hne => absurd hhigh hne.ne_empty, fun _ _ => hleast, ?_, fun h0 => absurd h0 hpos,
      fun _ => took⟩
    exact iff_of_false hpos (Set.Nonempty.ne_empty ⟨a, .inl hleast.1⟩)

/-- One megabyte of memory, all of it free. -/
theorem pageAlloc_lowest_1mb :
    ∃ s' a, physicalPageAlloc ⟨fun _ => 0, 32, 2 ^ 20⟩ = some (s', a) ∧
      (a = 0 ↔ freePages ⟨fun _ => 0, 32, 2 ^ 20⟩ physicalLowPaddress (2 ^ 20) = ∅) := by
  obtain ⟨s', a, h, -, -, hnull, -⟩ := pageAlloc_lowest ⟨fun _ => 0, 32, 2 ^ 20⟩ (by decide)
    (by decide) (by decide)
  exact ⟨s', a, h, hnull⟩

end SystemProjects.Physical
