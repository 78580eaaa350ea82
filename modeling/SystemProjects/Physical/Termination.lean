import SystemProjects.Physical.MemoryMap
import Mathlib.Data.Set.Card

/-!
# When the loops over the memory map end

The page loop compares 32-bit addresses. It ends unless it has to step over the end of the address space.
-/

open SystemProjects.Memory SystemProjects.Bitmap

namespace SystemProjects.Physical

variable {m : MultibootInfo} {s s' : State} {x y z : Nat}

def nextEntry (m : MultibootInfo) (mmap : Nat) : Nat := dword (mmap + (m.entry mmap).size + 4)

def regionStop (e : MultibootMemoryMap) : Nat := dword (e.baseLow + e.lengthLow)

def entryPages (m : MultibootInfo) (s : State) (mmap : Nat) : Option State :=
  if (m.entry mmap).type = multibootMmapAvailable then
    eachPage physicalPageFree (regionStop (m.entry mmap)) pageFuel s (m.entry mmap).baseLow
  else some s

theorem eachEntry_succ (m : MultibootInfo) (fuel : Nat) (s : State) (x : Nat) : eachEntry m (fuel + 1) s x =
    if x < dword (m.mmap + m.mmapLength) then
      (entryPages m s x).bind fun s' => eachEntry m fuel s' (nextEntry m x)
    else some s := rfl

/-- The scan ends. Fuel `n + 1` is for `n` steps and the test that ends the loop. -/
structure ScanEnds (m : MultibootInfo) (s : State) : Prop where
  returns : ∃ s', eachEntry m (2 ^ 32) s m.mmap = some s'
  reaches : ∃ k, m.mmap + m.mmapLength ≤ (nextEntry m)^[k] m.mmap
  pages : ∀ y, EntryFrom m m.mmap y → (m.entry y).type = multibootMmapAvailable → ∀ s', SameBounds s s' →
    ∃ s'', eachPage physicalPageFree (regionStop (m.entry y)) ((m.entry y).lengthLow / size4kb + 1 + 1) s'
      (m.entry y).baseLow = some s''

/-- Some page of the loop is at `regionStop` or above. -/
def StopReached (e : MultibootMemoryMap) : Prop := regionStop e ≤ 2 ^ 32 - size4kb + e.baseLow % size4kb

def LeadsBack (m : MultibootInfo) (y : Nat) : Prop := EntryFrom m (nextEntry m y) y

/-! ## The page loop -/

theorem eachPage_returns {body : State → Nat → Option State} {I : State → Prop} {stop : Nat}
    (hbody : ∀ s a, I s → a < stop → ∃ s', body s a = some s' ∧ I s') :
    ∀ fuel s a, I s → a < 2 ^ 32 → stop ≤ 2 ^ 32 - size4kb + a % size4kb → stop ≤ a + fuel * size4kb →
      ∃ s', eachPage body stop (fuel + 1) s a = some s' := by
  intro fuel
  induction fuel with
  | zero =>
    intro s a _ _ _ hfuel
    exact ⟨s, if_neg (by omega)⟩
  | succ fuel ih =>
    intro s a hs ha hstop hfuel
    rw [eachPage]
    split
    case isTrue hlt =>
      obtain ⟨s1, h1, hs1⟩ := hbody s a hs hlt
      -- The loop goes on below `stop`, so the next page is in the address space.
      have hnext : dword (a + size4kb) = a + size4kb := by
        unfold dword size4kb at *
        omega
      rw [h1, Option.bind_some, hnext]
      apply ih s1 _ hs1
      all_goals
        unfold size4kb at *
        omega
    case isFalse => exact ⟨s, rfl⟩

theorem eachPage_ends {stop : Nat} :
    ∀ fuel s a, Inv s → a < 2 ^ 32 → stop ≤ 2 ^ 32 - size4kb + a % size4kb → stop ≤ a + fuel * size4kb →
      ∃ s', eachPage physicalPageFree stop (fuel + 1) s a = some s' := by
  apply eachPage_returns
  intro s a hs _
  obtain ⟨s1, h1, hb, -⟩ := pageFree_spec (a := a) hs.inBitmap
  exact ⟨s1, h1, hs.of_sameBounds hb⟩

theorem entryPages_ends (hs : Inv s) (hbase : (m.entry x).baseLow < 2 ^ 32)
    (hx : (m.entry x).type = multibootMmapAvailable → StopReached (m.entry x)) :
    ∃ s', entryPages m s x = some s' ∧ SameBounds s s' := by
  rw [entryPages]
  split
  case isFalse => exact ⟨s, rfl, rfl, rfl⟩
  case isTrue htype =>
    have hstop : regionStop (m.entry x) < 2 ^ 32 := Nat.mod_lt _ (by decide)
    obtain ⟨s', h⟩ := eachPage_ends (2 ^ 20) s _ hs hbase (hx htype) (by unfold size4kb; omega)
    exact ⟨s', h, eachPage_bounds (fun _ _ _ => pageFree_bounds) _ _ _ _ h⟩

theorem entryPages_none (hbase : (m.entry x).baseLow < 2 ^ 32)
    (htype : (m.entry x).type = multibootMmapAvailable)
    (hx : ¬ StopReached (m.entry x)) : entryPages m s x = none := by
  rw [entryPages, if_pos htype]
  exact eachPage_wrap _ _ _ hbase (Nat.lt_of_not_le hx)

theorem regionStop_le (e : MultibootMemoryMap) :
    regionStop e ≤ e.baseLow + (e.lengthLow / size4kb + 1) * size4kb := by
  have : regionStop e ≤ e.baseLow + e.lengthLow := Nat.mod_le _ _
  unfold size4kb
  omega

/-! ## The walk -/

theorem entryFrom_lt (h : EntryFrom m x y) : x < dword (m.mmap + m.mmapLength) := by
  cases h <;> assumption

theorem entryFrom_lt_right (h : EntryFrom m x y) : y < dword (m.mmap + m.mmapLength) := by
  induction h with
  | here h => exact h
  | next _ _ ih => exact ih

theorem EntryFrom.trans (h : EntryFrom m x y) (h' : EntryFrom m y z) : EntryFrom m x z := by
  induction h with
  | here _ => exact h'
  | next hlt _ ih => exact .next hlt (ih h')

theorem entryFrom_down (h : EntryFrom m x y) (hxy : y < x) :
    ∃ z, EntryFrom m x z ∧ 2 ^ 32 ≤ z + (m.entry z).size + 4 ∧ EntryFrom m (nextEntry m z) y := by
  induction h with
  | here _ => omega
  | @next mmap y hlt hy ih =>
    rcases Nat.lt_or_ge (mmap + (m.entry mmap).size + 4) (2 ^ 32) with hsmall | hbig
    · rw [dword, Nat.mod_eq_of_lt hsmall] at hy ih
      obtain ⟨z, hz, hover, hback⟩ := ih (by omega)
      refine ⟨z, .next hlt ?_, hover, hback⟩
      rwa [dword, Nat.mod_eq_of_lt hsmall]
    · exact ⟨mmap, .here hlt, hbig, hy⟩

theorem not_leadsBack (hover : ∀ y, EntryFrom m x y → 2 ^ 32 ≤ y + (m.entry y).size + 4 → ¬ LeadsBack m y)
    (hy : EntryFrom m x y) : ¬ LeadsBack m y := by
  intro hback
  rcases Nat.lt_or_ge (y + (m.entry y).size + 4) (2 ^ 32) with hsmall | hbig
  · have hup : y < nextEntry m y := by
      rw [nextEntry, dword, Nat.mod_eq_of_lt hsmall]
      omega
    obtain ⟨z, hz, hbig, hdown⟩ := entryFrom_down hback hup
    -- `y` and `z` are on one cycle.
    have hyz : EntryFrom m y z := .next (entryFrom_lt_right hy) hz
    exact hover z (hy.trans hyz) hbig (hdown.trans hyz)
  · exact hover y hy hbig hback

theorem entries_subset (m : MultibootInfo) (x : Nat) :
    {y | EntryFrom m x y} ⊆ (Finset.range (dword (m.mmap + m.mmapLength)) : Set Nat) := by
  intro y hy
  rw [Finset.coe_range]
  exact entryFrom_lt_right hy

theorem entries_finite (m : MultibootInfo) (x : Nat) : {y | EntryFrom m x y}.Finite :=
  (Finset.finite_toSet _).subset (entries_subset m x)

theorem entries_few (m : MultibootInfo) (x : Nat) : {y | EntryFrom m x y}.ncard < 2 ^ 32 := by
  have hle := Set.ncard_le_ncard (entries_subset m x) (Finset.finite_toSet _)
  rw [Set.ncard_coe_finset, Finset.card_range] at hle
  exact Nat.lt_of_le_of_lt hle (Nat.mod_lt _ (by decide))

theorem entries_decrease (hx : x < dword (m.mmap + m.mmapLength)) (hback : ¬ LeadsBack m x) :
    {y | EntryFrom m (nextEntry m x) y}.ncard < {y | EntryFrom m x y}.ncard := by
  apply Set.ncard_lt_ncard _ (entries_finite m x)
  refine ⟨fun y hy => .next hx hy, fun hsub => ?_⟩
  exact hback (hsub (.here hx))

theorem eachEntry_ends (hbase : ∀ y, (m.entry y).baseLow < 2 ^ 32) :
    ∀ fuel s x, Inv s →
      (∀ y, EntryFrom m x y → (m.entry y).type = multibootMmapAvailable → StopReached (m.entry y)) →
      (∀ y, EntryFrom m x y → ¬ LeadsBack m y) → {y | EntryFrom m x y}.ncard < fuel →
      ∃ s', eachEntry m fuel s x = some s' := by
  intro fuel
  induction fuel with
  | zero => intro s x _ _ _ h; exact absurd h (Nat.not_lt_zero _)
  | succ fuel ih =>
    intro s x hs hstop hback hfuel
    rw [eachEntry_succ]
    split
    case isFalse => exact ⟨s, rfl⟩
    case isTrue hlt =>
      obtain ⟨s1, h1, hb⟩ := entryPages_ends hs (hbase x) (hstop x (.here hlt))
      have hless := entries_decrease hlt (hback x (.here hlt))
      rw [h1, Option.bind_some]
      apply ih s1 _ (hs.of_sameBounds hb)
      · exact fun y hy => hstop y (.next hlt hy)
      · exact fun y hy => hback y (.next hlt hy)
      · exact Nat.lt_of_lt_of_le hless (Nat.le_of_lt_succ hfuel)

/-- An entry whose page loop does not end, or that the walk comes back to, holds the walk up for good. -/
theorem eachEntry_none (hbase : ∀ y, (m.entry y).baseLow < 2 ^ 32)
    (hz : (m.entry z).type = multibootMmapAvailable ∧ ¬ StopReached (m.entry z) ∨ LeadsBack m z) :
    ∀ fuel s x, EntryFrom m x z → eachEntry m fuel s x = none := by
  intro fuel
  induction fuel with
  | zero => intro s x _; rfl
  | succ fuel ih =>
    intro s x hx
    rw [eachEntry_succ, if_pos (entryFrom_lt hx), Option.bind_eq_none_iff]
    intro s1 h1
    cases hx with
    | next _ hx => exact ih s1 _ hx
    | here _ =>
      rcases hz with ⟨htype, hstop⟩ | hback
      · rw [entryPages_none (hbase z) htype hstop] at h1
        cases h1
      · exact ih s1 _ hback

theorem eachEntry_reaches :
    ∀ fuel s x s', eachEntry m fuel s x = some s' →
      ∃ k, dword (m.mmap + m.mmapLength) ≤ (nextEntry m)^[k] x := by
  intro fuel
  induction fuel with
  | zero => intro s x s' h; simp [eachEntry] at h
  | succ fuel ih =>
    intro s x s' h
    rw [eachEntry_succ] at h
    split at h
    case isTrue =>
      obtain ⟨s1, -, h⟩ := Option.bind_eq_some_iff.mp h
      obtain ⟨k, hk⟩ := ih s1 _ s' h
      exact ⟨k + 1, hk⟩
    case isFalse hend => exact ⟨0, Nat.le_of_not_lt hend⟩

theorem iterate_nextEntry_lt (hm : m.mmap < 2 ^ 32) (k : Nat) : (nextEntry m)^[k] m.mmap < 2 ^ 32 := by
  cases k with
  | zero => exact hm
  | succ k =>
    rw [Function.iterate_succ_apply']
    exact Nat.mod_lt _ (by decide)

/-- **The scan of the memory map.** It ends exactly when no page loop has to step over the end of the address space
and no entry does so and leads back to itself. -/
theorem scanEnds_iff (m : MultibootInfo) (s : State) (hs : Inv s) (hm : m.mmap < 2 ^ 32)
    (hbase : ∀ y, (m.entry y).baseLow < 2 ^ 32) :
    ScanEnds m s ↔ m.mmap + m.mmapLength < 2 ^ 32 ∧
      (∀ y, EntryFrom m m.mmap y → (m.entry y).type = multibootMmapAvailable → StopReached (m.entry y)) ∧
      (∀ y, EntryFrom m m.mmap y → 2 ^ 32 ≤ y + (m.entry y).size + 4 → ¬ LeadsBack m y) := by
  constructor
  · rintro ⟨⟨s', hreturns⟩, ⟨k, hreaches⟩, -⟩
    have hnone : ∀ y, EntryFrom m m.mmap y →
        ¬ ((m.entry y).type = multibootMmapAvailable ∧ ¬ StopReached (m.entry y) ∨ LeadsBack m y) := by
      intro y hy hbad
      rw [eachEntry_none hbase hbad _ _ _ hy] at hreturns
      cases hreturns
    refine ⟨Nat.lt_of_le_of_lt hreaches (iterate_nextEntry_lt hm k), fun y hy htype => ?_,
      fun y hy _ hback => ?_⟩
    · by_contra hstop
      exact hnone y hy (.inl ⟨htype, hstop⟩)
    · exact hnone y hy (.inr hback)
  · rintro ⟨hend, hstop, hover⟩
    obtain ⟨s', hreturns⟩ := eachEntry_ends hbase (2 ^ 32) s m.mmap hs hstop (fun y => not_leadsBack hover)
      (entries_few m _)
    obtain ⟨k, hk⟩ := eachEntry_reaches _ _ _ _ hreturns
    rw [dword, Nat.mod_eq_of_lt hend] at hk
    refine ⟨⟨s', hreturns⟩, ⟨k, hk⟩, fun y hy htype s' hb => ?_⟩
    exact eachPage_ends _ s' _ (hs.of_sameBounds hb) (hbase y) (hstop y hy htype) (regionStop_le _)

theorem oneRegion_1000_scanned : ScanEnds (oneRegion 0x1000 0x1000) ⟨fun _ => 0xFF, 64, 2 ^ 21⟩ := by
  refine (scanEnds_iff (oneRegion 0x1000 0x1000) ⟨fun _ => 0xFF, 64, 2 ^ 21⟩ ⟨by decide, by decide, by decide⟩
    (by decide) (fun _ => (by decide : 0x1000 < 2 ^ 32))).mpr
      ⟨by decide, fun y _ _ => ?_, fun y hy hover => ?_⟩
  · exact (by decide : dword (0x1000 + 0x1000) ≤ 2 ^ 32 - size4kb + 0x1000 % size4kb)
  · have hlt : y < 24 := entryFrom_lt_right hy
    have hsize : 2 ^ 32 ≤ y + 20 + 4 := hover
    omega

/-- An available region up to the last byte below 4 GB: the scan never ends. -/
theorem oneRegion_4gb_not_scanned :
    (∀ fuel s, eachEntry (oneRegion 0 0xFFFFFFFF) fuel s 0 = none) ∧
      ∀ s, ¬ ScanEnds (oneRegion 0 0xFFFFFFFF) s := by
  have hstop : ¬ StopReached ⟨20, 0, 0xFFFFFFFF, 1⟩ := by
    unfold StopReached regionStop
    decide
  have hnone : ∀ fuel s, eachEntry (oneRegion 0 0xFFFFFFFF) fuel s 0 = none := by
    intro fuel s
    have hbase : ∀ y, ((oneRegion 0 0xFFFFFFFF).entry y).baseLow < 2 ^ 32 :=
      fun _ => (by decide : 0 < 2 ^ 32)
    exact eachEntry_none (z := 0) hbase (.inl ⟨rfl, hstop⟩) fuel s 0 (.here (by decide))
  refine ⟨hnone, fun s hends => ?_⟩
  obtain ⟨s', h⟩ := hends.returns
  rw [show (oneRegion 0 0xFFFFFFFF).mmap = 0 from rfl, hnone] at h
  cases h

end SystemProjects.Physical
