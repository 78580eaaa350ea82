import SystemProjects.Fat.Lookup

/-!
# Lookups past an entry that is replaced
-/

open SystemProjects.Memory

namespace SystemProjects.Fat

variable {v v' : Volume} {d d' : Dir} {name rest path : List Byte} {cs : List (List Byte)} {n s i j : Nat}
  {e prev : FatEntry} {r : Option Nat}

/-- A scan with this result does not come to entry `i`, or it passes over the entry `e` there. -/
def Passes (i : Nat) (e : FatEntry) (name : List Byte) (r : Option Nat) : Prop :=
  (∃ j < i, r = some j) ∨ scanEntry e name = some .next

/-- The scan finds nothing after entry `i`. -/
def NoneAfter (v : Volume) (d : Dir) (name : List Byte) (i : Nat) : Prop :=
  getIndexFrom v d name (32 - (i + 1)) (i + 1) = some none

/-! ## Names -/

theorem scanEntry_empty (h0 : e.name0 ≠ 0) (hpad : e.name0 ≠ fatPadbyte) :
    scanEntry e (0 :: rest) = some .next := by
  have hcompare : fatCompareName e (0 :: rest) = some false := by
    have hname : upperString (0 :: rest) = 0 :: rest := by simp [upperString, cstr]
    have hchar : sameChar (0#8) (e 0) = false := by
      simp only [sameChar, decide_eq_false_iff_not]
      exact fun heq => h0 heq.1.symm
    have hfield : compareField e (0 :: rest) 0 fatNamesize 0 = some none := by
      rw [fatNamesize, compareField, if_neg (show e 0 ≠ fatPadbyte from hpad)]
      simp [hchar]
    rw [fatCompareName, hname, hfield]
    rfl
  rw [scanEntry, if_neg h0, hcompare]
  split
  · rfl
  split
  · rfl
  · rfl

theorem lookups_none {file found : FatFile} (hr : file2entryLoop v rest cs d file = some (some found))
    (h : (d', name, none) ∈ lookups v rest cs d) : ∃ after, name = 0 :: after := by
  induction cs generalizing d file with
  | nil => simp [lookups] at h
  | cons c cs ih =>
    rw [file2entryLoop] at hr
    rw [lookups] at h
    cases hget : fatGetIndex v d (c ++ 0 :: joinPath rest cs) with
    | none =>
      rw [hget] at hr
      contradiction
    | some found =>
      rw [hget] at hr h
      cases found with
      | none =>
        obtain ⟨rfl, rfl⟩ : d' = d ∧ name = _ := by simpa using h
        by_cases hc : c = []
        · exact ⟨joinPath rest cs, by rw [hc]; rfl⟩
        · simp [hc] at hr
      | some i =>
        rcases List.mem_cons.mp h with heq | hmem
        · simp at heq
        · exact ih hr hmem

theorem name_of_mem_lookups (h : (d', name, r) ∈ lookups v rest cs d) :
    ∃ c after, name = c ++ 0 :: after := by
  induction cs generalizing d with
  | nil => simp [lookups] at h
  | cons c cs ih =>
    rw [lookups] at h
    split at h
    case h_1 => simp at h
    case h_2 => exact ⟨c, joinPath rest cs, by simpa using congrArg (fun p => p.2.1) (List.mem_singleton.mp h)⟩
    case h_3 =>
      rcases List.mem_cons.mp h with heq | hmem
      · exact ⟨c, joinPath rest cs, congrArg (fun p => p.2.1) heq⟩
      · exact ih hmem

theorem compareField_within {field : Nat → Byte} {k : Nat} (hk : name[k]? = some 0)
    (hfield : ∀ x < 8, field x ≠ 0) {n i : Nat} (hi : i ≤ k) (hn : n + i ≤ 8) :
    ∃ stop, compareField field name 0 n i = some stop ∧ ∀ j, stop = some j → j ≤ k := by
  induction n generalizing i with
  | zero => exact ⟨some i, rfl, fun j hj => Option.some.inj hj ▸ hi⟩
  | succ n ih =>
    rw [compareField]
    split
    case isTrue => exact ⟨some i, rfl, fun j hj => Option.some.inj hj ▸ hi⟩
    case isFalse =>
      have hlength : k < name.length := (List.getElem?_eq_some_iff.mp hk).1
      obtain ⟨b, hb⟩ : ∃ b, name[0 + i]? = some b := ⟨_, List.getElem?_eq_getElem (by omega)⟩
      rw [hb, Option.bind_some]
      by_cases hsame : sameChar b (field i) = true
      · have hne : i ≠ k := by
          rintro rfl
          rw [Nat.zero_add, hk] at hb
          have hzero : b = field i := (of_decide_eq_true hsame).1
          exact hfield i (by omega) (by rw [← hzero, Option.some.inj hb])
        rw [if_pos hsame]
        exact ih (by omega) (by omega)
      · rw [if_neg hsame]
        exact ⟨none, rfl, fun j hj => by contradiction⟩

theorem upperString_end (c after : List Byte) : ∃ k : Nat, (upperString (c ++ 0 :: after))[k]? = some 0 := by
  have hend : ∃ rest, (c ++ 0 :: after).drop (cstr (c ++ 0 :: after)).length = 0 :: rest := by
    induction c with
    | nil => exact ⟨after, by simp [cstr]⟩
    | cons b c ih =>
      by_cases hb : b = 0
      · exact ⟨c ++ 0 :: after, by simp [cstr, hb]⟩
      · have heq : cstr (b :: (c ++ 0 :: after)) = b :: cstr (c ++ 0 :: after) :=
          List.takeWhile_cons_of_pos (by simpa using hb)
        rw [List.cons_append, heq]
        exact ih
  obtain ⟨rest, hrest⟩ := hend
  refine ⟨((cstr (c ++ 0 :: after)).map toupper).length, ?_⟩
  rw [upperString, hrest, List.getElem?_append_right (Nat.le_refl _), Nat.sub_self]
  rfl

theorem fatCompareName_within (hext : e 8 = fatPadbyte) (hname : ∀ x < 8, e x ≠ 0) (c after : List Byte) :
    ∃ same, fatCompareName e (c ++ 0 :: after) = some same := by
  obtain ⟨k, hk⟩ := upperString_end c after
  obtain ⟨stop, hstop, hle⟩ := compareField_within (n := 8) (i := 0) hk hname (by omega) (by omega)
  rw [fatCompareName, fatNamesize, hstop]
  cases stop with
  | none => exact ⟨false, rfl⟩
  | some j =>
    have hlength : k < (upperString (c ++ 0 :: after)).length := (List.getElem?_eq_some_iff.mp hk).1
    obtain ⟨b, hb⟩ : ∃ b, (upperString (c ++ 0 :: after))[j]? = some b :=
      ⟨_, List.getElem?_eq_getElem (by have := hle j rfl; omega)⟩
    dsimp only [Option.bind_some]
    rw [hb, Option.bind_some]
    split
    case isFalse => exact ⟨true, rfl⟩
    case isTrue =>
      refine ⟨true, ?_⟩
      rw [fatExtensionsize, compareField, if_pos hext]
      rfl

/-! ## Scans -/

theorem getIndexFrom_none {k : Nat} (hr : getIndexFrom v d name n s = some none) (hn : k ≤ s + n)
    (h : ∀ j, s ≤ j → j < k → (v.entryAt d j).name0 ≠ 0) :
    ∀ j, s ≤ j → j < k → j < v.dirSlots d ∧ scanEntry (v.entryAt d j) name = some .next := by
  induction n generalizing s with
  | zero => exact fun j hj hjk => by omega
  | succ n ih =>
    intro j hj hjk
    rw [getIndexFrom] at hr
    split at hr
    case isFalse => contradiction
    case isTrue hs =>
      obtain ⟨scan, hscan, hr⟩ := Option.bind_eq_some_iff.mp hr
      cases scan with
      | stop => exact absurd (scanEntry_stop.mp hscan) (h s s.le_refl (by omega))
      | found => simp at hr
      | next =>
        by_cases hjs : j = s
        · exact hjs ▸ ⟨hs, hscan⟩
        · exact ih hr (by omega) (fun j hj => h j (by omega)) j (by omega) hjk

theorem Replaced.getIndexFrom (h : Replaced v v' d i e) (hlive : (v.entryAt d i).name0 ≠ 0)
    (hr : getIndexFrom v d' name n s = some r) (hne : ∀ j, r = some j → (d', j) ≠ (d, i))
    (hpass : d' = d → Passes i e.copy name r) : getIndexFrom v' d' name n s = some r := by
  induction n generalizing s with
  | zero => exact hr
  | succ n ih =>
    have hfound := fun j (heq : r = some j) => getIndexFrom_found (heq ▸ hr)
    rw [Fat.getIndexFrom] at hr ⊢
    split at hr
    case isFalse => contradiction
    case isTrue hs =>
      obtain ⟨scan, hscan, hr⟩ := Option.bind_eq_some_iff.mp hr
      rw [if_pos (h.slots ▸ hs)]
      by_cases hsame : (d', s) = (d, i)
      · obtain ⟨rfl, rfl⟩ := Prod.mk.inj hsame
        have hnext : scanEntry e.copy name = some .next := by
          rcases hpass rfl with ⟨j, hj, heq⟩ | hnext
          · have := (hfound j heq).1
            omega
          · exact hnext
        rw [h.entry, hnext]
        cases scan with
        | stop => exact absurd (scanEntry_stop.mp hscan) hlive
        | next => exact ih hr
        | found => exact absurd rfl (hne _ (Option.some.inj hr).symm)
      · rw [h.others _ _ hsame, hscan]
        cases scan with
        | stop => exact hr
        | next => exact ih hr
        | found => exact hr

theorem Replaced.get (h : Replaced v v' d i e) (hlive : (v.entryAt d i).name0 ≠ 0)
    (hr : fatGetIndex v d' name = some r) (hne : ∀ j, r = some j → (d', j) ≠ (d, i))
    (hpass : d' = d → Passes i e.copy name r) : fatGetIndex v' d' name = some r :=
  h.getIndexFrom hlive hr hne hpass

theorem Replaced.get_deleted (h : Replaced v v' d i e) (he : e.name0 = fatEntryDeleted)
    (hlive : (v.entryAt d i).name0 ≠ 0) (hr : fatGetIndex v d' name = some r)
    (hne : ∀ j, r = some j → (d', j) ≠ (d, i)) : fatGetIndex v' d' name = some r :=
  h.get hlive hr hne fun _ => .inr (scanEntry_deleted (by rw [FatEntry.name0_copy, he]))

theorem Replaced.get_after (h : Replaced v v' d i e) (hfound : fatGetIndex v d name = some (some i))
    (hnext : scanEntry e.copy name = some .next) :
    fatGetIndex v' d name = Fat.getIndexFrom v d name (32 - (i + 1)) (i + 1) := by
  obtain ⟨-, hlt, hslots, -, hbefore⟩ := getIndexFrom_found hfound
  rw [fatGetIndex, getIndexFrom_skip (show 0 ≤ i + 1 by omega) (by omega), Nat.sub_zero]
  · exact getIndexFrom_congr h.slots fun j hj => h.other (by omega)
  · intro j hj hji
    refine ⟨by rw [h.slots]; omega, ?_⟩
    by_cases heq : j = i
    · rw [heq, h.entry, hnext]
    · rw [h.other heq]
      exact hbefore j hj (by omega)

/-- An entry that answers is found, if the scan came to it before or found nothing. -/
theorem Replaced.get_answer (h : Replaced v v' d i e) (hi : i < 32) (hslots : i < v.dirSlots d)
    (hbefore : ∀ j < i, scanEntry (v.entryAt d j) name = some .next)
    (hfound : scanEntry e.copy name = some .found) : fatGetIndex v' d name = some (some i) := by
  obtain ⟨m, hm⟩ : ∃ m, 32 - (i - 0) = m + 1 := ⟨31 - i, by omega⟩
  rw [fatGetIndex, getIndexFrom_skip (Nat.zero_le i) (by omega), hm, Fat.getIndexFrom,
    if_pos (by rw [h.slots]; exact hslots), h.entry, hfound]
  · rfl
  · intro j _ hj
    rw [h.other (by omega), h.slots]
    exact ⟨by omega, hbefore j hj⟩

theorem NamesEntry.live (h : NamesEntry v path d i) : (v.entryAt d i).name0 ≠ 0 :=
  (scanEntry_found (getIndexFrom_found (Names.get h)).2.2.2.1).1

theorem Names.cluster_of_cluster {c : Nat} (h : Names v rest cs (.cluster c) d i) : ∃ b, d = .cluster b := by
  generalize hd : Dir.cluster c = d0 at h
  induction h generalizing c with
  | entry => exact ⟨c, hd.symm⟩
  | step _ _ _ ih => exact ih rfl

theorem NamesEntry.root_kept {c : Int} {block : Mem} (h : NamesEntry v path .root i) :
    NamesEntry (v.setData c block) path .root i := by
  unfold NamesEntry at h ⊢
  generalize components (cstr path) = cs at h ⊢
  cases h with
  | entry hget => exact .entry (fatGetIndex_root_setData.trans hget)
  | step _ _ hnames =>
    obtain ⟨b, hb⟩ := hnames.cluster_of_cluster
    contradiction

theorem NamesEntry.not_fails (h : NamesEntry v path d i) : fatFile2entry v prev path ≠ some none := by
  obtain ⟨c, -, hfile⟩ := h.file2entry prev
  rw [hfile]
  simp

theorem NamesEntry.isLive (h : NamesEntry v path d i) : Live v d i := by
  obtain ⟨-, -, hslots, hfound, hbefore⟩ := getIndexFrom_found (Names.get h)
  obtain ⟨h0, hdel, -⟩ := scanEntry_found hfound
  refine ⟨hslots, fun k hk hend => ?_, hdel⟩
  by_cases hki : k = i
  · exact h0 (hki ▸ hend)
  · have hstop := hbefore k (Nat.zero_le k) (by omega)
    rw [scanEntry_stop.mpr hend] at hstop
    simp at hstop

end SystemProjects.Fat
