import SystemProjects.Fat.Names

/-!
# Searching a directory

`fat_getIndex` looks at 32 entries, however many the directory has.
-/

open SystemProjects.Memory

namespace SystemProjects.Fat

variable {v : Volume} {d : Dir} {name : List Byte} {n s k : Nat} {e : FatEntry} {r : Option (Option Nat)}

/-! ## What is claimed -/

/-- Neither deleted nor without a cluster, unless it is an archive. -/
def Usable (e : FatEntry) : Prop :=
  e.name0 ≠ fatEntryDeleted ∧ ¬ (e.startCluster = fatFreecluster ∧ e.archive = false)

instance (e : FatEntry) : Decidable (Usable e) := inferInstanceAs (Decidable (_ ∧ _))

def AnswersTo (e : FatEntry) (name : List Byte) : Prop := Usable e ∧ fatCompareName e name = some true

/-- Entry `k` is the first one before the end of the directory that answers. -/
structure FirstAnswer (v : Volume) (d : Dir) (name : List Byte) (k : Nat) : Prop where
  slot : k < v.dirSlots d
  before : ∀ j ≤ k, (v.entryAt d j).name0 ≠ 0
  answers : AnswersTo (v.entryAt d k) name
  first : ∀ j < k, ¬ AnswersTo (v.entryAt d j) name

/-- The search stays in the directory, and finds the first entry that answers or none. -/
def SearchExact (v : Volume) (d : Dir) (name : List Byte) : Prop :=
  ∃ r, fatGetIndex v d name = some r ∧ ∀ k, r = some k ↔ FirstAnswer v d name k

/-- All entries before entry `k` are passed over. -/
def Comes (v : Volume) (d : Dir) (name : List Byte) (k : Nat) : Prop :=
  ∀ j < k, (v.entryAt d j).name0 ≠ 0 ∧ ¬ AnswersTo (v.entryAt d j) name

structure SearchOk (v : Volume) (d : Dir) (name : List Byte) : Prop where
  /-- No comparison reads past the memory of the name. -/
  compared : ∀ k < 32, k < v.dirSlots d → Comes v d name k → (v.entryAt d k).name0 ≠ 0 →
    Usable (v.entryAt d k) →
    fatCompareName (v.entryAt d k) name ≠ none
  /-- A directory that is smaller than the loop has an end mark or the entry. -/
  stops : v.dirSlots d < 32 →
    ∃ k < v.dirSlots d, (v.entryAt d k).name0 = 0 ∨ AnswersTo (v.entryAt d k) name
  /-- In one that is larger, the entry is not behind the loop. -/
  reached : ∀ k, FirstAnswer v d name k → k < 32

/-! ## The scan -/

theorem scanEntry_cases (e : FatEntry) (name : List Byte) :
    e.name0 = 0 ∧ scanEntry e name = some .stop ∨
      e.name0 ≠ 0 ∧ (AnswersTo e name ∧ scanEntry e name = some .found ∨
        ¬ AnswersTo e name ∧ (scanEntry e name = some .next ∨
          Usable e ∧ fatCompareName e name = none ∧ scanEntry e name = none)) := by
  unfold scanEntry AnswersTo Usable
  by_cases h0 : e.name0 = 0
  · exact .inl ⟨h0, if_pos h0⟩
  refine .inr ⟨h0, ?_⟩
  rw [if_neg h0]
  by_cases hdel : e.name0 = fatEntryDeleted
  · rw [if_pos hdel]
    exact .inr ⟨fun h => h.1.1 hdel, .inl rfl⟩
  rw [if_neg hdel]
  by_cases hfree : e.startCluster = fatFreecluster ∧ e.archive = false
  · rw [if_pos hfree]
    exact .inr ⟨fun h => h.1.2 hfree, .inl rfl⟩
  rw [if_neg hfree]
  cases fatCompareName e name with
  | none => exact .inr ⟨fun h => (by cases h.2), .inr ⟨⟨hdel, hfree⟩, rfl, rfl⟩⟩
  | some same =>
    cases same with
    | true => exact .inl ⟨⟨⟨hdel, hfree⟩, rfl⟩, rfl⟩
    | false => exact .inr ⟨fun h => (by cases h.2), .inl rfl⟩

theorem getIndexFrom_cases (v : Volume) (d : Dir) (name : List Byte) (n s : Nat) :
    (∃ k, s ≤ k ∧ k < s + n ∧ (∀ j, s ≤ j → j < k → j < v.dirSlots d ∧
      scanEntry (v.entryAt d j) name = some .next) ∧
      (v.dirSlots d ≤ k ∧ getIndexFrom v d name n s = none ∨
        k < v.dirSlots d ∧ (scanEntry (v.entryAt d k) name = none ∧ getIndexFrom v d name n s = none ∨
          scanEntry (v.entryAt d k) name = some .stop ∧ getIndexFrom v d name n s = some none ∨
          scanEntry (v.entryAt d k) name = some .found ∧ getIndexFrom v d name n s = some (some k)))) ∨
      (∀ j, s ≤ j → j < s + n → j < v.dirSlots d ∧ scanEntry (v.entryAt d j) name = some .next) ∧
        getIndexFrom v d name n s = some none := by
  induction n generalizing s with
  | zero => exact .inr ⟨fun j hj hjs => by omega, rfl⟩
  | succ n ih =>
    by_cases hs : s < v.dirSlots d
    · cases hscan : scanEntry (v.entryAt d s) name with
      | none =>
        refine .inl ⟨s, s.le_refl, by omega, fun j hj hjs => by omega, .inr ⟨hs, .inl ⟨hscan, ?_⟩⟩⟩
        rw [getIndexFrom, if_pos hs, hscan]
        rfl
      | some scan =>
        cases scan with
        | stop =>
          refine .inl ⟨s, s.le_refl, by omega, fun j hj hjs => by omega, .inr ⟨hs, .inr (.inl ⟨hscan, ?_⟩)⟩⟩
          rw [getIndexFrom, if_pos hs, hscan]
          rfl
        | found =>
          refine .inl ⟨s, s.le_refl, by omega, fun j hj hjs => by omega, .inr ⟨hs, .inr (.inr ⟨hscan, ?_⟩)⟩⟩
          rw [getIndexFrom, if_pos hs, hscan]
          rfl
        | next =>
          have hstep : getIndexFrom v d name (n + 1) s = getIndexFrom v d name n (s + 1) := by
            rw [getIndexFrom, if_pos hs, hscan]
            rfl
          have hbefore : ∀ j, s ≤ j → (s + 1 ≤ j → j < v.dirSlots d ∧ scanEntry (v.entryAt d j) name =
            some .next) →
              j < v.dirSlots d ∧ scanEntry (v.entryAt d j) name = some .next := by
            intro j hj hnext
            by_cases hjs : j = s
            · exact hjs ▸ ⟨hs, hscan⟩
            · exact hnext (by omega)
          rw [hstep]
          rcases ih (s + 1) with ⟨k, hk, hlt, hprev, hend⟩ | ⟨hall, hend⟩
          · exact .inl ⟨k, by omega, by omega, fun j hj hjk => hbefore j hj fun hle => hprev j hle hjk, hend⟩
          · exact .inr ⟨fun j hj hjn => hbefore j hj fun hle => hall j hle (by omega), hend⟩
    · refine .inl ⟨s, s.le_refl, by omega, fun j hj hjs => by omega, .inl ⟨by omega, ?_⟩⟩
      rw [getIndexFrom, if_neg hs]

theorem scanEntry_next (h : scanEntry e name = some .next) : e.name0 ≠ 0 ∧ ¬ AnswersTo e name := by
  rcases scanEntry_cases e name with ⟨-, hstop⟩ | ⟨h0, ⟨-, hfound⟩ | ⟨hno, -⟩⟩
  · simp [h] at hstop
  · simp [h] at hfound
  · exact ⟨h0, hno⟩

theorem scanEntry_found_iff : scanEntry e name = some .found ↔ e.name0 ≠ 0 ∧ AnswersTo e name := by
  rcases scanEntry_cases e name with ⟨h0, hscan⟩ | ⟨h0, ⟨hyes, hscan⟩ | ⟨hno, hscan | ⟨-, -, hscan⟩⟩⟩
  · simp [hscan, h0]
  · exact iff_of_true hscan ⟨h0, hyes⟩
  · simp [hscan, hno]
  · simp [hscan, hno]

theorem comes_of_next (h : ∀ j < k, scanEntry (v.entryAt d j) name = some .next) : Comes v d name k :=
  fun j hj => scanEntry_next (h j hj)

/-! ## When a search is exact -/

theorem SearchExact.ok (h : SearchExact v d name) : SearchOk v d name := by
  obtain ⟨r, hr, hexact⟩ := h
  have hreached : ∀ k, FirstAnswer v d name k → k < 32 := by
    intro k hk
    obtain rfl := (hexact k).mpr hk
    have hlt := (getIndexFrom_found hr).2.1
    omega
  unfold fatGetIndex at hr
  rcases getIndexFrom_cases v d name 32 0 with ⟨m, -, -, hprev, hend⟩ | ⟨hall, -⟩
  · rw [hr] at hend
    have hstop : m < v.dirSlots d ∧ ((v.entryAt d m).name0 = 0 ∨ AnswersTo (v.entryAt d m) name) := by
      rcases hend with ⟨-, hno⟩ | ⟨hm, ⟨-, hno⟩ | ⟨hscan, -⟩ | ⟨hscan, -⟩⟩
      · contradiction
      · contradiction
      · exact ⟨hm, .inl (scanEntry_stop.mp hscan)⟩
      · exact ⟨hm, .inr (scanEntry_found_iff.mp hscan).2⟩
    refine ⟨fun k hk hslot hcomes h0 husable hnone => ?_, fun _ => ⟨m, hstop⟩, hreached⟩
    have hkm : k < m ∨ k = m ∨ m < k := by omega
    have hscan : scanEntry (v.entryAt d k) name = none := by
      rw [scanEntry, if_neg h0, if_neg husable.1, if_neg husable.2, hnone]
      rfl
    rcases hkm with hlt | rfl | hlt
    · have hnext := (hprev k (Nat.zero_le k) hlt).2
      rw [hscan] at hnext
      contradiction
    · rcases hstop.2 with hzero | hyes
      · exact h0 hzero
      · rw [scanEntry_found_iff.mpr ⟨h0, hyes⟩] at hscan
        contradiction
    · obtain ⟨hne, hno⟩ := hcomes m hlt
      exact hstop.2.elim hne hno
  · refine ⟨fun k hk hslot hcomes h0 husable hnone => ?_, fun hlt => ?_, hreached⟩
    · have hnext := (hall k (Nat.zero_le k) (by omega)).2
      rw [scanEntry, if_neg h0, if_neg husable.1, if_neg husable.2, hnone] at hnext
      contradiction
    · exact absurd (hall _ (Nat.zero_le _) (by omega)).1 (Nat.lt_irrefl _)

theorem SearchOk.exact (h : SearchOk v d name) : SearchExact v d name := by
  unfold SearchExact fatGetIndex
  rcases getIndexFrom_cases v d name 32 0 with ⟨m, -, hm, hprev, hend⟩ | ⟨hall, hend⟩
  · have hnext : ∀ j < m, scanEntry (v.entryAt d j) name = some .next :=
      fun j hj => (hprev j (Nat.zero_le j) hj).2
    have hcomes := comes_of_next hnext
    rcases hend with ⟨hslots, -⟩ | ⟨hslot, ⟨hscan, -⟩ | ⟨hscan, hr⟩ | ⟨hscan, hr⟩⟩
    · obtain ⟨k, hk, hstop⟩ := h.stops (by omega)
      obtain ⟨hne, hno⟩ := hcomes k (by omega)
      exact absurd hstop (not_or.mpr ⟨hne, hno⟩)
    · rcases scanEntry_cases (v.entryAt d m) name with ⟨-, hstop⟩ | ⟨h0,
        ⟨-, hfound⟩ | ⟨-, hpass | ⟨husable, hnone, -⟩⟩⟩
      · simp [hscan] at hstop
      · simp [hscan] at hfound
      · simp [hscan] at hpass
      · exact absurd hnone (h.compared m (by omega) hslot hcomes h0 husable)
    · refine ⟨none, hr, fun k => iff_of_false (by simp) fun hk => ?_⟩
      by_cases hkm : k < m
      · exact (hcomes k hkm).2 hk.answers
      · exact hk.before m (by omega) (scanEntry_stop.mp hscan)
    · obtain ⟨h0, hyes⟩ := scanEntry_found_iff.mp hscan
      refine ⟨some m, hr, fun k => ⟨?_, fun hk => ?_⟩⟩
      · rintro ⟨⟩
        refine ⟨hslot, fun j hj => ?_, hyes, fun j hj => (hcomes j hj).2⟩
        by_cases hjm : j = m
        · exact hjm ▸ h0
        · exact (hcomes j (by omega)).1
      · have hle : ¬ k < m := fun hlt => (hcomes k hlt).2 hk.answers
        have hge : ¬ m < k := fun hlt => hk.first m hlt hyes
        rw [show m = k by omega]
  · refine ⟨none, hend, fun k => iff_of_false (by simp) fun hk => ?_⟩
    have hnext := (hall k (Nat.zero_le k) (by have := h.reached k hk; omega)).2
    exact (scanEntry_next hnext).2 hk.answers

/-- **Directory search.** It is exact unless the 32 steps are too many or too few. -/
theorem fatGetIndex_exact_iff (v : Volume) (d : Dir) (name : List Byte) :
    SearchExact v d name ↔ SearchOk v d name :=
  ⟨SearchExact.ok, SearchOk.exact⟩

/-- A directory of 16 files, which has no room for an end mark. -/
def fullVolume : Volume := { smallVolume with
  data := fun c => if c = 2 then directoryOf (List.replicate 16 (newEntry [0x46] 0x20 3 5)) else fun _ => 0 }

/-- The search for another name goes on behind the cluster. -/
theorem fullVolume_passes : ¬ ∀ (v : Volume) (d : Dir) (name : List Byte), SearchExact v d name := by
  intro h
  obtain ⟨r, hr, -⟩ := h fullVolume (.cluster 2) [0x47, 0]
  have hnone : (fatGetIndex fullVolume (.cluster 2) [0x47, 0]).isNone = true := by decide
  rw [hr] at hnone
  contradiction

end SystemProjects.Fat
