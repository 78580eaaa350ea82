import SystemProjects.Fat.CodecProofs
import SystemProjects.Fat.Layout

/-!
# Looking for a free cluster

`total_clusters` is the number of data clusters, and the first of them is cluster 2. `fat_getFreeCluster` looks at the
entries from 0 to `total_clusters - 1`.
-/

open SystemProjects.Memory

namespace SystemProjects.Fat

namespace FatMountpoint

variable {m : FatMountpoint} {c k n s : Nat}

/-! ## The code -/

/-- The loop from `index` on, with `left` indices to come. -/
def scanFree (m : FatMountpoint) : Nat → Nat → Option Int
  | 0, _ => some FAIL
  | left + 1, index =>
    (Codec.fatGetFATCluster m.toMountpoint index).bind fun cluster =>
      if cluster = fatFreecluster then some index else m.scanFree left (index + 1)

def fatGetFreeCluster (m : FatMountpoint) : Option Int := m.scanFree m.totalClusters.toNat 0

/-! ## What is claimed -/

/-- The entry of `c` reads as free. -/
def Free (m : FatMountpoint) (c : Nat) : Prop := Codec.fatGetFATCluster m.toMountpoint c = some fatFreecluster

instance : DecidablePred m.Free := fun _ => inferInstanceAs (Decidable (_ = _))

def DataCluster (m : FatMountpoint) (c : Nat) : Prop := 2 ≤ c ∧ (c : Int) ≤ m.totalClusters + 1

instance : DecidablePred m.DataCluster := fun _ => inferInstanceAs (Decidable (_ ∧ _))

/-- A free data cluster is returned, or there is none and the answer is `FAIL`. -/
def FindsFree (m : FatMountpoint) : Prop :=
  ∃ r, m.fatGetFreeCluster = some r ∧
    ((∃ c : Nat, r = c ∧ m.DataCluster c ∧ m.Free c) ∨ r = FAIL ∧ ∀ c, m.DataCluster c → ¬ m.Free c)

/-- The FAT is one that the scan is right for. -/
structure SuitsScan (m : FatMountpoint) : Prop where
  /-- The two reserved entries are not free, as far as they are looked at. -/
  reserved : ∀ c : Nat, c < 2 → c < m.totalClusters → ¬ m.Free c
  /-- Each entry that is looked at lies inside `fat_data`. -/
  inside : ∀ c : Nat, c < m.totalClusters → (∀ i < c, ¬ m.Free i) → Codec.EntryInside m.toMountpoint c
  /-- The last two data clusters are not the only free ones. -/
  reached : ∀ c : Nat, m.totalClusters ≤ c → m.DataCluster c → m.Free c →
    ∃ i : Nat, i < m.totalClusters ∧ m.DataCluster i ∧ m.Free i

/-! ## The scan -/

theorem readable_iff (htype : m.type = typeOf m.totalClusters) (hc : (c : Int) < m.totalClusters) :
    Codec.fatGetFATCluster m.toMountpoint c ≠ none ↔ Codec.EntryInside m.toMountpoint c := by
  constructor
  · contrapose!
    unfold Codec.EntryInside Codec.fatGetFATCluster Codec.Mountpoint.word Codec.Mountpoint.dword Codec.times3
    cases heq : m.type with
    | other =>
      rw [htype, typeOf] at heq
      split_ifs at heq
    | fat12 =>
      dsimp only
      intro hout
      have hword : ¬ c * 3 / 2 + 2 ≤ m.fatSize := by rwa [Nat.mul_comm c 3]
      by_cases hfit : c * 3 < 2 ^ 31
      · rw [if_pos hfit, Option.bind_some, if_neg hword, Option.map_none]
      · rw [if_neg hfit, Option.bind_none]
    | fat16 =>
      dsimp only
      intro hout
      rw [if_neg hout, Option.map_none]
    | fat32 =>
      dsimp only
      intro hout
      rw [if_neg hout, Option.map_none]
  · intro hin
    rw [Codec.fatGetFATCluster_of_inside hin]
    · exact Option.some_ne_none _
    · intro h12
      rw [htype, typeOf] at h12
      split_ifs at h12 with hsmall
      omega

/-- The scan passes over the entries from `s` up to `k`. -/
def Passes (m : FatMountpoint) (s k : Nat) : Prop :=
  ∀ j, s ≤ j → j < k → ¬ m.Free j ∧ Codec.fatGetFATCluster m.toMountpoint j ≠ none

theorem Passes.cons (hs : ¬ m.Free s) (hread : Codec.fatGetFATCluster m.toMountpoint s ≠ none)
    (h : m.Passes (s + 1) k) : m.Passes s k := by
  intro j hj hjk
  rcases Nat.eq_or_lt_of_le hj with rfl | hlt
  · exact ⟨hs, hread⟩
  · exact h j hlt hjk

theorem scanFree_cases (m : FatMountpoint) (n s : Nat) :
    (∃ k, s ≤ k ∧ k < s + n ∧ m.Passes s k ∧
      (m.Free k ∧ m.scanFree n s = some (k : Int) ∨
        Codec.fatGetFATCluster m.toMountpoint k = none ∧ m.scanFree n s = none)) ∨
      m.Passes s (s + n) ∧ m.scanFree n s = some FAIL := by
  induction n generalizing s with
  | zero => exact .inr ⟨fun j hj hlt => by omega, rfl⟩
  | succ n ih =>
    have hempty : m.Passes s s := fun j hj hlt => by omega
    rw [scanFree]
    cases hread : Codec.fatGetFATCluster m.toMountpoint s with
    | none => exact .inl ⟨s, le_refl s, by omega, hempty, .inr ⟨hread, rfl⟩⟩
    | some cluster =>
      rw [Option.bind_some]
      by_cases hfree : cluster = fatFreecluster
      · rw [if_pos hfree]
        exact .inl ⟨s, le_refl s, by omega, hempty, .inl ⟨hread.trans (congrArg some hfree), rfl⟩⟩
      · rw [if_neg hfree]
        have hs : ¬ m.Free s := fun h => hfree (Option.some.inj (hread.symm.trans h))
        have hs' : Codec.fatGetFATCluster m.toMountpoint s ≠ none := by simp [hread]
        rcases ih (s + 1) with ⟨k, hk, hkn, hpass, hend⟩ | ⟨hpass, hend⟩
        · exact .inl ⟨k, by omega, by omega, hpass.cons hs hs', hend⟩
        · rw [show s + 1 + n = s + (n + 1) by omega] at hpass
          exact .inr ⟨hpass.cons hs hs', hend⟩

theorem fatGetFreeCluster_volume {v : Volume} (hcount : v.totalClusters = m.totalClusters.toNat)
    (hfat : ∀ c < v.totalClusters, Codec.fatGetFATCluster m.toMountpoint c = some (v.fat c)) :
    m.fatGetFreeCluster = some (Fat.fatGetFreeCluster v) := by
  have hfree : ∀ c < v.totalClusters, m.Free c ↔ v.fat c = fatFreecluster := fun c hc => by
    rw [Free, hfat c hc, Option.some_inj]
  rw [fatGetFreeCluster, Fat.fatGetFreeCluster, ← hcount]
  rcases m.scanFree_cases v.totalClusters 0 with ⟨k, -, hk, hpass,
    ⟨hkfree, hend⟩ | ⟨hnone, -⟩⟩ | ⟨hpass, hend⟩
  · rw [Nat.zero_add] at hk
    have hfind : (List.range v.totalClusters).find? (fun (i : Nat) => v.fat i = fatFreecluster) = some k := by
      rw [List.find?_range_eq_some]
      refine ⟨decide_eq_true ((hfree k hk).mp hkfree), List.mem_range.mpr hk, fun j hj => ?_⟩
      simpa using fun h => (hpass j (Nat.zero_le j) hj).1 ((hfree j (by omega)).mpr h)
    rw [hend, hfind]
  · rw [hfat k (by omega)] at hnone
    contradiction
  · have hfind : (List.range v.totalClusters).find? (fun (i : Nat) => v.fat i = fatFreecluster) = none := by
      rw [List.find?_eq_none]
      intro j hj hfreej
      have hj := List.mem_range.mp hj
      exact (hpass j (Nat.zero_le j) (by omega)).1 ((hfree j hj).mpr (of_decide_eq_true hfreej))
    rw [hend, hfind]

/-! ## When it is right -/

theorem SuitsScan.findsFree (htype : m.type = typeOf m.totalClusters) (h : m.SuitsScan) : m.FindsFree := by
  unfold FindsFree fatGetFreeCluster
  rcases m.scanFree_cases m.totalClusters.toNat 0 with ⟨k, -, hk, hpass,
    ⟨hfree, hend⟩ | ⟨hnone, -⟩⟩ | ⟨hpass, hend⟩
  · refine ⟨k, hend, .inl ⟨k, rfl, ⟨?_, by omega⟩, hfree⟩⟩
    by_contra hlow
    exact h.reserved k (by omega) (by omega) hfree
  · have hin := h.inside k (by omega) fun i hi => (hpass i (Nat.zero_le i) hi).1
    exact absurd hnone ((readable_iff htype (by omega)).mpr hin)
  · refine ⟨FAIL, hend, .inr ⟨rfl, fun c hc hfree => ?_⟩⟩
    have hscanned : ∀ i : Nat, i < m.totalClusters → ¬ m.Free i :=
      fun i hi => (hpass i (Nat.zero_le i) (by omega)).1
    by_cases hlt : (c : Int) < m.totalClusters
    · exact hscanned c hlt hfree
    · obtain ⟨i, hi, -, hfreei⟩ := h.reached c (by omega) hc hfree
      exact hscanned i hi hfreei

theorem FindsFree.suitsScan (htype : m.type = typeOf m.totalClusters) (h : m.FindsFree) : m.SuitsScan := by
  obtain ⟨r, hr, hright⟩ := h
  unfold fatGetFreeCluster at hr
  rcases m.scanFree_cases m.totalClusters.toNat 0 with ⟨k, -, hk, hpass,
    ⟨hfree, hend⟩ | ⟨-, hend⟩⟩ | ⟨hpass, hend⟩
  · -- The entry that is found comes before any other free one.
    obtain rfl := Option.some.inj (hr.symm.trans hend)
    have hdata : m.DataCluster k := by
      rcases hright with ⟨c, hc, hdata, -⟩ | ⟨hfail, -⟩
      · rwa [Int.ofNat_inj.mp hc]
      · exact absurd hfail (by unfold FAIL; omega)
    have hfirst : ∀ i, m.Free i → k ≤ i := fun i hi => by
      by_contra hlt
      exact (hpass i (Nat.zero_le i) (by omega)).1 hi
    refine ⟨fun c hc _ hfreec => ?_, fun c hc hbefore => ?_, fun c _ _ _ => ⟨k, by omega, hdata, hfree⟩⟩
    · have := hfirst c hfreec
      have := hdata.1
      omega
    · apply (readable_iff htype hc).mp
      have hck : c ≤ k := by
        by_contra hlt
        exact hbefore k (by omega) hfree
      rcases Nat.eq_or_lt_of_le hck with rfl | hlt
      · exact fun hnone => by cases hfree.symm.trans hnone
      · exact (hpass c (Nat.zero_le c) hlt).2
  · cases hr.symm.trans hend
  · have hscanned : ∀ i : Nat, i < m.totalClusters →
        ¬ m.Free i ∧ Codec.fatGetFATCluster m.toMountpoint i ≠ none :=
          fun i hi => hpass i (Nat.zero_le i) (by omega)
    refine ⟨fun c _ hc => (hscanned c hc).1, fun c hc _ => (readable_iff htype hc).mp (hscanned c hc).2, ?_⟩
    intro c _ hdata hfree
    obtain rfl := Option.some.inj (hr.symm.trans hend)
    rcases hright with ⟨k, hk, -⟩ | ⟨-, hnone⟩
    · exact absurd hk (by unfold FAIL; omega)
    · exact absurd hfree (hnone c hdata)

end FatMountpoint

theorem type_of_fatMount {device : Device} {m : FatMountpoint} (h : fatMount (some device) = some (some m)) :
    m.type = typeOf m.totalClusters := by
  simp only [fatMount] at h
  split_ifs at h
  · cases h
  · obtain ⟨m', hm, hsome⟩ := Option.map_eq_some_iff.mp h
    obtain rfl := Option.some.inj hsome
    obtain ⟨-, -, -, -, hcount, htype, -⟩ := mountFrom_eq_some hm
    rw [htype, hcount]

/-- **Free clusters.** The type is the one that goes with the number of clusters, and the FAT holds anything. -/
theorem fatGetFreeCluster_finds_iff (m : FatMountpoint) (htype : m.type = typeOf m.totalClusters) :
    m.FindsFree ↔ m.SuitsScan :=
  ⟨fun h => h.suitsScan htype, fun h => h.findsFree htype⟩

/-- Seven sectors: the boot sector, one for the FAT, one for the root directory and four for data. -/
def smallDisk (fat : Mem) : Device where
  bytes x :=
    match x with
    | 12 => 0x02
    | 13 => 0x01
    | 14 => 0x01
    | 16 => 0x01
    | 17 => 0x10
    | 19 => 0x07
    | 22 => 0x01
    | 510 => 0x55
    | 511 => 0xAA
    | x => if x < 512 then 0x00 else fat (x - 512)
  pos := 0

/-- The volume that `fat_mount` returns. -/
def mounted (device : Device) : Option FatMountpoint := (fatMount (some device)).bind id

theorem fatMount_of_mounted {device : Device} {m : FatMountpoint} (h : mounted device = some m) :
    fatMount (some device) = some (some m) := by
  obtain ⟨r, hr, rfl⟩ := Option.bind_eq_some_iff.mp h
  exact hr

/-- Cluster 2 is free. -/
theorem smallDisk_finds : ∃ device m, fatMount (some device) = some (some m) ∧ m.FindsFree := by
  let device := smallDisk fun x => if x = 3 then 0x00 else if x = 4 then 0xF0 else 0xFF
  have hmount : (mounted device).any (fun m => decide (m.type = .fat12 ∧ m.totalClusters = 4 ∧
    m.fatSize = 512 ∧
      ¬ m.Free 0 ∧ ¬ m.Free 1 ∧ m.Free 2)) = true := by decide
  obtain ⟨m, hm, hfacts⟩ := (Option.any_eq_true _ _).mp hmount
  obtain ⟨htype, hcount, hsize, hzero, hone, hfree⟩ := of_decide_eq_true hfacts
  have hmounts := fatMount_of_mounted hm
  refine ⟨device, m, hmounts, (fatGetFreeCluster_finds_iff m (type_of_fatMount hmounts)).mpr ⟨?_, ?_, ?_⟩⟩
  · intro c hc _
    rcases (by omega : c = 0 ∨ c = 1) with rfl | rfl
    · exact hzero
    · exact hone
  · intro c hc _
    rw [hcount] at hc
    rw [Codec.EntryInside, htype]
    show 3 * c / 2 + 2 ≤ m.fatSize
    omega
  · exact fun c _ _ _ => ⟨2, by omega, ⟨le_refl 2, by omega⟩, hfree⟩

/-- The free cluster is the last one, which is not looked at. -/
theorem smallDisk_not_found :
    ¬ ∀ device m, fatMount (some device) = some (some m) → m.FindsFree := by
  intro h
  let device := smallDisk fun x => if x = 7 then 0x0F else if x = 8 then 0x00 else 0xFF
  have hmount : (mounted device).any (fun m => decide (m.fatGetFreeCluster = some FAIL ∧ m.DataCluster 5 ∧
      m.Free 5)) = true := by decide
  obtain ⟨m, hm, hfacts⟩ := (Option.any_eq_true _ _).mp hmount
  obtain ⟨hfail, hdata, hfree⟩ := of_decide_eq_true hfacts
  obtain ⟨r, hr, hright⟩ := h device m (fatMount_of_mounted hm)
  obtain rfl := Option.some.inj (hfail.symm.trans hr)
  rcases hright with ⟨c, hc, -⟩ | ⟨-, hnone⟩
  · exact absurd hc (by unfold FAIL; omega)
  · exact hnone 5 hdata hfree

end SystemProjects.Fat
