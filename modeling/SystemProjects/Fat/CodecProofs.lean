import SystemProjects.Fat.Codec

/-!
# When a FAT entry reads back
-/

open SystemProjects.Memory

namespace SystemProjects.Fat.Codec

variable {δ : Type}

/-! ## Masks -/

theorem fatCluster12_eq (c : Nat) : fatCluster12 c = c % 2 ^ 12 := Nat.and_two_pow_sub_one_eq_mod c 12

theorem fatCluster16_eq (c : Nat) : fatCluster16 c = c % 2 ^ 16 := Nat.and_two_pow_sub_one_eq_mod c 16

theorem fatCluster32_eq (c : Nat) : fatCluster32 c = c % 2 ^ 28 := Nat.and_two_pow_sub_one_eq_mod c 28

/-! ## Entries -/

/-- The bits of entry `c`. -/
def entry (type : FatType) (d : Mem) (c : Nat) : Nat :=
  match type with
  | .fat12 => if c % 2 = 1 then load16 d (c * 3 / 2) / 2 ^ 4 else load16 d (c * 3 / 2) % 2 ^ 12
  | .fat16 => load16 d (2 * c)
  | .fat32 => load32 d (4 * c)
  | .other => 0

def decode (type : FatType) (e : Nat) : Int := if e = 2 ^ entryWidth type - 1 then FAIL else toInt e

/-- The byte that is written for entry `c`. -/
def target (type : FatType) (c : Nat) : Nat :=
  match type with
  | .fat12 => c * 3 / 2
  | _ => c

def put (d : Mem) (i v : Nat) : Mem := fun x => if x = i then BitVec.ofNat 8 v else d x

theorem put_self (d : Mem) (i v : Nat) : (put d i v i).toNat = v % 2 ^ 8 := by
  rw [put, if_pos rfl, BitVec.toNat_ofNat]

theorem put_other {d : Mem} {i v x : Nat} (h : x ≠ i) : put d i v x = d x := if_neg h

/-- The reader of a `FAT_12` forms `cluster * 3`. -/
def Fits (type : FatType) (c : Nat) : Prop := type = .fat12 → c * 3 < 2 ^ 31

theorem fatGetFATCluster_of_inside {mount : Mountpoint δ} {c : Nat} (h : EntryInside mount c)
    (hf : Fits mount.type c) :
    fatGetFATCluster mount c = some (decode mount.type (entry mount.type mount.fatData c)) := by
  unfold EntryInside at h
  unfold fatGetFATCluster
  cases htype : mount.type with
  | fat12 =>
    rw [htype] at h
    have hw : c * 3 / 2 + 2 ≤ mount.fatSize := by rw [Nat.mul_comm]; exact h
    simp only [times3, if_pos (hf htype), Option.bind_some, Mountpoint.word, if_pos hw, Option.map_some]
    simp only [decode, entry, fatCluster12_eq]
    rfl
  | fat16 =>
    rw [htype] at h
    simp only [Mountpoint.word, if_pos h, Option.map_some]
    rfl
  | fat32 =>
    rw [htype] at h
    simp only [Mountpoint.dword, if_pos h, Option.map_some]
    rfl
  | other => rw [htype] at h; exact h.elim

theorem fatGetFATCluster_of_outside {mount mount' : Mountpoint δ} {c : Nat}
    (htype : mount'.type = mount.type) (hsize : mount'.fatSize = mount.fatSize)
    (h : ¬ (EntryInside mount c ∧ Fits mount.type c)) :
    fatGetFATCluster mount' c = fatGetFATCluster mount c := by
  unfold EntryInside Fits at h
  unfold fatGetFATCluster times3 Mountpoint.word Mountpoint.dword
  rw [htype, hsize]
  cases heq : mount.type with
  | fat12 =>
    rw [heq] at h
    by_cases hc : c * 3 < 2 ^ 31
    · have hw : ¬ c * 3 / 2 + 2 ≤ mount.fatSize := fun hw => h ⟨by rw [Nat.mul_comm 3]; exact hw, fun _ => hc⟩
      simp only [if_pos hc, Option.bind_some, if_neg hw, Option.map_none]
    · simp only [if_neg hc, Option.bind_none]
  | fat16 =>
    rw [heq] at h
    have hw : ¬ 2 * c + 2 ≤ mount.fatSize := fun hw => h ⟨hw, nofun⟩
    simp only [if_neg hw, Option.map_none]
  | fat32 =>
    rw [heq] at h
    have hw : ¬ 4 * c + 4 ≤ mount.fatSize := fun hw => h ⟨hw, nofun⟩
    simp only [if_neg hw, Option.map_none]
  | other => rfl

theorem fatSetFATCluster_of_inside {vfsWrite : δ → Nat → List Byte → δ} {mount : Mountpoint δ} {c : Nat}
    (h : EntryInside mount c) (hf : Fits mount.type c) (v : Nat) :
    fatSetFATCluster vfsWrite mount c v false =
      some { mount with fatData := put mount.fatData (target mount.type c) v } := by
  have hbyte : ∀ n, 8 ≤ n → BitVec.ofNat 8 (v % 2 ^ n) = BitVec.ofNat 8 v := by
    intro n hn
    apply BitVec.eq_of_toNat_eq
    rw [BitVec.toNat_ofNat, BitVec.toNat_ofNat, Nat.mod_mod_of_dvd v (Nat.pow_dvd_pow 2 hn)]
  have hput : ∀ i n, 8 ≤ n → i < mount.fatSize →
      mount.setByte i (v % 2 ^ n) = some { mount with fatData := put mount.fatData i v } := by
    intro i n hn hi
    rw [Mountpoint.setByte, if_pos hi, hbyte n hn]
    rfl
  obtain ⟨device, type, fatData, fatSize⟩ := mount
  cases type with
  | fat12 =>
    have hi : c * 3 / 2 < fatSize := by
      change 3 * c / 2 + 2 ≤ fatSize at h
      omega
    simp only [fatSetFATCluster, times3, if_pos (hf rfl), Option.bind_some, fatCluster12_eq]
    rw [hput (c * 3 / 2) 12 (by omega) hi]
    rfl
  | fat16 =>
    have hi : c < fatSize := by
      change 2 * c + 2 ≤ fatSize at h
      omega
    simp only [fatSetFATCluster, fatCluster16_eq]
    rw [hput c 16 (by omega) hi]
    rfl
  | fat32 =>
    have hi : c < fatSize := by
      change 4 * c + 4 ≤ fatSize at h
      omega
    simp only [fatSetFATCluster, fatCluster32_eq]
    rw [hput c 28 (by omega) hi]
    rfl
  | other => exact h.elim

theorem not_readsBack_of_overflow {vfsWrite : δ → Nat → List Byte → δ} {mount : Mountpoint δ} {c v : Nat}
    (hf : ¬ Fits mount.type c) : ¬ ReadsBack vfsWrite mount c v := by
  rintro ⟨mount', hset, -⟩
  obtain ⟨htype, hc⟩ := Classical.not_imp.mp hf
  simp only [fatSetFATCluster, htype, times3, if_neg hc, Option.bind_none] at hset
  cases hset

/-- What was set is read back, and the other entries are kept, in terms of the entries in memory. -/
theorem readsBack_iff_entries {vfsWrite : δ → Nat → List Byte → δ} {mount : Mountpoint δ} {c v : Nat}
    {d' : Mem} (h : EntryInside mount c) (hf : Fits mount.type c)
    (hd : d' = put mount.fatData (target mount.type c) v) :
    ReadsBack vfsWrite mount c v ↔
      decode mount.type (entry mount.type d' c) = seen mount.type v ∧
      ∀ c', c' ≠ c → EntryInside mount c' ∧ Fits mount.type c' →
        decode mount.type (entry mount.type d' c') =
          decode mount.type (entry mount.type mount.fatData c') := by
  subst hd
  have hset : fatSetFATCluster vfsWrite mount c v false =
      some { mount with fatData := put mount.fatData (target mount.type c) v } :=
    fatSetFATCluster_of_inside h hf v
  have hget : ∀ c', EntryInside mount c' → Fits mount.type c' → fatGetFATCluster
      { mount with fatData := put mount.fatData (target mount.type c) v } c' =
        some (decode mount.type (entry mount.type (put mount.fatData (target mount.type c) v) c')) :=
    fun c' h' hf' => fatGetFATCluster_of_inside h' hf'
  constructor
  · rintro ⟨mount', hset', hback, hframe⟩
    obtain rfl := Option.some.inj (hset.symm.trans hset')
    refine ⟨Option.some.inj ((hget c h hf).symm.trans hback), fun c' hne ⟨h', hf'⟩ => ?_⟩
    apply Option.some.inj
    rw [← hget c' h' hf', hframe c' hne, fatGetFATCluster_of_inside h' hf']
  · rintro ⟨hback, hframe⟩
    refine ⟨_, hset, (hget c h hf).trans (congrArg some hback), fun c' hne => ?_⟩
    by_cases h' : EntryInside mount c' ∧ Fits mount.type c'
    · rw [hget c' h'.1 h'.2, hframe c' hne h', fatGetFATCluster_of_inside h'.1 h'.2]
    · exact fatGetFATCluster_of_outside rfl rfl h'

/-! ## Bits -/

theorem entry_fat12_lt (d : Mem) (c : Nat) : entry .fat12 d c < 2 ^ 12 := by
  have h0 := (d (c * 3 / 2)).isLt
  have h1 := (d (c * 3 / 2 + 1)).isLt
  simp only [entry, load16]
  split <;> omega

theorem entry_fat16_lt (d : Mem) (c : Nat) : entry .fat16 d c < 2 ^ 16 := by
  have h0 := (d (2 * c)).isLt
  have h1 := (d (2 * c + 1)).isLt
  simp only [entry, load16]
  omega

theorem decode_inj {type : FatType} {e e' : Nat} (he : e < 2 ^ 31) (he' : e' < 2 ^ 31) :
    decode type e = decode type e' ↔ e = e' := by
  refine ⟨fun h => ?_, fun h => by rw [h]⟩
  unfold decode toInt FAIL at h
  split at h <;> split at h <;> omega

theorem decode_eq_seen {type : FatType} {v : Nat} (hv : v < 2 ^ 31) : seen type v = decode type v := by
  rw [seen, decode, toInt, if_pos hv]

theorem decode_entries_iff {type : FatType} {d d' : Mem} {c v : Nat} {P : Nat → Prop}
    (hlt : ∀ d c, entry type d c < 2 ^ 31) (hv : v < 2 ^ 31) :
    (decode type (entry type d' c) = decode type v ∧
      ∀ c', c' ≠ c → P c' → decode type (entry type d' c') = decode type (entry type d c')) ↔
    (entry type d' c = v ∧ ∀ c', c' ≠ c → P c' → entry type d' c' = entry type d c') := by
  refine and_congr (decode_inj (hlt _ _) hv) ?_
  constructor
  · intro h c' hne hP
    exact (decode_inj (hlt _ _) (hlt _ _)).mp (h c' hne hP)
  · intro h c' hne hP
    rw [h c' hne hP]

theorem decode_fat32_eq_iff {e e' : Nat} (he : e < 2 ^ 32) (he' : e' < 2 ^ 32) :
    decode .fat32 e = decode .fat32 e' ↔
      e = e' ∨ e = 2 ^ 28 - 1 ∧ e' = 2 ^ 32 - 1 ∨ e = 2 ^ 32 - 1 ∧ e' = 2 ^ 28 - 1 := by
  have hval : ∀ n < 2 ^ 32, decode .fat32 n = -1 ∧ (n = 2 ^ 28 - 1 ∨ n = 2 ^ 32 - 1) ∨
      decode .fat32 n ≠ -1 ∧ n ≠ 2 ^ 28 - 1 ∧ n ≠ 2 ^ 32 - 1 ∧
        (decode .fat32 n = n ∨ decode .fat32 n = (n : Int) - 2 ^ 32) := by
    intro n hn
    by_cases hmark : n = 2 ^ 28 - 1
    · exact .inl ⟨if_pos hmark, .inl hmark⟩
    · have hdec : decode .fat32 n = toInt n := if_neg hmark
      rw [hdec, toInt]
      split <;> omega
  have := hval e he
  have := hval e' he'
  constructor
  · omega
  · rintro (rfl | h | h) <;> omega

theorem fat12_entries_iff {d : Mem} {c v : Nat} {P : Nat → Prop} (hP : ∀ c' < c, P c') :
    (entry .fat12 (put d (c * 3 / 2) v) c = v ∧
      ∀ c', c' ≠ c → P c' → entry .fat12 (put d (c * 3 / 2) v) c' = entry .fat12 d c') ↔
    if c % 2 = 0 then (d (3 * c / 2 + 1)).toNat % 16 = v / 2 ^ 8
    else (d (3 * c / 2 + 1)).toNat = v / 2 ^ 4 ∧ v / 2 ^ 4 % 16 = v % 16 ∧
      (d (3 * c / 2)).toNat % 16 = v % 16 := by
  have h1 := (d (c * 3 / 2 + 1)).isLt
  rw [Nat.mul_comm 3 c]
  have hown : load16 (put d (c * 3 / 2) v) (c * 3 / 2) =
      v % 2 ^ 8 + 2 ^ 8 * (d (c * 3 / 2 + 1)).toNat := by
    rw [load16, put_self, put_other (by omega)]
  -- Only the entry before an odd one shares the byte that is written.
  have hother : ∀ c', c' ≠ c → ¬ (c % 2 = 1 ∧ c' + 1 = c) →
      entry .fat12 (put d (c * 3 / 2) v) c' = entry .fat12 d c' := by
    intro c' hne hprev
    have hlow : put d (c * 3 / 2) v (c' * 3 / 2) = d (c' * 3 / 2) := put_other (by omega)
    simp only [entry, load16, hlow]
    by_cases hb : c' * 3 / 2 + 1 = c * 3 / 2
    · rw [if_pos (by omega), if_pos (by omega), hb, put_self]
      omega
    · rw [put_other hb]
  by_cases hpar : c % 2 = 0
  · rw [if_pos hpar]
    have hentry : entry .fat12 (put d (c * 3 / 2) v) c =
        v % 2 ^ 8 + 2 ^ 8 * ((d (c * 3 / 2 + 1)).toNat % 16) := by
      simp only [entry, hown]
      rw [if_neg (by omega)]
      omega
    rw [hentry]
    exact ⟨fun h => by have := h.1; omega, fun h => ⟨by omega, fun c' hne _ => hother c' hne (by omega)⟩⟩
  · rw [if_neg hpar]
    have hentry : entry .fat12 (put d (c * 3 / 2) v) c = v / 16 % 16 + 16 * (d (c * 3 / 2 + 1)).toNat := by
      simp only [entry, hown]
      rw [if_pos (by omega)]
      omega
    have hprev : entry .fat12 (put d (c * 3 / 2) v) (c - 1) = entry .fat12 d (c - 1) ↔
        (d (c * 3 / 2)).toNat % 16 = v % 16 := by
      have hb : (c - 1) * 3 / 2 + 1 = c * 3 / 2 := by omega
      have h0 := (d ((c - 1) * 3 / 2)).isLt
      have hlow : put d (c * 3 / 2) v ((c - 1) * 3 / 2) = d ((c - 1) * 3 / 2) := put_other (by omega)
      simp only [entry, load16, hlow, hb, put_self]
      rw [if_neg (by omega), if_neg (by omega)]
      omega
    rw [hentry, show v / 2 ^ 4 = v / 16 from rfl]
    constructor
    · rintro ⟨hback, hframe⟩
      exact ⟨by omega, by omega, hprev.mp (hframe (c - 1) (by omega) (hP _ (by omega)))⟩
    · rintro ⟨hhigh, hmid, hlow⟩
      refine ⟨by omega, fun c' hne _ => ?_⟩
      by_cases hc' : c' + 1 = c
      · obtain rfl : c' = c - 1 := by omega
        exact hprev.mpr hlow
      · exact hother c' hne (by omega)

theorem fat16_entries_iff {d : Mem} {c v : Nat} {P : Nat → Prop} (hP : ∀ c' < c, P c') :
    (entry .fat16 (put d c v) c = v ∧
      ∀ c', c' ≠ c → P c' → entry .fat16 (put d c v) c' = entry .fat16 d c') ↔
    if c = 0 then (d 1).toNat = v / 2 ^ 8
    else load16 d (2 * c) = v ∧ (d c).toNat = v % 2 ^ 8 := by
  simp only [entry]
  have hother : ∀ c', c' ≠ c / 2 → load16 (put d c v) (2 * c') = load16 d (2 * c') := by
    intro c' hne
    rw [load16, put_other (by omega), put_other (by omega), load16]
  by_cases hc : c = 0
  · subst hc
    rw [if_pos rfl]
    have hown : load16 (put d 0 v) (2 * 0) = v % 2 ^ 8 + 2 ^ 8 * (d 1).toNat := by
      rw [load16, put_self, put_other (by omega)]
    rw [hown]
    exact ⟨fun h => by have := h.1; omega, fun h => ⟨by omega, fun c' hne _ => hother c' (by omega)⟩⟩
  · rw [if_neg hc, hother c (by omega)]
    have hshare : load16 (put d c v) (2 * (c / 2)) = load16 d (2 * (c / 2)) ↔ (d c).toNat = v % 2 ^ 8 := by
      rcases Nat.even_or_odd' c with ⟨k, rfl | rfl⟩
      · rw [show 2 * k / 2 = k by omega, load16, load16, put_self, put_other (by omega)]
        omega
      · rw [show (2 * k + 1) / 2 = k by omega, load16, load16, put_self, put_other (by omega)]
        omega
    refine and_congr_right fun _ => ⟨fun hframe => ?_, fun hbyte c' _ _ => ?_⟩
    · exact hshare.mp (hframe (c / 2) (by omega) (hP _ (by omega)))
    · by_cases hc' : c' = c / 2
      · rw [hc']
        exact hshare.mpr hbyte
      · exact hother c' hc'

theorem fat32_shared_iff (d : Mem) (c v : Nat) :
    decode .fat32 (load32 (put d c v) (4 * (c / 4))) = decode .fat32 (load32 d (4 * (c / 4))) ↔
    (d c).toNat = v % 2 ^ 8 ∨ c % 4 = 3 ∧
      (d (c - 3)).toNat = 0xFF ∧ (d (c - 2)).toNat = 0xFF ∧ (d (c - 1)).toNat = 0xFF ∧
      ((d c).toNat = 0x0F ∧ v % 2 ^ 8 = 0xFF ∨ (d c).toNat = 0xFF ∧ v % 2 ^ 8 = 0x0F) := by
  rw [decode_fat32_eq_iff (load32_lt _ _) (load32_lt _ _)]
  obtain ⟨k, r, hr, rfl⟩ : ∃ k r, r < 4 ∧ c = 4 * k + r := ⟨c / 4, c % 4, by omega, by omega⟩
  rw [show (4 * k + r) / 4 = k by omega]
  have h0 := (d (4 * k)).isLt
  have h1 := (d (4 * k + 1)).isLt
  have h2 := (d (4 * k + 2)).isLt
  have h3 := (d (4 * k + 3)).isLt
  unfold load32
  obtain rfl | rfl | rfl | rfl : r = 0 ∨ r = 1 ∨ r = 2 ∨ r = 3 := by omega
  · rw [Nat.add_zero, put_self, put_other (by omega), put_other (by omega), put_other (by omega)]
    omega
  · rw [put_self, put_other (by omega), put_other (by omega), put_other (by omega)]
    omega
  · rw [put_self, put_other (by omega), put_other (by omega), put_other (by omega)]
    omega
  · rw [put_self, put_other (by omega), put_other (by omega), put_other (by omega)]
    rw [show 4 * k + 3 - 3 = 4 * k by omega, show 4 * k + 3 - 2 = 4 * k + 1 by omega,
      show 4 * k + 3 - 1 = 4 * k + 2 by omega]
    omega

theorem fat32_entries_iff {d : Mem} {c v : Nat} (hv : v < 2 ^ 28) {P : Nat → Prop} (hP : ∀ c' < c, P c') :
    (decode .fat32 (entry .fat32 (put d c v) c) = decode .fat32 v ∧ ∀ c', c' ≠ c → P c' →
      decode .fat32 (entry .fat32 (put d c v) c') = decode .fat32 (entry .fat32 d c')) ↔
    if c = 0 then (d 1).toNat = v / 2 ^ 8 % 2 ^ 8 ∧ (d 2).toNat = v / 2 ^ 16 % 2 ^ 8 ∧
      ((d 3).toNat = v / 2 ^ 24 ∨ v = 2 ^ 28 - 1 ∧ (d 3).toNat = 0xFF)
    else
      (load32 d (4 * c) = v ∨ v = 2 ^ 28 - 1 ∧ load32 d (4 * c) = 0xFFFFFFFF) ∧
      ((d c).toNat = v % 2 ^ 8 ∨ c % 4 = 3 ∧
        (d (c - 3)).toNat = 0xFF ∧ (d (c - 2)).toNat = 0xFF ∧ (d (c - 1)).toNat = 0xFF ∧
        ((d c).toNat = 0x0F ∧ v % 2 ^ 8 = 0xFF ∨ (d c).toNat = 0xFF ∧ v % 2 ^ 8 = 0x0F)) := by
  simp only [entry]
  have hother : ∀ c', c' ≠ c / 4 → load32 (put d c v) (4 * c') = load32 d (4 * c') :=
    fun c' hne => load32_congr fun x _ _ => put_other (by omega)
  rw [decode_fat32_eq_iff (load32_lt _ _) (by omega)]
  by_cases hc : c = 0
  · subst hc
    rw [if_pos rfl]
    have hown : load32 (put d 0 v) (4 * 0) =
        v % 2 ^ 8 + 2 ^ 8 * (d 1).toNat + 2 ^ 16 * (d 2).toNat + 2 ^ 24 * (d 3).toNat := by
      rw [load32, put_self, put_other (by omega), put_other (by omega), put_other (by omega)]
    have h1 := (d 1).isLt
    have h2 := (d 2).isLt
    have h3 := (d 3).isLt
    rw [hown]
    constructor
    · rintro ⟨hback, -⟩
      omega
    · intro h
      refine ⟨by omega, fun c' hne _ => ?_⟩
      rw [hother c' (by omega)]
  · rw [if_neg hc, hother c (by omega), ← fat32_shared_iff]
    refine and_congr (by omega) ⟨fun hframe => ?_, fun hshare c' _ _ => ?_⟩
    · exact hframe (c / 4) (by omega) (hP _ (by omega))
    · by_cases hc' : c' = c / 4
      · rw [hc']
        exact hshare
      · rw [hother c' hc']

/-! ## Every type -/

theorem EntryInside.of_lt {mount : Mountpoint δ} {c c' : Nat} (h : EntryInside mount c) (hlt : c' < c) :
    EntryInside mount c' := by
  unfold EntryInside at h ⊢
  cases htype : mount.type <;> rw [htype] at h <;> simp only at h ⊢ <;> omega

/-- **Codec.** An entry reads back, with the others untouched, in exactly the cases in which the bytes that
are not written happen to fit. -/
theorem readsBack_iff (vfsWrite : δ → Nat → List Byte → δ) (mount : Mountpoint δ) (c v : Nat)
    (h : EntryInside mount c) (hv : v < 2 ^ entryWidth mount.type) :
    ReadsBack vfsWrite mount c v ↔ BytesFit mount c v := by
  by_cases hf : Fits mount.type c
  · rw [readsBack_iff_entries h hf rfl]
    have hP : ∀ c' < c, EntryInside mount c' ∧ Fits mount.type c' :=
      fun c' hlt => ⟨h.of_lt hlt, fun htype => by have := hf htype; omega⟩
    obtain ⟨device, type, d, fatSize⟩ := mount
    cases type with
    | fat12 =>
      have hv : v < 2 ^ 31 := hv.trans (show 2 ^ 12 < 2 ^ 31 by decide)
      rw [decode_eq_seen hv]
      apply (decode_entries_iff (fun d c => (entry_fat12_lt d c).trans (by decide)) hv).trans
      apply (fat12_entries_iff hP).trans
      exact (and_iff_right (hf rfl)).symm
    | fat16 =>
      have hv : v < 2 ^ 31 := hv.trans (show 2 ^ 16 < 2 ^ 31 by decide)
      rw [decode_eq_seen hv]
      apply (decode_entries_iff (fun d c => (entry_fat16_lt d c).trans (by decide)) hv).trans
      exact fat16_entries_iff hP
    | fat32 =>
      rw [decode_eq_seen (hv.trans (show 2 ^ 28 < 2 ^ 31 by decide))]
      exact fat32_entries_iff hv hP
    | other => exact h.elim
  · refine iff_of_false (not_readsBack_of_overflow hf) fun hbytes => hf fun htype => ?_
    rw [BytesFit, htype] at hbytes
    exact hbytes.1

def writeAt (device : Mem) (offset : Nat) (bytes : List Byte) : Mem :=
  memcpy device offset (fun x => (bytes[x]?).getD 0) bytes.length

/-- A `FAT_16` of one sector with all clusters free. -/
def freeFat : Mountpoint Mem := { device := fun _ => 0, type := .fat16, fatData := fun _ => 0, fatSize := 512 }

/-- Entry 0 and a small value. -/
theorem freeFat_readsBack_iff : ReadsBack writeAt freeFat 0 5 ↔ BytesFit freeFat 0 5 :=
  readsBack_iff writeAt freeFat 0 5 (show 2 * 0 + 2 ≤ 512 by decide) (show 5 < 2 ^ 16 by decide)

/-- Linking cluster 1 to cluster 2 leaves entry 1 free, as the write goes to the high byte of entry 0. -/
theorem link_not_readsBack : EntryInside freeFat 1 ∧ 2 < 2 ^ entryWidth freeFat.type ∧
    ¬ ReadsBack writeAt freeFat 1 2 := by
  refine ⟨show 2 * 1 + 2 ≤ 512 by decide, show 2 < 2 ^ 16 by decide, ?_⟩
  rintro ⟨mount', hset, hback, -⟩
  obtain rfl := Option.some.inj hset
  exact absurd hback (by decide)

end SystemProjects.Fat.Codec
