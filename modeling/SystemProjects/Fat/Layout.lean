import SystemProjects.Fat.Sectors

/-!
# The areas of a volume
-/

open SystemProjects.Memory

namespace SystemProjects.Fat

variable {b : BootSector} {tc : Int} {type : Codec.FatType} {n : Nat}

/-! ## The areas before the data -/

namespace BootSector

/-- `total_sectors`, as the `int` it is put into. -/
def allSectors (b : BootSector) : Int := if b.totalSectors ≠ 0 then b.totalSectors else toInt
    b.totalSectorsLarge

def rootDirSectors (b : BootSector) : Nat := (b.numRootDirEnts * 32 + (b.bytesPerSector - 1)) / b.bytesPerSector

def fats (b : BootSector) : Int := if b.sectorsPerFat ≠ 0 then b.sectorsPerFat else toInt b.fatsz32

def dataSectors (b : BootSector) : Int :=
  b.allSectors - (b.reservedSectors + b.numFats * b.fats + b.rootDirSectors)

/-- Nothing is divided by zero in `fat_determineType`, and no `int` overflows. -/
structure Typed (b : BootSector) : Prop where
  sector : b.bytesPerSector ≠ 0
  cluster : b.sectorsPerCluster ≠ 0
  fats : InInt (b.numFats * b.fats)
  reserved : InInt (b.reservedSectors + b.numFats * b.fats)
  used : InInt (b.reservedSectors + b.numFats * b.fats + b.rootDirSectors)
  data : InInt b.dataSectors

end BootSector

def typeOf (totalClusters : Int) : Codec.FatType :=
  if totalClusters < 4085 then .fat12 else if totalClusters < 65525 then .fat16 else .fat32

theorem fatDetermineType_of_typed (h : b.Typed) :
    fatDetermineType b = some (b.dataSectors.tdiv b.sectorsPerCluster,
      typeOf (b.dataSectors.tdiv b.sectorsPerCluster)) := by
  have hfats := int_of_inInt h.fats
  have hreserved := int_of_inInt h.reserved
  have hused := int_of_inInt h.used
  have hdata := int_of_inInt h.data
  unfold BootSector.dataSectors BootSector.allSectors at hdata
  unfold BootSector.rootDirSectors at hused hdata
  unfold BootSector.fats at hfats hreserved hused hdata
  rw [fatDetermineType, if_neg h.sector]
  simp only [Option.bind_eq_bind, Option.bind_some, hfats, hreserved, hused, hdata]
  rw [if_neg h.cluster]
  rfl

theorem typed_of_fatDetermineType {r : Int × Codec.FatType} (h : fatDetermineType b = some r) : b.Typed := by
  by_cases hsector : b.bytesPerSector = 0
  · rw [fatDetermineType, if_pos hsector] at h
    contradiction
  · rw [fatDetermineType, if_neg hsector] at h
    obtain ⟨n1, h1, hrest1⟩ := Option.bind_eq_some_iff.mp h
    obtain ⟨n2, h2, hrest2⟩ := Option.bind_eq_some_iff.mp hrest1
    obtain ⟨n3, h3, hrest3⟩ := Option.bind_eq_some_iff.mp hrest2
    obtain ⟨n4, h4, hrest4⟩ := Option.bind_eq_some_iff.mp hrest3
    obtain ⟨hin1, rfl⟩ := int_eq_some h1
    obtain ⟨hin2, rfl⟩ := int_eq_some h2
    obtain ⟨hin3, rfl⟩ := int_eq_some h3
    refine ⟨hsector, fun hcluster => ?_, hin1, hin2, hin3, (int_eq_some h4).1⟩
    rw [if_pos hcluster] at hrest4
    contradiction

theorem fatDetermineType_eq_some (h : fatDetermineType b = some (tc, type)) :
    b.Typed ∧ tc = b.dataSectors.tdiv b.sectorsPerCluster ∧ type = typeOf tc := by
  have htyped := typed_of_fatDetermineType h
  rw [fatDetermineType_of_typed htyped] at h
  obtain ⟨rfl, rfl⟩ := Prod.ext_iff.mp (Option.some.inj h)
  exact ⟨htyped, rfl, rfl⟩

/-! ## Where the clusters are -/

/-- The first sector behind the areas that `fat_determineType` takes off. -/
def dataStart (b : BootSector) : Nat := b.reservedSectors + b.numFats * b.sectorsPerFat + b.rootDirSectors

/-- A FAT12 or FAT16 volume of `tc` clusters that the areas fit into. -/
structure Consistent (b : BootSector) (tc : Int) : Prop where
  hidden : b.hiddenSectors = 0
  sector : entrySize ≤ b.bytesPerSector
  fat : b.sectorsPerFat ≠ 0
  type : fatDetermineType b = some (tc, .fat12) ∨ fatDetermineType b = some (tc, .fat16)
  fits : dataStart b ≤ b.allSectors

/-- The clusters from number 2 on lie one behind another, from the end of the areas to the end of the volume. -/
structure LaidOut (b : BootSector) (tc : Int) : Prop where
  first : fatCluster2block b 2 = some (dataStart b : Int)
  next : ∀ c, 2 ≤ c → c ≤ tc → ∃ block, fatCluster2block b c = some block ∧
    fatCluster2block b (c + 1) = some (block + b.sectorsPerCluster)
  inside : ∀ c, 2 ≤ c → c ≤ tc + 1 → ∃ block, fatCluster2block b c = some block ∧
    dataStart b ≤ block ∧ block + b.sectorsPerCluster ≤ b.allSectors
  apart : ∀ c c' block block', 2 ≤ c → c < c' → c' ≤ tc + 1 → fatCluster2block b c = some block →
    fatCluster2block b c' = some block' → block + b.sectorsPerCluster ≤ block'

def blockOf (b : BootSector) (c : Int) : Int :=
  c * b.sectorsPerCluster + b.numFats * b.sectorsPerFat +
    (b.numRootDirEnts / (b.bytesPerSector / entrySize) : Nat) - 1

theorem load16_lt (m : Mem) (a : Nat) : load16 m a < 2 ^ 16 := by
  have h0 := (m a).isLt
  have h1 := (m (a + 1)).isLt
  unfold load16
  omega

theorem toInt_of_small {x : Int} (hx : 0 ≤ x) (hx' : x < 2 ^ 31) : toInt (x % 2 ^ 32).toNat = x := by
  rw [Int.emod_eq_of_lt hx (by omega), toInt, if_pos (by omega)]
  omega

theorem fatCluster2block_eq {c : Int} (hhidden : b.hiddenSectors = 0) (hsector : entrySize ≤ b.bytesPerSector)
    (hcluster : 1 ≤ b.sectorsPerCluster) (hc : 1 ≤ c) (hc' : c < 2 ^ 17) :
    fatCluster2block b c = some (blockOf b c) := by
  have hspc : b.sectorsPerCluster < 2 ^ 8 := (b 13).isLt
  have hroot : b.numRootDirEnts < 2 ^ 16 := load16_lt b 17
  have hper : b.bytesPerSector / entrySize ≠ 0 := (Nat.div_pos hsector (by decide)).ne'
  have hents := Nat.div_le_self b.numRootDirEnts (b.bytesPerSector / entrySize)
  have hfats : b.numFats * b.sectorsPerFat ≤ 2 ^ 8 * 2 ^ 16 :=
    Nat.mul_le_mul (Nat.le_of_lt (b 16).isLt) (Nat.le_of_lt (load16_lt b 22))
  have hlow : 1 * 1 ≤ c * b.sectorsPerCluster := Int.mul_le_mul hc (by omega) (by omega) (by omega)
  have hhigh : c * b.sectorsPerCluster ≤ 2 ^ 17 * 2 ^ 8 :=
    Int.mul_le_mul (Int.le_of_lt hc') (by omega) (by omega) (by omega)
  have hfirst : InInt (c * b.sectorsPerCluster) := ⟨by omega, by omega⟩
  rw [fatCluster2block, int_of_inInt hfirst, Option.bind_eq_bind, Option.bind_some, if_neg hper,
    hhidden, blockOf]
  generalize b.numRootDirEnts / (b.bytesPerSector / entrySize) = ents at hents
  dsimp only
  rw [Int.ofNat_zero, Int.add_zero, ← Int.natCast_mul, toInt_of_small (by omega) (by omega)]

theorem blockOf_add (b : BootSector) (c k : Int) :
    blockOf b (c + k) = blockOf b c + k * b.sectorsPerCluster := by
  unfold blockOf
  rw [Int.add_mul]
  omega

theorem typeOf_small (h : fatDetermineType b = some (tc, .fat12) ∨ fatDetermineType b = some (tc, .fat16)) :
    b.Typed ∧ tc = b.dataSectors.tdiv b.sectorsPerCluster ∧ tc < 65525 := by
  rcases h with h | h
  all_goals
    obtain ⟨htyped, htc, htype⟩ := fatDetermineType_eq_some h
    refine ⟨htyped, htc, ?_⟩
    unfold typeOf at htype
    split at htype
    case isTrue hlt => omega
    case isFalse =>
      split at htype
      case isTrue hlt => exact hlt
      case isFalse => contradiction

namespace Consistent

theorem cluster_pos (h : Consistent b tc) : 1 ≤ b.sectorsPerCluster :=
  Nat.pos_of_ne_zero (typeOf_small h.type).1.cluster

theorem dataSectors_eq (h : Consistent b tc) : b.dataSectors = b.allSectors - dataStart b := by
  rw [BootSector.dataSectors, BootSector.fats, if_pos h.fat, dataStart]
  push_cast
  rfl

theorem clusters_fit (h : Consistent b tc) : 0 ≤ tc ∧
    tc * b.sectorsPerCluster ≤ b.allSectors - dataStart b := by
  obtain ⟨-, htc, -⟩ := typeOf_small h.type
  have hcluster := h.cluster_pos
  have hnonneg : 0 ≤ b.dataSectors := by
    rw [h.dataSectors_eq]
    exact Int.sub_nonneg_of_le h.fits
  have hediv : tc = b.dataSectors / b.sectorsPerCluster := by rw [htc, Int.tdiv_eq_ediv_of_nonneg hnonneg]
  rw [← h.dataSectors_eq, hediv]
  exact ⟨Int.ediv_nonneg hnonneg (Int.natCast_nonneg _), Int.ediv_mul_le _ (by omega)⟩

theorem cluster2block (h : Consistent b tc) {c : Int} (hc : 1 ≤ c) (hc' : c ≤ tc + 2) :
    fatCluster2block b c = some (blockOf b c) := by
  obtain ⟨-, -, hsmall⟩ := typeOf_small h.type
  exact fatCluster2block_eq h.hidden h.sector h.cluster_pos hc (by omega)

theorem laidOut (h : Consistent b tc) (hfirst : blockOf b 2 = dataStart b) : LaidOut b tc := by
  obtain ⟨hpos, hfits⟩ := h.clusters_fit
  have hshift : ∀ c, blockOf b c = dataStart b + (c - 2) * b.sectorsPerCluster := by
    intro c
    rw [← hfirst, ← blockOf_add]
    congr 1
    omega
  refine ⟨?_, fun c hc hc' => ?_, fun c hc hc' => ?_, fun c c' block block' hc hlt hc' hb hb' => ?_⟩
  · rw [← hfirst]
    exact h.cluster2block (by decide) (by omega)
  · refine ⟨_, h.cluster2block (by omega) (by omega), ?_⟩
    rw [h.cluster2block (by omega) (by omega), blockOf_add, Int.one_mul]
  · have hlow : 0 * b.sectorsPerCluster ≤ (c - 2) * b.sectorsPerCluster :=
      Int.mul_le_mul_of_nonneg_right (by omega) (by omega)
    have hhigh : (c - 2 + 1) * b.sectorsPerCluster ≤ tc * b.sectorsPerCluster :=
      Int.mul_le_mul_of_nonneg_right (by omega) (by omega)
    rw [Int.add_mul] at hhigh
    refine ⟨_, h.cluster2block (by omega) (by omega), ?_, ?_⟩
    · rw [hshift]
      omega
    · rw [hshift]
      omega
  · rw [h.cluster2block (by omega) (by omega)] at hb
    rw [h.cluster2block (by omega) (by omega)] at hb'
    obtain rfl := Option.some.inj hb
    obtain rfl := Option.some.inj hb'
    have hle : (c + 1) * b.sectorsPerCluster ≤ c' * b.sectorsPerCluster :=
      Int.mul_le_mul_of_nonneg_right (by omega) (by omega)
    rw [Int.add_mul] at hle
    unfold blockOf
    omega

end Consistent

/-- **The layout.** It is right just when the two formulas agree on the first block of the data. -/
theorem laidOut_iff (b : BootSector) (tc : Int) (h : Consistent b tc) :
    LaidOut b tc ↔ 2 * b.sectorsPerCluster + b.numRootDirEnts / (b.bytesPerSector / entrySize) =
      b.reservedSectors + b.rootDirSectors + 1 := by
  have htwo : blockOf b 2 = dataStart b ↔ 2 * b.sectorsPerCluster + b.numRootDirEnts / (b.bytesPerSector / entrySize) =
      b.reservedSectors + b.rootDirSectors + 1 := by
    unfold blockOf dataStart
    generalize b.numRootDirEnts / (b.bytesPerSector / entrySize) = ents
    push_cast
    omega
  rw [← htwo]
  constructor
  · intro hlaid
    obtain ⟨hpos, -⟩ := h.clusters_fit
    have hfirst := hlaid.first
    rw [h.cluster2block (by decide) (by omega)] at hfirst
    exact Option.some.inj hfirst
  · exact h.laidOut

theorem floppy_laidOut : LaidOut (floppy 1) 2847 :=
  (laidOut_iff (floppy 1) 2847 ⟨by decide, by decide, by decide, .inl (by decide), by decide⟩).mpr (by decide)

/-- With two sectors in a cluster, the data begins two blocks too late. -/
theorem floppy_two : ¬ ∀ (b : BootSector) (tc : Int), Consistent b tc → LaidOut b tc := by
  intro h
  have hfirst := (h (floppy 2) 1423 ⟨by decide, by decide, by decide, .inl (by decide), by decide⟩).first
  revert hfirst
  decide

/-! ## What a mount accepts -/

/-- A mount is only returned with a geometry that the other functions can use. -/
def MountsChecked (device : Device) : Prop :=
  ∃ r, fatMount (some device) = some r ∧ ∀ m, r = some m →
    entrySize ≤ m.bootsector.bytesPerSector ∧ 1 ≤ m.bootsector.sectorsPerCluster ∧ 0 ≤ m.totalClusters ∧
      ∀ i : Nat, i < m.totalClusters → Codec.EntryInside m.toMountpoint i

/-- The bytes that `n` entries take. -/
def fatBytes (n : Nat) : Nat :=
  if n = 0 then 0 else if n < 4085 then 3 * (n - 1) / 2 + 2 else if n < 65525 then 2 * n else 4 * n

/-- The fields are good already. Nothing is checked but the magic number. -/
structure GeometryOk (b : BootSector) : Prop where
  sector : entrySize ≤ b.bytesPerSector
  cluster : 1 ≤ b.sectorsPerCluster
  typed : b.Typed
  size : InInt (b.sectorsPerFat * b.bytesPerSector)
  copies : InInt (b.numFats * (b.sectorsPerFat * b.bytesPerSector))
  areas : -(b.sectorsPerCluster : Int) < b.dataSectors
  fat : fatBytes (b.dataSectors / b.sectorsPerCluster).toNat ≤ b.sectorsPerFat * b.bytesPerSector

def bootsectorOf (device : Device) : BootSector := (vfsRead device (fun _ => 0) 0 Codec.sizeofFatBootsector).2

theorem all_le_iff {f : Nat → Nat} (hmono : ∀ i j, i ≤ j → f i ≤ f j) {size : Nat} :
    (∀ i < n, f i ≤ size) ↔ n = 0 ∨ f (n - 1) ≤ size := by
  constructor
  · intro h
    by_cases hn : n = 0
    · exact .inl hn
    · exact .inr (h (n - 1) (by omega))
  · rintro (rfl | h) i hi
    · omega
    · exact Nat.le_trans (hmono i (n - 1) (by omega)) h

theorem entriesInside_iff {δ : Type} (m : Codec.Mountpoint δ) (htype : m.type = typeOf tc) :
    (∀ i : Nat, i < tc → Codec.EntryInside m i) ↔ fatBytes tc.toNat ≤ m.fatSize := by
  have hcount : ∀ i : Nat, i < tc ↔ i < tc.toNat := fun i => by omega
  simp only [hcount, Codec.EntryInside, htype, typeOf]
  unfold fatBytes
  by_cases h12 : tc < 4085
  · simp only [if_pos h12]
    rw [all_le_iff (f := fun i => 3 * i / 2 + 2) fun i j hij => by omega, if_pos (by omega : tc.toNat < 4085)]
    split <;> omega
  · by_cases h16 : tc < 65525
    · simp only [if_neg h12, if_pos h16]
      rw [all_le_iff (f := fun i => 2 * i + 2) fun i j hij => by omega, if_neg (by omega), if_neg (by omega),
        if_pos (by omega)]
      omega
    · simp only [if_neg h12, if_neg h16]
      rw [all_le_iff (f := fun i => 4 * i + 4) fun i j hij => by omega, if_neg (by omega), if_neg (by omega),
        if_neg (by omega)]
      omega

theorem tdiv_of_neg {a : Int} {s : Nat} (ha : a < 0) : a.tdiv s = -(-a / s) := by
  rw [← Int.tdiv_eq_ediv_of_nonneg (by omega), Int.neg_tdiv, Int.neg_neg]

theorem tdiv_nonneg_iff {a : Int} {s : Nat} (hs : 1 ≤ s) : 0 ≤ a.tdiv s ↔ -(s : Int) < a := by
  by_cases ha : 0 ≤ a
  · exact ⟨fun _ => by omega, fun _ => Int.tdiv_nonneg ha (Int.natCast_nonneg s)⟩
  · have hlt : -a / s < 1 ↔ -a < s := by
      rw [Int.ediv_lt_iff_lt_mul (by omega), Int.one_mul]
    rw [tdiv_of_neg (by omega)]
    omega

theorem clusters_eq {a : Int} {s : Nat} (hs : 1 ≤ s) : (a.tdiv s).toNat = (a / s).toNat := by
  by_cases hnonneg : 0 ≤ a
  · rw [Int.tdiv_eq_ediv_of_nonneg hnonneg]
  · have hneg : a / s < 0 := Int.ediv_neg_of_neg_of_pos (by omega) (by omega)
    have hnonneg' : 0 ≤ -a / (s : Int) := Int.ediv_nonneg (by omega) (by omega)
    rw [tdiv_of_neg (by omega)]
    omega

theorem mountFrom_eq_some {device : Device} {m : FatMountpoint} (h : mountFrom device b = some m) :
    b.Typed ∧ InInt (b.sectorsPerFat * b.bytesPerSector) ∧
      InInt (b.numFats * (b.sectorsPerFat * b.bytesPerSector)) ∧
      m.bootsector = b ∧ m.totalClusters = b.dataSectors.tdiv b.sectorsPerCluster ∧
        m.type = typeOf m.totalClusters ∧
      m.fatSize = b.sectorsPerFat * b.bytesPerSector := by
  obtain ⟨⟨tc, type⟩, htype, h⟩ := Option.bind_eq_some_iff.mp h
  obtain ⟨size, hsize, h⟩ := Option.bind_eq_some_iff.mp h
  obtain ⟨fats, hfats, h⟩ := Option.bind_eq_some_iff.mp h
  obtain ⟨htyped, rfl, rfl⟩ := fatDetermineType_eq_some htype
  obtain ⟨hin, rfl⟩ := int_eq_some hsize
  obtain rfl := Option.some.inj h
  exact ⟨htyped, hin, (int_eq_some hfats).1, rfl, rfl, rfl, rfl⟩

theorem mountFrom_of_inInt (device : Device) (htyped : b.Typed)
    (hsize : InInt (b.sectorsPerFat * b.bytesPerSector))
    (hfats : InInt (b.numFats * (b.sectorsPerFat * b.bytesPerSector))) :
    ∃ m, mountFrom device b = some m := by
  cases hm : mountFrom device b with
  | some m => exact ⟨m, rfl⟩
  | none =>
    have hnone := Option.bind_eq_none_iff.mp hm _ (fatDetermineType_of_typed htyped)
    have hnone' := Option.bind_eq_none_iff.mp hnone _ (int_of_inInt hsize)
    cases Option.bind_eq_none_iff.mp hnone' _ (int_of_inInt hfats)

/-- **Mounting.** A mount that is returned has a good geometry just when the boot sector has one, or no magic number. -/
theorem fatMount_checked_iff (device : Device) :
    MountsChecked device ↔ (bootsectorOf device).magic ≠ fatMagic ∨ GeometryOk (bootsectorOf device) := by
  have hmount : fatMount (some device) = if (bootsectorOf device).magic ≠ fatMagic then some none else
      (mountFrom (vfsRead device (fun _ => 0) 0 Codec.sizeofFatBootsector).1
        (bootsectorOf device)).map some := rfl
  generalize bootsectorOf device = b at hmount
  by_cases hmagic : b.magic ≠ fatMagic
  · rw [if_pos hmagic] at hmount
    exact ⟨fun _ => .inl hmagic, fun _ => ⟨none, hmount, fun m hm => by contradiction⟩⟩
  · rw [if_neg hmagic] at hmount
    constructor
    · rintro ⟨r, hr, hgood⟩
      rw [hmount] at hr
      obtain ⟨m, hm, rfl⟩ := Option.map_eq_some_iff.mp hr
      obtain ⟨htyped, hsize, hfats, hboot, htc, htype, hfat⟩ := mountFrom_eq_some hm
      obtain ⟨hsector, hcluster, hpos, hentries⟩ := hgood m rfl
      rw [hboot] at hsector hcluster
      rw [entriesInside_iff _ htype, hfat] at hentries
      rw [htc] at hpos hentries
      have hareas := (tdiv_nonneg_iff hcluster).mp hpos
      exact .inr ⟨hsector, hcluster, htyped, hsize, hfats, hareas, clusters_eq hcluster ▸ hentries⟩
    · rintro (hno | hok)
      · exact absurd hno hmagic
      · obtain ⟨m, hm⟩ := mountFrom_of_inInt (vfsRead device (fun _ =>
          0) 0 Codec.sizeofFatBootsector).1 hok.typed
          hok.size hok.copies
        obtain ⟨-, -, -, hboot, htc, htype, hfat⟩ := mountFrom_eq_some hm
        refine ⟨some m, by rw [hmount, hm]; rfl, fun m' heq => ?_⟩
        obtain rfl := Option.some.inj heq
        rw [entriesInside_iff _ htype, hboot, hfat, htc]
        exact ⟨hok.sector, hok.cluster, (tdiv_nonneg_iff hok.cluster).mpr hok.areas,
          (clusters_eq hok.cluster).symm ▸ hok.fat⟩

/-- A boot sector with the magic number and zeros: the first division is by zero. -/
theorem zeros_divide : ¬ ∀ device, MountsChecked device := by
  intro h
  let device : Device := ⟨fun x => if x = 510 then 0x55 else if x = 511 then 0xAA else 0x00, 0⟩
  have hnone : (fatMount (some device)).isNone = true := by decide
  obtain ⟨r, hr, -⟩ := h device
  rw [hr] at hnone
  contradiction

end SystemProjects.Fat
