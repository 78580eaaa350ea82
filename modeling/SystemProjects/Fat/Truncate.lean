import SystemProjects.Fat.Open

/-!
# Truncating on request

What `fat_open` does after the lookup depends on the last bit of the mode, which `VFS_MODE_READ` and `VFS_MODE_APPEND`
have and `VFS_MODE_TRUNCATE` has not.
-/

open SystemProjects.Memory

namespace SystemProjects.Fat

variable {v v' : Volume} {d : Dir} {rest path : List Byte} {cs : List (List Byte)} {i : Nat} {prev : FatEntry}
  {file found : FatFile} {handle handle' : Handle} {flags : List ModeFlag}

/-! ## What is claimed -/

def lastEntry (v : Volume) (rest : List Byte) : List (List Byte) → Dir → Option (Dir × Nat)
  | [], _ => none
  | c :: cs, d =>
    match fatGetIndex v d (c ++ 0 :: joinPath rest cs) with
    | some (some i) => some ((lastEntry v rest cs (.cluster (v.entryAt d i).startCluster)).getD (d, i))
    | _ => none

def pathEntry (v : Volume) (path : List Byte) : Option (Dir × Nat) :=
  lastEntry v (afterString path) (components (cstr path)) .root

/-- With `VFS_MODE_TRUNCATE` the size becomes 0, in the file and on the device, and without it nothing changes. -/
def TruncatesOnRequest (v : Volume) (path : List Byte) (handle : Handle) (flags : List ModeFlag)
    (file : FatFile) : Prop :=
  ∃ v' handle' file', openFile v { handle with mode := modeOf flags } file = some (v', handle', true) ∧
    handle'.dataPtr = some (handle.mount, file') ∧
    if .truncate ∈ flags then
      file'.entry.fileSize = 0 ∧ ∃ d i, pathEntry v path = some (d, i) ∧ (v'.entryAt d i).fileSize = 0
    else v' = v ∧ file'.entry = file.entry

/-- The file is empty already; or it is in a subdirectory and the lookup has given its index, and the flags are odd
where `VFS_MODE_TRUNCATE` is one of them; or the flags are even where it is not. -/
def TruncateOk (v : Volume) (path : List Byte) (flags : List ModeFlag) (file : FatFile) : Prop :=
  if .truncate ∈ flags then
    ∃ d i, pathEntry v path = some (d, i) ∧
      (file.entry.fileSize = 0 ∨ (.read ∈ flags ∨ .append ∈ flags) ∧ d ≠ .root ∧ file.dirIndex ≠ none)
  else file.entry.fileSize = 0 ∨ .read ∉ flags ∧ .append ∉ flags

/-! ## The flags -/

theorem modeOf_odd (flags : List ModeFlag) : modeOf flags % 2 = 1 ↔ .read ∈ flags ∨ .append ∈ flags := by
  induction flags with
  | nil => simp [modeOf]
  | cons flag flags ih =>
    have hcons : modeOf (flag :: flags) % 2 = (flag.value % 2) ||| (modeOf flags % 2) :=
      Nat.or_mod_two_pow (n := 1)
    rw [hcons]
    rcases Nat.mod_two_eq_zero_or_one (modeOf flags) with hmode | hmode <;> rw [hmode] at ih ⊢ <;>
      cases flag <;>
      simp_all [ModeFlag.value]

/-! ## Where the file of a lookup is -/

/-- The file has the entry, and says where it is unless that is the root or it has no index. -/
structure FoundEntry (v : Volume) (d : Dir) (i : Nat) (file : FatFile) : Prop where
  entry : file.entry = v.entryAt d i
  before : ∀ j ≤ i, (v.entryAt d j).name0 ≠ 0
  slot : i < v.dirSlots d
  dirCluster : ∀ c : Nat, d = .cluster c → file.dirCluster = c
  dirIndex : file.dirIndex = some i ∨ file.dirIndex = none

theorem before_of_found {name : List Byte} (h : fatGetIndex v d name = some (some i)) :
    i < v.dirSlots d ∧ ∀ j ≤ i, (v.entryAt d j).name0 ≠ 0 := by
  obtain ⟨-, -, hslot, hfound, hbefore⟩ := getIndexFrom_found h
  refine ⟨hslot, fun j hj => ?_⟩
  rcases Nat.lt_or_eq_of_le hj with hlt | rfl
  · exact (scanEntry_next (hbefore j (Nat.zero_le j) hlt)).1
  · exact (scanEntry_found hfound).1

theorem file2entryLoop_last (hd : ∀ c : Nat, d = .cluster c → file.entry.startCluster = c)
    (h : file2entryLoop v rest cs d file = some (some found)) :
    match lastEntry v rest cs d with
    | none => found.entry = file.entry ∧ found.dirCluster = file.dirCluster ∧
        (found.dirIndex = file.dirIndex ∨ found.dirIndex = none)
    | some (d', i) => FoundEntry v d' i found := by
  induction cs generalizing d file with
  | nil =>
    cases h
    exact ⟨rfl, rfl, .inl rfl⟩
  | cons c cs ih =>
    rw [file2entryLoop] at h
    rw [lastEntry]
    cases hget : fatGetIndex v d (c ++ 0 :: joinPath rest cs) with
    | none =>
      rw [hget] at h
      contradiction
    | some r =>
      rw [hget, Option.bind_some] at h
      cases r with
      | none =>
        dsimp only at h ⊢
        split at h
        case isTrue =>
          cases h
          exact ⟨rfl, rfl, .inr rfl⟩
        case isFalse => simp at h
      | some i =>
        have hlast := ih (fun c hc => by cases hc; rfl) h
        dsimp only
        cases hrest : lastEntry v rest cs (.cluster (v.entryAt d i).startCluster) with
        | some p =>
          rw [hrest] at hlast
          exact hlast
        | none =>
          rw [hrest] at hlast
          obtain ⟨hentry, hcluster, hindex⟩ := hlast
          obtain ⟨hslot, hbefore⟩ := before_of_found hget
          refine ⟨hentry, hbefore, hslot, fun c hc => hcluster.trans ?_, hindex⟩
          exact congrArg Nat.cast (hd c hc)

theorem pathEntry_found (h : fatFile2entry v prev path = some (some file))
    (hp : pathEntry v path = some (d, i)) :
    FoundEntry v d i file := by
  have hlast := file2entryLoop_last (fun c hc => by cases hc) h
  rw [pathEntry] at hp
  rw [hp] at hlast
  exact hlast

/-! ## The update -/

theorem FoundEntry.unchanged (hf : FoundEntry v d i file) (hno : d = .root ∨ file.dirIndex = none)
    {file' : FatFile} {ret : Int}
    (h : fatUpdateFileEntry v (emptied file) = some (v', file', ret)) : v'.entryAt d i = v.entryAt d i := by
  cases hd : d with
  | root =>
    rcases fatUpdateFileEntry_result h with ⟨rfl, -⟩ | ⟨⟨block, rfl⟩, -⟩ <;> rfl
  | cluster c =>
    have hindex : (emptied file).dirIndex = none := hno.resolve_left (by rw [hd]; simp)
    have hcluster : (emptied file).dirCluster = c := hf.dirCluster c hd
    cases hend : endSlot v c with
    | none =>
      rw [← hcluster] at hend
      rw [fatUpdateFileEntry_no_end _ hindex hend] at h
      contradiction
    | some k =>
      by_cases hk : k + 1 < v.slots
      · obtain ⟨v1, hupdate, happended⟩ := fatUpdateFileEntry_append _ hindex hcluster hend hk
        obtain ⟨rfl, -⟩ := Prod.mk.inj (Option.some.inj (hupdate.symm.trans h))
        have hlt : i < k := Nat.lt_of_not_le fun hle => hf.before k hle (hd ▸ happended.wasEnd)
        exact happended.others _ _ (by simp; omega) (by simp; omega)
      · rw [← hcluster] at hend
        rw [fatUpdateFileEntry_last _ hindex hend (by omega)] at h
        obtain ⟨rfl, -⟩ := Prod.mk.inj (Option.some.inj h)
        rfl

theorem FoundEntry.written (hf : FoundEntry v d i file) (hd : d ≠ .root) (hindex : file.dirIndex ≠ none) :
    ∃ v', fatUpdateFileEntry v (emptied file) = some (v', emptied file, SUCCESS) ∧
      (v'.entryAt d i).fileSize = 0 := by
  have hsome := hf.dirIndex.resolve_right hindex
  cases d with
  | root => contradiction
  | cluster c =>
    obtain ⟨v', hupdate, hreplaced⟩ := fatUpdateFileEntry_slot (emptied file) hsome
      (hf.dirCluster c rfl) hf.slot
    refine ⟨v', ?_, ?_⟩
    · rw [hupdate, emptied, ← hsome]
    · rw [hreplaced.entry, FatEntry.fileSize_copy]
      exact FatEntry.fileSize_setFileSize (by decide)

/-! ## When opening truncates on request -/

theorem truncates_of_kept (hfound : fatFile2entry v prev path = some (some file))
    (hopen : openFile v { handle with mode := modeOf flags } file = some (v,
      { handle with mode := modeOf flags, dataPtr := some (handle.mount, { file with currentPos := 0 }) }, true)) :
    TruncatesOnRequest v path handle flags file ↔
      (.truncate ∈ flags → file.entry.fileSize = 0 ∧ (pathEntry v path).isSome) := by
  unfold TruncatesOnRequest
  rw [hopen]
  constructor
  · rintro ⟨v', handle', file', heq, hdata, hif⟩ hmem
    cases heq
    cases hdata
    rw [if_pos hmem] at hif
    obtain ⟨hsize, d, i, hp, -⟩ := hif
    exact ⟨hsize, by rw [hp]; rfl⟩
  · refine fun hsize => ⟨_, _, _, rfl, rfl, ?_⟩
    split
    case isTrue hmem =>
      obtain ⟨hzero, hsome⟩ := hsize hmem
      obtain ⟨⟨d, i⟩, hp⟩ := Option.isSome_iff_exists.mp hsome
      exact ⟨hzero, d, i, hp, by rw [← (pathEntry_found hfound hp).entry]; exact hzero⟩
    case isFalse => exact ⟨rfl, rfl⟩

theorem truncates_of_written (hfound : fatFile2entry v prev path = some (some file))
    (hmode : modeOf flags % 2 = 1)
    (hsize : file.entry.fileSize ≠ 0) : TruncatesOnRequest v path handle flags file ↔
      .truncate ∈ flags ∧ ∃ d i, pathEntry v path = some (d, i) ∧ d ≠ .root ∧ file.dirIndex ≠ none := by
  unfold TruncatesOnRequest
  rw [openFile_writes hmode hsize]
  constructor
  · rintro ⟨v', handle', file', hopen, hdata, hif⟩
    obtain ⟨⟨v1, file1, ret⟩, hupdate, heq⟩ := Option.map_eq_some_iff.mp hopen
    obtain ⟨rfl, rfl, -⟩ : v1 = v' ∧ _ = handle' ∧ _ := by simpa only [Prod.mk.injEq] using heq
    cases hdata
    split at hif
    case isFalse =>
      refine absurd ?_ hsize
      rw [← hif.2, (fatUpdateFileEntry_cases hupdate).1]
      exact FatEntry.fileSize_setFileSize (by decide)
    case isTrue hmem =>
      obtain ⟨-, d, i, hp, hzero⟩ := hif
      have hf := pathEntry_found hfound hp
      refine ⟨hmem, d, i, hp, not_or.mp fun hno => hsize ?_⟩
      rw [hf.entry, ← hf.unchanged hno hupdate]
      exact hzero
  · rintro ⟨hmem, d, i, hp, hd, hindex⟩
    obtain ⟨v', hupdate, hzero⟩ := (pathEntry_found hfound hp).written hd hindex
    rw [hupdate]
    refine ⟨_, _, _, rfl, rfl, ?_⟩
    rw [if_pos hmem]
    exact ⟨FatEntry.fileSize_setFileSize (by decide), d, i, hp, hzero⟩

/-- **Truncation.** Opening truncates on request just when the file is empty, or the flags are odd where they have
`VFS_MODE_TRUNCATE`, for a file that the update finds, and even where they have not. -/
theorem openFile_truncates_iff (v : Volume) (prev : FatEntry) (path : List Byte) (handle : Handle)
    (flags : List ModeFlag) (file : FatFile) (h : fatFile2entry v prev path = some (some file)) :
    TruncatesOnRequest v path handle flags file ↔ TruncateOk v path flags file := by
  unfold TruncateOk
  by_cases hsize : file.entry.fileSize = 0
  · rw [truncates_of_kept h (openFile_empty hsize)]
    by_cases hmem : .truncate ∈ flags
    · simp [hmem, hsize, Option.isSome_iff_exists]
    · simp [hmem, hsize]
  rcases Nat.mod_two_eq_zero_or_one (modeOf flags) with hmode | hmode
  · have hflags : ¬ (.read ∈ flags ∨ .append ∈ flags) := by
      rw [← modeOf_odd, hmode]
      decide
    rw [truncates_of_kept h (openFile_even hmode)]
    by_cases hmem : .truncate ∈ flags
    · simp [hmem, hsize, hflags]
    · simpa [hmem, hsize] using not_or.mp hflags
  · have hflags := (modeOf_odd flags).mp hmode
    rw [truncates_of_written h hmode hsize]
    by_cases hmem : .truncate ∈ flags
    · simp [hmem, hsize, hflags]
    · simpa [hmem, hsize] using fun hread => hflags.resolve_left hread

/-- `/D/F` of the small volume, which has five bytes. -/
def fileF : FatFile :=
  { entry := smallVolume.entryAt (.cluster 2) 0, dirCluster := 2, dirIndex := some 0, currentPos := 0 }

theorem fileF_found (prev : FatEntry) :
    fatFile2entry smallVolume prev [slash, 0x44, slash, 0x46, 0] = some (some fileF) := by
  have hnames : NamesEntry smallVolume [slash, 0x44, slash, 0x46, 0] (.cluster 2) 0 :=
    smallVolume_names [0x46] (by decide) (by decide) (by decide) (by decide)
  obtain ⟨c, ⟨hd, -⟩ | hd, hfound⟩ := hnames.file2entry prev
  · contradiction
  · cases hd
    exact hfound

theorem fileF_truncated : TruncatesOnRequest smallVolume [slash, 0x44, slash, 0x46, 0] ⟨0, 0, none⟩
    [.read, .truncate] fileF :=
  (openFile_truncates_iff smallVolume (fun _ => 0) [slash, 0x44, slash, 0x46, 0] ⟨0, 0, none⟩ [.read,
    .truncate] fileF
    (fileF_found _)).mpr ⟨.cluster 2, 0, by decide, .inr ⟨.inl (by decide), by decide, by decide⟩⟩

/-- It loses them when it is opened to be read. -/
theorem fileF_emptied : ¬ ∀ (v : Volume) (prev : FatEntry) (path : List Byte) (handle : Handle)
    (flags : List ModeFlag)
    (file : FatFile), fatFile2entry v prev path = some (some file) →
    TruncatesOnRequest v path handle flags file := by
  intro h
  have hfound := fileF_found fun _ => 0
  have hread := h smallVolume (fun _ => 0) [slash, 0x44, slash, 0x46, 0] ⟨0, 0, none⟩ [.read] fileF hfound
  have hmem := ((truncates_of_written hfound (by decide) (by decide)).mp hread).1
  revert hmem
  decide

end SystemProjects.Fat
