import SystemProjects.Fat.Create
import SystemProjects.Fat.Delete
import SystemProjects.Fat.ReadBack
import SystemProjects.Lib.Run

/-!
# The chains over whole runs
-/

open SystemProjects.Memory SystemProjects.Run

namespace SystemProjects.Fat

variable {v v' v1 v2 : Volume} {d d' : Dir} {i j n : Nat} {start cluster : Int} {pre post : List Int}
  {chain : Dir → Nat → List Int} {file file' : FatFile} {buffer : Mem} {e : FatEntry} {ret : Int}

/-! ## Runs -/

/-- The operations on paths. A file is opened for a write and for a new size. -/
inductive Op where
  | create (path : List Byte)
  | write (path : List Byte) (pos n : Nat) (buffer : Mem)
  | setFileSize (path : List Byte) (size : Nat)
  | rename (src dst : List Byte)
  | delete (path : List Byte)

def withFile (v : Volume) (prev : FatEntry) (path : List Byte)
    (f : FatFile → Option (Volume × FatFile × Int)) :
    Option Volume :=
  (fatFile2entry v prev path).bind fun
    | none => some v
    | some file => (f file).map fun r => r.1

/-- An operation comes with what the uninitialised entry of its lookups holds. -/
def step (v : Volume) : FatEntry × Op → Option Volume
  | (prev, .create path) => (fatCreate v prev path).map fun r => r.1
  | (prev, .write path pos n buffer) =>
    withFile v prev path fun file => fatWrite v (fatSeek file pos .start).1 buffer n
  | (prev, .setFileSize path size) => withFile v prev path fun file => fatSetFileSize v file size
  | (prev, .rename src dst) => (fatRename v prev src dst).map fun r => r.1
  | (prev, .delete path) => (fatDelete v prev path).map fun r => r.1

/-! ## Safe operations -/

/-- When the cluster that an update of the entry writes is a directory, the entry is in it at the index. -/
def UpdateSafe (v : Volume) (file : FatFile) : Prop :=
  ∀ b : Nat, file.dirCluster = b → IsDir v (.cluster b) →
    ∃ i, file.dirIndex = some i ∧ Live v (.cluster b) i ∧ v.entryAt (.cluster b) i = file.entry

/-- The write fails before it changes anything, or it is to a file with a start cluster, there are enough free clusters
if it goes beyond the end, and the entry is where the new size goes. -/
def WriteSafe (v : Volume) (file : FatFile) (n : Nat) : Prop :=
  walkChain v.fat (file.currentPos / v.clusterSize) file.entry.startCluster = none ∨
    file.entry.fileSize < dword (file.currentPos + n) ∧ freeClusters v = [] ∨
    (∃ d i, IsDir v d ∧ Live v d i ∧ v.entryAt d i = file.entry ∧ file.entry.directory = false) ∧
      file.entry.startCluster ≠ 0 ∧
      (file.currentPos + n ≤ file.entry.fileSize ∨ UpdateSafe v file ∧
        (dword (file.currentPos + n) ≤ file.entry.fileSize ∨ newClusters v n ≤ (freeClusters v).length))

/-- A new directory has a cluster whose number fits into an entry. -/
def CreateSafe (v : Volume) (path : List Byte) : Prop :=
  (cutString path).getLast? ≠ some slash ∨ fatGetFreeCluster v < 2 ^ 16 ∨
    fatGetFreeCluster v % 2 ^ 16 = 0xFFFF

def OpSafe (v : Volume) : FatEntry × Op → Prop
  | (_, .create path) => CreateSafe v path
  | (prev, .write path pos n _) => ∀ file, fatFile2entry v prev path = some (some file) →
    WriteSafe v (fatSeek file pos .start).1 n
  | (prev, .setFileSize path size) => ∀ file, fatFile2entry v prev path = some (some file) →
    file.entry.fileSize = size ∨ UpdateSafe v file
  | (prev, .rename src dst) => ∀ file, fatFile2entry v prev src = some (some file) →
    strrchr (cstr dst) = none ∨ UpdateSafe v file
  | (prev, .delete path) => ∀ file, fatFile2entry v prev path = some (some file) →
    file.entry.fileSize = 0 ∨ UpdateSafe v file

/-! ## Directories that are kept -/

/-- The entry was live before, with the same start cluster and kind. -/
def KeptEntry (v v' : Volume) (d : Dir) (j : Nat) : Prop :=
  Live v d j ∧ (v'.entryAt d j).startCluster = (v.entryAt d j).startCluster ∧
    (v'.entryAt d j).directory = (v.entryAt d j).directory

theorem keptEntry_of_eq (hlive : Live v d j) (h : v'.entryAt d j = v.entryAt d j) : KeptEntry v v' d j :=
  ⟨hlive, by rw [h], by rw [h]⟩

/-- What is live now was so before. -/
def Kept (v v' : Volume) : Prop := ∀ d j, IsDir v d → Live v' d j → KeptEntry v v' d j

theorem Kept.isDir (h : Kept v v') (hdir : IsDir v' d) : IsDir v d := by
  induction hdir with
  | root => exact .root
  | sub _ hlive hdirectory ih =>
    obtain ⟨hlive', hstart, hkind⟩ := h _ _ ih hlive
    rw [hstart]
    exact .sub ih hlive' (hkind ▸ hdirectory)

theorem Chains.kept (h : Chains v chain) (hk : Kept v v')
    (hfat : ∀ d j, IsDir v d → Live v d j → ∀ c ∈ chain d j, v'.fat c = v.fat c) : Chains v' chain where
  own d j hdir hlive := by
    have hdir' := hk.isDir hdir
    obtain ⟨hlive', hstart, hkind⟩ := hk d j hdir' hlive
    rw [HasChain, hstart, hkind]
    rcases h.own d j hdir' hlive' with hnone | ⟨hchain, htwo⟩
    · exact .inl hnone
    · exact .inr ⟨hchain.congr (hfat d j hdir' hlive'), htwo⟩
  apart d j d' j' hdir hlive hdir' hlive' :=
    h.apart d j d' j' (hk.isDir hdir) (hk d j (hk.isDir hdir) hlive).1 (hk.isDir hdir')
      (hk d' j' (hk.isDir hdir') hlive').1

theorem live_congr (hslots : v'.dirSlots = v.dirSlots) (h : ∀ k, v'.entryAt d k = v.entryAt d k) :
    Live v' d j ↔ Live v d j := by
  unfold Live
  simp only [hslots, h]

theorem kept_of_entries (hslots : v'.dirSlots = v.dirSlots)
    (h : ∀ d j, IsDir v d → v'.entryAt d j = v.entryAt d j) :
    Kept v v' := by
  intro d j hdir hlive
  rw [live_congr hslots fun k => h d k hdir] at hlive
  exact keptEntry_of_eq hlive (h d j hdir)

theorem Kept.refl : Kept v v := kept_of_entries rfl fun _ _ _ => rfl

theorem Replaced.kept (h : Replaced v v' d i e) (hlive : Live v d i)
    (hstart : e.startCluster = (v.entryAt d i).startCluster)
    (hkind : e.directory = (v.entryAt d i).directory) : Kept v v' := by
  intro d' j _ hlive'
  have hold : ∀ k, (v'.entryAt d' k).name0 ≠ 0 → (v.entryAt d' k).name0 ≠ 0 := by
    intro k hk
    by_cases heq : (d', k) = (d, i)
    · obtain ⟨rfl, rfl⟩ := Prod.mk.inj heq
      exact hlive.2.1 k k.le_refl
    · rwa [h.others d' k heq] at hk
  obtain ⟨hslots, hnames, hdeleted⟩ := hlive'
  rw [h.slots] at hslots
  by_cases heq : (d', j) = (d, i)
  · obtain ⟨rfl, rfl⟩ := Prod.mk.inj heq
    rw [KeptEntry, h.entry, FatEntry.startCluster_copy, FatEntry.directory_copy]
    exact ⟨hlive, hstart, hkind⟩
  · rw [h.others d' j heq] at hdeleted
    exact keptEntry_of_eq ⟨hslots, fun k hk => hold k (hnames k hk), hdeleted⟩ (h.others d' j heq)

theorem kept_setData {c : Int} {block : Mem} (hc : ∀ b : Nat, c = b → ¬ IsDir v (.cluster b)) :
    Kept v (v.setData c block) := by
  refine kept_of_entries dirSlots_setData fun d j hdir => ?_
  cases d with
  | root => rfl
  | cluster b =>
    have hne : (b : Int) ≠ c := fun heq => hc b heq.symm hdir
    rw [Volume.entryAt, Volume.entryAt, Volume.dir, Volume.dir, setData_other hne]

/-! ## Updates -/

theorem UpdateSafe.kept (hsafe : UpdateSafe v file) {file1 : FatFile}
    (hindex : file1.dirIndex = file.dirIndex) (hcluster : file1.dirCluster = file.dirCluster)
    (hstart : file1.entry.startCluster = file.entry.startCluster)
    (hkind : file1.entry.directory = file.entry.directory)
    (h : fatUpdateFileEntry v file1 = some (v', file', ret)) : Kept v v' ∧ v'.fat = v.fat := by
  rcases fatUpdateFileEntry_result h with ⟨rfl, -⟩ | ⟨⟨block, rfl⟩, -⟩
  · exact ⟨.refl, rfl⟩
  · refine ⟨?_, rfl⟩
    by_cases hdir : ∃ b : Nat, file1.dirCluster = b ∧ IsDir v (.cluster b)
    · obtain ⟨b, hb, hdir⟩ := hdir
      obtain ⟨i, hi, hlive, hentry⟩ := hsafe b (hcluster.symm.trans hb) hdir
      obtain ⟨v1, heq, hreplaced⟩ := fatUpdateFileEntry_slot (v := v) file1 (hindex.trans hi) hb hlive.1
      obtain rfl : v1 = _ := (Prod.ext_iff.mp (Option.some.inj (heq.symm.trans h))).1
      exact hreplaced.kept hlive (hstart.trans (by rw [hentry])) (hkind.trans (by rw [hentry]))
    · exact kept_setData fun b hb hdir' => hdir ⟨b, hb, hdir'⟩

theorem FatEntry.directory_setFileSize {size : Nat} : (e.setFileSize size).directory = e.directory := by
  rw [directory, setFileSize, store32_other (by omega), directory]

theorem fatSetFileSize_kept {size : Nat} (hsafe : file.entry.fileSize = size ∨ UpdateSafe v file)
    {file1 : FatFile} (hindex : file1.dirIndex = file.dirIndex)
    (hcluster : file1.dirCluster = file.dirCluster) (hsize : file1.entry.fileSize = file.entry.fileSize)
    (hstart : file1.entry.startCluster = file.entry.startCluster)
    (hkind : file1.entry.directory = file.entry.directory)
    (h : fatSetFileSize v file1 size = some (v', file', ret)) : Kept v v' ∧ v'.fat = v.fat := by
  unfold fatSetFileSize at h
  split at h
  case isTrue =>
    obtain ⟨rfl, -⟩ := Prod.ext_iff.mp (Option.some.inj h)
    exact ⟨.refl, rfl⟩
  case isFalse hne =>
    rw [hsize] at hne
    refine (hsafe.resolve_left hne).kept ?_ ?_ ?_ ?_ h
    · exact hindex
    · exact hcluster
    · rw [FatEntry.startCluster_setFileSize, hstart]
    · rw [FatEntry.directory_setFileSize, hkind]

/-! ## Writes -/

def setChain (chain : Dir → Nat → List Int) (d : Dir) (i : Nat) (new : List Int) (d' : Dir)
    (j : Nat) : List Int :=
  if (d', j) = (d, i) then new else chain d' j

theorem setChain_self {new : List Int} : setChain chain d i new d i = new := if_pos rfl

theorem setChain_other {new : List Int} (hne : (d', j) ≠ (d, i)) :
    setChain chain d i new d' j = chain d' j := if_neg hne

theorem Chains.set (h : Chains v chain) {new : List Int}
    (hk : ∀ d' j, IsDir v' d' → Live v' d' j → (d', j) ≠ (d, i) → IsDir v d' ∧ KeptEntry v v' d' j)
    (hnew : HasChain v'.fat (v'.entryAt d i) new)
    (hapart : ∀ d' j, IsDir v d' → Live v d' j → (d', j) ≠ (d, i) → ∀ c ∈ chain d' j, c ∉ new)
    (hfat : ∀ c, c ∉ new → v'.fat c = v.fat c) : Chains v' (setChain chain d i new) where
  own d' j hdir hlive := by
    by_cases heq : (d', j) = (d, i)
    · obtain ⟨rfl, rfl⟩ := Prod.mk.inj heq
      rw [setChain_self]
      exact hnew
    · obtain ⟨hdir', hlive', hstart, hkind⟩ := hk d' j hdir hlive heq
      rw [setChain_other heq, HasChain, hstart, hkind]
      rcases h.own d' j hdir' hlive' with hnone | ⟨hchain, htwo⟩
      · exact .inl hnone
      · exact .inr ⟨hchain.congr fun c hc => hfat c (hapart d' j hdir' hlive' heq c hc), htwo⟩
  apart d1 j1 d2 j2 hdir1 hlive1 hdir2 hlive2 hne c hc hc' := by
    by_cases heq1 : (d1, j1) = (d, i)
    · have heq2 : (d2, j2) ≠ (d, i) := fun heq => hne (heq1.trans heq.symm)
      obtain ⟨hd2, hl2, -⟩ := hk d2 j2 hdir2 hlive2 heq2
      rw [setChain, if_pos heq1] at hc
      rw [setChain_other heq2] at hc'
      exact hapart d2 j2 hd2 hl2 heq2 c hc' hc
    · obtain ⟨hd1, hl1, -⟩ := hk d1 j1 hdir1 hlive1 heq1
      rw [setChain_other heq1] at hc
      by_cases heq2 : (d2, j2) = (d, i)
      · rw [setChain, if_pos heq2] at hc'
        exact hapart d1 j1 hd1 hl1 heq1 c hc hc'
      · obtain ⟨hd2, hl2, -⟩ := hk d2 j2 hdir2 hlive2 heq2
        rw [setChain_other heq2] at hc'
        exact h.apart d1 j1 d2 j2 hd1 hl1 hd2 hl2 hne c hc hc'

theorem fatRw_ready (hchain : ChainFrom v.fat file.entry.startCluster (pre ++ cluster :: post))
    (htwo : ∀ c ∈ pre ++ cluster :: post, 2 ≤ c) (hzero : v.fat 0 ≠ fatFreecluster)
    (hone : v.fat 1 ≠ fatFreecluster)
    (hwalk : walkChain v.fat (file.currentPos / v.clusterSize) file.entry.startCluster = some cluster)
    (hroom : dword (file.currentPos + n) ≤ file.entry.fileSize ∨ newClusters v n ≤ (freeClusters v).length)
    (buffer : Mem) :
    ∃ v1 post', Ready v v1 file.entry.startCluster cluster pre post' (pre ++ cluster :: post) ∧
      (∀ c ∈ pre ++ cluster :: post', 2 ≤ c) ∧
      fatRw .write v file buffer n = rwFrom .write v1 file buffer cluster n := by
  by_cases hgrow : file.entry.fileSize < dword (file.currentPos + n)
  · obtain ⟨v1, hgrown, hrw⟩ := fatRw_grow buffer hwalk hgrow (hchain.fat_ne_free (by simp)) hzero
      (hchain.links.ne_end (by simp)) (hroom.resolve_left (by omega))
    refine ⟨v1, _, ready_grown hchain hgrown fun c hc => fat_of_mem_take hc, fun c hc => ?_, hrw⟩
    have hcases : c ∈ pre ++ cluster :: post ∨ c ∈ (freeClusters v).take (newClusters v n) := by
      simp only [List.mem_append, List.mem_cons] at hc ⊢
      tauto
    rcases hcases with hold | hadded
    · exact htwo c hold
    · obtain ⟨⟨k, -, rfl⟩, hfree⟩ := mem_freeClusters.mp (List.mem_of_mem_take hadded)
      have hk0 : k ≠ 0 := by
        rintro rfl
        exact hzero hfree
      have hk1 : k ≠ 1 := by
        rintro rfl
        exact hone hfree
      omega
  · exact ⟨v, post, ready_same hchain, htwo, fatRw_same buffer hwalk hgrow⟩

theorem rwFrom_frame {written : FatFile} {buffer' : Mem} {m : Int}
    (hchain : ChainFrom v.fat cluster (cluster :: post))
    (h : rwFrom .write v file buffer cluster n = some (v', written, buffer', m)) :
    (v' = { v with data := v'.data } ∧ ∀ c ∉ cluster :: post, v'.data c = v.data c) ∧
      ∃ moved : Nat, m = moved ∧ moved ≤ n ∧ written =
        { file with currentPos := file.currentPos + moved } := by
  obtain ⟨moved, hm, hwritten, -, hmoved⟩ := rwFrom_moved h
  refine ⟨⟨hmoved.same, fun c hc => hmoved.others c fun k hk => hc ?_⟩, moved, hm, hmoved.le, hwritten⟩
  exact hchain.mem_of_walk (by simp) hk

theorem UpdateSafe.of_entries (hsafe : UpdateSafe v file) (hk : Kept v v') (hslots : v'.dirSlots = v.dirSlots)
    (h : ∀ d j, IsDir v d → v'.entryAt d j = v.entryAt d j) (hindex : file'.dirIndex = file.dirIndex)
    (hcluster : file'.dirCluster = file.dirCluster) (hentry : file'.entry = file.entry) :
    UpdateSafe v' file' := by
  intro b hb hdir
  obtain ⟨i, hi, hlive, hsame⟩ := hsafe b (hcluster.symm.trans hb) (hk.isDir hdir)
  refine ⟨i, hindex.trans hi, ?_, ?_⟩
  · rwa [live_congr hslots fun k => h _ k (hk.isDir hdir)]
  · rw [h _ i (hk.isDir hdir), hsame, hentry]

/-- Chains are kept and so are the reserved entries of the FAT. -/
def ChainsKept (v v' : Volume) : Prop := (∃ chain, Chains v' chain) ∧ v'.fat 0 = v.fat 0 ∧ v'.fat 1 = v.fat 1

theorem Chains.same (h : Chains v chain) : ChainsKept v v := ⟨⟨chain, h⟩, rfl, rfl⟩

theorem Chains.keptBy (h : Chains v chain) (hk : Kept v v' ∧ v'.fat = v.fat) : ChainsKept v v' :=
  ⟨⟨chain, h.kept hk.1 fun _ _ _ _ _ _ => by rw [hk.2]⟩, by rw [hk.2], by rw [hk.2]⟩

theorem write_fails (h : Chains v chain) (hrw : fatRw .write v file buffer n = some (v, file, buffer, FAIL))
    (hw : fatWrite v file buffer n = some (v', file', ret)) : ChainsKept v v' := by
  rw [fatWrite_fail hrw] at hw
  obtain ⟨rfl, -⟩ := Prod.ext_iff.mp (Option.some.inj hw)
  exact h.same

theorem write_along (h : Chains v chain) (hzero : v.fat 0 ≠ fatFreecluster) (hone : v.fat 1 ≠ fatFreecluster)
    (hdir : IsDir v d) (hlive : Live v d i) (hentry : v.entryAt d i = file.entry)
    (hfile : file.entry.directory = false) (hstart : file.entry.startCluster ≠ 0)
    (hwalk : walkChain v.fat (file.currentPos / v.clusterSize) file.entry.startCluster = some cluster)
    (hsize : file.currentPos + n ≤ file.entry.fileSize ∨ UpdateSafe v file ∧
      (dword (file.currentPos + n) ≤ file.entry.fileSize ∨ newClusters v n ≤ (freeClusters v).length))
    (hw : fatWrite v file buffer n = some (v', file', ret)) : ChainsKept v v' := by
  obtain ⟨hchain, htwo⟩ := (h.own d i hdir hlive).resolve_left fun hnone => hstart (hentry ▸ hnone.1)
  rw [hentry] at hchain
  obtain ⟨pre, post, -, hsplit⟩ := hchain.cluster_at hwalk
  rw [hsplit] at hchain htwo
  have hroom : dword (file.currentPos + n) ≤ file.entry.fileSize ∨
    newClusters v n ≤ (freeClusters v).length := by
    rcases hsize with hle | ⟨-, hroom⟩
    · exact .inl (Nat.le_trans (Nat.mod_le _ _) hle)
    · exact hroom
  obtain ⟨v1, post', hr, htwo', hrw⟩ := fatRw_ready hchain htwo hzero hone hwalk hroom buffer
  rw [← hsplit] at hr
  obtain ⟨⟨v2, written, buffer', m⟩, hrw', -⟩ :=
    Option.bind_eq_some_iff.mp (fatWrite.eq_1 v file buffer n ▸ hw)
  obtain ⟨⟨hsame, hothers⟩, moved, rfl, hle, rfl⟩ := rwFrom_frame hr.chain.suffix (hrw ▸ hrw')
  have hentries : ∀ d' j, IsDir v d' → v2.entryAt d' j = v.entryAt d' j := fun d' j hdir' =>
    hr.entries hsame hothers h hdir hlive (hentry ▸ hfile) hdir'
  have hslots : v2.dirSlots = v.dirSlots := by
    rw [hsame, hr.same]
    rfl
  have hk : Kept v v2 := kept_of_entries hslots hentries
  have hfat : v2.fat = v1.fat := by rw [hsame]
  have hnew : Chains v2 (setChain chain d i (pre ++ cluster :: post')) := by
    refine h.set (fun d' j hdir' hlive' _ => ⟨hk.isDir hdir', hk d' j (hk.isDir hdir') hlive'⟩) ?_ ?_ ?_
    · rw [hfat, hentries d i hdir, hentry]
      exact .inr ⟨hr.chain, htwo'⟩
    · exact fun d' j hdir' hlive' hne c hc => hr.apart h hdir hlive hdir' hlive' hne hc
    · intro c hc
      rw [hfat]
      exact hr.others c hc
  have hreserved : v2.fat 0 = v.fat 0 ∧ v2.fat 1 = v.fat 1 := by
    rw [hfat]
    refine ⟨hr.others 0 fun hin => ?_, hr.others 1 fun hin => ?_⟩
    · exact absurd (htwo' 0 hin) (by decide)
    · exact absurd (htwo' 1 hin) (by decide)
  rw [fatWrite_of_rw hrw'] at hw
  dsimp only at hw
  split at hw
  case isFalse =>
    obtain ⟨rfl, -⟩ := Prod.ext_iff.mp (Option.some.inj hw)
    exact ⟨⟨_, hnew⟩, hreserved⟩
  case isTrue hlt =>
    have hsafe : UpdateSafe v2 { file with currentPos := file.currentPos + moved } :=
      (hsize.resolve_left (by omega)).1.of_entries hk hslots hentries rfl rfl rfl
    obtain ⟨hchains, hfat0, hfat1⟩ := hnew.keptBy (fatSetFileSize_kept (.inr hsafe) rfl rfl rfl rfl rfl hw)
    exact ⟨hchains, hfat0.trans hreserved.1, hfat1.trans hreserved.2⟩

theorem write_kept (h : Chains v chain) (hzero : v.fat 0 ≠ fatFreecluster) (hone : v.fat 1 ≠ fatFreecluster)
    (hsafe : WriteSafe v file n) (hw : fatWrite v file buffer n = some (v', file', ret)) :
    ChainsKept v v' := by
  cases hwalk : walkChain v.fat (file.currentPos / v.clusterSize) file.entry.startCluster with
  | none => exact write_fails h (fatRw_none hwalk) hw
  | some cluster =>
    rcases hsafe with hnone | ⟨hgrow, hnone⟩ | ⟨⟨d, i, hdir, hlive, hentry, hfile⟩, hstart, hsize⟩
    · rw [hwalk] at hnone
      contradiction
    · exact write_fails h (fatRw_full hwalk hgrow (addClusters_none hnone)) hw
    · exact write_along h hzero hone hdir hlive hentry hfile hstart hwalk hsize hw

/-! ## New entries -/

theorem Appended.live (h : Appended v v' d i e) (hlive : Live v' d' j) (hne : (d', j) ≠ (d, i)) :
    Live v d' j ∧ v'.entryAt d' j = v.entryAt d' j := by
  have hsame : ∀ k ≤ j, v'.entryAt d' k = v.entryAt d' k := by
    intro k hk
    by_cases hd : d' = d
    · subst hd
      have hji : j ≠ i := fun heq => hne (by rw [heq])
      refine h.same_before (Nat.lt_of_not_le fun hik => ?_)
      exact hlive.2.1 (i + 1) (by omega) h.isEnd
    · exact h.same_other hd
  obtain ⟨hslots, hnames, hdeleted⟩ := hlive
  rw [hsame j j.le_refl] at hdeleted ⊢
  rw [h.slots] at hslots
  exact ⟨⟨hslots, fun k hk => by rw [← hsame k hk]; exact hnames k hk, hdeleted⟩, rfl⟩

/-- A new entry, with a chain of its own, and no live entries in it when it is a directory. -/
theorem append_kept (new : List Int) (h : Chains v chain) {c : Nat} (hindex : file.dirIndex = none)
    (hcluster : file.dirCluster = c) (hnew : HasChain v.fat file.entry new)
    (hapart : ∀ d j, IsDir v d → Live v d j → ∀ x ∈ chain d j, x ∉ new)
    (hempty : file.entry.directory = true → ¬ IsDir v (.cluster file.entry.startCluster) ∧
      (v.entryAt (.cluster file.entry.startCluster) 0).name0 = 0)
    (hu : fatUpdateFileEntry v file = some (v', file', ret)) : (∃ chain, Chains v' chain) ∧
    v'.fat = v.fat := by
  have hfat := fatUpdateFileEntry_fat hu
  refine ⟨?_, hfat⟩
  by_cases hdir : IsDir v (.cluster c)
  · cases hend : endSlot v c with
    | none =>
      rw [fatUpdateFileEntry_no_end file hindex (hcluster ▸ hend)] at hu
      contradiction
    | some i =>
      by_cases hi : i + 1 < v.slots
      · obtain ⟨v1, heq, happ⟩ := fatUpdateFileEntry_append file hindex hcluster hend hi
        obtain rfl : v1 = v' := (Prod.ext_iff.mp (Option.some.inj (heq.symm.trans hu))).1
        have hnone : file.entry.directory = true → ∀ j, ¬ Live v1 (.cluster file.entry.startCluster) j := by
          intro hkind j hlive
          obtain ⟨hnot, hname⟩ := hempty hkind
          have hne : Dir.cluster file.entry.startCluster ≠ .cluster c := fun heq => hnot (heq ▸ hdir)
          apply hlive.2.1 0 j.zero_le
          rw [happ.same_other hne, hname]
        have hdirs : ∀ d, IsDir v1 d → IsDir v d ∨ file.entry.directory = true ∧
          d = .cluster file.entry.startCluster := by
          intro d hd
          induction hd with
          | root => exact .inl .root
          | @sub d0 j _ hlive hdirectory ih =>
            rcases ih with hold | ⟨hkind, rfl⟩
            · by_cases heq : (d0, j) = (.cluster c, i)
              · obtain ⟨rfl, rfl⟩ := Prod.mk.inj heq
                rw [happ.entry] at hdirectory ⊢
                rw [FatEntry.directory_copy] at hdirectory
                rw [FatEntry.startCluster_copy]
                exact .inr ⟨hdirectory, rfl⟩
              · obtain ⟨hlive', hsame⟩ := happ.live hlive heq
                rw [hsame] at hdirectory ⊢
                exact .inl (.sub hold hlive' hdirectory)
            · exact absurd hlive (hnone hkind j)
        refine ⟨setChain chain (.cluster c) i new, h.set (fun d' j hdir' hlive hne => ?_) ?_
          (fun d' j hdir' hlive _ => hapart d' j hdir' hlive) fun c _ => by rw [hfat]⟩
        · rcases hdirs d' hdir' with hold | ⟨hkind, rfl⟩
          · obtain ⟨hlive', hsame⟩ := happ.live hlive hne
            exact ⟨hold, keptEntry_of_eq hlive' hsame⟩
          · exact absurd hlive (hnone hkind j)
        · rw [happ.entry, HasChain, FatEntry.startCluster_copy, FatEntry.directory_copy, hfat]
          exact hnew
      · rw [fatUpdateFileEntry_last file hindex (hcluster ▸ hend) (Nat.le_of_not_lt hi)] at hu
        obtain rfl : v = v' := (Prod.ext_iff.mp (Option.some.inj hu)).1
        exact ⟨chain, h⟩
  · rcases fatUpdateFileEntry_result hu with ⟨rfl, -⟩ | ⟨⟨block, rfl⟩, -⟩
    · exact ⟨chain, h⟩
    · refine ⟨chain, h.kept (kept_setData fun b hb hdir' => hdir ?_) fun _ _ _ _ _ _ => rfl⟩
      rw [hcluster] at hb
      rwa [Int.ofNat_inj.mp hb]

theorem FatEntry.startCluster_setStartCluster {c : Nat} (hc : c < 2 ^ 16) :
    (e.setStartCluster c).startCluster = c := by
  simp [startCluster, load16, setStartCluster]
  omega

theorem newFile_none (name : List Byte) : (fatSetFileName (fun _ => 0) name).setArchive.startCluster = 0 ∧
    (fatSetFileName (fun _ => 0) name).setArchive.directory = false := by
  constructor
  · simp [FatEntry.startCluster, load16, FatEntry.setArchive, fatSetFileName]
  · simp [FatEntry.directory, FatEntry.setArchive, fatSetFileName]

theorem append_map {f : FatFile} (h : (fatUpdateFileEntry v f).map (fun (v, _, ret) => (v, ret)) =
    some (v', ret)) :
    ∃ file', fatUpdateFileEntry v f = some (v', file', ret) := by
  obtain ⟨⟨v1, file', ret'⟩, heq, h⟩ := Option.map_eq_some_iff.mp h
  obtain ⟨rfl, rfl⟩ := Prod.mk.inj h
  exact ⟨file', heq⟩

theorem Chains.newCluster (h : Chains v chain) {k : Nat} (hfree : v.fat k = fatFreecluster) :
    Kept v (fatSetFATCluster (v.setData k fun _ => 0) k fatEndofcluster) ∧ ¬ IsDir v (.cluster k) ∧
      (∀ d j, IsDir v d → Live v d j → ∀ c ∈ chain d j, c ≠ k) := by
  have hapart : ∀ d j, IsDir v d → Live v d j → ∀ c ∈ chain d j, c ≠ k := by
    rintro d j hdir hlive c hc rfl
    exact (h.of_mem hdir hlive hc).1.fat_ne_free hc hfree
  have hnot : ¬ IsDir v (.cluster k) := by
    intro hdir
    obtain ⟨d, j, hd, hlive, -, hmem⟩ := h.directory hdir
    exact hapart d j hd hlive k hmem rfl
  refine ⟨?_, hnot, hapart⟩
  have hkept : Kept v (v.setData k fun _ => 0) :=
    kept_setData fun b hb hdir => hnot (Int.ofNat_inj.mp hb ▸ hdir)
  exact hkept

/-- The entry that `createEntry` writes. -/
def newFile (entry : FatEntry) (c : Int) : FatFile where
  entry := entry
  dirCluster := c
  dirIndex := none
  currentPos := 0

theorem createFile_kept (h : Chains v chain) {c : Nat} {name : List Byte}
    (hu : fatUpdateFileEntry v (newFile (fatSetFileName (fun _ => 0) name).setArchive c) =
    some (v', file', ret)) :
    ChainsKept v v' := by
  obtain ⟨hstart, hkind⟩ := newFile_none name
  have hkept : (∃ chain, Chains v' chain) ∧ v'.fat = v.fat := by
    refine append_kept [] h rfl rfl ?_ ?_ ?_ hu
    · exact .inl ⟨hstart, rfl, hkind⟩
    · exact fun _ _ _ _ _ _ => List.not_mem_nil
    · intro hdir
      rw [newFile, hkind] at hdir
      contradiction
  obtain ⟨hchains, hfat⟩ := hkept
  exact ⟨hchains, by rw [hfat], by rw [hfat]⟩

theorem createDirectory_kept (h : Chains v chain) {c k : Nat} {name : List Byte}
    (hfree : v.fat k = fatFreecluster) (hk : 2 ≤ k) (hlt : k < 2 ^ 16)
    (hu : fatUpdateFileEntry (fatSetFATCluster (v.setData k fun _ => 0) k fatEndofcluster)
      (newFile ((fatSetFileName (fun _ => 0) name).setDirectory.setStartCluster k) c) =
        some (v', file', ret)) :
    ChainsKept v v' := by
  obtain ⟨hkept, hnot, hapart⟩ := h.newCluster hfree
  generalize hv1 : fatSetFATCluster (v.setData k fun _ => 0) k fatEndofcluster = v1 at hu hkept
  have hset : ∀ x, v1.fat x = if x = k then fatEndofcluster else v.fat x := fun x => by rw [← hv1]; rfl
  have hchains : Chains v1 chain := by
    refine h.kept hkept fun d j hdir hlive x hx => ?_
    rw [hset, if_neg (hapart d j hdir hlive x hx)]
  have hstart := FatEntry.startCluster_setStartCluster (e :=
    (fatSetFileName (fun _ => 0) name).setDirectory) hlt
  have hkept' : (∃ chain, Chains v' chain) ∧ v'.fat = v1.fat := by
    refine append_kept [(k : Int)] hchains rfl rfl ?_ ?_ ?_ hu
    · rw [newFile, HasChain, hstart]
      refine .inr ⟨⟨⟨rfl, ?_, ?_⟩, by simp⟩, ?_⟩
      · unfold FAIL
        omega
      · exact (hset k).trans (if_pos rfl)
      · simp only [List.mem_singleton]
        omega
    · intro d j hdir hlive x hx
      rw [List.mem_singleton]
      have hdir' := hkept.isDir hdir
      exact hapart d j hdir' (hkept d j hdir' hlive).1 x hx
    · rw [newFile, hstart]
      intro _
      refine ⟨fun hdir => hnot (hkept.isDir hdir), ?_⟩
      rw [← hv1]
      change ((v.setData k fun _ => 0).entryAt (.cluster k) 0).name0 = 0
      rw [entryAt_setData]
      rfl
  obtain ⟨hchains', hfat⟩ := hkept'
  refine ⟨hchains', ?_, ?_⟩
  · rw [hfat, hset, if_neg (by omega)]
  · rw [hfat, hset, if_neg (by omega)]

theorem createEntry_kept (h : Chains v chain) (hzero : v.fat 0 ≠ fatFreecluster)
    (hone : v.fat 1 ≠ fatFreecluster) {c : Nat} {name : List Byte} {createDir : Bool}
    (hsafe : createDir = true → fatGetFreeCluster v < 2 ^ 16 ∨ fatGetFreeCluster v % 2 ^ 16 = 0xFFFF)
    (hc : createEntry v c name createDir = some (v', ret)) : ChainsKept v v' := by
  unfold createEntry at hc
  dsimp only at hc
  split at hc
  case isFalse =>
    obtain ⟨file', hu⟩ := append_map hc
    exact createFile_kept h hu
  case isTrue hdir =>
    split at hc
    case isFalse =>
      obtain rfl : v = v' := (Prod.ext_iff.mp (Option.some.inj hc)).1
      exact h.same
    case isTrue hstart =>
      obtain ⟨k, hk, hfree⟩ : ∃ k : Nat, fatGetFreeCluster v = k ∧ v.fat k = fatFreecluster := by
        cases hlist : freeClusters v with
        | nil =>
          rw [fatGetFreeCluster_nil hlist] at hstart
          exact absurd rfl hstart
        | cons f fs =>
          obtain ⟨⟨k, -, rfl⟩, hfree⟩ := mem_freeClusters.mp (hlist ▸ List.mem_cons_self : f ∈ freeClusters v)
          exact ⟨k, (fatGetFreeCluster_cons hlist).1, hfree⟩
      have hsmall := hsafe hdir
      rw [hk] at hc hstart hsmall
      have hlt : k < 2 ^ 16 := by omega
      have hstart' : ((k : Int) % 2 ^ 16).toNat = k := by omega
      rw [hstart'] at hc
      have hk0 : k ≠ 0 := by
        rintro rfl
        exact hzero hfree
      have hk1 : k ≠ 1 := by
        rintro rfl
        exact hone hfree
      obtain ⟨file', hu⟩ := append_map hc
      exact createDirectory_kept h hfree (by omega) hlt hu

/-! ## Operations -/

theorem fatCreate_kept (h : Chains v chain) (hzero : v.fat 0 ≠ fatFreecluster)
    (hone : v.fat 1 ≠ fatFreecluster) {prev : FatEntry} {path : List Byte} (hsafe : CreateSafe v path)
    (hc : fatCreate v prev path = some (v', ret)) :
    ChainsKept v v' := by
  unfold fatCreate fatCreateWith at hc
  obtain ⟨found, -, hc⟩ := Option.bind_eq_some_iff.mp hc
  cases found with
  | some file =>
    obtain rfl : v = v' := (Prod.ext_iff.mp (Option.some.inj hc)).1
    exact h.same
  | none =>
    dsimp only at hc
    split at hc
    case isTrue => contradiction
    case isFalse =>
      obtain ⟨tmp, -, hc⟩ := Option.bind_eq_some_iff.mp hc
      obtain ⟨parent, -, hc⟩ := Option.bind_eq_some_iff.mp hc
      cases parent with
      | none =>
        obtain rfl : v = v' := (Prod.ext_iff.mp (Option.some.inj hc)).1
        exact h.same
      | some parent =>
        obtain ⟨last, -, hc⟩ := Option.bind_eq_some_iff.mp hc
        refine createEntry_kept h hzero hone (fun hdir => ?_) hc
        exact hsafe.resolve_left fun hne => hne (of_decide_eq_true hdir)

theorem startCluster_setFileName {name : List Byte} :
    (fatSetFileName e name).startCluster = e.startCluster := by
  simp [FatEntry.startCluster, load16, fatSetFileName]

theorem directory_setFileName {name : List Byte} : (fatSetFileName e name).directory = e.directory := by
  simp [FatEntry.directory, fatSetFileName]

theorem fatRename_kept (h : Chains v chain) {prev : FatEntry} {src dst : List Byte}
    (hsafe : OpSafe v (prev, .rename src dst)) (hr : fatRename v prev src dst = some (v', ret)) :
    ChainsKept v v' := by
  unfold fatRename at hr
  obtain ⟨found, hfound, hr⟩ := Option.bind_eq_some_iff.mp hr
  cases found with
  | none =>
    obtain rfl : v = v' := (Prod.ext_iff.mp (Option.some.inj hr)).1
    exact h.same
  | some file =>
    dsimp only at hr
    split at hr
    case h_1 =>
      obtain rfl : v = v' := (Prod.ext_iff.mp (Option.some.inj hr)).1
      exact h.same
    case h_2 last hlast =>
      obtain ⟨file', hu⟩ := append_map hr
      have hupdate : UpdateSafe v file := (hsafe file hfound).resolve_left (by rw [hlast]; simp)
      refine h.keptBy (hupdate.kept ?_ ?_ ?_ ?_ hu)
      · rfl
      · rfl
      · exact startCluster_setFileName
      · exact directory_setFileName

theorem fatDelete_kept (h : Chains v chain) {prev : FatEntry} {path : List Byte}
    (hsafe : OpSafe v (prev, .delete path)) (hd : fatDelete v prev path = some (v', ret)) :
    ChainsKept v v' := by
  unfold fatDelete at hd
  obtain ⟨found, hfound, hd⟩ := Option.bind_eq_some_iff.mp hd
  cases found with
  | none =>
    obtain rfl : v = v' := (Prod.ext_iff.mp (Option.some.inj hd)).1
    exact h.same
  | some file =>
    obtain ⟨⟨v1, file', ret'⟩, hset, hd⟩ := Option.map_eq_some_iff.mp hd
    obtain ⟨rfl, rfl⟩ := Prod.mk.inj hd
    refine h.keptBy (fatSetFileSize_kept (hsafe file hfound) ?_ ?_ ?_ ?_ ?_ hset)
    · rfl
    · rfl
    · exact FatEntry.fileSize_setDeleted
    · rfl
    · rfl

theorem withFile_cases {prev : FatEntry} {path : List Byte} {f : FatFile → Option (Volume × FatFile × Int)}
    (h : withFile v prev path f = some v') :
    v' = v ∨ ∃ file file' ret, fatFile2entry v prev path = some (some file) ∧
      f file = some (v', file', ret) := by
  unfold withFile at h
  obtain ⟨found, hfound, h⟩ := Option.bind_eq_some_iff.mp h
  cases found with
  | none => exact .inl (Option.some.inj h).symm
  | some file =>
    obtain ⟨⟨v1, file', ret⟩, hf, rfl⟩ := Option.map_eq_some_iff.mp h
    exact .inr ⟨file, file', ret, hfound, hf⟩

theorem NamesEntry.updateSafe {path : List Byte} {prev : FatEntry} (h : NamesEntry v path d i)
    (hd : d ≠ .root)
    (hfound : fatFile2entry v prev path = some (some file)) : file.entry = v.entryAt d i ∧
    UpdateSafe v file := by
  obtain ⟨c, hc, hfile⟩ := h.file2entry prev
  obtain rfl := Option.some.inj (Option.some.inj (hfile.symm.trans hfound))
  obtain rfl := hc.resolve_left fun hroot => hd hroot.1
  refine ⟨rfl, fun b hb _ => ⟨i, rfl, ?_⟩⟩
  obtain rfl := Int.ofNat_inj.mp hb
  exact ⟨h.isLive, rfl⟩

theorem step_kept (h : Chains v chain) (hzero : v.fat 0 ≠ fatFreecluster) (hone : v.fat 1 ≠ fatFreecluster)
    {a : FatEntry × Op} (hsafe : OpSafe v a) (hs : step v a = some v') : ChainsKept v v' := by
  obtain ⟨prev, op⟩ := a
  cases op with
  | create path =>
    obtain ⟨⟨v1, ret⟩, hc, rfl⟩ := Option.map_eq_some_iff.mp hs
    exact fatCreate_kept h hzero hone hsafe hc
  | write path pos n buffer =>
    rcases withFile_cases hs with rfl | ⟨file, file', ret, hfound, hw⟩
    · exact h.same
    · exact write_kept h hzero hone (hsafe file hfound) hw
  | setFileSize path size =>
    rcases withFile_cases hs with rfl | ⟨file, file', ret, hfound, hset⟩
    · exact h.same
    · exact h.keptBy (fatSetFileSize_kept (hsafe file hfound) rfl rfl rfl rfl rfl hset)
  | rename src dst =>
    obtain ⟨⟨v1, ret⟩, hr, rfl⟩ := Option.map_eq_some_iff.mp hs
    exact fatRename_kept h hsafe hr
  | delete path =>
    obtain ⟨⟨v1, ret⟩, hd, rfl⟩ := Option.map_eq_some_iff.mp hs
    exact fatDelete_kept h hsafe hd

/-- A run of safe operations keeps the chains of all live entries and the reserved entries of the FAT. -/
theorem run_chains (h : Chains v chain) (hzero : v.fat 0 ≠ fatFreecluster) (hone : v.fat 1 ≠ fatFreecluster)
    (as : List (FatEntry × Op)) (hsafe : Along step OpSafe v as) (hrun : run step v as = some v') :
    ChainsKept v v' := by
  refine run_keeps (fun v1 a v2 hv1 hok hstep => ?_) as v v' h.same hsafe hrun
  obtain ⟨⟨chain1, h1⟩, hfat0, hfat1⟩ := hv1
  have hkept := step_kept h1 (by rwa [hfat0]) (by rwa [hfat1]) hok hstep
  exact ⟨hkept.1, hkept.2.1.trans hfat0, hkept.2.2.trans hfat1⟩

/-- A write of 600 bytes to `/D/F`. -/
def growF : FatEntry × Op := (fun _ => 0, .write [slash, 0x44, slash, 0x46, 0] 0 600 fun _ => 0x58)

theorem growF_safe : OpSafe smallVolume growF := by
  intro file hfound
  have hnames : NamesEntry smallVolume [slash, 0x44, slash, 0x46, 0] (.cluster 2) 0 :=
    smallVolume_names [0x46] (by decide) (by decide) (by decide) (by decide)
  obtain ⟨hentry, hupdate⟩ := hnames.updateSafe (by decide) hfound
  refine .inr (.inr ⟨⟨.cluster 2, 0, smallVolume_sub, smallVolume_live (by decide), hentry.symm, ?_⟩, ?_,
    .inr ⟨hupdate, .inr (by decide)⟩⟩)
  · exact (congrArg FatEntry.directory hentry).trans (by decide)
  · intro hzero
    have hstart := (congrArg FatEntry.startCluster hentry).symm.trans hzero
    revert hstart
    decide

/-- After the write, `/D/G` is made. -/
def growThenCreate : List (FatEntry × Op) := [growF, (fun _ => 0, .create [slash, 0x44, slash, 0x47, 0])]

theorem smallVolume_grows_F : ∃ v', run step smallVolume growThenCreate = some v' ∧
    ChainsKept smallVolume v' := by
  obtain ⟨v', hrun⟩ := Option.isSome_iff_exists.mp
    (show (run step smallVolume growThenCreate).isSome = true by decide +kernel)
  have hsafe : Along step OpSafe smallVolume growThenCreate :=
    ⟨growF_safe, fun _ _ => ⟨.inl (by decide), fun _ _ => trivial⟩⟩
  exact ⟨v', hrun, run_chains smallVolume_chains.toChains (by decide) (by decide) growThenCreate hsafe hrun⟩

/-- The first byte of the empty file `/D/E` goes to cluster 0, and entry 0 of the FAT is linked. -/
theorem smallVolume_links_reserved :
    ¬ ∀ (v : Volume) (chain : Dir → Nat → List Int) (as : List (FatEntry × Op)) (v' : Volume),
      Chains v chain →
      v.fat 0 ≠ fatFreecluster → v.fat 1 ≠ fatFreecluster → run step v as = some v' → ChainsKept v v' := by
  intro h
  have hfat : (run step smallVolume [(fun _ => 0, .write [slash, 0x44, slash, 0x45, 0] 0 1 fun _ =>
    0x58)]).map
      (fun v' => v'.fat 0) = some 4 := by decide
  obtain ⟨v', hrun, hfour⟩ := Option.map_eq_some_iff.mp hfat
  have hkept := (h smallVolume smallChain _ v' smallVolume_chains.toChains (by decide) (by decide) hrun).2.1
  rw [hfour] at hkept
  revert hkept
  decide

end SystemProjects.Fat
