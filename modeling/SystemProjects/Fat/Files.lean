import SystemProjects.Fat.Lookup
import SystemProjects.Fat.Transfer

/-!
# Files and their chains
-/

open SystemProjects.Memory SystemProjects.Blocks SystemProjects.Lists

namespace SystemProjects.Fat

variable {v v' v1 : Volume} {d d' : Dir} {i j n pos a : Nat} {start cluster : Int}
    {pre post added mine : List Int}
  {chain : Dir → Nat → List Int} {file : FatFile} {buffer : Mem}

/-- Byte `a` of the file whose chain begins at `start`. -/
def fileByte (v : Volume) (start : Int) (a : Nat) : Option Byte :=
  (walkChain v.fat (a / v.clusterSize) start).map fun c => v.data c (a % v.clusterSize)

/-- The chain of an entry is closed by an end mark and made of data clusters. A file may have none. -/
def HasChain (fat : Int → Int) (e : FatEntry) (chain : List Int) : Prop :=
  e.startCluster = 0 ∧ chain = [] ∧ e.directory = false ∨
    ChainFrom fat e.startCluster chain ∧ ∀ c ∈ chain, 2 ≤ c

/-- The chains of distinct live entries are well formed and have no cluster in common. -/
structure Chains (v : Volume) (chain : Dir → Nat → List Int) : Prop where
  own : ∀ d j, IsDir v d → Live v d j → HasChain v.fat (v.entryAt d j) (chain d j)
  apart : ∀ d j d' j', IsDir v d → Live v d j → IsDir v d' → Live v d' j' → (d, j) ≠ (d', j') →
    ∀ c ∈ chain d j, c ∉ chain d' j'

/-- The chains are long enough for the files, so one without a start cluster is empty. -/
structure ChainsOk (v : Volume) (chain : Dir → Nat → List Int) : Prop extends Chains v chain where
  cluster_size : entrySize ≤ v.clusterSize
  reserved : v.fat 0 ≠ fatFreecluster
  long : ∀ d j, IsDir v d → Live v d j → (v.entryAt d j).fileSize ≤ (chain d j).length * v.clusterSize

/-- The file is open: its entry is that of a live file, and the index and the directory cluster are where that is.
Nothing is said of the directory cluster of a file in the root directory. -/
structure Opened (v : Volume) (file : FatFile) (d : Dir) (i : Nat) : Prop where
  dir : IsDir v d
  live : Live v d i
  isFile : (v.entryAt d i).directory = false
  entry : file.entry = v.entryAt d i
  index : file.dirIndex = some i
  cluster : ∀ c, d = .cluster c → file.dirCluster = c
  pos_le : file.currentPos ≤ file.entry.fileSize
  pos_lt : file.currentPos < 2 ^ 31

/-! ## Bytes along a chain -/

theorem ChainFrom.ne_nil {fat : Int → Int} {cs : List Int} {s : Nat} (h : ChainFrom fat s cs) : cs ≠ [] := by
  rintro rfl
  have hfail : (s : Int) = FAIL := h.links
  unfold FAIL at hfail
  omega

theorem ChainFrom.cluster_at {fat : Int → Int} {s k : Nat} (h : ChainFrom fat s mine)
    (hwalk : walkChain fat k s = some cluster) : ∃ pre post, pre.length = k ∧
    mine = pre ++ cluster :: post := by
  have hlt : k < mine.length := by
    refine Nat.lt_of_not_le fun hge => ?_
    rw [h.walk_past h.ne_nil hge] at hwalk
    contradiction
  rw [h.walk_getElem hlt] at hwalk
  obtain rfl := Option.some.inj hwalk
  refine ⟨mine.take k, mine.drop (k + 1), by rw [List.length_take]; omega, ?_⟩
  rw [← List.drop_eq_getElem_cons hlt, List.take_append_drop]

theorem ChainFrom.fileByte {cs : List Int} (h : ChainFrom v.fat start cs) (hcs : 0 < v.clusterSize)
    (ha : a < cs.length * v.clusterSize) : Fat.fileByte v start a = byteAt v.clusterSize v.data cs a := by
  have hi : a / v.clusterSize < cs.length := (Nat.div_lt_iff_lt_mul hcs).mpr ha
  rw [Fat.fileByte, h.walk_getElem hi, byteAt, List.getElem?_eq_getElem hi]

theorem Grown.chainFrom (h : Grown v v1 cluster added) (hold : ChainFrom v.fat start (pre ++ cluster :: post))
    (hfree : ∀ c ∈ added, v.fat c = fatFreecluster) : ChainFrom v1.fat start (pre ++ cluster :: added) := by
  have hnodup := hold.links.nodup
  have hpre : ∀ c ∈ pre, v1.fat c = v.fat c := by
    intro c hc
    refine h.others c ?_ fun hin => ?_
    · rintro rfl
      exact (List.nodup_append.mp hnodup).2.2 c hc c List.mem_cons_self rfl
    · exact hold.fat_ne_free (List.mem_append_left _ hc) (hfree c hin)
  refine ⟨hold.links.replace hpre h.chain.links, fun c hc => ?_⟩
  cases pre with
  | nil => exact h.chain.linked c hc
  | cons x xs =>
    rcases List.mem_append.mp hc with hin | hin
    · exact hold.linked c (List.mem_append_left _ hin)
    · rcases List.mem_cons.mp hin with rfl | hin
      · exact hold.linked c (List.mem_append_right xs List.mem_cons_self)
      · exact h.chain.linked c hin

/-! ## The chain that is written -/

/-- The chain of the file as it is after new clusters have been linked, if any: `pre` up to the position, then the
cluster with the position, then `post`. -/
structure Ready (v v1 : Volume) (start cluster : Int) (pre post mine : List Int) : Prop where
  same : v1 = { v with fat := v1.fat }
  chain : ChainFrom v1.fat start (pre ++ cluster :: post)
  owned : ∀ c ∈ pre ++ cluster :: post, c ∈ mine ∨ c = 0 ∨ v.fat c = fatFreecluster
  others : ∀ c, c ∉ pre ++ cluster :: post → v1.fat c = v.fat c
  before : mine ≠ [] → ∀ m ≤ pre.length, walkChain v1.fat m start = walkChain v.fat m start

theorem ready_same (h : ChainFrom v.fat start (pre ++ cluster :: post)) :
    Ready v v start cluster pre post (pre ++ cluster :: post) :=
  ⟨rfl, h, fun _ hc => .inl hc, fun _ _ => rfl, fun _ _ _ => rfl⟩

theorem walkChain_prefix {fat fat' : Int → Int} (h : ChainFrom fat start (pre ++ cluster :: post))
    (h' : ChainFrom fat' start (pre ++ cluster :: added)) {m : Nat} (hm : m ≤ pre.length) :
    walkChain fat' m start = walkChain fat m start := by
  have hl : m < (pre ++ cluster :: post).length := by
    rw [List.length_append, List.length_cons]
    omega
  have hl' : m < (pre ++ cluster :: added).length := by
    rw [List.length_append, List.length_cons]
    omega
  rw [h.walk_getElem hl, h'.walk_getElem hl']
  congr 1
  rcases Nat.lt_or_eq_of_le hm with hlt | rfl
  · rw [List.getElem_append_left hlt, List.getElem_append_left hlt]
  · simp

theorem ready_grown (h : ChainFrom v.fat start (pre ++ cluster :: post)) (hg : Grown v v1 cluster added)
    (hfree : ∀ c ∈ added, v.fat c = fatFreecluster) :
    Ready v v1 start cluster pre added (pre ++ cluster :: post) := by
  have hchain := hg.chainFrom h hfree
  refine ⟨hg.same, hchain, fun c hc => ?_, fun c hc => ?_, fun _ m hm => walkChain_prefix h hchain hm⟩
  · rcases List.mem_append.mp hc with hin | hin
    · exact .inl (List.mem_append_left _ hin)
    · rcases List.mem_cons.mp hin with rfl | hin
      · exact .inl (List.mem_append_right _ List.mem_cons_self)
      · exact .inr (.inr (hfree c hin))
  · rw [List.mem_append, List.mem_cons, not_or, not_or] at hc
    exact hg.others c hc.2.1 hc.2.2

theorem ready_first (hg : Grown v v1 0 added) (hfree : ∀ c ∈ added, v.fat c = fatFreecluster) :
    Ready v v1 0 0 [] added [] := by
  refine ⟨hg.same, hg.chain, fun c hc => ?_, fun c hc => ?_, fun hne => absurd rfl hne⟩
  · rcases List.mem_cons.mp hc with rfl | hin
    · exact .inr (.inl rfl)
    · exact .inr (.inr (hfree c hin))
  · rw [List.nil_append, List.mem_cons, not_or] at hc
    exact hg.others c hc.1 hc.2

/-! ## How a write begins -/

def newClusters (v : Volume) (n : Nat) : Nat := (n / v.clusterSize + 2) / 2

theorem fatWrite_fail {v' : Volume} (h : fatRw .write v file buffer n = some (v', file, buffer, FAIL)) :
    fatWrite v file buffer n = some (v', file, FAIL) := by
  rw [fatWrite, h]
  rfl

theorem fatRw_none (hwalk : walkChain v.fat (file.currentPos / v.clusterSize)
    file.entry.startCluster = none) :
    fatRw .write v file buffer n = some (v, file, buffer, FAIL) := by
  rw [fatRw, fatRwWith, hwalk]

theorem fatRw_full (hwalk : walkChain v.fat (file.currentPos / v.clusterSize)
    file.entry.startCluster = some cluster)
    (hgrow : file.entry.fileSize < dword (file.currentPos + n))
    (hadd : addClusters (n / v.clusterSize + 1) v cluster = (v1, none)) :
    fatRw .write v file buffer n = some (v1, file, buffer, FAIL) := by
  rw [fatRw, fatRwWith, hwalk]
  dsimp only
  rw [if_pos hgrow, hadd]

theorem fatRw_same (buffer : Mem)
    (hwalk : walkChain v.fat (file.currentPos / v.clusterSize) file.entry.startCluster = some cluster)
    (hle : ¬ file.entry.fileSize < dword (file.currentPos + n)) :
    fatRw .write v file buffer n = rwFrom .write v file buffer cluster n := by
  rw [fatRw, fatRwWith, hwalk]
  dsimp only
  rw [if_neg hle]

theorem fatRw_grow (buffer : Mem)
    (hwalk : walkChain v.fat (file.currentPos / v.clusterSize) file.entry.startCluster = some cluster)
    (hgrow : file.entry.fileSize < dword (file.currentPos + n)) (hused : v.fat cluster ≠ fatFreecluster)
    (hzero : v.fat 0 ≠ fatFreecluster) (hfail : cluster ≠ FAIL)
    (hroom : newClusters v n ≤ (freeClusters v).length) :
    ∃ v1, Grown v v1 cluster ((freeClusters v).take (newClusters v n)) ∧
      fatRw .write v file buffer n = rwFrom .write v1 file buffer cluster n := by
  obtain ⟨v0, last, hadd, hgrown⟩ := addClusters_spec _ v cluster hused hzero hfail hroom
  refine ⟨_, hgrown, ?_⟩
  rw [fatRw, fatRwWith, hwalk]
  dsimp only
  rw [if_pos hgrow, hadd]

theorem fat_of_mem_take {c : Int} {k : Nat} (hc : c ∈ (freeClusters v).take k) : v.fat c = fatFreecluster :=
  (mem_freeClusters.mp (List.mem_of_mem_take hc)).2

/-! ## The loop from a cluster on -/

theorem rwFrom_undefined {mode : Mode} (hcs : 0 < v.clusterSize)
    (h : ¬ (Fits v.clusterSize file.currentPos (file.currentPos % v.clusterSize) n ∧
      (file.currentPos / v.clusterSize + 1) * v.clusterSize < 2 ^ 31)) :
    rwFrom mode v file buffer cluster n = none := by
  rw [rwFrom]
  dsimp only
  rw [rwLoop_undefined (Nat.mod_lt _ hcs) h]
  rfl

theorem rwFrom_moved {mode : Mode} {written : FatFile} {buffer' : Mem} {m : Int}
    (h : rwFrom mode v file buffer cluster n = some (v', written, buffer', m)) :
    ∃ moved : Nat, m = moved ∧ written = { file with currentPos := file.currentPos + moved } ∧
      file.currentPos + moved < 2 ^ 31 ∧ Transferred v v' cluster (file.currentPos % v.clusterSize) n
        moved := by
  unfold rwFrom at h
  obtain ⟨⟨v1, buffer1, bytesRw⟩, hloop, h⟩ := Option.bind_eq_some_iff.mp h
  dsimp only at h
  split at h
  case isFalse => contradiction
  case isTrue hlt =>
    obtain ⟨rfl, rfl, rfl, rfl⟩ : v1 = v' ∧ _ = written ∧ buffer1 = buffer' ∧
      (bytesRw : Int) = m := by simpa using h
    obtain ⟨moved, heq, hmoved⟩ := rwLoop_moved hloop
    obtain rfl : bytesRw = moved := by omega
    exact ⟨_, rfl, rfl, hlt, hmoved⟩

theorem rwFrom_read (file : FatFile) (h : ChainFrom v.fat cluster (cluster :: post)) (hcs : 0 < v.clusterSize)
    (hfits : Fits v.clusterSize file.currentPos (file.currentPos % v.clusterSize) n)
    (hlimit : (file.currentPos / v.clusterSize + 1) * v.clusterSize < 2 ^ 31) (buffer : Mem) :
    ∃ buffer', Read v (cluster :: post) buffer buffer' 0 (file.currentPos % v.clusterSize)
        (min n ((post.length + 1) * v.clusterSize - file.currentPos % v.clusterSize)) ∧
      rwFrom .read v file buffer cluster n =
        if file.currentPos + min n ((post.length + 1) * v.clusterSize - file.currentPos % v.clusterSize) < 2 ^ 31 then
          some (v, { file with
              currentPos := file.currentPos + min n
                ((post.length + 1) * v.clusterSize - file.currentPos % v.clusterSize) },
            buffer', ((min n ((post.length + 1) * v.clusterSize - file.currentPos % v.clusterSize) :
              Nat) : Int))
        else none := by
  obtain ⟨buffer', heq, hread⟩ := rwLoop_read file.currentPos post buffer cluster (n + 1) 0
    (file.currentPos % v.clusterSize) n h (Nat.mod_lt _ hcs) hfits hlimit n.lt_succ_self
  refine ⟨buffer', hread, ?_⟩
  rw [rwFrom]
  dsimp only
  rw [heq, Option.bind_some, Nat.zero_add]

/-! ## Clusters of other entries -/

theorem Chains.of_mem (h : Chains v chain) (hdir : IsDir v d) (hlive : Live v d j) {c : Int}
    (hc : c ∈ chain d j) :
    ChainFrom v.fat (v.entryAt d j).startCluster (chain d j) ∧ 2 ≤ c := by
  rcases h.own d j hdir hlive with ⟨-, hnil, -⟩ | ⟨hchain, htwo⟩
  · rw [hnil] at hc
    simp at hc
  · exact ⟨hchain, htwo c hc⟩

theorem Chains.directory (h : Chains v chain) {b : Nat} (hdir : IsDir v (.cluster b)) :
    ∃ d' j, IsDir v d' ∧ Live v d' j ∧ (v.entryAt d' j).directory = true ∧ (b : Int) ∈ chain d' j := by
  cases hdir with
  | sub hdir hlive hdirectory =>
    refine ⟨_, _, hdir, hlive, hdirectory, ?_⟩
    rcases h.own _ _ hdir hlive with ⟨-, -, hfile⟩ | ⟨hchain, -⟩
    · rw [hdirectory] at hfile
      contradiction
    · have hne := hchain.ne_nil
      revert hne hchain
      cases chain _ _ with
      | nil => exact fun _ hne => absurd rfl hne
      | cons c cs => exact fun hchain _ => hchain.links.1 ▸ List.mem_cons_self

theorem Ready.apart (hr : Ready v v1 start cluster pre post (chain d i)) (h : Chains v chain)
    (hdir : IsDir v d) (hlive : Live v d i) (hdir' : IsDir v d') (hlive' : Live v d' j)
    (hne : (d', j) ≠ (d, i))
    {c : Int} (hc : c ∈ chain d' j) : c ∉ pre ++ cluster :: post := by
  intro hin
  obtain ⟨hchain, htwo⟩ := h.of_mem hdir' hlive' hc
  rcases hr.owned c hin with hmine | rfl | hfree
  · exact h.apart _ _ _ _ hdir' hlive' hdir hlive hne c hc hmine
  · contradiction
  · exact hchain.fat_ne_free hc hfree

theorem Ready.directory (hr : Ready v v1 start cluster pre post (chain d i)) (h : Chains v chain)
    (hdir : IsDir v d) (hlive : Live v d i) (hfile : (v.entryAt d i).directory = false) {b : Nat}
    (hb : IsDir v (.cluster b)) : (b : Int) ∉ pre ++ cluster :: post := by
  obtain ⟨d0, j0, hdir0, hlive0, hdirectory, hmem⟩ := h.directory hb
  refine hr.apart h hdir hlive hdir0 hlive0 (fun heq => ?_) hmem
  obtain ⟨rfl, rfl⟩ := Prod.ext_iff.mp heq
  rw [hfile] at hdirectory
  contradiction

theorem Ready.entries (hr : Ready v v1 start cluster pre post (chain d i))
    (hsame : v' = { v1 with data := v'.data })
    (hothers : ∀ c ∉ cluster :: post, v'.data c = v1.data c) (h : Chains v chain) (hdir : IsDir v d)
    (hlive : Live v d i)
    (hfile : (v.entryAt d i).directory = false) (hdir' : IsDir v d') : v'.entryAt d' j = v.entryAt d' j := by
  cases d' with
  | root => rw [hsame, hr.same]; rfl
  | cluster b =>
    have hnotin := hr.directory h hdir hlive hfile hdir'
    have hdata : v'.data b = v.data b := by
      rw [hothers b fun hin => hnotin (List.mem_append_right _ hin), hr.same]
    rw [Volume.entryAt, Volume.entryAt, Volume.dir, Volume.dir, hdata]

/-! ## The small volume -/

theorem smallVolume_live_root (h : Live smallVolume .root j) : j = 0 := by
  have hlt : j < 1 := Nat.lt_of_not_le fun hle => h.2.1 1 hle (by decide)
  omega

theorem smallVolume_live_sub (h : Live smallVolume (.cluster 2) j) : j < 2 :=
  Nat.lt_of_not_le fun hle => h.2.1 2 hle (by decide)

theorem smallVolume_isDir (h : IsDir smallVolume d) : d = .root ∨ d = .cluster 2 := by
  induction h with
  | root => exact .inl rfl
  | @sub d j _ hlive hdirectory ih =>
    rcases ih with rfl | rfl
    · obtain rfl := smallVolume_live_root hlive
      exact .inr (by decide)
    · have hfiles : ∀ j < 2, (smallVolume.entryAt (.cluster 2) j).directory = false := by decide
      rw [hfiles j (smallVolume_live_sub hlive)] at hdirectory
      contradiction

theorem smallVolume_sub : IsDir smallVolume (.cluster 2) := by
  have hlive : Live smallVolume .root 0 := by
    refine ⟨by decide, fun k hk => ?_, by decide⟩
    obtain rfl := Nat.le_zero.mp hk
    decide
  exact .sub .root hlive (by decide)

theorem smallVolume_live (hj : j < 2) : Live smallVolume (.cluster 2) j := by
  have hnames : ∀ k < 2, (smallVolume.entryAt (.cluster 2) k).name0 ≠ 0 ∧
      (smallVolume.entryAt (.cluster 2) k).name0 ≠ fatEntryDeleted := by decide
  refine ⟨?_, fun k hk => (hnames k (by omega)).1, (hnames j hj).2⟩
  rw [show smallVolume.dirSlots (.cluster 2) = 16 by decide]
  omega

def smallChain : Dir → Nat → List Int
  | .root, 0 => [2]
  | .cluster 2, 0 => [3]
  | _, _ => []

theorem mem_smallChain {c : Int} (h : c ∈ smallChain d j) : (d, j) = (.root, 0) ∧ c = 2 ∨
    (d, j) = (.cluster 2, 0) ∧ c = 3 := by
  unfold smallChain at h
  split at h
  case h_1 => exact .inl ⟨rfl, List.mem_singleton.mp h⟩
  case h_2 => exact .inr ⟨rfl, List.mem_singleton.mp h⟩
  case h_3 => simp at h

theorem smallVolume_own {c : Nat} {e : FatEntry} (hstart : e.startCluster = c) (hc : 2 ≤ c)
    (hend : smallVolume.fat c = FAIL) :
    HasChain smallVolume.fat e [(c : Int)] := by
  refine .inr ⟨⟨⟨by rw [hstart], by unfold FAIL; omega, hend⟩, by simp⟩, fun x hx => ?_⟩
  rw [List.mem_singleton.mp hx]
  omega

theorem smallVolume_entry (hdir : IsDir smallVolume d) (hlive : Live smallVolume d j) :
    d = .root ∧ j = 0 ∨ d = .cluster 2 ∧ j = 0 ∨ d = .cluster 2 ∧ j = 1 := by
  rcases smallVolume_isDir hdir with rfl | rfl
  · exact .inl ⟨rfl, smallVolume_live_root hlive⟩
  · have hj := smallVolume_live_sub hlive
    have hcases : j = 0 ∨ j = 1 := by omega
    exact .inr (hcases.imp (⟨rfl, ·⟩) (⟨rfl, ·⟩))

theorem smallVolume_chains : ChainsOk smallVolume smallChain where
  cluster_size := by decide
  reserved := by decide
  own d j hdir hlive := by
    rcases smallVolume_entry hdir hlive with ⟨rfl, rfl⟩ | ⟨rfl, rfl⟩ | ⟨rfl, rfl⟩
    · exact smallVolume_own (c := 2) (by decide) (by decide) (by decide)
    · exact smallVolume_own (c := 3) (by decide) (by decide) (by decide)
    · exact .inl ⟨by decide, by decide, by decide⟩
  long d j hdir hlive := by
    rcases smallVolume_entry hdir hlive with ⟨rfl, rfl⟩ | ⟨rfl, rfl⟩ | ⟨rfl, rfl⟩ <;> decide
  apart d j d' j' _ _ _ _ hne c hc hc' := by
    rcases mem_smallChain hc with ⟨heq, rfl⟩ | ⟨heq, rfl⟩
    · rcases mem_smallChain hc' with ⟨heq', -⟩ | ⟨-, hc'⟩
      · exact hne (heq.trans heq'.symm)
      · contradiction
    · rcases mem_smallChain hc' with ⟨-, hc'⟩ | ⟨heq', -⟩
      · contradiction
      · exact hne (heq.trans heq'.symm)

/-- The file `E`, opened. -/
def openedE : FatFile := ⟨smallVolume.entryAt (.cluster 2) 1, 2, some 1, 0⟩

theorem smallVolume_opened_E : Opened smallVolume openedE (.cluster 2) 1 where
  dir := smallVolume_sub
  live := smallVolume_live (by decide)
  isFile := by decide
  entry := rfl
  index := rfl
  cluster c hc := by
    obtain rfl := Dir.cluster.inj hc
    rfl
  pos_le := Nat.zero_le _
  pos_lt := by decide

end SystemProjects.Fat
