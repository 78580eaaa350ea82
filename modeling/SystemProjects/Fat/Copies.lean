import SystemProjects.Fat.Create
import SystemProjects.Fat.Mounted
import SystemProjects.Lib.Run

/-!
# What is written to the copies of the FAT
-/

open SystemProjects.Memory SystemProjects.Run

namespace SystemProjects.Fat

variable {v v1 : Volume} {m m' : Mounted} {file file' written : FatFile} {buffer buffer' : Mem}
    {n k : Nat} {prev : Int}
  {ret : Int}

/-- No free cluster is left for a write that goes beyond the end, after any number of them. -/
def RunsOut (v : Volume) (file : FatFile) (n : Nat) : Prop :=
  ∃ cluster, walkChain v.fat (file.currentPos / v.clusterSize) file.entry.startCluster = some cluster ∧
    file.entry.fileSize < dword (file.currentPos + n) ∧
      (addClusters (n / v.clusterSize + 1) v cluster).2 = none

/-! ## A full device -/

theorem fatWrite_runsOut (h : RunsOut m.toVolume file n) (buffer : Mem) :
    ∃ v, m.fatWrite file buffer n = some (m.setVolume v, file, FAIL) ∧ freeClusters v = [] ∧
      (freeClusters m.toVolume = [] → v = m.toVolume) := by
  obtain ⟨cluster, hwalk, hgrow, hadd⟩ := h
  refine ⟨(addClusters (n / m.clusterSize + 1) m.toVolume cluster).1, ?_, addClusters_stops hadd,
    fun hnone => ?_⟩
  · rw [Mounted.fatWrite, Mounted.fatRw, fatRwWith, hwalk]
    dsimp only
    rw [if_pos hgrow, Mounted.addClusters_eq, hadd]
    rfl
  · rw [addClusters_none hnone]

/-- **Disk full.** A write that runs out of clusters leaves everything as it was just when there was none to begin
with. -/
theorem fatWrite_full_iff (m : Mounted) (file : FatFile) (buffer : Mem) (n : Nat)
    (h : RunsOut m.toVolume file n) :
    m.fatWrite file buffer n = some (m, file, FAIL) ↔ freeClusters m.toVolume = [] := by
  obtain ⟨v, hwrite, hstop, hnone⟩ := fatWrite_runsOut h buffer
  rw [hwrite]
  constructor
  · intro heq
    have hm : m.setVolume v = m := (Prod.ext_iff.mp (Option.some.inj heq)).1
    rw [← hm]
    exact hstop
  · intro hfree
    rw [hnone hfree]
    rfl

/-- The small volume with `k` copies of its FAT. -/
def smallMounted (k : Nat) : Mounted := { smallVolume with numFats := k, copies := fun _ => smallVolume.fat }

/-- The file `F`, of five bytes in cluster 3. -/
def openedF : FatFile := ⟨newEntry [0x46] 0x20 3 5, 2, some 0, 0⟩

theorem openedF_runsOut (hgrow : 5 < dword n) (hadd : (addClusters (n / v.clusterSize + 1) v 3).2 = none) :
    RunsOut v openedF n := by
  refine ⟨3, ?_, ?_, hadd⟩
  · rw [show openedF.currentPos / v.clusterSize = 0 from Nat.zero_div _,
      show openedF.entry.startCluster = 3 by decide]
    rfl
  · rw [show openedF.entry.fileSize = 5 by decide, show openedF.currentPos + n = n from Nat.zero_add n]
    exact hgrow

theorem full_unchanged :
    ({ smallMounted 2 with fat := fun _ => FAIL } : Mounted).fatWrite openedF (fun _ => 0x58) 600 =
      some ({ smallMounted 2 with fat := fun _ => FAIL }, openedF, FAIL) :=
  (fatWrite_full_iff _ _ _ _ (openedF_runsOut (by decide) (by decide))).mpr (by decide)

/-- 4096 bytes need five clusters, of which four are linked. -/
theorem smallMounted_halfway :
    ¬ ∀ (m : Mounted) (file : FatFile) (buffer : Mem) (n : Nat), RunsOut m.toVolume file n →
      m.fatWrite file buffer n = some (m, file, FAIL) := by
  intro h
  have hrun : RunsOut (smallMounted 2).toVolume openedF 4096 := openedF_runsOut (by decide) (by decide)
  obtain ⟨v, hwrite, hstop, -⟩ := fatWrite_runsOut hrun fun _ => 0x58
  rw [h _ _ _ _ hrun] at hwrite
  have hvolume : smallVolume = v := congrArg Mounted.toVolume (Prod.ext_iff.mp (Option.some.inj hwrite)).1
  rw [← hvolume] at hstop
  revert hstop
  decide

/-! ## Runs -/

def CopiesAgree (m : Mounted) : Prop := ∀ i < m.numFats, m.copies i = m.fat

/-- The operations. `prev` is what the uninitialised entry of a lookup holds. -/
inductive MountedOp where
  | create (prev : FatEntry) (filename : List Byte)
  | write (file : FatFile) (buffer : Mem) (size : Nat)
  | rename (prev : FatEntry) (src dst : List Byte)
  | delete (prev : FatEntry) (filename : List Byte)

def mountedStep (m : Mounted) : MountedOp → Option (Mounted × Int)
  | .create prev filename => m.fatCreate prev filename
  | .write file buffer size => (m.fatWrite file buffer size).map fun (m, _, ret) => (m, ret)
  | .rename prev src dst => m.fatRename prev src dst
  | .delete prev filename => m.fatDelete prev filename

/-- The write fails before it changes a link, or it does not go beyond the end. -/
def LinksNothing (v : Volume) (file : FatFile) (n : Nat) : Prop :=
  walkChain v.fat (file.currentPos / v.clusterSize) file.entry.startCluster = none ∨
    dword (file.currentPos + n) ≤ file.entry.fileSize ∨ freeClusters v = []

def Commits (m : Mounted) : MountedOp → Prop
  | .write file _ size => LinksNothing m.toVolume file size ∨ m.numFats = 0 ∨
      m.numFats = 1 ∧ ¬ RunsOut m.toVolume file size
  | _ => True

theorem CopiesAgree.setVolume (h : CopiesAgree m) (hfat : v.fat = m.fat) : CopiesAgree (m.setVolume v) :=
  fun i hi => (h i hi).trans hfat.symm

theorem copiesAgree_commit (h : m.numFats ≤ 1) {cluster value : Int} :
    CopiesAgree (m.fatSetFATCluster cluster value true) := by
  intro i hi
  obtain rfl : i = 0 := Nat.lt_one_iff.mp (Nat.lt_of_lt_of_le hi h)
  rfl

theorem CopiesAgree.rwFrom {mode : Mode} {cluster : Int} (h : CopiesAgree m)
    (hrw : Mounted.rwFrom mode m file buffer cluster n = some (m', written, buffer', ret)) :
    CopiesAgree m' := by
  obtain ⟨⟨v', file', buffer'', ret'⟩, hvol, heq⟩ := Option.map_eq_some_iff.mp hrw
  obtain ⟨rfl, -⟩ := Prod.ext_iff.mp heq
  obtain ⟨_, -, -, -, hmoved⟩ := rwFrom_moved hvol
  exact h.setVolume (by rw [hmoved.same])

theorem CopiesAgree.fatRw (h : CopiesAgree m) (hok : Commits m (.write file buffer n))
    (hrw : m.fatRw .write file buffer n = some (m', written, buffer', ret)) : CopiesAgree m' := by
  rw [Mounted.fatRw, fatRwWith] at hrw
  split at hrw
  case h_1 =>
    obtain ⟨rfl, -⟩ := Prod.ext_iff.mp (Option.some.inj hrw)
    exact h
  case h_2 cluster hwalk =>
    split at hrw
    case isFalse => exact h.rwFrom hrw
    case isTrue hgrow =>
      dsimp only at hrw
      rw [Mounted.addClusters_eq] at hrw
      cases hadd : Fat.addClusters (n / m.clusterSize + 1) m.toVolume cluster with
      | mk v last =>
        have hlinks : ¬ LinksNothing m.toVolume file n ∨ v = m.toVolume ∧ last = none := by
          by_cases hfree : freeClusters m.toVolume = []
          · rw [addClusters_none hfree] at hadd
            exact .inr ⟨(Prod.ext_iff.mp hadd).1.symm, (Prod.ext_iff.mp hadd).2.symm⟩
          · refine .inl ?_
            rintro (hnone | hin | hnone)
            · rw [hwalk] at hnone
              contradiction
            · omega
            · exact hfree hnone
        rw [hadd] at hrw
        cases last with
        | none =>
          obtain ⟨rfl, -⟩ := Prod.ext_iff.mp (Option.some.inj hrw)
          rcases hlinks with hlinks | ⟨rfl, -⟩
          · rcases hok with hnothing | hzero | ⟨-, hrun⟩
            · exact absurd hnothing hlinks
            · exact fun i hi => absurd hi (by rw [Mounted.setVolume, hzero]; exact Nat.not_lt_zero i)
            · exact absurd ⟨cluster, hwalk, hgrow, by rw [hadd]⟩ hrun
          · exact h
        | some last =>
          rcases hlinks with hlinks | ⟨-, hlast⟩
          · refine (copiesAgree_commit ?_).rwFrom hrw
            show m.numFats ≤ 1
            rcases hok with hnothing | hzero | ⟨hone, -⟩
            · exact absurd hnothing hlinks
            · omega
            · omega
          · contradiction

theorem fatSetFileSize_fat {size : Nat} (h : fatSetFileSize v file size = some (v1, file', ret)) :
    v1.fat = v.fat := by
  unfold fatSetFileSize at h
  split at h
  case isTrue =>
    obtain ⟨rfl, -⟩ := Prod.ext_iff.mp (Option.some.inj h)
    rfl
  case isFalse => exact fatUpdateFileEntry_fat h

theorem CopiesAgree.fatWrite (h : CopiesAgree m) (hok : Commits m (.write file buffer n))
    (hw : m.fatWrite file buffer n = some (m', file', ret)) : CopiesAgree m' := by
  obtain ⟨⟨m1, written, buffer', bytesWritten⟩, hrw, hw⟩ := Option.bind_eq_some_iff.mp hw
  have hagree := h.fatRw hok hrw
  dsimp only at hw
  split at hw
  case isFalse =>
    obtain ⟨rfl, -⟩ := Prod.ext_iff.mp (Option.some.inj hw)
    exact hagree
  case isTrue =>
    split at hw
    case isFalse =>
      obtain ⟨rfl, -⟩ := Prod.ext_iff.mp (Option.some.inj hw)
      exact hagree
    case isTrue =>
      obtain ⟨⟨v, file'', ret'⟩, hset, heq⟩ := Option.map_eq_some_iff.mp hw
      obtain ⟨rfl, -⟩ := Prod.ext_iff.mp heq
      exact hagree.setVolume (fatSetFileSize_fat hset)

theorem fatRename_fat {prevEntry : FatEntry} {src dst : List Byte}
    (h : fatRename v prevEntry src dst = some (v1, ret)) :
    v1.fat = v.fat := by
  obtain ⟨found, -, h⟩ := Option.bind_eq_some_iff.mp h
  cases found with
  | none =>
    obtain ⟨rfl, -⟩ := Prod.ext_iff.mp (Option.some.inj h)
    rfl
  | some file =>
    dsimp only at h
    split at h
    case h_1 =>
      obtain ⟨rfl, -⟩ := Prod.ext_iff.mp (Option.some.inj h)
      rfl
    case h_2 =>
      obtain ⟨⟨v', file', ret'⟩, hu, heq⟩ := Option.map_eq_some_iff.mp h
      obtain ⟨rfl, -⟩ := Prod.ext_iff.mp heq
      exact fatUpdateFileEntry_fat hu

theorem fatDelete_fat {prevEntry : FatEntry} {filename : List Byte}
    (h : fatDelete v prevEntry filename = some (v1, ret)) :
    v1.fat = v.fat := by
  obtain ⟨found, -, h⟩ := Option.bind_eq_some_iff.mp h
  cases found with
  | none =>
    obtain ⟨rfl, -⟩ := Prod.ext_iff.mp (Option.some.inj h)
    rfl
  | some file =>
    obtain ⟨⟨v', file', ret'⟩, hset, heq⟩ := Option.map_eq_some_iff.mp h
    obtain ⟨rfl, -⟩ := Prod.ext_iff.mp heq
    exact fatSetFileSize_fat hset

theorem cutString_directory {path : List Byte} (h : (cutString path).getLast? = some slash) :
    strrchr (cstr (strcpy path (cutString path).dropLast)) = none := by
  have hfirst : firstPart path = [] := by
    by_contra hne
    exact getLast?_cutString hne h
  have hcut : (cutString path).dropLast = [] := by
    rw [cutString, ← firstPart, hfirst, List.append_nil]
    split <;> rfl
  rw [hcut]
  rfl

theorem CopiesAgree.fatCreate {prevEntry : FatEntry} {filename : List Byte} (h : CopiesAgree m)
    (hc : m.fatCreate prevEntry filename = some (m', ret)) : CopiesAgree m' := by
  obtain ⟨found, -, hc⟩ := Option.bind_eq_some_iff.mp hc
  cases found with
  | some _ =>
    obtain ⟨rfl, -⟩ := Prod.ext_iff.mp (Option.some.inj hc)
    exact h
  | none =>
    dsimp only at hc
    split at hc
    case isTrue => contradiction
    case isFalse =>
      by_cases hdir : (cutString filename).getLast? = some slash
      · rw [if_pos hdir, if_pos hdir, cutString_directory hdir] at hc
        contradiction
      · rw [if_neg hdir, if_neg hdir] at hc
        obtain ⟨tmp, -, hc⟩ := Option.bind_eq_some_iff.mp hc
        obtain ⟨parent, -, hc⟩ := Option.bind_eq_some_iff.mp hc
        cases parent with
        | none =>
          obtain ⟨rfl, -⟩ := Prod.ext_iff.mp (Option.some.inj hc)
          exact h
        | some parent =>
          obtain ⟨last, -, hc⟩ := Option.bind_eq_some_iff.mp hc
          rw [Mounted.createEntry, decide_eq_false hdir] at hc
          obtain ⟨⟨v, file', ret'⟩, hu, heq⟩ := Option.map_eq_some_iff.mp hc
          obtain ⟨rfl, -⟩ := Prod.ext_iff.mp heq
          exact h.setVolume (fatUpdateFileEntry_fat hu)

theorem mountedStep_agree {op : MountedOp} (h : CopiesAgree m) (hok : Commits m op)
    (hstep : mountedStep m op = some (m', ret)) : CopiesAgree m' := by
  cases op with
  | create prev filename => exact h.fatCreate hstep
  | write file buffer size =>
    obtain ⟨⟨m1, file', ret'⟩, hw, heq⟩ := Option.map_eq_some_iff.mp hstep
    obtain ⟨rfl, -⟩ := Prod.ext_iff.mp heq
    exact h.fatWrite hok hw
  | rename prev src dst =>
    obtain ⟨⟨v, ret'⟩, hr, heq⟩ := Option.map_eq_some_iff.mp hstep
    obtain ⟨rfl, -⟩ := Prod.ext_iff.mp heq
    exact h.setVolume (fatRename_fat hr)
  | delete prev filename =>
    obtain ⟨⟨v, ret'⟩, hd, heq⟩ := Option.map_eq_some_iff.mp hstep
    obtain ⟨rfl, -⟩ := Prod.ext_iff.mp heq
    exact h.setVolume (fatDelete_fat hd)

/-- **The copies.** They stay the FAT in memory in runs whose writes link no cluster, or have one copy to keep and
enough free clusters. -/
theorem run_copies (m : Mounted) (ops : List MountedOp) (h : CopiesAgree m)
    (hok : Along (fun m op => (mountedStep m op).map Prod.fst) Commits m ops)
    (ts : List (Transition Mounted MountedOp Int)) (hts : trace mountedStep m ops = some ts) :
    ∀ t ∈ ts, CopiesAgree t.post := by
  exact trace_keeps (I := CopiesAgree) (fun _ _ _ _ h hok hs =>
    ⟨mountedStep_agree h hok hs, mountedStep_agree h hok hs⟩)
    ops m ts h hok hts

/-- `F` gets a second cluster, `/D/G` is made and `/D/E` gets another name. -/
def growCreateRename : List MountedOp :=
  [.write openedF (fun _ => 0x58) 600, .create (fun _ => 0) [slash, 0x44, slash, 0x47, 0],
    .rename (fun _ => 0) [slash, 0x44, slash, 0x45, 0] [slash, 0x44, slash, 0x48, 0]]

theorem smallMounted_one : ∃ ts, trace mountedStep (smallMounted 1) growCreateRename = some ts ∧
    ∀ t ∈ ts, CopiesAgree t.post := by
  obtain ⟨ts, hts⟩ := Option.isSome_iff_exists.mp
    (show (trace mountedStep (smallMounted 1) growCreateRename).isSome = true by decide +kernel)
  refine ⟨ts, hts, run_copies (smallMounted 1) _ (fun _ _ => rfl) ?_ ts hts⟩
  refine ⟨.inr (.inr ⟨rfl, ?_⟩), fun _ _ => ⟨trivial, fun _ _ => ⟨trivial, fun _ _ => trivial⟩⟩⟩
  rintro ⟨cluster, hwalk, -, hadd⟩
  obtain rfl : 3 = cluster := Option.some.inj
    ((by decide : walkChain _ _ _ = some (3 : Int)).symm.trans hwalk)
  revert hadd
  decide

/-- The second copy does not get the link of `F`. -/
theorem smallMounted_two :
    ¬ ∀ (m : Mounted) (ops : List MountedOp) (ts : List (Transition Mounted MountedOp Int)), CopiesAgree m →
      trace mountedStep m ops = some ts → ∀ t ∈ ts, t.out = SUCCESS → CopiesAgree t.post := by
  intro h
  have hwrite : (mountedStep (smallMounted 2) (.write openedF (fun _ => 0x58) 600)).map
      (fun r => (r.2, r.1.fat 3, r.1.copies 1 3, r.1.numFats)) = some (SUCCESS, 4, FAIL, 2) := by decide
  obtain ⟨⟨m', ret⟩, hstep, heq⟩ := Option.map_eq_some_iff.mp hwrite
  simp only [Prod.mk.injEq] at heq
  obtain ⟨hret, hfat, hcopy, hnum⟩ := heq
  have hagree := h (smallMounted 2) [.write openedF (fun _ => 0x58) 600] [⟨_, _, ret, m'⟩] (fun _ _ => rfl)
    (by rw [trace_cons hstep]; rfl) _ List.mem_cons_self hret 1 (by rw [hnum]; decide)
  dsimp only at hagree
  rw [hagree, hfat] at hcopy
  revert hcopy
  decide

end SystemProjects.Fat
