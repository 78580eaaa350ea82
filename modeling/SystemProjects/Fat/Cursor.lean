import SystemProjects.Fat.ReadBack
import SystemProjects.Fat.ReadExact
import SystemProjects.Lib.Run

/-!
# The position of an open file
-/

open SystemProjects.Memory SystemProjects.Run

namespace SystemProjects.Fat

variable {v v' v1 : Volume} {file file' : FatFile} {cluster prev : Int} {n k : Nat} {ret : Int}

/-! ## What is done with a handle -/

inductive HandleOp where
  | read (buffer : Mem) (size : Nat)
  | write (buffer : Mem) (size : Nat)
  | seek (offset : Nat) (origin : Origin)

def handleStep (s : Volume × FatFile) : HandleOp → Option ((Volume × FatFile) × Int)
  | .read buffer size => (fatRead s.1 s.2 buffer (dword size)).map fun (v, file, _, ret) => ((v, file), ret)
  | .write buffer size => (fatWrite s.1 s.2 buffer (dword size)).map fun (v, file, ret) => ((v, file), ret)
  | .seek offset origin => let (file, ret) := fatSeek s.2 (dword offset) origin; some ((s.1, file), ret)

def seekTarget (file : FatFile) (offset : Nat) : Origin → Option Nat
  | .start => some (dword offset)
  | .current => some (dword (file.currentPos + offset))
  | .fileEnd => some (dword (2 ^ 32 + file.entry.fileSize - dword offset))
  | .other => none

structure CursorKept (t : Transition (Volume × FatFile) HandleOp Int) : Prop where
  before : t.pre.2.currentPos ≤ t.pre.2.entry.fileSize
  after : t.post.2.currentPos ≤ t.post.2.entry.fileSize
  failed : t.out = FAIL → t.post.2.currentPos = t.pre.2.currentPos
  sought : ∀ offset origin target, t.act = .seek offset origin → seekTarget t.pre.2 offset origin =
    some target →
    t.pre.2.entry.fileSize < target → t.post.2.currentPos = t.pre.2.currentPos

/-! ## Safe steps -/

/-- The sum of position and request does not wrap around, or the chain ends before the file does. -/
def ReadStays (v : Volume) (file : FatFile) (n : Nat) : Prop :=
  file.currentPos + n < 2 ^ 32 ∨
    walkChain v.fat (file.entry.fileSize / v.clusterSize) file.entry.startCluster = none

/-- The directory cluster is not one that the write may come to, and has no end mark in its last slot. -/
def HasSlot (v : Volume) (file : FatFile) : Prop :=
  v.fat file.dirCluster ≠ fatFreecluster ∧ (∀ k,
    walkChain v.fat k file.entry.startCluster ≠ some file.dirCluster) ∧
    ∀ i, endSlot v file.dirCluster = some i → i + 1 < v.slots

/-- The write fails before it moves anything, or it has no new size to put into the directory, or it has the room
for it there. -/
def WriteStays (v : Volume) (file : FatFile) (n : Nat) : Prop :=
  walkChain v.fat (file.currentPos / v.clusterSize) file.entry.startCluster = none ∨
    file.currentPos + n ≤ file.entry.fileSize ∨ file.dirIndex ≠ none ∨ HasSlot v file

def HandleOpStays (s : Volume × FatFile) : HandleOp → Prop
  | .read _ size => ReadStays s.1 s.2 (dword size)
  | .write _ size => WriteStays s.1 s.2 (dword size)
  | .seek _ _ => True

/-! ## Seeks -/

theorem fatSeek_kept (hpos : file.currentPos ≤ file.entry.fileSize) (offset : Nat) (origin : Origin) :
    (fatSeek file offset origin).1.currentPos ≤ (fatSeek file offset origin).1.entry.fileSize := by
  cases origin <;> simp only [fatSeek]
  case other => exact hpos
  all_goals
    split
    · exact hpos
    · dsimp only
      omega

theorem fatSeek_failed {offset : Nat} {origin : Origin} (h : (fatSeek file offset origin).2 = FAIL) :
    (fatSeek file offset origin).1 = file := by
  unfold FAIL at h
  cases origin <;> simp only [fatSeek] at h ⊢
  all_goals omega

theorem fatSeek_beyond {offset target : Nat} {origin : Origin}
    (ht : seekTarget file offset origin = some target)
    (hlt : file.entry.fileSize < target) : (fatSeek file (dword offset) origin).1 = file := by
  have htoInt : ∀ m, dword m = target → toInt (dword m) > file.entry.fileSize ∨ toInt (dword m) < 0 := by
    intro m hm
    unfold dword at hm
    unfold toInt dword
    split <;> omega
  have hsum : dword (file.currentPos + dword offset) = dword (file.currentPos + offset) := by
    unfold dword
    omega
  cases origin <;> simp only [fatSeek, seekTarget, Option.some.injEq] at ht ⊢
  · exact if_pos (htoInt _ ht)
  · rw [hsum]
    exact if_pos (htoInt _ ht)
  · exact if_pos (htoInt _ ht)

/-! ## Reads -/

theorem walkChain_add (fat : Int → Int) (i j : Nat) (c : Int) :
    walkChain fat (i + j) c = (walkChain fat i c).bind (walkChain fat j) := by
  induction i generalizing c with
  | zero => rw [Nat.zero_add]; rfl
  | succ i ih =>
    rw [show i + 1 + j = i + j + 1 by omega, walkChain, walkChain]
    cases nextCluster fat c with
    | none => rfl
    | some next => exact ih next

theorem Transferred.le_fileSize {moved : Nat}
    (h : Transferred v v' cluster (file.currentPos % v.clusterSize) n moved)
    (hpos : file.currentPos ≤ file.entry.fileSize)
    (hwalk : walkChain v.fat (file.currentPos / v.clusterSize) file.entry.startCluster = some cluster)
    (hend : walkChain v.fat (file.entry.fileSize / v.clusterSize) file.entry.startCluster = none) :
    file.currentPos + moved ≤ file.entry.fileSize := by
  have hdiv : file.currentPos / v.clusterSize ≤ file.entry.fileSize / v.clusterSize :=
    Nat.div_le_div_right hpos
  obtain ⟨k, hk⟩ := Nat.exists_eq_add_of_le hdiv
  rw [hk, walkChain_add, hwalk, Option.bind_some] at hend
  have hle := h.end_le k hend
  have hsplit := Nat.div_add_mod file.currentPos v.clusterSize
  have hbound := Nat.div_mul_le_self file.entry.fileSize v.clusterSize
  rw [hk, Nat.add_mul, Nat.mul_comm (file.currentPos / v.clusterSize)] at hbound
  omega

theorem fatRead_kept {buffer buffer' : Mem} (hpos : file.currentPos ≤ file.entry.fileSize)
    (hok : ReadStays v file n) (h : fatRead v file buffer n = some (v', file', buffer', ret)) :
    file'.currentPos ≤ file'.entry.fileSize ∧ (ret = FAIL → file' = file) := by
  have hsize : file.entry.fileSize < 2 ^ 32 := load32_lt _ _
  have hrest : dword (2 ^ 32 + file.entry.fileSize - file.currentPos) =
    file.entry.fileSize - file.currentPos := by
    unfold dword
    omega
  rw [fatRead, fatRw, fatRwWith] at h
  split at h
  case h_1 =>
    obtain ⟨-, rfl, -, -⟩ : v = v' ∧ file = file' ∧ buffer = buffer' ∧ FAIL = ret := by simpa using h
    exact ⟨hpos, fun _ => rfl⟩
  case h_2 cluster hwalk =>
    dsimp only at h
    rw [hrest] at h
    split at h
    all_goals
      obtain ⟨moved, rfl, rfl, -, hmoved⟩ := rwFrom_moved h
      have hle := hmoved.le
      refine ⟨?_, fun hfail => absurd hfail (by unfold FAIL; omega)⟩
    case isTrue => exact (by omega : file.currentPos + moved ≤ file.entry.fileSize)
    case isFalse hin =>
      rcases hok with hsum | hend
      · unfold dword at hin
        exact (by omega : file.currentPos + moved ≤ file.entry.fileSize)
      · exact hmoved.le_fileSize hpos hwalk hend

/-! ## Writes -/

/-- The clusters that a write may come to after some have been linked: the one it starts in, and free ones. -/
theorem addClusters_closed (k : Nat) : ∀ (v v1 : Volume) (prev last : Int) (old : Int → Prop),
    (∀ c, old c → old (v.fat c) ∨ v.fat c = prev) → addClusters k v prev = (v1, some last) →
    v1 = { v with fat := v1.fat } ∧ ∃ reached : Int → Prop, (∀ c, old c ∨ c = prev → reached c) ∧
      (∀ c, reached c → old c ∨ c = prev ∨ v.fat c = fatFreecluster) ∧
      ∀ c, reached c → reached ((fatSetFATCluster v1 last fatEndofcluster).fat c) ∨
        (fatSetFATCluster v1 last fatEndofcluster).fat c = FAIL := by
  induction k with
  | zero =>
    intro v v1 prev last old hold h
    obtain ⟨rfl, rfl⟩ : v = v1 ∧ prev = last := by simpa [addClusters] using h
    refine ⟨rfl, fun c => old c ∨ c = prev, fun c hc => hc, fun c hc => ?_, fun c hc => ?_⟩
    · exact hc.imp_right .inl
    · by_cases heq : c = prev
      · exact .inr (if_pos heq)
      · simp only [fatSetFATCluster, if_neg heq]
        exact .inl (hold c (hc.resolve_right heq))
  | succ k ih =>
    intro v v1 prev last old hold h
    rw [addClusters] at h
    split at h
    case isTrue => simp at h
    case isFalse hnext =>
      have hfree : v.fat (fatGetFreeCluster v) = fatFreecluster := by
        cases hcs : freeClusters v with
        | nil => exact absurd (fatGetFreeCluster_nil hcs) hnext
        | cons c cs =>
          rw [(fatGetFreeCluster_cons hcs).1]
          exact (mem_freeClusters.mp (hcs ▸ List.mem_cons_self : c ∈ freeClusters v)).2
      have hold' : ∀ c, (old c ∨ c = prev) →
          (old ((fatSetFATCluster v prev (fatGetFreeCluster v)).fat c) ∨
              (fatSetFATCluster v prev (fatGetFreeCluster v)).fat c = prev) ∨
            (fatSetFATCluster v prev (fatGetFreeCluster v)).fat c = fatGetFreeCluster v := by
        intro c hc
        by_cases heq : c = prev
        · exact .inr (if_pos heq)
        · simp only [fatSetFATCluster, if_neg heq]
          exact .inl (hold c (hc.resolve_right heq))
      obtain ⟨hsame, reached, hin, hout, hclosed⟩ := ih _ v1 _ last (fun c => old c ∨ c = prev) hold' h
      refine ⟨by rw [hsame]; rfl, reached, fun c hc => hin c (.inl hc), fun c hc => ?_, hclosed⟩
      rcases hout c hc with (hc | rfl) | rfl | hc
      · exact .inl hc
      · exact .inr (.inl rfl)
      · exact .inr (.inr hfree)
      · by_cases heq : c = prev
        · exact .inr (.inl heq)
        · simp only [fatSetFATCluster, if_neg heq] at hc
          exact .inr (.inr hc)

theorem walkChain_closed {fat : Int → Int} {reached : Int → Prop}
    (h : ∀ c, reached c → reached (fat c) ∨ fat c = FAIL) :
    ∀ (k : Nat) {c c' : Int}, reached c → walkChain fat k c = some c' → reached c'
  | 0, _, _, hc, hwalk => Option.some.inj hwalk ▸ hc
  | k + 1, c, c', hc, hwalk => by
    obtain ⟨next, hnext, hwalk⟩ := Option.bind_eq_some_iff.mp hwalk
    unfold nextCluster at hnext
    split at hnext
    case isTrue => contradiction
    case isFalse hlive =>
      obtain rfl := Option.some.inj hnext
      exact walkChain_closed h k ((h c hc).resolve_right fun hfail => hlive (.inr hfail)) hwalk

theorem fatUpdateFileEntry_file (h : fatUpdateFileEntry v file = some (v', file', ret)) :
    file'.entry = file.entry ∧ file'.currentPos = file.currentPos ∧
      (ret = FAIL → file.dirIndex = none ∧ ∃ i, endSlot v file.dirCluster = some i ∧ v.slots ≤ i + 1) := by
  have hwrite : ∀ dir i, writeEntry v file dir i = some (v', file', ret) →
      file'.entry = file.entry ∧ file'.currentPos = file.currentPos ∧
        (ret = FAIL → file.dirIndex = none ∧ ∃ i, endSlot v file.dirCluster = some i ∧ v.slots ≤ i + 1) := by
    intro dir i h
    unfold writeEntry at h
    split at h
    case isFalse => contradiction
    case isTrue =>
      obtain ⟨-, rfl, rfl⟩ : _ = v' ∧ _ = file' ∧ SUCCESS = ret := by simpa using h
      exact ⟨rfl, rfl, fun hfail => absurd hfail (by decide)⟩
  unfold fatUpdateFileEntry at h
  dsimp only at h
  split at h
  case h_1 => exact hwrite _ _ h
  case h_2 hindex =>
    split at h
    case h_2 => exact hwrite _ _ h
    case h_1 i hend =>
      split at h
      case isFalse => exact hwrite _ _ h
      case isTrue hlast =>
        obtain ⟨-, rfl, -⟩ : v = v' ∧ _ = file' ∧ FAIL = ret := by simpa using h
        exact ⟨rfl, rfl, fun _ => ⟨hindex, i, hend, hlast⟩⟩

theorem fatRw_moved {written : FatFile} {buffer buffer' : Mem} {m : Int}
    (h : fatRw .write v file buffer n = some (v', written, buffer', m)) :
    written = file ∧ m = FAIL ∨
      ∃ cluster, walkChain v.fat (file.currentPos / v.clusterSize) file.entry.startCluster = some cluster ∧
      ∃ moved : Nat, m = moved ∧ moved ≤ n ∧ written = { file with currentPos := file.currentPos + moved } ∧
        file.currentPos + moved < 2 ^ 31 ∧ v'.clusterSize = v.clusterSize ∧
        ∀ c, v.fat c ≠ fatFreecluster → (∀ k, walkChain v.fat k cluster ≠ some c) → v'.data c = v.data c := by
  rw [fatRw, fatRwWith] at h
  split at h
  case h_1 =>
    obtain ⟨-, rfl, -, rfl⟩ : v = v' ∧ file = written ∧ buffer = buffer' ∧ FAIL = m := by simpa using h
    exact .inl ⟨rfl, rfl⟩
  case h_2 cluster hwalk =>
    dsimp only at h
    split at h
    case isFalse =>
      obtain ⟨moved, rfl, rfl, hlt, hmoved⟩ := rwFrom_moved h
      exact .inr ⟨cluster, hwalk, moved, rfl, hmoved.le, rfl,
        hlt, by rw [hmoved.same], fun c _ => hmoved.others c⟩
    case isTrue =>
      split at h
      case h_1 =>
        obtain ⟨-, rfl, -, rfl⟩ : _ = v' ∧ file = written ∧ buffer = buffer' ∧ FAIL = m := by simpa using h
        exact .inl ⟨rfl, rfl⟩
      case h_2 v1 last hadd =>
        obtain ⟨moved, rfl, rfl, hlt, hmoved⟩ := rwFrom_moved h
        obtain ⟨hsame, reached, hin, hout, hclosed⟩ :=
          addClusters_closed _ v v1 cluster last (fun _ => False) (fun _ hc => absurd hc id) hadd
        have hcs : (fatSetFATCluster v1 last fatEndofcluster).clusterSize = v.clusterSize := by
          rw [hsame]
          rfl
        have hdata : (fatSetFATCluster v1 last fatEndofcluster).data = v.data := by
          rw [hsame]
          rfl
        refine .inr ⟨cluster, hwalk, moved, rfl, hmoved.le, rfl, hlt, ?_, fun c hused hc => ?_⟩
        · rw [hmoved.same]
          exact hcs
        · rw [hmoved.others c fun k hk => ?_, hdata]
          rcases hout c (walkChain_closed hclosed k (hin cluster (.inr rfl)) hk) with hc' | rfl | hfree
          · exact hc'
          · exact hc 0 rfl
          · exact hused hfree

theorem fatWrite_kept {buffer : Mem} (hpos : file.currentPos ≤ file.entry.fileSize)
    (hok : WriteStays v file n) (h : fatWrite v file buffer n = some (v', file', ret)) :
    file'.currentPos ≤ file'.entry.fileSize ∧ (ret = FAIL → file'.currentPos = file.currentPos) := by
  obtain ⟨⟨v1, written, buffer', m⟩, hrw, h⟩ := Option.bind_eq_some_iff.mp h
  dsimp only at h
  rcases fatRw_moved hrw with ⟨rfl, rfl⟩ | ⟨cluster, hwalk, moved, rfl, hle, rfl, hlt, hcs, hdata⟩
  · obtain ⟨-, rfl, -⟩ : v1 = v' ∧ written = file' ∧ FAIL = ret := by simpa [FAIL] using h
    exact ⟨hpos, fun _ => rfl⟩
  · rw [if_pos (by omega)] at h
    dsimp only at h
    split at h
    case isFalse hin =>
      obtain ⟨-, rfl, rfl⟩ : v1 = v' ∧ _ = file' ∧ SUCCESS = ret := by simpa using h
      exact ⟨by dsimp only; omega, fun hfail => absurd hfail (by decide)⟩
    case isTrue hgrow =>
      rw [fatSetFileSize, if_neg (by dsimp only; omega)] at h
      obtain ⟨hentry, hcur, hfail⟩ := fatUpdateFileEntry_file h
      dsimp only at hentry hcur hfail
      rw [hentry, hcur]
      refine ⟨?_, fun hret => ?_⟩
      · rw [FatEntry.fileSize_setFileSize (by omega)]
        omega
      · obtain ⟨hindex, i, hend, hlast⟩ := hfail hret
        rcases hok with hnone | hin | hsome | ⟨hused, hapart, hslot⟩
        · rw [hnone] at hwalk
          contradiction
        · omega
        · exact absurd hindex hsome
        · have hsame : v1.data file.dirCluster = v.data file.dirCluster := by
            refine hdata _ hused fun k hk => hapart (file.currentPos / v.clusterSize + k) ?_
            rw [walkChain_add, hwalk]
            exact hk
          have hslots : v1.slots = v.slots := by rw [Volume.slots, hcs, Volume.slots]
          rw [endSlot, hsame, hslots] at hend
          rw [hslots] at hlast
          exact absurd (hslot i hend) (by omega)

/-! ## Runs -/

theorem handleStep_kept {s s' : Volume × FatFile} {op : HandleOp} (hpos : s.2.currentPos ≤ s.2.entry.fileSize)
    (hok : HandleOpStays s op) (h : handleStep s op = some (s', ret)) :
    s'.2.currentPos ≤ s'.2.entry.fileSize ∧ CursorKept ⟨s, op, ret, s'⟩ := by
  cases op with
  | read buffer size =>
    obtain ⟨⟨v', file', buffer', ret'⟩, hread, heq⟩ := Option.map_eq_some_iff.mp h
    obtain ⟨rfl, rfl⟩ := Prod.ext_iff.mp heq
    obtain ⟨hkept, hfail⟩ := fatRead_kept hpos hok hread
    exact ⟨hkept, hpos, hkept, fun hret => congrArg FatFile.currentPos (hfail hret),
      fun _ _ _ hact => by contradiction⟩
  | write buffer size =>
    obtain ⟨⟨v', file', ret'⟩, hwrite, heq⟩ := Option.map_eq_some_iff.mp h
    obtain ⟨rfl, rfl⟩ := Prod.ext_iff.mp heq
    obtain ⟨hkept, hfail⟩ := fatWrite_kept hpos hok hwrite
    exact ⟨hkept, hpos, hkept, hfail, fun _ _ _ hact => by contradiction⟩
  | seek offset origin =>
    obtain ⟨rfl, rfl⟩ := Prod.ext_iff.mp (Option.some.inj h)
    have hkept := fatSeek_kept hpos (dword offset) origin
    refine ⟨hkept, hpos, hkept, fun hret => congrArg FatFile.currentPos (fatSeek_failed hret), ?_⟩
    intro offset' origin' target hact ht hlt
    obtain ⟨rfl, rfl⟩ := HandleOp.seek.inj hact
    exact congrArg FatFile.currentPos (fatSeek_beyond ht hlt)

/-- **The cursor.** In runs of safe operations the position stays within the file, and a failure leaves it. -/
theorem run_cursor (v : Volume) (file : FatFile) (ops : List HandleOp) (hpos : file.currentPos = 0)
    (hok : Along (fun s op => (handleStep s op).map Prod.fst) HandleOpStays (v, file) ops)
    (ts : List (Transition (Volume × FatFile) HandleOp Int)) (h : trace handleStep (v, file) ops = some ts) :
    ∀ t ∈ ts, CursorKept t := by
  have hle : file.currentPos ≤ file.entry.fileSize := hpos ▸ Nat.zero_le _
  exact trace_keeps (I := fun s : Volume × FatFile => s.2.currentPos ≤ s.2.entry.fileSize)
    (fun _ _ _ _ hpos hok hs => handleStep_kept hpos hok hs) ops (v, file) ts hle hok h

theorem threeFile_seek :
    handleStep (threeClusters, threeFile 0) (.seek 512 .start) = some ((threeClusters, threeFile 512),
      512) := by
  rw [handleStep, show dword 512 = 512 by decide, fatSeek]
  dsimp only
  rw [if_neg (by decide)]
  rfl

/-- A read from the second cluster, and a seek that goes beyond the end. -/
theorem threeClusters_cursor :
    ∃ ts, trace handleStep (threeClusters, threeFile 0)
        [.seek 512 .start, .read (fun _ => 0) 100, .seek 2000 .current] = some ts ∧ ∀ t ∈ ts,
          CursorKept t := by
  obtain ⟨ts, hts⟩ := Option.isSome_iff_exists.mp
    (show (trace handleStep (threeClusters, threeFile 0)
      [.seek 512 .start, .read (fun _ => 0) 100, .seek 2000 .current]).isSome = true by decide +kernel)
  refine ⟨ts, hts, run_cursor threeClusters (threeFile 0) _ rfl ?_ ts hts⟩
  refine ⟨trivial, fun s hs => ⟨?_, fun _ _ => ⟨trivial, fun _ _ => trivial⟩⟩⟩
  dsimp only at hs
  rw [threeFile_seek] at hs
  obtain rfl := Option.some.inj hs
  exact .inl (by decide)

theorem threeFile_read (buffer : Mem) :
    handleStep (threeClusters, threeFile 512) (.read buffer (2 ^ 32 - 100)) =
      some ((threeClusters, threeFile 1536), 1024) := by
  have hchain : ChainFrom threeClusters.fat (threeFile 512).entry.startCluster ([2] ++ 3 :: [4]) :=
    threeClusters_chain 512
  have hmoved : min (2 ^ 32 - 100) ((([4] : List Int).length + 1) * threeClusters.clusterSize -
      (threeFile 512).currentPos % threeClusters.clusterSize) = 1024 := by decide
  have hsize : transferSize (threeFile 512) (2 ^ 32 - 100) = 2 ^ 32 - 100 := by decide
  obtain ⟨buffer', -, hrw⟩ := rwFrom_read (n :=
    2 ^ 32 - 100) (threeFile 512) hchain.suffix (by decide) (.inl (by decide))
    (by decide) buffer
  rw [hmoved, if_pos (by decide)] at hrw
  rw [handleStep, show dword (2 ^ 32 - 100) = 2 ^ 32 - 100 by decide]
  dsimp only
  rw [fatRead_eq (by decide) hchain.walk, hsize, hrw]
  rfl

/-- A request of nearly 2^32 bytes is not cut off at the end of the file. -/
theorem threeClusters_passes :
    ¬ ∀ (v : Volume) (file : FatFile) (ops : List HandleOp)
      (ts : List (Transition (Volume × FatFile) HandleOp Int)),
      file.currentPos = 0 → trace handleStep (v, file) ops = some ts → ∀ t ∈ ts, CursorKept t := by
  intro h
  have htrace : trace handleStep (threeClusters, threeFile 0) [.seek 512 .start,
    .read (fun _ => 0) (2 ^ 32 - 100)] =
      some [⟨(threeClusters, threeFile 0), .seek 512 .start, 512, (threeClusters, threeFile 512)⟩,
        ⟨(threeClusters, threeFile 512), .read (fun _ => 0) (2 ^ 32 - 100), 1024,
          (threeClusters, threeFile 1536)⟩] := by
    rw [trace_cons threeFile_seek, trace_cons (threeFile_read _)]
    rfl
  have hafter := (h threeClusters (threeFile 0) _ _ rfl htrace _
    (List.mem_cons_of_mem _ List.mem_cons_self)).after
  exact absurd hafter (by decide)

end SystemProjects.Fat
