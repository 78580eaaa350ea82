import SystemProjects.Fat.Files

/-!
# What a read returns
-/

open SystemProjects.Memory SystemProjects.Blocks

namespace SystemProjects.Fat

variable {v : Volume} {file : FatFile} {cluster : Int} {pre post chain : List Int} {n t : Nat} {buffer : Mem}

/-! ## What is claimed -/

/-- The bytes from the position on that there are, and no others, are read into any buffer. -/
def ReadsExactly (v : Volume) (file : FatFile) (n : Nat) : Prop :=
  let m := min n (file.entry.fileSize - file.currentPos)
  ∀ buffer, ∃ buffer', fatRead v file buffer n =
      some (v, { file with currentPos := file.currentPos + m }, buffer', ((m : Nat) : Int)) ∧
    ∀ x < m, fileByte v file.entry.startCluster (file.currentPos + x) = some (buffer' x)

/-- The loop splits the transfer right and no `int` overflows. A request that wraps around is not cut off at the end
of the file, so the chain has to end there. -/
def ReadOk (v : Volume) (file : FatFile) (n length : Nat) : Prop :=
  let m := min n (file.entry.fileSize - file.currentPos)
  file.currentPos + m < 2 ^ 31 ∧ (file.currentPos / v.clusterSize + 1) * v.clusterSize < 2 ^ 31 ∧
    (file.currentPos + n < 2 ^ 32 ∧ Fits v.clusterSize file.currentPos (file.currentPos % v.clusterSize) m ∨
      2 ^ 32 ≤ file.currentPos + n ∧ file.currentPos % v.clusterSize = 0 ∧
        length * v.clusterSize = file.entry.fileSize)

/-! ## The transfer -/

def transferSize (file : FatFile) (n : Nat) : Nat :=
  if dword (file.currentPos + n) > file.entry.fileSize then file.entry.fileSize - file.currentPos else n

theorem fatRead_eq (hpos : file.currentPos < file.entry.fileSize)
    (hwalk : walkChain v.fat (file.currentPos / v.clusterSize) file.entry.startCluster = some cluster)
    (buffer : Mem) :
    fatRead v file buffer n = rwFrom .read v file buffer cluster (transferSize file n) := by
  have hsize : file.entry.fileSize < 2 ^ 32 := load32_lt _ _
  have hrest : dword (2 ^ 32 + file.entry.fileSize - file.currentPos) =
    file.entry.fileSize - file.currentPos := by
    unfold dword
    omega
  rw [fatRead, fatRw, fatRwWith, hwalk, transferSize]
  dsimp only
  rw [hrest]
  split <;> rfl

theorem transferSize_cases (hn : n < 2 ^ 32) (hpos : file.currentPos < file.entry.fileSize) :
    file.currentPos + n < 2 ^ 32 ∧ transferSize file n = min n (file.entry.fileSize - file.currentPos) ∨
      2 ^ 32 ≤ file.currentPos + n ∧ transferSize file n = n := by
  have hsize : file.entry.fileSize < 2 ^ 32 := load32_lt _ _
  unfold transferSize dword
  split <;> omega

theorem Read.fileByte {buffer' : Mem} (h : Read v (cluster :: post) buffer buffer' 0
    (file.currentPos % v.clusterSize) t)
    (hchain : ChainFrom v.fat file.entry.startCluster (pre ++ cluster :: post)) (hcs : 0 < v.clusterSize)
    (hpre : pre.length = file.currentPos / v.clusterSize)
    (ht : t ≤ (post.length + 1) * v.clusterSize - file.currentPos % v.clusterSize) {x : Nat} (hx : x < t) :
    Fat.fileByte v file.entry.startCluster (file.currentPos + x) = some (buffer' x) := by
  have hsplit := Nat.div_add_mod file.currentPos v.clusterSize
  rw [← hpre, Nat.mul_comm] at hsplit
  have hbyte := h.bytes x hx
  rw [Nat.zero_add] at hbyte
  rw [hchain.fileByte hcs, byteAt_append_ge hcs (by omega), ← hbyte]
  · congr 1
    omega
  · rw [List.length_append, List.length_cons, Nat.add_mul]
    omega

/-! ## When a read is exact -/

theorem readsExactly_iff_moved (hchain : ChainFrom v.fat file.entry.startCluster (pre ++ cluster :: post))
    (hcs : 0 < v.clusterSize) (hpre : pre.length = file.currentPos / v.clusterSize)
    (hpos : file.currentPos < file.entry.fileSize)
    (hfits : Fits v.clusterSize file.currentPos (file.currentPos % v.clusterSize) (transferSize file n))
    (hlimit : (file.currentPos / v.clusterSize + 1) * v.clusterSize < 2 ^ 31) :
    ReadsExactly v file n ↔
      file.currentPos + min n (file.entry.fileSize - file.currentPos) < 2 ^ 31 ∧
        min (transferSize file n) ((pre ++ cluster :: post).length * v.clusterSize - file.currentPos) =
          min n (file.entry.fileSize - file.currentPos) := by
  have hwalk : walkChain v.fat (file.currentPos / v.clusterSize) file.entry.startCluster = some cluster := by
    rw [← hpre]
    exact hchain.walk
  have hsplit := Nat.div_add_mod file.currentPos v.clusterSize
  rw [← hpre, Nat.mul_comm] at hsplit
  have hrest : (post.length + 1) * v.clusterSize - file.currentPos % v.clusterSize =
      (pre ++ cluster :: post).length * v.clusterSize - file.currentPos := by
    rw [List.length_append, List.length_cons, Nat.add_mul pre.length]
    omega
  have hread := fun buffer => rwFrom_read file hchain.suffix hcs hfits hlimit buffer
  rw [hrest] at hread
  generalize hmoved : min (transferSize file n)
    ((pre ++ cluster :: post).length * v.clusterSize - file.currentPos) = moved at hread
  unfold ReadsExactly
  dsimp only
  constructor
  · intro h
    obtain ⟨buffer', heq, -⟩ := h fun _ => 0
    obtain ⟨buffer1, -, hrw⟩ := hread fun _ => 0
    rw [fatRead_eq hpos hwalk, hrw] at heq
    split at heq
    case isFalse => contradiction
    case isTrue hlt =>
      have hm : (moved : Int) = min n (file.entry.fileSize - file.currentPos) :=
        (Prod.ext_iff.mp (Prod.ext_iff.mp (Prod.ext_iff.mp (Option.some.inj heq)).2).2).2
      have hm' : moved = min n (file.entry.fileSize - file.currentPos) := Int.ofNat_inj.mp hm
      exact ⟨hm' ▸ hlt, hm'⟩
  · rintro ⟨hlt, hm⟩ buffer
    obtain ⟨buffer', hbytes, hrw⟩ := hread buffer
    rw [← hm] at hlt ⊢
    rw [if_pos hlt] at hrw
    refine ⟨buffer', (fatRead_eq hpos hwalk buffer).trans hrw, fun x hx => ?_⟩
    exact hbytes.fileByte hchain hcs hpre (by omega) hx

theorem limit_bounds (pos : Nat) {clusterSize : Nat} (hcs : 0 < clusterSize) :
    pos < (pos / clusterSize + 1) * clusterSize ∧ clusterSize ≤ (pos / clusterSize + 1) * clusterSize := by
  have hsplit := Nat.div_add_mod pos clusterSize
  have hmod := Nat.mod_lt pos hcs
  rw [Nat.add_mul, Nat.one_mul, Nat.mul_comm]
  omega

theorem ReadsExactly.defined (h : ReadsExactly v file n) (hcs : 1 ≤ v.clusterSize)
    (hpos : file.currentPos < file.entry.fileSize)
    (hwalk : walkChain v.fat (file.currentPos / v.clusterSize) file.entry.startCluster = some cluster) :
    Fits v.clusterSize file.currentPos (file.currentPos % v.clusterSize) (transferSize file n) ∧
      (file.currentPos / v.clusterSize + 1) * v.clusterSize < 2 ^ 31 := by
  by_contra hundefined
  obtain ⟨buffer', heq, -⟩ := h fun _ => 0
  rw [fatRead_eq hpos hwalk, rwFrom_undefined hcs hundefined] at heq
  contradiction

theorem ReadOk.defined {length : Nat} (h : ReadOk v file n length) (hn : n < 2 ^ 32)
    (hpos : file.currentPos < file.entry.fileSize) :
    Fits v.clusterSize file.currentPos (file.currentPos % v.clusterSize) (transferSize file n) ∧
      (file.currentPos / v.clusterSize + 1) * v.clusterSize < 2 ^ 31 := by
  obtain ⟨-, hlimit, htransfer⟩ := h
  refine ⟨?_, hlimit⟩
  rcases transferSize_cases hn hpos with ⟨hsum, ht⟩ | ⟨hsum, ht⟩
  · rcases htransfer with ⟨-, hfits⟩ | ⟨hno, -⟩
    · rwa [ht]
    · omega
  · rcases htransfer with ⟨hno, -⟩ | ⟨-, hoff, -⟩
    · omega
    · exact .inl hoff

/-- A request that wraps around moves all that it asks for or all that the chain holds, so it has to be the latter. -/
theorem moved_iff_readOk {length : Nat} (hlong : file.entry.fileSize ≤ length * v.clusterSize)
    (hcs : 1 ≤ v.clusterSize) (hpos : file.currentPos < file.entry.fileSize) (hn : n < 2 ^ 32)
    (hfits : Fits v.clusterSize file.currentPos (file.currentPos % v.clusterSize) (transferSize file n))
    (hlimit : (file.currentPos / v.clusterSize + 1) * v.clusterSize < 2 ^ 31) :
    file.currentPos + min n (file.entry.fileSize - file.currentPos) < 2 ^ 31 ∧
      min (transferSize file n) (length * v.clusterSize - file.currentPos) =
        min n (file.entry.fileSize - file.currentPos) ↔ ReadOk v file n length := by
  have hsize : file.entry.fileSize < 2 ^ 32 := load32_lt _ _
  have hbounds := limit_bounds file.currentPos hcs
  unfold ReadOk
  dsimp only
  generalize length * v.clusterSize = capacity at hlong
  rcases transferSize_cases hn hpos with ⟨hsum, ht⟩ | ⟨hsum, ht⟩
  · rw [ht] at hfits ⊢
    constructor
    · rintro ⟨hend, -⟩
      exact ⟨hend, hlimit, .inl ⟨hsum, hfits⟩⟩
    · rintro ⟨hend, -⟩
      exact ⟨hend, by omega⟩
  · rw [ht] at hfits ⊢
    have hoff : file.currentPos % v.clusterSize = 0 := by
      rcases hfits with hoff | hfit | ⟨-, hfit⟩ <;> omega
    constructor
    · rintro ⟨hend, heq⟩
      exact ⟨hend, hlimit, .inr ⟨hsum, hoff, by omega⟩⟩
    · rintro ⟨hend, -, ⟨hno, -⟩ | ⟨-, -, heq⟩⟩
      · omega
      · exact ⟨hend, by omega⟩

/-- **Exact reads.** A read is exact just when the loop splits it right and no sum wraps around. -/
theorem fatRead_exact_iff (hchain : ChainFrom v.fat file.entry.startCluster chain)
    (hlong : file.entry.fileSize ≤ chain.length * v.clusterSize) (hcs : 1 ≤ v.clusterSize)
    (hpos : file.currentPos < file.entry.fileSize) (hn : n < 2 ^ 32) :
    ReadsExactly v file n ↔ ReadOk v file n chain.length := by
  have hlt : file.currentPos / v.clusterSize < chain.length := (Nat.div_lt_iff_lt_mul hcs).mpr (by omega)
  have hwalk := hchain.walk_getElem hlt
  obtain ⟨pre, post, hpre, hsplit⟩ := hchain.cluster_at hwalk
  by_cases hdefined : Fits v.clusterSize file.currentPos (file.currentPos % v.clusterSize)
    (transferSize file n) ∧
      (file.currentPos / v.clusterSize + 1) * v.clusterSize < 2 ^ 31
  · obtain ⟨hfits, hlimit⟩ := hdefined
    have hmoved := readsExactly_iff_moved (hsplit ▸ hchain) hcs hpre hpos hfits hlimit
    rw [← hsplit] at hmoved
    exact hmoved.trans (moved_iff_readOk hlong hcs hpos hn hfits hlimit)
  · constructor
    · intro h
      exact absurd (h.defined hcs hpos hwalk) hdefined
    · intro h
      exact absurd (h.defined hn hpos) hdefined

def threeClusters : Volume where
  fat := fun c => if c = 2 then 3 else if c = 3 then 4 else FAIL
  data := fun _ _ => 0
  rootdir := fun _ => 0
  numRootDirEnts := 16
  clusterSize := 512
  totalClusters := 5

def threeFile (pos : Nat) : FatFile := ⟨newEntry [0x46] 0x20 2 1500, 2, some 0, pos⟩

theorem threeClusters_chain (pos : Nat) :
    ChainFrom threeClusters.fat (threeFile pos).entry.startCluster [2, 3, 4] := by
  have hstart : (threeFile pos).entry.startCluster = 2 :=
    (by decide : (newEntry [0x46] 0x20 2 1500).startCluster = 2)
  rw [hstart]
  have hend : threeClusters.fat 4 = FAIL := by decide
  exact ⟨⟨rfl, by decide, by decide, by decide, by decide, by decide, hend⟩, by simp⟩

theorem threeClusters_reads : ReadsExactly threeClusters (threeFile 100) 512 :=
  (fatRead_exact_iff (threeClusters_chain 100) (by decide) (by decide) (by decide) (by decide)).mpr
    ⟨by decide, by decide, .inl ⟨by decide, .inr (.inr ⟨by decide, by decide⟩)⟩⟩

/-- From the middle of the second cluster on, 600 bytes are split wrong. -/
theorem threeClusters_overrun :
    ¬ ∀ (v : Volume) (file : FatFile) (chain : List Int) (n : Nat),
      ChainFrom v.fat file.entry.startCluster chain →
      file.entry.fileSize ≤ chain.length * v.clusterSize → 1 ≤ v.clusterSize →
      file.currentPos < file.entry.fileSize → n < 2 ^ 32 → ReadsExactly v file n := by
  intro h
  obtain ⟨buffer', hread, -⟩ := h threeClusters (threeFile 600) [2, 3, 4] 600
    (threeClusters_chain 600) (by decide)
    (by decide) (by decide) (by decide) fun _ => 0
  have hnone : (fatRead threeClusters (threeFile 600) (fun _ => 0) 600).isNone = true := by decide
  rw [hread] at hnone
  contradiction

end SystemProjects.Fat
