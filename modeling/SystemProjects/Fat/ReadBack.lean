import SystemProjects.Fat.Files

/-!
# What is written is read back
-/

open SystemProjects.Memory SystemProjects.Blocks SystemProjects.Lists

namespace SystemProjects.Fat

variable {v v1 v2 v3 : Volume} {d d' : Dir} {i j n a moved : Nat} {start cluster : Int}
    {pre post added mine : List Int}
  {chain : Dir → Nat → List Int} {file : FatFile} {buffer : Mem}

/-! ## What is claimed -/

/-- After `n` bytes of `buffer` have been written to the file at its position. -/
structure ReadsBack (v v' : Volume) (file file' : FatFile) (d : Dir) (i : Nat) (buffer : Mem)
    (n : Nat) : Prop where
  readBack : ∀ old, ∃ (after : FatFile) (buffer' : Mem),
    fatRead v' (fatSeek file' file.currentPos .start).1 old n =
    some (v', after, buffer', ((n : Nat) : Int)) ∧ ∀ x < n, buffer' x = buffer x
  own : ∀ a < file.entry.fileSize, a < file.currentPos ∨ file.currentPos + n ≤ a →
    fileByte v' file.entry.startCluster a = fileByte v file.entry.startCluster a
  others : ∀ d' j, IsDir v d' → Live v d' j → (d', j) ≠ (d, i) → v'.entryAt d' j = v.entryAt d' j ∧
    ((v.entryAt d' j).directory = false → ∀ a < (v.entryAt d' j).fileSize,
      fileByte v' (v.entryAt d' j).startCluster a = fileByte v (v.entryAt d' j).startCluster a)
  size : file'.entry.fileSize = max file.entry.fileSize (file.currentPos + n)
  recorded : (v'.entryAt d i).fileSize = max file.entry.fileSize (file.currentPos + n)

def WriteReadsBack (v : Volume) (file : FatFile) (d : Dir) (i : Nat) (buffer : Mem) (n : Nat) : Prop :=
  ∃ v' file' ret, fatWrite v file buffer n = some (v', file', ret) ∧
    (ret = SUCCESS → ReadsBack v v' file file' d i buffer n)

/-! ## When it does -/

/-- The position is beyond the chain, or there are too few free clusters for the write to go beyond the end. Then the
write fails. -/
def Fails (v : Volume) (file : FatFile) (n : Nat) : Prop :=
  walkChain v.fat (file.currentPos / v.clusterSize) file.entry.startCluster = none ∨
    file.entry.fileSize < dword (file.currentPos + n) ∧ (freeClusters v).length < newClusters v n

/-- All is written: no `int` overflows, the loop splits the transfer right, and when the file grows, it is not in the
root directory and as many clusters are linked as the bytes need. -/
def WritesAll (v : Volume) (file : FatFile) (d : Dir) (n : Nat) : Prop :=
  file.currentPos + n < 2 ^ 31 ∧ (file.currentPos / v.clusterSize + 1) * v.clusterSize < 2 ^ 31 ∧
    Fits v.clusterSize file.currentPos (file.currentPos % v.clusterSize) n ∧
    (file.currentPos + n ≤ file.entry.fileSize ∨
      d ≠ .root ∧ file.currentPos % v.clusterSize + n ≤ (newClusters v n + 1) * v.clusterSize)

/-! ## The chain that is written -/

theorem Opened.empty (ho : Opened v file d i) (hok : ChainsOk v chain) (hchain : chain d i = []) :
    file.entry.fileSize = 0 := by
  have hlong := hok.long d i ho.dir ho.live
  rw [hchain, List.length_nil, Nat.zero_mul] at hlong
  rw [ho.entry]
  exact Nat.le_zero.mp hlong

theorem Opened.cluster_at (ho : Opened v file d i) (hok : ChainsOk v chain)
    (hwalk : walkChain v.fat (file.currentPos / v.clusterSize) file.entry.startCluster = some cluster) :
    ∃ pre post, pre.length = file.currentPos / v.clusterSize ∧
      (ChainFrom v.fat file.entry.startCluster (pre ++ cluster :: post) ∧ chain d i = pre ++ cluster :: post ∨
        file.entry.startCluster = 0 ∧ cluster = 0 ∧ pre = [] ∧ file.entry.fileSize = 0 ∧ chain d i = []) := by
  rcases hok.own d i ho.dir ho.live with ⟨hstart, hchain, -⟩ | ⟨hchain, -⟩
  · have hsize : file.entry.fileSize = 0 := ho.empty hok hchain
    rw [← ho.entry] at hstart
    have hpos : file.currentPos = 0 := by
      have := ho.pos_le
      omega
    rw [hpos, Nat.zero_div, hstart] at hwalk
    refine ⟨[], [], by rw [hpos, Nat.zero_div]; rfl, .inr ⟨hstart, ?_, rfl, hsize, hchain⟩⟩
    exact (Option.some.inj hwalk).symm
  · rw [← ho.entry] at hchain
    obtain ⟨pre, post, hpre, heq⟩ := hchain.cluster_at hwalk
    exact ⟨pre, post, hpre, .inl ⟨heq ▸ hchain, heq⟩⟩

theorem fatRw_write (ho : Opened v file d i) (hok : ChainsOk v chain) (hn : 0 < n ∧ n < 2 ^ 32)
    (buffer : Mem) :
    (Fails v file n ∧ ∃ v', fatWrite v file buffer n = some (v', file, FAIL)) ∨
      ¬ Fails v file n ∧ ∃ v1 cluster pre post, Ready v v1 file.entry.startCluster cluster pre post
        (chain d i) ∧
        pre.length = file.currentPos / v.clusterSize ∧
        fatRw .write v file buffer n = rwFrom .write v1 file buffer cluster n ∧
        (v1 = v ∧ chain d i = pre ++ cluster :: post ∧ dword (file.currentPos + n) ≤ file.entry.fileSize ∨
          file.entry.fileSize < dword (file.currentPos + n) ∧ post.length = newClusters v n) := by
  cases hwalk : walkChain v.fat (file.currentPos / v.clusterSize) file.entry.startCluster with
  | none =>
    exact .inl ⟨.inl hwalk, v, fatWrite_fail (fatRw_none hwalk)⟩
  | some cluster =>
    obtain ⟨pre, post, hpre, hcluster⟩ := ho.cluster_at hok hwalk
    by_cases hgrow : file.entry.fileSize < dword (file.currentPos + n)
    · have hused : v.fat cluster ≠ fatFreecluster ∧ cluster ≠ FAIL := by
        rcases hcluster with ⟨hchain, -⟩ | ⟨-, rfl, -⟩
        · exact ⟨hchain.fat_ne_free (by simp), hchain.links.ne_end (by simp)⟩
        · exact ⟨hok.reserved, by decide⟩
      by_cases hroom : newClusters v n ≤ (freeClusters v).length
      · obtain ⟨v1, hgrown, hrw⟩ := fatRw_grow buffer hwalk hgrow hused.1 hok.reserved hused.2 hroom
        refine .inr ⟨?_, v1, cluster, pre, (freeClusters v).take (newClusters v n), ?_, hpre, hrw,
          .inr ⟨hgrow, ?_⟩⟩
        · rintro (hnone | ⟨-, hfew⟩)
          · rw [hwalk] at hnone
            contradiction
          · omega
        · rcases hcluster with ⟨hchain, heq⟩ | ⟨hstart, rfl, rfl, -, heq⟩
          · rw [heq]
            exact ready_grown hchain hgrown fun c hc => fat_of_mem_take hc
          · rw [hstart, heq]
            exact ready_first hgrown fun c hc => fat_of_mem_take hc
        · rw [List.length_take]
          omega
      · obtain ⟨v0, hadd, -⟩ := addClusters_full _ v cluster hused.1 hok.reserved (Nat.lt_of_not_le hroom)
        exact .inl ⟨.inr ⟨hgrow, Nat.lt_of_not_le hroom⟩, v0, fatWrite_fail (fatRw_full hwalk hgrow hadd)⟩
    · refine .inr ⟨?_, v, cluster, pre, post, ?_⟩
      · rintro (hnone | ⟨hgrow', -⟩)
        · rw [hwalk] at hnone
          contradiction
        · exact hgrow hgrow'
      · rcases hcluster with ⟨hchain, heq⟩ | ⟨-, -, -, hsize, -⟩
        · exact ⟨heq ▸ ready_same hchain, hpre, fatRw_same buffer hwalk hgrow,
            .inl ⟨rfl, heq, Nat.le_of_not_lt hgrow⟩⟩
        · have hpos := ho.pos_le
          have hdword : dword (file.currentPos + n) = n := by
            rw [dword, show file.currentPos + n = n by omega, Nat.mod_eq_of_lt hn.2]
          omega

/-! ## The transfer -/

theorem rwFrom_write (hr : Ready v v1 start cluster pre post mine) (hcs : 0 < v.clusterSize)
    (hfits : Fits v.clusterSize file.currentPos (file.currentPos % v.clusterSize) n)
    (hlimit : (file.currentPos / v.clusterSize + 1) * v.clusterSize < 2 ^ 31) (buffer : Mem)
    (hmoved : moved = min n ((post.length + 1) * v.clusterSize - file.currentPos % v.clusterSize)) :
    ∃ v2, Wrote v1 v2 (cluster :: post) buffer 0 (file.currentPos % v.clusterSize) moved ∧
      rwFrom .write v1 file buffer cluster n =
        if file.currentPos + moved < 2 ^ 31 then
          some (v2, { file with currentPos := file.currentPos + moved }, buffer, ((moved : Nat) : Int))
        else none := by
  have hsize : v1.clusterSize = v.clusterSize := by rw [hr.same]
  obtain ⟨v2, heq, hw⟩ := rwLoop_write file.currentPos buffer post v1 cluster (n + 1) 0
    (file.currentPos % v1.clusterSize) n hr.chain.suffix (Nat.mod_lt _ (by omega)) (by rwa [hsize])
    (by rwa [hsize]) n.lt_succ_self
  rw [hsize, ← hmoved] at heq hw
  refine ⟨v2, hw, ?_⟩
  rw [rwFrom, hsize]
  dsimp only
  rw [heq, Option.bind_some, Nat.zero_add]

/-- The bytes `moved` from `pos` on are those of the buffer, and all else is as it was, but for the cluster of
the directory `d`. -/
structure Written (v v' : Volume) (d : Dir) (start : Int) (written : List Int) (pos : Nat)
    (buffer : Mem) (moved : Nat) :
    Prop where
  clusterSize : v'.clusterSize = v.clusterSize
  chain : ChainFrom v'.fat start written
  bytes : ∀ a, byteAt v.clusterSize v'.data written a =
    if pos ≤ a ∧ a < pos + moved then some (buffer (a - pos)) else byteAt v.clusterSize v.data written a
  fat : ∀ c, c ∉ written → v'.fat c = v.fat c
  data : ∀ c, c ∉ written → (∀ b : Nat, d = .cluster b → c ≠ b) → v'.data c = v.data c

theorem Ready.written (hr : Ready v v1 start cluster pre post mine) (hcs : 0 < v.clusterSize) {pos : Nat}
    (hpre : pre.length = pos / v.clusterSize)
    (hw : Wrote v1 v2 (cluster :: post) buffer 0 (pos % v.clusterSize) moved) :
    Written v v2 d start (pre ++ cluster :: post) pos buffer moved := by
  have hsize : v1.clusterSize = v.clusterSize := by rw [hr.same]
  have hdata : v1.data = v.data := by rw [hr.same]
  have hpos : pre.length * v.clusterSize + pos % v.clusterSize = pos := by
    rw [hpre, Nat.mul_comm]
    exact Nat.div_add_mod pos v.clusterSize
  have hdisjoint : ∀ c ∈ pre, c ∉ cluster :: post := fun c hc hin =>
    (List.nodup_append.mp hr.chain.links.nodup).2.2 c hc c hin rfl
  refine ⟨by rw [hw.same, hr.same], by rw [hw.same]; exact hr.chain, fun a => ?_, fun c hc => ?_, fun c hc _ => ?_⟩
  · by_cases ha : a < pre.length * v.clusterSize
    · rw [if_neg (by omega), byteAt_append_lt hcs ha, byteAt_append_lt hcs ha]
      apply byteAt_congr hcs
      intro c hc x _
      rw [hw.others c (hdisjoint c hc), hdata]
    · have hle : pre.length * v.clusterSize ≤ a := Nat.le_of_not_lt ha
      have hbytes := hw.bytes (a - pre.length * v.clusterSize)
      rw [hsize, hdata] at hbytes
      rw [byteAt_append_ge hcs hle, byteAt_append_ge hcs hle, hbytes]
      by_cases hin : pos ≤ a ∧ a < pos + moved
      · rw [if_pos hin, if_pos (by omega), Nat.zero_add]
        congr 2
        omega
      · rw [if_neg hin, if_neg (by omega)]
  · rw [hw.same]
    exact hr.others c hc
  · rw [hw.others c fun hin => hc (List.mem_append_right _ hin), hdata]

theorem setData_other {c b : Int} {block : Mem} (hne : c ≠ b) :
    (v.setData b block).data c = v.data c := if_neg hne

theorem Written.setData {written : List Int} {pos b : Nat}
    (h : Written v v2 (.cluster b) start written pos buffer moved)
    (hb : (b : Int) ∉ written) (hcs : 0 < v.clusterSize) (block : Mem) :
    Written v (v2.setData b block) (.cluster b) start written pos buffer moved := by
  refine ⟨h.clusterSize, h.chain, fun a => ?_, h.fat, fun c hc hne => ?_⟩
  · rw [← h.bytes a]
    apply byteAt_congr hcs
    intro c hc x _
    have hne : c ≠ b := by
      rintro rfl
      exact hb hc
    rw [setData_other hne]
  · rw [setData_other (hne b rfl)]
    exact h.data c hc hne

/-! ## What the written file holds -/

theorem Ready.fileByte (hr : Ready v v1 start cluster pre post mine) (hcs : 0 < v.clusterSize)
    (ha : mine ≠ [] ∧ a / v.clusterSize ≤ pre.length ∨ v1 = v ∧
    a < (pre ++ cluster :: post).length * v.clusterSize) :
    Fat.fileByte v start a = byteAt v.clusterSize v.data (pre ++ cluster :: post) a := by
  rcases ha with ⟨hmine, hle⟩ | ⟨rfl, hlt⟩
  · have hi : a / v.clusterSize < (pre ++ cluster :: post).length := by
      rw [List.length_append, List.length_cons]
      omega
    rw [Fat.fileByte, ← hr.before hmine _ hle, hr.chain.walk_getElem hi, byteAt, List.getElem?_eq_getElem hi]
  · exact hr.chain.fileByte hcs hlt

theorem Written.fileByte {written : List Int} {pos : Nat} (h : Written v v' d start written pos buffer moved)
    (hcs : 0 < v.clusterSize) (ha : a < written.length * v.clusterSize) :
    Fat.fileByte v' start a = if pos ≤ a ∧ a < pos + moved then some (buffer (a - pos))
      else byteAt v.clusterSize v.data written a := by
  rw [← h.bytes a, ← h.clusterSize]
  exact h.chain.fileByte (by rwa [h.clusterSize]) (by rwa [h.clusterSize])

theorem Opened.size_le (ho : Opened v file d i) (hok : ChainsOk v chain) (hsize : 0 < file.entry.fileSize) :
    chain d i ≠ [] ∧ file.entry.fileSize ≤ (chain d i).length * v.clusterSize := by
  refine ⟨fun hnil => ?_, ?_⟩
  · rw [ho.empty hok hnil] at hsize
    omega
  · rw [ho.entry]
    exact hok.long d i ho.dir ho.live

theorem Written.own (h : Written v v' d file.entry.startCluster (pre ++ cluster :: post)
    file.currentPos buffer moved)
    (hr : Ready v v1 file.entry.startCluster cluster pre post (chain d i)) (hok : ChainsOk v chain)
    (ho : Opened v file d i) (hcs : 0 < v.clusterSize) (hpre : pre.length = file.currentPos / v.clusterSize)
    (hgrow : v1 = v ∧ chain d i = pre ++ cluster :: post ∨ file.entry.fileSize ≤ file.currentPos + n)
    (ha : a < file.entry.fileSize) (hout : a < file.currentPos ∨ file.currentPos + n ≤ a)
    (hmoved : moved ≤ n) :
    Fat.fileByte v' file.entry.startCluster a = Fat.fileByte v file.entry.startCluster a := by
  obtain ⟨hne, hsize⟩ := ho.size_le hok (by omega)
  rcases hgrow with ⟨hsame, hchain⟩ | hgrow
  · rw [hchain] at hsize
    have hlt : a < (pre ++ cluster :: post).length * v.clusterSize := by omega
    rw [h.fileByte hcs hlt, if_neg (by omega), hr.fileByte hcs (.inr ⟨hsame, hlt⟩)]
  · have hle : a / v.clusterSize ≤ pre.length := by
      rw [hpre]
      exact Nat.div_le_div_right (by omega)
    have hlt : a < (pre ++ cluster :: post).length * v.clusterSize := by
      rw [← Nat.div_lt_iff_lt_mul hcs, List.length_append, List.length_cons]
      omega
    rw [h.fileByte hcs hlt, if_neg (by omega), hr.fileByte hcs (.inl ⟨hne, hle⟩)]

/-- Chains of other entries keep their links and, unless they hold a directory, their bytes. -/
theorem Written.other (h : Written v v' d start (pre ++ cluster :: post) a buffer moved)
    (hr : Ready v v1 start cluster pre post (chain d i)) (hok : ChainsOk v chain) (ho : Opened v file d i)
    (hcs : 0 < v.clusterSize) (hdir : IsDir v d') (hlive : Live v d' j) (hne : (d', j) ≠ (d, i))
    (hfile : (v.entryAt d' j).directory = false) {x : Nat} (hx : x < (v.entryAt d' j).fileSize) :
    Fat.fileByte v' (v.entryAt d' j).startCluster x = Fat.fileByte v (v.entryAt d' j).startCluster x := by
  have hle := hok.long d' j hdir hlive
  rcases hok.own d' j hdir hlive with ⟨-, hnil, -⟩ | ⟨hchain, -⟩
  · rw [hnil, List.length_nil, Nat.zero_mul] at hle
    omega
  · have hapart : ∀ c ∈ chain d' j, c ∉ pre ++ cluster :: post :=
      fun c hc => hr.apart hok.toChains ho.dir ho.live hdir hlive hne hc
    have hchain' : ChainFrom v'.fat (v.entryAt d' j).startCluster (chain d' j) :=
      hchain.congr fun c hc => h.fat c (hapart c hc)
    rw [hchain'.fileByte (by rwa [h.clusterSize]) (by rw [h.clusterSize]; omega),
      hchain.fileByte hcs (by omega),
      h.clusterSize]
    apply byteAt_congr hcs
    intro c hc y _
    rw [h.data c (hapart c hc)]
    rintro b rfl rfl
    obtain ⟨d0, j0, hdir0, hlive0, hdirectory, hmem⟩ := hok.directory ho.dir
    refine hok.apart d0 j0 d' j hdir0 hlive0 hdir hlive (fun heq => ?_) _ hmem hc
    obtain ⟨rfl, rfl⟩ := Prod.ext_iff.mp heq
    rw [hfile] at hdirectory
    contradiction

theorem fatSeek_start (ha : a ≤ file.entry.fileSize) (hlt : a < 2 ^ 31) :
    (fatSeek file a .start).1 = { file with currentPos := a } := by
  rw [fatSeek]
  dsimp only
  rw [toInt, if_pos hlt, if_neg (by omega), Int.toNat_natCast]

theorem Written.readBack (h : Written v v' d file.entry.startCluster (pre ++ cluster :: post)
    file.currentPos buffer n)
    (hcs : 0 < v.clusterSize) (hpre : pre.length = file.currentPos / v.clusterSize)
    (hfits : Fits v.clusterSize file.currentPos (file.currentPos % v.clusterSize) n)
    (hlimit : (file.currentPos / v.clusterSize + 1) * v.clusterSize < 2 ^ 31)
    (hroom : n ≤ (post.length + 1) * v.clusterSize - file.currentPos % v.clusterSize)
    (hpos : file.currentPos + n < 2 ^ 31) {file' : FatFile}
    (hstart : file'.entry.startCluster = file.entry.startCluster)
    (hsize : file'.entry.fileSize = max file.entry.fileSize (file.currentPos + n)) (old : Mem) :
    ∃ (after : FatFile) (buffer' : Mem), fatRead v' (fatSeek file' file.currentPos .start).1 old n =
      some (v', after, buffer', ((n : Nat) : Int)) ∧ ∀ x < n, buffer' x = buffer x := by
  have hoff : file.currentPos % v.clusterSize < v.clusterSize := Nat.mod_lt _ hcs
  have hsplit : pre.length * v.clusterSize + file.currentPos % v.clusterSize = file.currentPos := by
    rw [hpre, Nat.mul_comm]
    exact Nat.div_add_mod _ _
  obtain ⟨buffer', hread, heq⟩ := rwFrom_read (v := v') { file' with currentPos := file.currentPos }
    h.chain.suffix (by rwa [h.clusterSize]) (by rwa [h.clusterSize]) (by rwa [h.clusterSize]) old
  rw [h.clusterSize, Nat.min_eq_left hroom] at hread heq
  dsimp only at hread heq
  rw [if_pos hpos] at heq
  refine ⟨{ file' with currentPos := file.currentPos + n }, buffer', ?_, fun x hx => ?_⟩
  · rw [fatSeek_start (by omega) (by omega), fatRead, fatRw, fatRwWith]
    dsimp only
    rw [hstart, h.clusterSize, ← hpre, h.chain.walk]
    dsimp only
    rw [if_neg, heq]
    rw [hsize, dword, Nat.mod_eq_of_lt (by omega)]
    omega
  · have hbyte := hread.bytes x hx
    have hbytes := h.bytes (file.currentPos + x)
    rw [if_pos (by omega), byteAt_append_ge hcs (by omega)] at hbytes
    rw [h.clusterSize, Nat.zero_add] at hbyte
    rw [show file.currentPos + x - pre.length * v.clusterSize = file.currentPos % v.clusterSize + x by omega,
      hbyte, Nat.add_sub_cancel_left] at hbytes
    exact Option.some.inj hbytes

/-! ## The result of a write -/

theorem Written.readsBack
    (h : Written v v' d file.entry.startCluster (pre ++ cluster :: post) file.currentPos buffer n)
    (hr : Ready v v1 file.entry.startCluster cluster pre post (chain d i)) (hok : ChainsOk v chain)
    (ho : Opened v file d i) (hcs : 0 < v.clusterSize) (hpre : pre.length = file.currentPos / v.clusterSize)
    (hgrow : v1 = v ∧ chain d i = pre ++ cluster :: post ∨ file.entry.fileSize ≤ file.currentPos + n)
    (hfits : Fits v.clusterSize file.currentPos (file.currentPos % v.clusterSize) n)
    (hlimit : (file.currentPos / v.clusterSize + 1) * v.clusterSize < 2 ^ 31)
    (hroom : n ≤ (post.length + 1) * v.clusterSize - file.currentPos % v.clusterSize)
    (hpos : file.currentPos + n < 2 ^ 31) {file' : FatFile}
    (hstart : file'.entry.startCluster = file.entry.startCluster)
    (hsize : file'.entry.fileSize = max file.entry.fileSize (file.currentPos + n))
    (hentry : (v'.entryAt d i).fileSize = file'.entry.fileSize)
    (hentries : ∀ d' j, IsDir v d' → (d', j) ≠ (d, i) → v'.entryAt d' j = v.entryAt d' j) :
    ReadsBack v v' file file' d i buffer n where
  readBack := h.readBack hcs hpre hfits hlimit hroom hpos hstart hsize
  own a ha hout := h.own hr hok ho hcs hpre hgrow ha hout n.le_refl
  others d' j hdir hlive hne := by
    rw [hentries d' j hdir hne]
    exact ⟨rfl, fun hfile a ha => h.other hr hok ho hcs hdir hlive hne hfile ha⟩
  size := hsize
  recorded := hentry.trans hsize

theorem Opened.room (ho : Opened v file d i) (hok : ChainsOk v chain) (hn : 0 < n)
    (hchain : chain d i = pre ++ cluster :: post) (hpre : pre.length = file.currentPos / v.clusterSize)
    (hle : file.currentPos + n ≤ file.entry.fileSize) :
    n ≤ (post.length + 1) * v.clusterSize - file.currentPos % v.clusterSize := by
  obtain ⟨-, hsize⟩ := ho.size_le hok (by omega)
  rw [hchain, List.length_append, List.length_cons, Nat.add_mul, hpre, Nat.mul_comm] at hsize
  have := Nat.div_add_mod file.currentPos v.clusterSize
  omega

theorem FatEntry.startCluster_setFileSize {e : FatEntry} {size : Nat} :
    (e.setFileSize size).startCluster = e.startCluster := by
  rw [startCluster, setFileSize, load16, store32_other (by omega), store32_other (by omega),
    startCluster, load16]

theorem FatEntry.fileSize_setFileSize {e : FatEntry} {size : Nat} (hsize : size < 2 ^ 32) :
    (e.setFileSize size).fileSize = size := by
  rw [fileSize, setFileSize, load32_store32, Nat.mod_eq_of_lt hsize]

theorem fatWrite_of_rw {file' : FatFile} {buffer' : Mem}
    (h : fatRw .write v file buffer n = some (v2, file', buffer', ((moved : Nat) : Int))) :
    fatWrite v file buffer n = if file'.entry.fileSize < file.currentPos + moved then
      fatSetFileSize v2 file' (file.currentPos + moved) else some (v2, file', SUCCESS) := by
  rw [fatWrite, h, Option.bind_some]
  dsimp only
  rw [if_pos (Int.natCast_nonneg moved), Int.toNat_natCast]
  by_cases hlt : file'.entry.fileSize < file.currentPos + moved
  · rw [if_pos hlt, if_pos (by omega)]
  · rw [if_neg hlt, if_neg (by omega)]

theorem fatSetFileSize_sub (v2 : Volume) (file' : FatFile) {b size : Nat} (hindex : file'.dirIndex = some i)
    (hdir : file'.dirCluster = b) (hi : i < v2.slots) (hsize : file'.entry.fileSize ≠ size) :
    ∃ block, fatSetFileSize v2 file' size =
        some (v2.setData b block, { file' with entry := file'.entry.setFileSize size }, SUCCESS) ∧
      Replaced v2 (v2.setData b block) (.cluster b) i (file'.entry.setFileSize size) := by
  obtain ⟨v3, heq, hreplaced⟩ := fatUpdateFileEntry_slot (v := v2) (c := b)
    { file' with entry := file'.entry.setFileSize size } hindex hdir hi
  rcases fatUpdateFileEntry_result heq with ⟨-, hfail⟩ | ⟨⟨block, hv3⟩, -⟩
  · contradiction
  · dsimp only at hv3
    rw [hdir] at hv3
    subst hv3
    refine ⟨block, ?_, hreplaced⟩
    rw [fatSetFileSize, if_neg hsize, heq, ← hindex]

theorem fatSetFileSize_root (v2 : Volume) (file' : FatFile) {size : Nat} {after : FatFile} {ret : Int}
    (hindex : file'.dirIndex = some i)
    (hsize : file'.entry.fileSize ≠ size) (h : fatSetFileSize v2 file' size = some (v3, after, ret)) :
    v3.entryAt .root i = v2.entryAt .root i ∧ ret = SUCCESS := by
  rw [fatSetFileSize, if_neg hsize, fatUpdateFileEntry] at h
  dsimp only at h
  rw [hindex] at h
  obtain ⟨⟨block, rfl⟩, rfl⟩ := writeEntry_result h
  exact ⟨rfl, rfl⟩

/-! ## When a write is read back -/

theorem writesAll_readsBack (ho : Opened v file d i) (hok : ChainsOk v chain) (hn : 0 < n)
    (hr : Ready v v1 file.entry.startCluster cluster pre post (chain d i))
    (hpre : pre.length = file.currentPos / v.clusterSize)
    (hrw : fatRw .write v file buffer n = rwFrom .write v1 file buffer cluster n)
    (hgrow : v1 = v ∧ chain d i = pre ++ cluster :: post ∧ dword (file.currentPos + n) ≤ file.entry.fileSize ∨
      file.entry.fileSize < dword (file.currentPos + n) ∧ post.length = newClusters v n)
    (hall : WritesAll v file d n) : WriteReadsBack v file d i buffer n := by
  obtain ⟨hpos, hlimit, hfits, hsize⟩ := hall
  have hcs : 0 < v.clusterSize := Nat.lt_of_lt_of_le (by decide) hok.cluster_size
  have hdword : dword (file.currentPos + n) = file.currentPos + n := Nat.mod_eq_of_lt (by omega)
  rw [hdword] at hgrow
  have hroom : n ≤ (post.length + 1) * v.clusterSize - file.currentPos % v.clusterSize := by
    rcases hgrow with ⟨-, hchain, hle⟩ | ⟨hlt, hlen⟩
    · exact ho.room hok hn hchain hpre hle
    · rw [hlen]
      omega
  have hchain : v1 = v ∧ chain d i = pre ++ cluster :: post ∨ file.entry.fileSize ≤ file.currentPos + n := by
    rcases hgrow with ⟨hsame, hchain, -⟩ | ⟨hlt, -⟩
    · exact .inl ⟨hsame, hchain⟩
    · exact .inr (Nat.le_of_lt hlt)
  obtain ⟨v2, hw, hfrom⟩ := rwFrom_write hr hcs hfits hlimit buffer (Nat.min_eq_left hroom).symm
  rw [if_pos hpos] at hfrom
  have hwritten : Written v v2 d file.entry.startCluster (pre ++ cluster :: post) file.currentPos buffer n :=
    hr.written hcs hpre hw
  have hentries : ∀ d' j, IsDir v d' → v2.entryAt d' j = v.entryAt d' j := fun d' j hdir =>
    hr.entries hw.same hw.others hok.toChains ho.dir ho.live ho.isFile hdir
  have hwrite := fatWrite_of_rw (hrw.trans hfrom)
  dsimp only at hwrite
  by_cases hle : file.currentPos + n ≤ file.entry.fileSize
  · rw [if_neg (by omega)] at hwrite
    refine ⟨_, _, _, hwrite, fun _ => ?_⟩
    refine hwritten.readsBack hr hok ho hcs hpre hchain hfits hlimit hroom hpos rfl
      (Nat.max_eq_left hle).symm ?_ ?_
    · rw [hentries d i ho.dir, ho.entry]
    · exact fun d' j hdir _ => hentries d' j hdir
  · have hlt : file.entry.fileSize < file.currentPos + n := Nat.lt_of_not_le hle
    rw [if_pos hlt] at hwrite
    cases d with
    | root => exact absurd rfl (hsize.resolve_left hle).1
    | cluster b =>
      have hb := hr.directory hok.toChains ho.dir ho.live ho.isFile ho.dir
      have hslots : i < v2.slots := by
        rw [Volume.slots, hwritten.clusterSize]
        exact ho.live.1
      obtain ⟨block, hset, hreplaced⟩ := fatSetFileSize_sub v2
        { file with currentPos := file.currentPos + n } ho.index (ho.cluster b rfl) hslots (Nat.ne_of_lt hlt)
      refine ⟨_, _, _, hwrite.trans hset, fun _ => ?_⟩
      have hfileSize : (file.entry.setFileSize (file.currentPos + n)).fileSize = file.currentPos + n :=
        FatEntry.fileSize_setFileSize (by omega)
      refine (hwritten.setData hb hcs block).readsBack hr hok ho hcs hpre hchain hfits hlimit hroom hpos
        FatEntry.startCluster_setFileSize ?_ ?_ fun d' j hdir hne => ?_
      · rw [hfileSize, Nat.max_eq_right (Nat.le_of_lt hlt)]
      · rw [hreplaced.entry, FatEntry.fileSize_copy]
      · rw [hreplaced.others d' j hne, hentries d' j hdir]

theorem readsBack_writesAll (ho : Opened v file d i) (hok : ChainsOk v chain) (hn : 0 < n)
    (hr : Ready v v1 file.entry.startCluster cluster pre post (chain d i))
    (hpre : pre.length = file.currentPos / v.clusterSize)
    (hrw : fatRw .write v file buffer n = rwFrom .write v1 file buffer cluster n)
    (hgrow : v1 = v ∧ chain d i = pre ++ cluster :: post ∧ dword (file.currentPos + n) ≤ file.entry.fileSize ∨
      file.entry.fileSize < dword (file.currentPos + n) ∧ post.length = newClusters v n)
    (h : WriteReadsBack v file d i buffer n) : WritesAll v file d n := by
  obtain ⟨v', file', ret, hwrite, hback⟩ := h
  have hcs : 0 < v.clusterSize := Nat.lt_of_lt_of_le (by decide) hok.cluster_size
  have hsize1 : v1.clusterSize = v.clusterSize := by rw [hr.same]
  have hsize32 : file.entry.fileSize < 2 ^ 32 := load32_lt _ _
  have hdefined : Fits v.clusterSize file.currentPos (file.currentPos % v.clusterSize) n ∧
      (file.currentPos / v.clusterSize + 1) * v.clusterSize < 2 ^ 31 := by
    refine Classical.byContradiction fun hnot => ?_
    rw [← hsize1] at hnot hcs
    rw [fatWrite, hrw, rwFrom_undefined hcs hnot] at hwrite
    contradiction
  obtain ⟨hfits, hlimit⟩ := hdefined
  obtain ⟨v2, hw, hfrom⟩ := rwFrom_write hr hcs hfits hlimit buffer rfl
  have hentries : v2.entryAt d i = file.entry :=
    (hr.entries hw.same hw.others hok.toChains ho.dir ho.live ho.isFile ho.dir).trans ho.entry.symm
  have hslots2 : v2.slots = v.slots := by rw [Volume.slots, hw.same, hr.same, Volume.slots]
  generalize hmoved : min n ((post.length + 1) * v.clusterSize - file.currentPos % v.clusterSize) =
    moved at hfrom
  by_cases hpos : file.currentPos + moved < 2 ^ 31
  case neg =>
    rw [if_neg hpos] at hfrom
    rw [fatWrite, hrw, hfrom] at hwrite
    contradiction
  rw [if_pos hpos] at hfrom
  rw [fatWrite_of_rw (hrw.trans hfrom)] at hwrite
  dsimp only at hwrite
  have hle : moved ≤ n := hmoved ▸ Nat.min_le_left _ _
  by_cases hlt : file.entry.fileSize < file.currentPos + moved
  · rw [if_pos hlt] at hwrite
    cases hd : d with
    | root =>
      subst hd
      obtain ⟨hkept, hret⟩ := fatSetFileSize_root v2
        { file with currentPos := file.currentPos + moved } ho.index (Nat.ne_of_lt hlt) hwrite
      have hrecorded := (hback hret).recorded
      rw [hkept, hentries] at hrecorded
      omega
    | cluster b =>
      subst hd
      obtain ⟨block, hset, -⟩ := fatSetFileSize_sub v2
        { file with currentPos := file.currentPos + moved } ho.index (ho.cluster b rfl)
        (hslots2 ▸ ho.live.1) (Nat.ne_of_lt hlt)
      obtain ⟨-, rfl, hret⟩ : _ = v' ∧ _ = file' ∧ SUCCESS = ret := by simpa using hset.symm.trans hwrite
      have hsize := (hback hret.symm).size
      dsimp only at hsize
      rw [FatEntry.fileSize_setFileSize (by omega)] at hsize
      have hall : moved = n := by omega
      subst hall
      refine ⟨hpos, hlimit, hfits, .inr ⟨fun heq => by contradiction, ?_⟩⟩
      rcases hgrow with ⟨-, -, hdword⟩ | ⟨-, hlen⟩
      · rw [dword, Nat.mod_eq_of_lt (by omega)] at hdword
        omega
      · rw [← hlen]
        have := Nat.mod_lt file.currentPos hcs
        omega
  · rw [if_neg hlt] at hwrite
    obtain ⟨-, rfl, hret⟩ : v2 = v' ∧ _ = file' ∧ SUCCESS = ret := by simpa using hwrite
    have hsize := (hback hret.symm).size
    dsimp only at hsize
    have hend : file.currentPos + n ≤ file.entry.fileSize := by omega
    rcases hgrow with ⟨-, hchain, -⟩ | ⟨hdword, -⟩
    · have hroom := ho.room hok hn hchain hpre hend
      exact ⟨by omega, hlimit, hfits, .inl hend⟩
    · rw [dword, Nat.mod_eq_of_lt (by omega)] at hdword
      omega

theorem WriteReadsBack.writesAll (h : WriteReadsBack v file d i buffer n) (ho : Opened v file d i)
    (hok : ChainsOk v chain) (hn : 0 < n ∧ n < 2 ^ 32) (hnot : ¬ Fails v file n) : WritesAll v file d n := by
  rcases fatRw_write ho hok hn buffer with ⟨hfails, -⟩ | ⟨-, v1, cluster, pre, post, hr, hpre, hrw, hgrow⟩
  · exact absurd hfails hnot
  · exact readsBack_writesAll ho hok hn.1 hr hpre hrw hgrow h

/-- A write that succeeds is read back, and changes nothing else, just when all of it is written. -/
theorem fatWrite_readsBack_iff (ho : Opened v file d i) (hok : ChainsOk v chain) (hn : 0 < n ∧ n < 2 ^ 32)
    (buffer : Mem) : WriteReadsBack v file d i buffer n ↔ Fails v file n ∨ WritesAll v file d n := by
  constructor
  · intro h
    by_cases hfails : Fails v file n
    · exact .inl hfails
    · exact .inr (h.writesAll ho hok hn hfails)
  · intro h
    rcases fatRw_write ho hok hn buffer with ⟨-, v', hwrite⟩ | ⟨hnot, v1, cluster, pre, post, hr,
      hpre, hrw, hgrow⟩
    · refine ⟨v', file, FAIL, hwrite, fun hret => ?_⟩
      contradiction
    · exact writesAll_readsBack ho hok hn.1 hr hpre hrw hgrow (h.resolve_left hnot)

/-- Five bytes are written to the empty file `E` and read back. -/
theorem smallVolume_readsBack_E : WriteReadsBack smallVolume openedE (.cluster 2) 1 (fun _ => 0x58) 5 :=
  (fatWrite_readsBack_iff smallVolume_opened_E smallVolume_chains (by decide) _).mpr
    (.inr ⟨by decide, by decide, .inl (by decide), .inr ⟨by decide, by decide⟩⟩)

/-- 2049 bytes need five clusters, and the loop links three after the first. -/
theorem smallVolume_short_E :
    ¬ ∀ v file d i chain buffer n, Opened v file d i → ChainsOk v chain → 0 < n ∧ n < 2 ^ 32 →
      WriteReadsBack v file d i buffer n := by
  intro h
  have hnot : ¬ Fails smallVolume openedE 2049 := by
    rintro (hwalk | ⟨-, hfew⟩)
    · contradiction
    · revert hfew
      decide
  have hback := h smallVolume openedE (.cluster 2) 1 smallChain (fun _ => 0x58) 2049 smallVolume_opened_E
    smallVolume_chains (by decide)
  obtain ⟨-, -, -, hend | ⟨-, hroom⟩⟩ := hback.writesAll smallVolume_opened_E smallVolume_chains
    (by decide) hnot
  · revert hend
    decide
  · revert hroom
    decide

end SystemProjects.Fat
