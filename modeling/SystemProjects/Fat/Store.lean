import SystemProjects.Fat.Cursor
import SystemProjects.Fat.Integrity

/-!
# Open files as lists of bytes

Any number of files are open on one volume. Where the loop splits the transfers right and the clusters do not run out,
they are lists of bytes, each with a position.
-/

open SystemProjects.Memory SystemProjects.Blocks SystemProjects.Run

namespace SystemProjects.Fat

/-! ## Lists of bytes -/

structure ByteFile where
  bytes : List Byte
  pos : Nat

/-- The list with `data` in place of what is at `pos`, and longer if need be. -/
def overwrite (l : List Byte) (pos : Nat) (data : List Byte) : List Byte :=
    l.take pos ++ (data ++ l.drop (pos + data.length))

def bufferBytes (buffer : Mem) (n : Nat) : List Byte := (List.range n).map buffer

namespace ByteFile

def read (f : ByteFile) (n : Nat) : ByteFile × Int × List Byte :=
  let data := (f.bytes.drop f.pos).take n
  ({ f with pos := f.pos + data.length }, data.length, data)

def write (f : ByteFile) (data : List Byte) : ByteFile × Int × List Byte :=
  (⟨overwrite f.bytes f.pos data, f.pos + data.length⟩, SUCCESS, [])

/-- A position beyond the end, or that is negative as an `int`, is not taken. -/
def moveTo (f : ByteFile) (target : Nat) : ByteFile :=
  if target ≤ f.bytes.length ∧ target < 2 ^ 31 then { f with pos := target } else f

def seek (f : ByteFile) (offset : Nat) (origin : Origin) : ByteFile × Int × List Byte :=
  let moved (target : Nat) : ByteFile × Int × List Byte := (f.moveTo target, (f.moveTo target).pos, [])
  match origin with
  | .start => moved (dword offset)
  | .current => moved (dword (f.pos + offset))
  | .fileEnd => moved (dword (2 ^ 32 + f.bytes.length - dword offset))
  | .other => (f, FAIL, [])

def step (f : ByteFile) : HandleOp → ByteFile × Int × List Byte
  | .read _ n => f.read (dword n)
  | .write buffer n => f.write (bufferBytes buffer (dword n))
  | .seek offset origin => f.seek offset origin

end ByteFile

variable {ι : Type} [DecidableEq ι]

def bytesStep (files : ι → ByteFile) (a : ι × HandleOp) : (ι → ByteFile) × Int × List Byte :=
  let (f, out) := (files a.1).step a.2
  (fun h => if h = a.1 then f else files h, out)

/-! ## Open files -/

structure Files (ι : Type) where
  volume : Volume
  file : ι → FatFile

def Files.put (s : Files ι) (h : ι) (v : Volume) (file : FatFile) : Files ι :=
  ⟨v, fun h' => if h' = h then file else s.file h'⟩

/-- What a call returns and, for a read, the bytes that it has read. -/
def filesStep (s : Files ι) : ι × HandleOp → Option (Files ι × Int × List Byte)
  | (h, .read buffer n) => (fatRead s.volume (s.file h) buffer (dword n)).map fun (v, file, buffer, ret) =>
    (s.put h v file, ret, bufferBytes buffer ret.toNat)
  | (h, .write buffer n) => (fatWrite s.volume (s.file h) buffer (dword n)).map fun (v, file, ret) =>
    (s.put h v file, ret, [])
  | (h, .seek offset origin) =>
    let (file, ret) := fatSeek (s.file h) (dword offset) origin
    some (s.put h s.volume file, ret, [])

/-! ## What is claimed -/

/-- The file is open at its entry and holds the bytes. -/
structure Holds (v : Volume) (file : FatFile) (d : Dir) (i : Nat) (f : ByteFile) : Prop where
  opened : Opened v file d i
  size : file.entry.fileSize = f.bytes.length
  pos : file.currentPos = f.pos
  bytes : ∀ a < f.bytes.length, fileByte v file.entry.startCluster a = f.bytes[a]?

/-- The chains are well formed, and the files are at different entries. -/
structure Represents (loc : ι → Dir × Nat) (s : Files ι) (files : ι → ByteFile) : Prop where
  chains : ∃ chain, ChainsOk s.volume chain
  one : s.volume.fat 1 ≠ fatFreecluster
  apart : ∀ h h', h ≠ h' → loc h ≠ loc h'
  holds : ∀ h, Holds s.volume (s.file h) (loc h).1 (loc h).2 (files h)

/-- The position is in the chain, no sum wraps around, and the loop splits the transfer right. -/
structure ReadsWell (v : Volume) (file : FatFile) (n : Nat) : Prop where
  inside : walkChain v.fat (file.currentPos / v.clusterSize) file.entry.startCluster ≠ none
  sum : file.currentPos + n < 2 ^ 32
  last : file.currentPos + min n (file.entry.fileSize - file.currentPos) < 2 ^ 31
  limit : (file.currentPos / v.clusterSize + 1) * v.clusterSize < 2 ^ 31
  fits : Fits v.clusterSize file.currentPos (file.currentPos % v.clusterSize)
    (min n (file.entry.fileSize - file.currentPos))

instance (v : Volume) (file : FatFile) (n : Nat) : Decidable (Fails v file n) :=
    inferInstanceAs (Decidable (_ ∨ _))

/-- The file has a cluster, the clusters do not run out, and all is written. -/
structure WritesWell (v : Volume) (file : FatFile) (d : Dir) (n : Nat) : Prop where
  some : 0 < n
  start : file.entry.startCluster ≠ 0
  room : ¬ Fails v file n
  all : WritesAll v file d n

def Well (loc : ι → Dir × Nat) (s : Files ι) : ι × HandleOp → Prop
  | (h, .read _ n) => ReadsWell s.volume (s.file h) (dword n)
  | (h, .write _ n) => WritesWell s.volume (s.file h) (loc h).1 (dword n)
  | (_, .seek _ _) => True

variable {v v' v1 v2 : Volume} {d d' : Dir} {i j n a : Nat} {start cluster : Int} {pre post : List Int}
  {chain : Dir → Nat → List Int} {file file' : FatFile} {buffer : Mem} {f : ByteFile} {l data : List Byte}

/-! ## Lists -/

theorem overwrite_length (hp : n ≤ l.length) :
    (overwrite l n data).length = max l.length (n + data.length) := by
  simp only [overwrite, List.length_append, List.length_take, List.length_drop]
  omega

theorem overwrite_getElem? (hp : n ≤ l.length) (a : Nat) : (overwrite l n data)[a]? =
    if n ≤ a ∧ a < n + data.length then data[a - n]? else l[a]? := by
  unfold overwrite
  by_cases hlow : a < n
  · rw [if_neg (by omega), List.getElem?_append_left (by simp; omega), List.getElem?_take_of_lt hlow]
  · rw [List.getElem?_append_right (by simp; omega), List.length_take, Nat.min_eq_left hp]
    by_cases hhigh : a < n + data.length
    · rw [if_pos ⟨by omega, hhigh⟩, List.getElem?_append_left (by omega)]
    · rw [if_neg (by omega), List.getElem?_append_right (by omega), List.getElem?_drop]
      congr 1
      omega

@[simp] theorem bufferBytes_length (buffer : Mem) (n : Nat) : (bufferBytes buffer n).length = n := by
  simp [bufferBytes]

theorem bufferBytes_getElem? (buffer : Mem) (h : a < n) : (bufferBytes buffer n)[a]? = some (buffer a) := by
  simp [bufferBytes, h]

/-! ## Directories that are the same -/

/-- No name, start cluster or kind has changed. -/
structure SameTree (v v' : Volume) : Prop where
  slots : v'.dirSlots = v.dirSlots
  name0 : ∀ d j, IsDir v d → (v'.entryAt d j).name0 = (v.entryAt d j).name0
  startCluster : ∀ d j, IsDir v d → (v'.entryAt d j).startCluster = (v.entryAt d j).startCluster
  directory : ∀ d j, IsDir v d → (v'.entryAt d j).directory = (v.entryAt d j).directory

theorem SameTree.live (h : SameTree v v') (hdir : IsDir v d) : Live v' d j ↔ Live v d j := by
  unfold Live
  rw [h.slots, h.name0 d j hdir]
  simp only [h.name0 d _ hdir]

theorem SameTree.isDir (h : SameTree v v') : IsDir v' d ↔ IsDir v d := by
  constructor
  · intro hdir
    induction hdir with
    | root => exact .root
    | sub _ hlive hdirectory ih =>
      rw [h.startCluster _ _ ih]
      rw [h.directory _ _ ih] at hdirectory
      exact .sub ih ((h.live ih).mp hlive) hdirectory
  · intro hdir
    induction hdir with
    | root => exact .root
    | sub hdir hlive hdirectory ih =>
      rw [← h.startCluster _ _ hdir]
      rw [← h.directory _ _ hdir] at hdirectory
      exact .sub ih ((h.live hdir).mpr hlive) hdirectory

theorem SameTree.kept (h : SameTree v v') : Kept v v' := fun d j hdir hlive =>
  ⟨(h.live hdir).mp hlive, h.startCluster d j hdir, h.directory d j hdir⟩

theorem sameTree_of_entries (hslots : v'.dirSlots = v.dirSlots)
    (h : ∀ d j, IsDir v d → v'.entryAt d j = v.entryAt d j) :
    SameTree v v' :=
  ⟨hslots, fun d j hdir => by rw [h d j hdir], fun d j hdir => by rw [h d j hdir], fun d j hdir => by rw [h d j hdir]⟩

theorem SameTree.replaced {e : FatEntry} (h : SameTree v v1) (hr : Replaced v1 v' d i e)
    (hname : e.name0 = (v.entryAt d i).name0) (hstart : e.startCluster = (v.entryAt d i).startCluster)
    (hkind : e.directory = (v.entryAt d i).directory) :
    SameTree v v' := by
  have hcases : ∀ d' j, (v'.entryAt d' j = e.copy ∧ d' = d ∧ j = i) ∨ v'.entryAt d' j = v1.entryAt d' j := by
    intro d' j
    by_cases heq : (d', j) = (d, i)
    · obtain ⟨rfl, rfl⟩ := Prod.mk.inj heq
      exact .inl ⟨hr.entry, rfl, rfl⟩
    · exact .inr (hr.others d' j heq)
  refine ⟨hr.slots.trans h.slots, fun d' j hdir => ?_, fun d' j hdir => ?_, fun d' j hdir => ?_⟩
  · rcases hcases d' j with ⟨heq, rfl, rfl⟩ | heq
    · rw [heq, FatEntry.name0_copy, hname]
    · rw [heq, h.name0 d' j hdir]
  · rcases hcases d' j with ⟨heq, rfl, rfl⟩ | heq
    · rw [heq, FatEntry.startCluster_copy, hstart]
    · rw [heq, h.startCluster d' j hdir]
  · rcases hcases d' j with ⟨heq, rfl, rfl⟩ | heq
    · rw [heq, FatEntry.directory_copy, hkind]
    · rw [heq, h.directory d' j hdir]

/-! ## Writes -/

theorem freeClusters_two {c : Int} (hzero : v.fat 0 ≠ fatFreecluster) (hone : v.fat 1 ≠ fatFreecluster)
    (hc : c ∈ freeClusters v) : 2 ≤ c := by
  obtain ⟨⟨k, -, rfl⟩, hfree⟩ := mem_freeClusters.mp hc
  have hk0 : k ≠ 0 := by
    rintro rfl
    exact hzero hfree
  have hk1 : k ≠ 1 := by
    rintro rfl
    exact hone hfree
  omega

theorem write_ready (ho : Opened v file d i) (hok : ChainsOk v chain) (hone : v.fat 1 ≠ fatFreecluster)
    (hw : WritesWell v file d n) (buffer : Mem) :
    ∃ v1 cluster pre post, Ready v v1 file.entry.startCluster cluster pre post (chain d i) ∧
      (∀ c ∈ pre ++ cluster :: post, 2 ≤ c) ∧ pre.length = file.currentPos / v.clusterSize ∧
      fatRw .write v file buffer n = rwFrom .write v1 file buffer cluster n ∧
      (v1 = v ∧ chain d i = pre ++ cluster :: post ∧ file.currentPos + n ≤ file.entry.fileSize ∨
        file.entry.fileSize < file.currentPos + n ∧ post.length = newClusters v n) := by
  obtain ⟨hchain, htwo⟩ := (hok.own d i ho.dir ho.live).resolve_left fun hnone =>
    hw.start (ho.entry ▸ hnone.1)
  rw [← ho.entry] at hchain
  have hdword : dword (file.currentPos + n) = file.currentPos + n :=
    Nat.mod_eq_of_lt (Nat.lt_trans hw.all.1 (by decide))
  obtain ⟨hfails, hroom⟩ := not_or.mp hw.room
  obtain ⟨cluster, hwalk⟩ := Option.ne_none_iff_exists'.mp hfails
  obtain ⟨pre, post, hpre, hsplit⟩ := hchain.cluster_at hwalk
  rw [hsplit] at hchain htwo
  by_cases hgrow : file.entry.fileSize < dword (file.currentPos + n)
  · have henough : newClusters v n ≤ (freeClusters v).length :=
      Nat.le_of_not_lt fun hfew => hroom ⟨hgrow, hfew⟩
    obtain ⟨v1, hgrown, hrw⟩ := fatRw_grow buffer hwalk hgrow (hchain.fat_ne_free (by simp)) hok.reserved
      (hchain.links.ne_end (by simp)) henough
    refine ⟨v1, cluster, pre, (freeClusters v).take (newClusters v n), ?_, fun c hc => ?_, hpre, hrw,
      .inr ⟨hdword ▸ hgrow, ?_⟩⟩
    · rw [hsplit]
      exact ready_grown hchain hgrown fun c hc => fat_of_mem_take hc
    · simp only [List.mem_append, List.mem_cons] at hc
      rcases hc with hc | rfl | hc
      · exact htwo c (by simp [hc])
      · exact htwo c (by simp)
      · exact freeClusters_two hok.reserved hone (List.mem_of_mem_take hc)
    · rw [List.length_take]
      omega
  · refine ⟨v, cluster, pre, post, ?_, htwo, hpre, fatRw_same buffer hwalk hgrow, .inl ⟨rfl, hsplit, ?_⟩⟩
    · rw [hsplit]
      exact ready_same hchain
    · rw [hdword] at hgrow
      exact Nat.le_of_not_lt hgrow

theorem FatEntry.copy_apply_zero {e : FatEntry} {x : Nat} (hx : entrySize ≤ x) : e.copy x = 0 :=
  if_neg (by omega)

theorem FatEntry.copy_setFileSize (e : FatEntry) (size : Nat) :
    (e.copy.setFileSize size).copy = e.copy.setFileSize size := by
  funext x
  by_cases hx : x < entrySize
  · exact copy_apply hx
  · have hle : entrySize ≤ x := Nat.le_of_not_lt hx
    rw [copy_apply_zero hle, setFileSize, store32_other, copy_apply_zero hle]
    unfold entrySize at hle
    omega

theorem room_for_all (ho : Opened v file d i) (hok : ChainsOk v chain)
    (hpre : pre.length = file.currentPos / v.clusterSize)
    (hroom : n ≤ (post.length + 1) * v.clusterSize - file.currentPos % v.clusterSize)
    (hgrow : v1 = v ∧ chain d i = pre ++ cluster :: post ∨ file.entry.fileSize ≤ file.currentPos + n) :
    max file.entry.fileSize (file.currentPos + n) ≤ (pre ++ cluster :: post).length * v.clusterSize := by
  have hcs : 0 < v.clusterSize := Nat.lt_of_lt_of_le (by decide) hok.cluster_size
  have hsplit : pre.length * v.clusterSize + file.currentPos % v.clusterSize = file.currentPos := by
    rw [hpre, Nat.mul_comm]
    exact Nat.div_add_mod _ _
  have hoff := Nat.mod_lt file.currentPos hcs
  have hone : v.clusterSize ≤ (post.length + 1) * v.clusterSize := Nat.le_mul_of_pos_left _ (Nat.succ_pos _)
  have hlength : (pre ++ cluster :: post).length * v.clusterSize =
      pre.length * v.clusterSize + (post.length + 1) * v.clusterSize := by
    rw [List.length_append, List.length_cons, Nat.add_mul]
  have hend : file.currentPos + n ≤ (pre ++ cluster :: post).length * v.clusterSize := by
    rw [hlength]
    omega
  refine Nat.max_le.mpr ⟨?_, hend⟩
  rcases hgrow with ⟨-, hchain⟩ | hgrow
  · have hlong := hok.long d i ho.dir ho.live
    rwa [← ho.entry, hchain] at hlong
  · exact Nat.le_trans hgrow hend

/-- What a write that goes well leaves. -/
structure Stored (v v' : Volume) (file file' : FatFile) (d : Dir) (i : Nat) (clusters : List Int)
    (buffer : Mem) (n : Nat) :
    Prop where
  written : Written v v' d file.entry.startCluster clusters file.currentPos buffer n
  two : ∀ c ∈ clusters, 2 ≤ c
  tree : SameTree v v'
  others : ∀ d' j, IsDir v d' → (d', j) ≠ (d, i) → v'.entryAt d' j = v.entryAt d' j
  own : v'.entryAt d i = file'.entry
  start : file'.entry.startCluster = file.entry.startCluster
  isFile : file'.entry.directory = file.entry.directory
  size : file'.entry.fileSize = max file.entry.fileSize (file.currentPos + n)
  index : file'.dirIndex = file.dirIndex
  cluster : file'.dirCluster = file.dirCluster
  pos : file'.currentPos = file.currentPos + n

theorem write_stored (ho : Opened v file d i) (hok : ChainsOk v chain) (hone : v.fat 1 ≠ fatFreecluster)
    (hw : WritesWell v file d n) (buffer : Mem) : ∃ v1 v' file' cluster pre post,
      fatWrite v file buffer n = some (v', file', SUCCESS) ∧
      Ready v v1 file.entry.startCluster cluster pre post (chain d i) ∧
        pre.length = file.currentPos / v.clusterSize ∧
      n ≤ (post.length + 1) * v.clusterSize - file.currentPos % v.clusterSize ∧
      (v1 = v ∧ chain d i = pre ++ cluster :: post ∨ file.entry.fileSize ≤ file.currentPos + n) ∧
      Stored v v' file file' d i (pre ++ cluster :: post) buffer n := by
  obtain ⟨v1, cluster, pre, post, hr, htwo, hpre, hrw, hgrow⟩ := write_ready ho hok hone hw buffer
  obtain ⟨hpos, hlimit, hfits, hsize⟩ := hw.all
  have hcs : 0 < v.clusterSize := Nat.lt_of_lt_of_le (by decide) hok.cluster_size
  have hroom : n ≤ (post.length + 1) * v.clusterSize - file.currentPos % v.clusterSize := by
    rcases hgrow with ⟨-, hchain, hle⟩ | ⟨hlt, hlen⟩
    · exact ho.room hok hw.some hchain hpre hle
    · rw [hlen]
      omega
  have hchain : v1 = v ∧ chain d i = pre ++ cluster :: post ∨ file.entry.fileSize ≤ file.currentPos + n := by
    rcases hgrow with ⟨hsame, hchain, -⟩ | ⟨hlt, -⟩
    · exact .inl ⟨hsame, hchain⟩
    · exact .inr (Nat.le_of_lt hlt)
  obtain ⟨v2, hwrote, hfrom⟩ := rwFrom_write hr hcs hfits hlimit buffer (Nat.min_eq_left hroom).symm
  rw [if_pos hpos] at hfrom
  have hwritten : Written v v2 d file.entry.startCluster (pre ++ cluster :: post) file.currentPos buffer n :=
    hr.written hcs hpre hwrote
  have hentries : ∀ d' j, IsDir v d' → v2.entryAt d' j = v.entryAt d' j := fun d' j hdir =>
    hr.entries hwrote.same hwrote.others hok.toChains ho.dir ho.live ho.isFile hdir
  have hslots : v2.dirSlots = v.dirSlots := by
    rw [hwrote.same, hr.same]
    rfl
  have hwrite := fatWrite_of_rw (hrw.trans hfrom)
  dsimp only at hwrite
  by_cases hle : file.currentPos + n ≤ file.entry.fileSize
  · rw [if_neg (by omega)] at hwrite
    refine ⟨v1, v2, _, cluster, pre, post, hwrite, hr, hpre, hroom, hchain, hwritten, htwo, ?_,
      fun d' j hdir _ => hentries d' j hdir, (hentries d i ho.dir).trans ho.entry.symm, rfl, rfl,
        (Nat.max_eq_left hle).symm, rfl, rfl, rfl⟩
    exact sameTree_of_entries hslots hentries
  · have hlt : file.entry.fileSize < file.currentPos + n := Nat.lt_of_not_le hle
    rw [if_pos hlt] at hwrite
    cases d with
    | root => exact absurd rfl (hsize.resolve_left hle).1
    | cluster b =>
      have hb := hr.directory hok.toChains ho.dir ho.live ho.isFile ho.dir
      have hslot : i < v2.slots := by
        rw [Volume.slots, hwritten.clusterSize]
        exact ho.live.1
      obtain ⟨block, hset, hreplaced⟩ := fatSetFileSize_sub v2
        { file with currentPos := file.currentPos + n } ho.index (ho.cluster b rfl) hslot (Nat.ne_of_lt hlt)
      refine ⟨v1, _, _, cluster, pre, post, hwrite.trans hset, hr, hpre, hroom, hchain,
        hwritten.setData hb hcs block, htwo,
        ?_, ?_, ?_, FatEntry.startCluster_setFileSize, FatEntry.directory_setFileSize, ?_, rfl, rfl, rfl⟩
      · apply (sameTree_of_entries hslots hentries).replaced hreplaced
        · rw [FatEntry.name0_setFileSize, ho.entry]
        · rw [FatEntry.startCluster_setFileSize, ho.entry]
        · rw [FatEntry.directory_setFileSize, ho.entry]
      · intro d' j hdir hne
        rw [hreplaced.others d' j hne, hentries d' j hdir]
      · rw [hreplaced.entry, ho.entry]
        exact FatEntry.copy_setFileSize _ _
      · rw [FatEntry.fileSize_setFileSize (by omega), Nat.max_eq_right (Nat.le_of_lt hlt)]

section

variable {clusters : List Int}

theorem Stored.chainsOk (h : Stored v v' file file' d i (pre ++ cluster :: post) buffer n)
    (hr : Ready v v1 file.entry.startCluster cluster pre post (chain d i)) (ho : Opened v file d i)
    (hok : ChainsOk v chain) (hpre : pre.length = file.currentPos / v.clusterSize)
    (hroom : n ≤ (post.length + 1) * v.clusterSize - file.currentPos % v.clusterSize)
    (hgrow : v1 = v ∧ chain d i = pre ++ cluster :: post ∨ file.entry.fileSize ≤ file.currentPos + n) :
    ChainsOk v' (setChain chain d i (pre ++ cluster :: post)) := by
  have hapart : ∀ d' j, IsDir v d' → Live v d' j → (d', j) ≠ (d, i) → ∀ c ∈ chain d' j,
    c ∉ pre ++ cluster :: post :=
    fun d' j hdir hlive hne c hc => hr.apart hok.toChains ho.dir ho.live hdir hlive hne hc
  have hchains : Chains v' (setChain chain d i (pre ++ cluster :: post)) := by
    refine hok.toChains.set (fun d' j hdir hlive _ => ?_) ?_ hapart h.written.fat
    · have hdir' := h.tree.isDir.mp hdir
      exact ⟨hdir', h.tree.kept d' j hdir' hlive⟩
    · rw [h.own, HasChain, h.start]
      exact .inr ⟨h.written.chain, h.two⟩
  refine ⟨hchains, ?_, ?_, fun d' j hdir hlive => ?_⟩
  · rw [h.written.clusterSize]
    exact hok.cluster_size
  · rw [h.written.fat 0 fun hin => absurd (h.two 0 hin) (by decide)]
    exact hok.reserved
  · rw [h.written.clusterSize]
    by_cases heq : (d', j) = (d, i)
    · obtain ⟨rfl, rfl⟩ := Prod.mk.inj heq
      rw [h.own, h.size, setChain_self]
      exact room_for_all ho hok hpre hroom hgrow
    · rw [setChain_other heq, h.others d' j (h.tree.isDir.mp hdir) heq]
      exact hok.long d' j (h.tree.isDir.mp hdir) ((h.tree.live (h.tree.isDir.mp hdir)).mp hlive)

theorem Stored.opened (h : Stored v v' file file' d i clusters buffer n) (ho : Opened v file d i)
    (hpos : file.currentPos + n < 2 ^ 31) : Opened v' file' d i where
  dir := h.tree.isDir.mpr ho.dir
  live := (h.tree.live ho.dir).mpr ho.live
  isFile := (h.tree.directory d i ho.dir).trans ho.isFile
  entry := h.own.symm
  index := h.index.trans ho.index
  cluster c hc := h.cluster.trans (ho.cluster c hc)
  pos_le := by
    rw [h.pos, h.size]
    exact Nat.le_max_right _ _
  pos_lt := by
    rw [h.pos]
    exact hpos

theorem Stored.opened_other (h : Stored v v' file file' d i clusters buffer n) {file2 : FatFile}
    (ho : Opened v file2 d' j)
    (hne : (d', j) ≠ (d, i)) : Opened v' file2 d' j where
  dir := h.tree.isDir.mpr ho.dir
  live := (h.tree.live ho.dir).mpr ho.live
  isFile := (h.tree.directory d' j ho.dir).trans ho.isFile
  entry := ho.entry.trans (h.others d' j ho.dir hne).symm
  index := ho.index
  cluster := ho.cluster
  pos_le := ho.pos_le
  pos_lt := ho.pos_lt

theorem Stored.holds (h : Stored v v' file file' d i (pre ++ cluster :: post) buffer n)
    (hr : Ready v v1 file.entry.startCluster cluster pre post (chain d i)) (hok : ChainsOk v chain)
    (hpre : pre.length = file.currentPos / v.clusterSize)
    (hroom : n ≤ (post.length + 1) * v.clusterSize - file.currentPos % v.clusterSize)
    (hgrow : v1 = v ∧ chain d i = pre ++ cluster :: post ∨ file.entry.fileSize ≤ file.currentPos + n)
    (hf : Holds v file d i f) (hpos : file.currentPos + n < 2 ^ 31) :
    Holds v' file' d i (f.write (bufferBytes buffer n)).1 := by
  have hcs : 0 < v.clusterSize := Nat.lt_of_lt_of_le (by decide) hok.cluster_size
  have hall := room_for_all hf.opened hok hpre hroom hgrow
  have hle : f.pos ≤ f.bytes.length := hf.pos ▸ hf.size ▸ hf.opened.pos_le
  rw [ByteFile.write, bufferBytes_length]
  refine ⟨h.opened hf.opened hpos, ?_, ?_, fun a ha => ?_⟩
  · rw [h.size, overwrite_length hle, bufferBytes_length, hf.size, hf.pos]
  · rw [h.pos, hf.pos]
  · rw [overwrite_length hle, bufferBytes_length] at ha
    rw [overwrite_getElem? hle, bufferBytes_length, h.start]
    rw [hf.size, hf.pos] at hall
    split
    case isTrue hin =>
      rw [h.written.fileByte hcs (by omega), hf.pos, if_pos hin, bufferBytes_getElem? buffer (by omega)]
    case isFalse hout =>
      have hold : a < file.entry.fileSize := by
        rw [hf.size]
        omega
      rw [h.written.own hr hok hf.opened hcs hpre hgrow hold (by rw [hf.pos]; omega) n.le_refl]
      exact hf.bytes a (hf.size ▸ hold)

theorem Stored.holds_other (h : Stored v v' file file' d i (pre ++ cluster :: post) buffer n)
    (hr : Ready v v1 file.entry.startCluster cluster pre post (chain d i)) (hok : ChainsOk v chain)
    (ho : Opened v file d i)
    {file2 : FatFile} (hf : Holds v file2 d' j f) (hne : (d', j) ≠ (d, i)) : Holds v' file2 d' j f := by
  have hcs : 0 < v.clusterSize := Nat.lt_of_lt_of_le (by decide) hok.cluster_size
  refine ⟨h.opened_other hf.opened hne, hf.size, hf.pos, fun a ha => ?_⟩
  rw [← hf.bytes a ha]
  have hfile := hf.opened.isFile
  have hsize := hf.size
  rw [hf.opened.entry] at hsize ⊢
  exact h.written.other hr hok ho hcs hf.opened.dir hf.opened.live hne hfile (hsize ▸ ha)

/-! ## Every run -/

variable {loc : ι → Dir × Nat} {s s' : Files ι} {files : ι → ByteFile} {h : ι}

theorem Represents.write (hs : Represents loc s files)
    (hw : WritesWell s.volume (s.file h) (loc h).1 n) (buffer : Mem) :
    ∃ v file, fatWrite s.volume (s.file h) buffer n = some (v, file, SUCCESS) ∧
      Represents loc (s.put h v file) fun h' =>
        if h' = h then ((files h).write (bufferBytes buffer n)).1 else files h' := by
  obtain ⟨chain, hok⟩ := hs.chains
  have hf := hs.holds h
  obtain ⟨v1, v', file', cluster, pre, post, hwrite, hr, hpre, hroom, hgrow, hstored⟩ :=
    write_stored hf.opened hok hs.one hw buffer
  refine ⟨v', file', hwrite, ⟨_, hstored.chainsOk hr hf.opened hok hpre hroom hgrow⟩, ?_, hs.apart,
    fun h' => ?_⟩
  · rw [Files.put, hstored.written.fat 1 fun hin => absurd (hstored.two 1 hin) (by decide)]
    exact hs.one
  · by_cases hh : h' = h
    · subst hh
      simp only [Files.put, if_pos]
      exact hstored.holds hr hok hpre hroom hgrow hf hw.all.1
    · simp only [Files.put, if_neg hh]
      exact hstored.holds_other hr hok hf.opened (hs.holds h') (hs.apart h' h hh)

theorem Holds.move (hf : Holds v file d i f) {pos : Nat} (hle : pos ≤ f.bytes.length) (hlt : pos < 2 ^ 31) :
    Holds v { file with currentPos := pos } d i { f with pos := pos } where
  opened := { hf.opened with
    pos_le := hf.size ▸ hle
    pos_lt := hlt }
  size := hf.size
  pos := rfl
  bytes := hf.bytes

theorem Represents.move (hs : Represents loc s files) (hf : Holds s.volume file (loc h).1 (loc h).2 f) :
    Represents loc (s.put h s.volume file) fun h' => if h' = h then f else files h' := by
  refine ⟨hs.chains, hs.one, hs.apart, fun h' => ?_⟩
  by_cases hh : h' = h
  · subst hh
    simpa only [Files.put, if_pos] using hf
  · simpa only [Files.put, if_neg hh] using hs.holds h'

theorem fatRead_end (hend : file.currentPos = file.entry.fileSize) (hr : ReadsWell v file n)
    (hcs : 0 < v.clusterSize)
    (buffer : Mem) : ∃ buffer', fatRead v file buffer n = some (v, file, buffer', 0) := by
  obtain ⟨cluster, hwalk⟩ := Option.ne_none_iff_exists'.mp hr.inside
  have hlast := hr.last
  have hsum := hr.sum
  have hnone : dword (2 ^ 32 + file.entry.fileSize - file.currentPos) = 0 := by
    rw [hend, Nat.add_sub_cancel]
    rfl
  have hmoved : fatRead v file buffer n = rwFrom .read v file buffer cluster 0 := by
    rw [fatRead, fatRw, fatRwWith, hwalk, hnone]
    dsimp only
    split
    case isTrue => rfl
    case isFalse hle =>
      unfold dword at hle
      obtain rfl : n = 0 := by omega
      rfl
  have hoff := Nat.mod_lt file.currentPos hcs
  rw [hmoved, rwFrom, rwLoop_last hoff (.inr (.inl (Nat.le_of_lt hoff))) hr.limit
    (.inl (Nat.zero_le _)), Nat.zero_min]
  exact ⟨_, if_pos (by omega)⟩

theorem Holds.read (hf : Holds v file d i f) (hok : ChainsOk v chain) (hr : ReadsWell v file n)
    (hn : n < 2 ^ 32) (buffer : Mem) :
    ∃ buffer', fatRead v file buffer n = some
      (v, { file with currentPos := f.pos + ((f.bytes.drop f.pos).take n).length },
        buffer', (((f.bytes.drop f.pos).take n).length : Int)) ∧
      bufferBytes buffer' ((f.bytes.drop f.pos).take n).length = (f.bytes.drop f.pos).take n := by
  have hcs : 0 < v.clusterSize := Nat.lt_of_lt_of_le (by decide) hok.cluster_size
  have hm : ((f.bytes.drop f.pos).take n).length = min n (file.entry.fileSize - file.currentPos) := by
    rw [List.length_take, List.length_drop, hf.size, hf.pos]
  rw [hm, ← hf.pos]
  rcases Nat.lt_or_eq_of_le hf.opened.pos_le with hbefore | hend
  · obtain ⟨hne, hlong⟩ := hf.opened.size_le hok (Nat.lt_of_le_of_lt (Nat.zero_le _) hbefore)
    obtain ⟨hchain, -⟩ := (hok.own d i hf.opened.dir hf.opened.live).resolve_left fun hnone => hne hnone.2.1
    rw [← hf.opened.entry] at hchain
    have hexact : ReadsExactly v file n :=
      (fatRead_exact_iff hchain hlong hcs hbefore hn).mpr ⟨hr.last, hr.limit, .inl ⟨hr.sum, hr.fits⟩⟩
    obtain ⟨buffer', hread, hbytes⟩ := hexact buffer
    refine ⟨buffer', hread, ?_⟩
    apply List.ext_getElem?
    intro x
    by_cases hx : x < min n (file.entry.fileSize - file.currentPos)
    · rw [bufferBytes_getElem? buffer' hx, ← hbytes x hx, List.getElem?_take_of_lt (by omega),
        List.getElem?_drop]
      apply hf.bytes
      rw [← hf.size]
      omega
    · rw [List.getElem?_eq_none, List.getElem?_eq_none]
      · rw [hf.pos, hm]
        exact Nat.le_of_not_lt hx
      · rw [bufferBytes_length]
        exact Nat.le_of_not_lt hx
  · obtain ⟨buffer', hread⟩ := fatRead_end hend hr hcs buffer
    have hzero : min n (file.entry.fileSize - file.currentPos) = 0 := by omega
    rw [hzero] at hm ⊢
    refine ⟨buffer', hread, ?_⟩
    rw [hf.pos, List.eq_nil_of_length_eq_zero hm]
    rfl

theorem Represents.read (hs : Represents loc s files) (hr : ReadsWell s.volume (s.file h) n)
    (hn : n < 2 ^ 32) (buffer : Mem) :
    ∃ file buffer', fatRead s.volume (s.file h) buffer n =
        some (s.volume, file, buffer', ((((files h).bytes.drop (files h).pos).take n).length : Int)) ∧
      bufferBytes buffer' (((files h).bytes.drop (files h).pos).take n).length =
        ((files h).bytes.drop (files h).pos).take n ∧
      Represents loc (s.put h s.volume file) fun h' => if h' = h then ((files h).read n).1 else files h' := by
  obtain ⟨chain, hok⟩ := hs.chains
  have hf := hs.holds h
  obtain ⟨buffer', hread, hbytes⟩ := hf.read hok hr hn buffer
  have hlast := hr.last
  have hbefore := hf.opened.pos_le
  rw [hf.size, hf.pos] at hlast hbefore
  refine ⟨_, buffer', hread, hbytes, hs.move (hf.move ?_ ?_)⟩
  · rw [List.length_take, List.length_drop]
    omega
  · rwa [List.length_take, List.length_drop]

def seekTo (file : FatFile) (target : Nat) : FatFile :=
  if target ≤ file.entry.fileSize ∧ target < 2 ^ 31 then { file with currentPos := target } else file

theorem seekTo_eq (file : FatFile) {target : Nat} (ht : target < 2 ^ 32) :
    (if toInt target > file.entry.fileSize ∨ toInt target < 0 then file
      else { file with currentPos := (toInt target).toNat }) = seekTo file target := by
  unfold seekTo toInt
  by_cases hlt : target < 2 ^ 31
  · rw [if_pos hlt]
    by_cases hle : target ≤ file.entry.fileSize
    · rw [if_neg (by omega), if_pos ⟨hle, hlt⟩, Int.toNat_natCast]
    · rw [if_pos (by omega), if_neg (by omega)]
  · rw [if_neg hlt, if_pos (by omega), if_neg (by omega)]

theorem fatSeek_eq (file : FatFile) (offset : Nat) (origin : Origin) : fatSeek file (dword offset) origin =
    match seekTarget file offset origin with
    | some target => (seekTo file target, ((seekTo file target).currentPos : Int))
    | none => (file, FAIL) := by
  have hlt : ∀ m, dword m < 2 ^ 32 := fun m => Nat.mod_lt _ (by decide)
  have hsum : dword (file.currentPos + dword offset) = dword (file.currentPos + offset) := by
    unfold dword
    omega
  cases origin with
  | start =>
    rw [fatSeek, seekTarget]
    dsimp only
    rw [seekTo_eq file (hlt _)]
  | current =>
    rw [fatSeek, seekTarget, hsum]
    dsimp only
    rw [seekTo_eq file (hlt _)]
  | fileEnd =>
    rw [fatSeek, seekTarget]
    dsimp only
    rw [seekTo_eq file (hlt _)]
  | other => rfl

theorem Holds.sought (hf : Holds v file d i f) (target : Nat) :
    Holds v (seekTo file target) d i (f.moveTo target) := by
  unfold seekTo ByteFile.moveTo
  rw [hf.size]
  split
  case isTrue h => exact hf.move h.1 h.2
  case isFalse => exact hf

theorem Holds.seek (hf : Holds v file d i f) (offset : Nat) (origin : Origin) :
    ((fatSeek file (dword offset) origin).2, []) = (f.seek offset origin).2 ∧
      Holds v (fatSeek file (dword offset) origin).1 d i (f.seek offset origin).1 := by
  have hmoved : ∀ target, (((seekTo file target).currentPos : Int), ([] : List Byte)) =
    (((f.moveTo target).pos : Int), []) :=
    fun target => by rw [(hf.sought target).pos]
  rw [fatSeek_eq]
  cases origin with
  | start => exact ⟨hmoved _, hf.sought _⟩
  | current =>
    rw [seekTarget, hf.pos]
    exact ⟨hmoved _, hf.sought _⟩
  | fileEnd =>
    rw [seekTarget, hf.size]
    exact ⟨hmoved _, hf.sought _⟩
  | other => exact ⟨rfl, hf⟩

theorem filesStep_represents {a : ι × HandleOp} (hs : Represents loc s files) (hop : Well loc s a) :
    ∃ s', filesStep s a = some (s', (bytesStep files a).2) ∧ Represents loc s' (bytesStep files a).1 := by
  obtain ⟨h, op⟩ := a
  cases op with
  | read buffer n =>
    obtain ⟨file, buffer', hread, hbytes, hnext⟩ := hs.read hop (Nat.mod_lt _ (by decide)) buffer
    refine ⟨_, ?_, hnext⟩
    rw [filesStep, hread, Option.map_some]
    dsimp only
    rw [Int.toNat_natCast, hbytes]
    rfl
  | write buffer n =>
    obtain ⟨v, file, hwrite, hnext⟩ := hs.write hop buffer
    refine ⟨_, ?_, hnext⟩
    rw [filesStep, hwrite]
    rfl
  | seek offset origin =>
    obtain ⟨hret, hnext⟩ := (hs.holds h).seek offset origin
    refine ⟨_, ?_, hs.move hnext⟩
    rw [bytesStep, ByteFile.step]
    dsimp only
    rw [← hret]
    rfl

end

end SystemProjects.Fat
