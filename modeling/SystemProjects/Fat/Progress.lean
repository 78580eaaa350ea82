import Mathlib.Algebra.BigOperators.Group.List.Basic
import Mathlib.Algebra.Ring.Int.Defs
import SystemProjects.Fat.Files

/-!
# How far `fat_rw` gets

Only what decides how often its loops go round: the `int`s, the `DWORD`s and the FAT. Differences of
`DWORD`s wrap, and an `int` that overflows has no outcome. What the loop copies is in `rwLoop`.
-/

open SystemProjects.Memory

namespace SystemProjects.Fat

variable {v v1 : Volume} {file : FatFile} {fat : Int → Int}
    {clusterSize pos offset size fileSize fuel k m : Nat}
  {cluster prev last : Int} {mode : Mode}

/-! ## The code -/

/-- An iteration of the transfer loop, with what was left before it. -/
structure Iteration where
  remaining : Nat
  bytes : Int

structure Outcome where
  iterations : List Iteration
  ret : Int
  currentPos : Int

/-- `bytes_to_rw`, in the order in which the code computes it. -/
def intBytesToRw (clusterSize pos offset size : Nat) : Option Int :=
  let bytes : Int := if size > clusterSize then clusterSize else toInt size
  let limit := (pos / clusterSize + 1) * clusterSize
  if limit ≥ 2 ^ 31 ∨ offset + bytes ≥ 2 ^ 31 then none
  else if offset + bytes > limit then some (toInt (dword (size + 2 ^ 32 - (offset + bytes - limit).toNat)))
  else some bytes

def iterations (fat : Int → Int) (clusterSize pos : Nat) : Nat → Int → Nat → Nat → Option (List Iteration)
  | 0, _, _, _ => none
  | fuel + 1, cluster, offset, size =>
    (intBytesToRw clusterSize pos offset size).bind fun bytes =>
      let left := ((size - bytes) % 2 ^ 32).toNat
      if left = 0 then some [⟨size, bytes⟩]
      else match nextCluster fat cluster with
        | none => some [⟨size, bytes⟩]
        | some next => (iterations fat clusterSize pos fuel next 0 left).map (⟨size, bytes⟩ :: ·)

def moved (its : List Iteration) : Int := (its.map Iteration.bytes).sum

def transfer (fuel : Nat) (fat : Int → Int) (clusterSize pos : Nat) (cluster : Int) (size : Nat) :
    Option Outcome :=
  (iterations fat clusterSize pos fuel cluster (pos % clusterSize) size).bind fun its =>
    if pos + moved its < 2 ^ 31 then some ⟨its, moved its, pos + moved its⟩ else none

def rwOutcome (fuel : Nat) (mode : Mode) (v : Volume) (file : FatFile) (size : Nat) : Option Outcome :=
  let pos := file.currentPos
  match walkChain v.fat (pos / v.clusterSize) file.entry.startCluster with
  | none => some ⟨[], FAIL, pos⟩
  | some cluster =>
    if dword (pos + size) > file.entry.fileSize then
      match mode with
      | .write =>
        -- Otherwise the countdown starts with the least `int`.
        if size / v.clusterSize + 1 < 2 ^ 31 then
          match addClusters (size / v.clusterSize + 1) v cluster with
          | (_, none) => some ⟨[], FAIL, pos⟩
          | (v1, some last) =>
            transfer fuel (fatSetFATCluster v1 last fatEndofcluster).fat v.clusterSize pos cluster size
        else none
      | .read => transfer fuel v.fat v.clusterSize pos cluster (dword (2 ^ 32 + file.entry.fileSize - pos))
    else transfer fuel v.fat v.clusterSize pos cluster size

/-! ## What is claimed -/

def clipped (mode : Mode) (pos fileSize size : Nat) : Nat :=
  match mode with
  | .write => size
  | .read => min size (fileSize - pos)

structure Outcome.Progress (o : Outcome) (pos clipped : Nat) : Prop where
  step : ∀ i ∈ o.iterations, 0 < i.remaining → 1 ≤ i.bytes ∧ i.bytes ≤ i.remaining
  decreases : o.iterations.IsChain fun i j => (j.remaining : Int) = i.remaining - i.bytes
  sum_le : moved o.iterations ≤ clipped
  advances : o.ret ≠ FAIL → o.currentPos = pos + o.ret

/-- Whatever the FAT, the loops end, and they have moved on in each iteration. -/
def MakesProgress (mode : Mode) (clusterSize pos fileSize size : Nat) : Prop :=
  ∀ (v : Volume) (file : FatFile), v.clusterSize = clusterSize → file.currentPos = pos →
    file.entry.fileSize = fileSize →
    ∃ fuel o, rwOutcome fuel mode v file size = some o ∧ o.Progress pos (clipped mode pos fileSize size)

structure InRange (clusterSize pos fileSize size : Nat) : Prop where
  clusterSize_pos : 1 ≤ clusterSize
  pos_le : pos ≤ fileSize
  fileSize_lt : fileSize + clusterSize < 2 ^ 31
  size_lt : size < 2 ^ 31

/-- How far a write may get beyond the end of the file: half of the new clusters are linked. -/
def reach (clusterSize pos size : Nat) : Nat :=
  if 0 < pos ∧ pos < clusterSize then size else min size (((size / clusterSize + 2) / 2 + 1) * clusterSize)

/-! ## One iteration -/

/-- The ranges in which the loop goes round. -/
structure Bounded (clusterSize pos offset size : Nat) : Prop where
  clusterSize_pos : 1 ≤ clusterSize
  offset_lt : offset < clusterSize
  limit_lt : (pos / clusterSize + 1) * clusterSize < 2 ^ 31
  sum_lt : offset + clusterSize < 2 ^ 31
  size_lt : size < 2 ^ 31

theorem bytesToRw_pos (pos : Nat) (hoff : offset < clusterSize) (hsize : 0 < size) :
    1 ≤ bytesToRw clusterSize pos offset size := by
  have hlimit := limit_cases pos (show 0 < clusterSize by omega)
  unfold bytesToRw
  generalize (pos / clusterSize + 1) * clusterSize = limit at hlimit
  dsimp only
  split <;> split <;> omega

theorem bytesToRw_zero_le (clusterSize pos size : Nat) (hcs : 1 ≤ clusterSize) :
    bytesToRw clusterSize pos 0 size = min size clusterSize := by
  rw [bytesToRw_of_fits hcs (.inl rfl), Nat.sub_zero]

theorem intBytesToRw_eq (h : Bounded clusterSize pos offset size) :
    intBytesToRw clusterSize pos offset size = some ((bytesToRw clusterSize pos offset size : Nat) :
      Int) := by
  have hlimit := limit_cases pos (show 0 < clusterSize from h.clusterSize_pos)
  obtain ⟨hcs, hoff, hlt, hsum, hsize⟩ := h
  have hbytes : (if size > clusterSize then (clusterSize :
    Int) else toInt size) = (min size clusterSize : Nat) := by
    rw [toInt, if_pos hsize]
    split <;> omega
  have hmin : (if size > clusterSize then clusterSize else size) = min size clusterSize := by
    split <;> omega
  unfold intBytesToRw bytesToRw
  rw [hbytes, hmin]
  generalize (pos / clusterSize + 1) * clusterSize = limit at hlimit hlt
  dsimp only
  rw [if_neg (by omega)]
  by_cases hover : offset + min size clusterSize > limit
  · rw [if_pos (by omega), if_pos hover]
    have hless : ((offset : Int) + (min size clusterSize : Nat) - limit).toNat =
      offset + min size clusterSize - limit := by
      omega
    have hwrap : dword (size + 2 ^ 32 - (offset + min size clusterSize - limit)) =
        size - (offset + min size clusterSize - limit) := by
      unfold dword
      omega
    rw [hless, hwrap, toInt, if_pos (by omega)]
  · rw [if_neg (by omega), if_neg hover]

/-! ## The transfer loop -/

theorem Bounded.next (h : Bounded clusterSize pos offset size) (bytes : Nat) :
    Bounded clusterSize pos 0 (size - bytes) :=
  ⟨h.clusterSize_pos, h.clusterSize_pos, h.limit_lt, by have := h.sum_lt; omega, by have := h.size_lt; omega⟩

theorem iterations_succ (h : Bounded clusterSize pos offset size) :
    iterations fat clusterSize pos (fuel + 1) cluster offset size =
      if size - bytesToRw clusterSize pos offset size = 0 then some
        [⟨size, bytesToRw clusterSize pos offset size⟩]
      else match nextCluster fat cluster with
        | none => some [⟨size, bytesToRw clusterSize pos offset size⟩]
        | some next => (iterations fat clusterSize pos fuel next 0 (size - bytesToRw clusterSize pos offset size)).map
          (⟨size, bytesToRw clusterSize pos offset size⟩ :: ·) := by
  have hle := bytesToRw_le clusterSize pos offset size
  have hsize := h.size_lt
  have hleft : (((size : Int) - (bytesToRw clusterSize pos offset size : Nat)) % 2 ^ 32).toNat =
      size - bytesToRw clusterSize pos offset size := by
    omega
  rw [iterations, intBytesToRw_eq h, Option.bind_some, hleft]

/-- What one run of the loop does. The chain has `k` more clusters at most, or `k` at least. -/
structure Transfers (fat : Int → Int) (clusterSize pos : Nat) (cluster : Int) (offset size : Nat)
    (its : List Iteration) :
    Prop where
  step : ∀ i ∈ its, 0 < i.remaining → 1 ≤ i.bytes ∧ i.bytes ≤ i.remaining
  decreases : its.IsChain fun i j => (j.remaining : Int) = i.remaining - i.bytes
  first : its.head?.map Iteration.remaining = some size
  nonneg : 0 ≤ moved its
  sum_le : moved its ≤ size
  le_of_end : ∀ k, walkChain fat (k + 1) cluster = none →
    moved its ≤ (bytesToRw clusterSize pos offset size + k * clusterSize : Nat)
  ge_of_walk : ∀ k c, walkChain fat k cluster = some c →
    (min size (bytesToRw clusterSize pos offset size + k * clusterSize) : Nat) ≤ moved its

@[simp] theorem moved_cons (i : Iteration) (its : List Iteration) :
    moved (i :: its) = i.bytes + moved its := by
  simp [moved]

@[simp] theorem moved_nil : moved [] = 0 := rfl

theorem step_bytes (hoff : offset < clusterSize) (hsize : 0 < size) :
    (1 : Int) ≤ (bytesToRw clusterSize pos offset size : Nat) ∧
      ((bytesToRw clusterSize pos offset size : Nat) : Int) ≤ size := by
  have hle := bytesToRw_le clusterSize pos offset size
  have hpos := bytesToRw_pos pos hoff hsize
  omega

theorem Transfers.single (hoff : offset < clusterSize)
    (hend : size - bytesToRw clusterSize pos offset size = 0 ∨ nextCluster fat cluster = none) :
    Transfers fat clusterSize pos cluster offset size
      [⟨size, (bytesToRw clusterSize pos offset size : Nat)⟩] := by
  have hle := bytesToRw_le clusterSize pos offset size
  refine ⟨fun i hi hpos => ?_, List.IsChain.singleton _, rfl, ?_, ?_, fun k _ => ?_, fun k c hwalk => ?_⟩
  · obtain rfl := List.mem_singleton.mp hi
    exact step_bytes hoff hpos
  · simp
  · simp
    omega
  · have := Int.natCast_nonneg (k * clusterSize)
    simp only [moved_cons, moved_nil, Int.add_zero]
    omega
  · simp only [moved_cons, moved_nil, Int.add_zero]
    rcases hend with hleft | hnext
    · omega
    · cases k with
      | zero => omega
      | succ k =>
        rw [walkChain, hnext] at hwalk
        cases hwalk

/-- An iteration before others, which start at the beginning of the next cluster. -/
theorem Transfers.cons {next : Int} {its : List Iteration} (hoff : offset < clusterSize)
    (hnext : nextCluster fat cluster = some next)
    (h : Transfers fat clusterSize pos next 0 (size - bytesToRw clusterSize pos offset size) its) :
    Transfers fat clusterSize pos cluster offset size
      (⟨size, (bytesToRw clusterSize pos offset size : Nat)⟩ :: its) := by
  have hle := bytesToRw_le clusterSize pos offset size
  have hrest := bytesToRw_zero_le clusterSize pos (size - bytesToRw clusterSize pos offset size) (by omega)
  have hwalk : ∀ k, walkChain fat (k + 1) cluster = walkChain fat k next := by
    intro k
    rw [walkChain, hnext, Option.bind_some]
  have hsum := h.sum_le
  have hnonneg := h.nonneg
  refine ⟨fun i hi hpos => ?_, ?_, rfl, ?_, ?_, fun k hk => ?_, fun k c hk => ?_⟩
  · rcases List.mem_cons.mp hi with rfl | hi
    · exact step_bytes hoff hpos
    · exact h.step i hi hpos
  · have hfirst := h.first
    cases its with
    | nil => cases hfirst
    | cons j its =>
      have hj : j.remaining = size - bytesToRw clusterSize pos offset size := by simpa using hfirst
      refine List.IsChain.cons_cons ?_ h.decreases
      rw [hj]
      dsimp only
      omega
  · rw [moved_cons]
    dsimp only
    omega
  · rw [moved_cons]
    dsimp only
    omega
  · rw [hwalk] at hk
    cases k with
    | zero => cases hk
    | succ k =>
      have hrestLe := h.le_of_end k hk
      rw [hrest] at hrestLe
      rw [moved_cons, Nat.succ_mul]
      dsimp only
      omega
  · cases k with
    | zero =>
      rw [moved_cons]
      dsimp only
      omega
    | succ k =>
      rw [hwalk] at hk
      have hrestGe := h.ge_of_walk k c hk
      rw [hrest] at hrestGe
      rw [moved_cons, Nat.succ_mul]
      dsimp only
      omega

theorem iterations_transfers {its : List Iteration} (hb : Bounded clusterSize pos offset size)
    (h : iterations fat clusterSize pos fuel cluster offset size = some its) :
    Transfers fat clusterSize pos cluster offset size its := by
  induction fuel generalizing cluster offset size its with
  | zero => cases h
  | succ fuel ih =>
    rw [iterations_succ hb] at h
    split at h
    case isTrue hleft =>
      cases h
      exact .single hb.offset_lt (.inl hleft)
    case isFalse hleft =>
      split at h
      case h_1 hnext =>
        cases h
        exact .single hb.offset_lt (.inr hnext)
      case h_2 next hnext =>
        obtain ⟨rest, hrest, rfl⟩ := Option.map_eq_some_iff.mp h
        exact .cons hb.offset_lt hnext (ih (hb.next _) hrest)

theorem iterations_ends (fat : Int → Int) (cluster : Int) (hb : Bounded clusterSize pos offset size)
    (hfuel : size < fuel) :
    ∃ its, iterations fat clusterSize pos fuel cluster offset size = some its := by
  induction fuel generalizing cluster offset size with
  | zero => omega
  | succ fuel ih =>
    rw [iterations_succ hb]
    split
    · exact ⟨_, rfl⟩
    · split
      · exact ⟨_, rfl⟩
      · have hpos := bytesToRw_pos pos hb.offset_lt (by omega : 0 < size)
        obtain ⟨its, hits⟩ := ih _ (hb.next (bytesToRw clusterSize pos offset size)) (by omega)
        exact ⟨_, by rw [hits, Option.map_some]⟩

/-! ## The new clusters -/

theorem addClusters_kept {c : Int} (h : addClusters k v prev = (v1, some last)) (hc : c ≠ prev)
    (hused : v.fat c ≠ fatFreecluster) : v1.fat c = v.fat c ∧ c ≠ last := by
  induction k generalizing v prev with
  | zero =>
    obtain ⟨rfl, rfl⟩ : v = v1 ∧ prev = last := by simpa [addClusters] using h
    exact ⟨rfl, hc⟩
  | succ k ih =>
    cases hfree : freeClusters v with
    | nil =>
      rw [addClusters_none hfree] at h
      cases h
    | cons f fs =>
      rw [addClusters_succ hfree] at h
      have hset : (fatSetFATCluster v prev f).fat c = v.fat c := if_neg hc
      have hcf : c ≠ f := by
        rintro rfl
        exact hused (mem_freeClusters.mp (hfree ▸ List.mem_cons_self)).2
      obtain ⟨heq, hlast⟩ := ih h hcf (by rwa [hset])
      exact ⟨heq.trans hset, hlast⟩

theorem addClusters_zero {fs : List Int} (hfree : freeClusters v = 0 :: fs) (k : Nat) :
    addClusters k v 0 = (v, some 0) := by
  have hzero : v.fat 0 = 0 := (mem_freeClusters.mp (hfree ▸ List.mem_cons_self)).2
  have hset : fatSetFATCluster v 0 0 = v := by
    have hfat : (fun c => if c = 0 then 0 else v.fat c) = v.fat := by
      funext c
      split
      · rename_i hc
        rw [hc, hzero]
      · rfl
    unfold fatSetFATCluster
    rw [hfat]
  induction k with
  | zero => rfl
  | succ k ih => rw [addClusters_succ hfree, hset, ih]

theorem freeClusters_zero (h : v.fat 0 = fatFreecluster) (htotal : 0 < v.totalClusters) :
    ∃ fs, freeClusters v = 0 :: fs := by
  obtain ⟨n, hn⟩ : ∃ n, v.totalClusters = n + 1 := ⟨v.totalClusters - 1, by omega⟩
  rw [freeClusters, hn, List.range_succ_eq_map, List.filter_cons_of_pos (by simpa using h), List.map_cons]
  exact ⟨_, rfl⟩

theorem walkChain_one (h : nextCluster fat cluster = none) : walkChain fat 1 cluster = none := by
  rw [walkChain, h, Option.bind_none]

theorem nextCluster_end (v : Volume) (c : Int) :
    nextCluster (fatSetFATCluster v c fatEndofcluster).fat c = none :=
  if_pos (.inr (if_pos rfl))

theorem walkChain_linked {f : Int} (h : v1.fat prev = f) (hlast : prev ≠ last) (hf0 : f ≠ 0)
    (hfail : f ≠ FAIL) (j : Nat) :
    walkChain (fatSetFATCluster v1 last fatEndofcluster).fat (j + 1) prev =
      walkChain (fatSetFATCluster v1 last fatEndofcluster).fat j f := by
  have hfat : (fatSetFATCluster v1 last fatEndofcluster).fat prev = f := (if_neg hlast).trans h
  have hnext : nextCluster (fatSetFATCluster v1 last fatEndofcluster).fat prev = some f := by
    rw [nextCluster, hfat, if_neg (by rintro (h0 | h0) <;> contradiction)]
  rw [walkChain, hnext, Option.bind_some]

theorem addClusters_zero_ends {fs : List Int} (hfree : freeClusters v = 0 :: fs)
    (h : addClusters k (fatSetFATCluster v prev 0) 0 = (v1, some last)) :
    walkChain (fatSetFATCluster v1 last fatEndofcluster).fat 1 prev = none := by
  obtain ⟨⟨i, hi, -⟩, hmark⟩ := mem_freeClusters.mp (hfree ▸ List.mem_cons_self : (0 : Int) ∈ freeClusters v)
  have hzero : (fatSetFATCluster v prev 0).fat 0 = fatFreecluster := by
    unfold fatSetFATCluster
    dsimp only
    split
    · rfl
    · exact hmark
  obtain ⟨fs', hfree'⟩ := freeClusters_zero hzero (show 0 < v.totalClusters by omega)
  rw [addClusters_zero hfree'] at h
  obtain ⟨rfl, rfl⟩ : fatSetFATCluster v prev 0 = v1 ∧ 0 = last := by simpa using h
  apply walkChain_one
  by_cases hp : prev = 0
  · rw [hp]
    exact nextCluster_end _ 0
  · exact if_pos (.inl (by simp [fatSetFATCluster, hp, fatFreecluster]))

theorem addClusters_again {f : Int} {fs : List Int} (hfree : freeClusters v = f :: fs) (hf0 : f ≠ 0)
    (hfp : f ≠ prev) (k : Nat) :
    addClusters (k + 1) (fatSetFATCluster v prev f) f =
      addClusters k (fatSetFATCluster (fatSetFATCluster v prev f) f f) f := by
  have hfree' : ∃ fs', freeClusters (fatSetFATCluster v prev f) = f :: fs' := by
    rw [freeClusters_set hf0, hfree, List.filter_cons_of_pos (by simpa using hfp)]
    exact ⟨_, rfl⟩
  obtain ⟨fs', hfree'⟩ := hfree'
  exact addClusters_succ hfree' k f

/-- The loop links a cluster in every other iteration, or fewer, and the chain ends there. -/
theorem addClusters_ends (k : Nat) : ∀ {v v1 : Volume} {prev last : Int}, addClusters k v prev =
    (v1, some last) →
    ∃ j ≤ (k + 1) / 2, walkChain (fatSetFATCluster v1 last fatEndofcluster).fat (j + 1) prev = none := by
  induction k using Nat.strongRecOn with
  | _ k ih =>
    intro v v1 prev last h
    cases k with
    | zero =>
      obtain ⟨rfl, rfl⟩ : v = v1 ∧ prev = last := by simpa [addClusters] using h
      exact ⟨0, by omega, walkChain_one (nextCluster_end v prev)⟩
    | succ k =>
      cases hfree : freeClusters v with
      | nil =>
        rw [addClusters_none hfree] at h
        cases h
      | cons f fs =>
        rw [addClusters_succ hfree] at h
        by_cases hf0 : f = 0
        · subst hf0
          exact ⟨0, by omega, addClusters_zero_ends hfree h⟩
        by_cases hfp : f = prev
        · -- `prev` was free itself and is linked to itself now.
          subst hfp
          obtain ⟨j, hj, hend⟩ := ih k (by omega) h
          exact ⟨j, by omega, hend⟩
        have hpf : prev ≠ f := fun heq => hfp heq.symm
        have hfail : f ≠ FAIL := (fatGetFreeCluster_cons hfree).2
        have hlink : (fatSetFATCluster v prev f).fat prev = f := if_pos rfl
        cases k with
        | zero =>
          obtain ⟨rfl, rfl⟩ : fatSetFATCluster v prev f = v1 ∧ f = last := by simpa [addClusters] using h
          refine ⟨1, by omega, ?_⟩
          rw [walkChain_linked hlink hpf hf0 hfail]
          exact walkChain_one (nextCluster_end _ f)
        | succ k =>
          rw [addClusters_again hfree hf0 hfp] at h
          have hlink2 : (fatSetFATCluster (fatSetFATCluster v prev f) f f).fat prev = f :=
            (if_neg hpf).trans hlink
          obtain ⟨hkept, hlast⟩ := addClusters_kept h hpf (by rw [hlink2]; exact hf0)
          obtain ⟨j, hj, hend⟩ := ih k (by omega) h
          refine ⟨j + 1, by omega, ?_⟩
          rw [walkChain_linked (hkept.trans hlink2) hlast hf0 hfail]
          exact hend

/-! ## The function -/

theorem InRange.bounded (h : InRange clusterSize pos fileSize size) {n : Nat} (hn : n ≤ size) :
    Bounded clusterSize pos (pos % clusterSize) n := by
  have hdiv := Nat.div_mul_le_self pos clusterSize
  have hmod := Nat.mod_le pos clusterSize
  obtain ⟨hcs, hpos, hfile, hsize⟩ := h
  refine ⟨hcs, Nat.mod_lt pos hcs, ?_, by omega, by omega⟩
  rw [Nat.succ_mul]
  omega

theorem failed_progress (currentPos : Int) (n : Nat) : (Outcome.mk [] FAIL currentPos).Progress pos n :=
  ⟨by simp, List.IsChain.nil, by simp, fun h => absurd rfl h⟩

theorem transfer_progress {n : Nat} (fat : Int → Int) (cluster : Int)
    (hb : Bounded clusterSize pos (pos % clusterSize) n)
    (h : ∀ its, Transfers fat clusterSize pos cluster (pos % clusterSize) n its → pos + moved its < 2 ^ 31) :
    ∃ fuel o, transfer fuel fat clusterSize pos cluster n = some o ∧ o.Progress pos n := by
  obtain ⟨its, hits⟩ := iterations_ends fat cluster hb n.lt_succ_self
  have ht := iterations_transfers hb hits
  refine ⟨n + 1, ⟨its, moved its, pos + moved its⟩, ?_, ht.step, ht.decreases, ht.sum_le, fun _ => rfl⟩
  rw [transfer, hits, Option.bind_some, if_pos (h its ht)]

theorem transfer_overflow {n : Nat} (hb : Bounded clusterSize pos (pos % clusterSize) n)
    (h : ∀ its, Transfers fat clusterSize pos cluster (pos % clusterSize) n its → 2 ^ 31 ≤ pos + moved its)
    (fuel : Nat) : transfer fuel fat clusterSize pos cluster n = none := by
  rw [transfer]
  cases hits : iterations fat clusterSize pos fuel cluster (pos % clusterSize) n with
  | none => rfl
  | some its =>
    have := h its (iterations_transfers hb hits)
    rw [Option.bind_some, if_neg (by omega)]

theorem reach_eq (hcs : 1 ≤ clusterSize) (pos size : Nat) :
    min size (bytesToRw clusterSize pos (pos % clusterSize)
      size + (size / clusterSize + 2) / 2 * clusterSize) =
      reach clusterSize pos size := by
  have hone : clusterSize ≤ (size / clusterSize + 2) / 2 * clusterSize :=
    Nat.le_mul_of_pos_left _ (Nat.div_pos (Nat.le_add_left 2 _) (by decide))
  have hlimit := limit_cases pos (show 0 < clusterSize from hcs)
  have hmod := Nat.mod_lt pos hcs
  have hsmall : pos < clusterSize → pos % clusterSize = pos := Nat.mod_eq_of_lt
  unfold reach bytesToRw
  rw [Nat.succ_mul ((size / clusterSize + 2) / 2)]
  generalize (pos / clusterSize + 1) * clusterSize = limit at hlimit
  generalize (size / clusterSize + 2) / 2 * clusterSize = new at hone
  generalize pos % clusterSize = offset at hmod hsmall
  dsimp only
  split <;> split <;> split <;> omega

theorem rwOutcome_none (h : walkChain v.fat (file.currentPos / v.clusterSize) file.entry.startCluster = none)
    (fuel : Nat) (mode : Mode) (size : Nat) :
    rwOutcome fuel mode v file size = some ⟨[], FAIL, file.currentPos⟩ := by
  unfold rwOutcome
  dsimp only
  rw [h]

section walked

variable (hwalk : walkChain v.fat (file.currentPos / v.clusterSize) file.entry.startCluster = some cluster)
include hwalk

theorem rwOutcome_same (h : dword (file.currentPos + size) ≤ file.entry.fileSize) :
    rwOutcome fuel mode v file size = transfer fuel v.fat v.clusterSize file.currentPos cluster size := by
  unfold rwOutcome
  dsimp only
  rw [hwalk]
  exact if_neg (by omega)

theorem rwOutcome_read (h : file.entry.fileSize < dword (file.currentPos + size)) :
    rwOutcome fuel .read v file size = transfer fuel v.fat v.clusterSize file.currentPos cluster
      (dword (2 ^ 32 + file.entry.fileSize - file.currentPos)) := by
  unfold rwOutcome
  dsimp only
  rw [hwalk]
  exact if_pos h

theorem rwOutcome_overflow (h : file.entry.fileSize < dword (file.currentPos + size))
    (hnew : 2 ^ 31 ≤ size / v.clusterSize + 1) : rwOutcome fuel .write v file size = none := by
  unfold rwOutcome
  dsimp only
  rw [hwalk]
  dsimp only
  rw [if_pos h, if_neg (by omega)]

theorem rwOutcome_full (h : file.entry.fileSize < dword (file.currentPos + size))
    (hnew : size / v.clusterSize + 1 < 2 ^ 31)
    (hadd : addClusters (size / v.clusterSize + 1) v cluster = (v1, none)) :
    rwOutcome fuel .write v file size = some ⟨[], FAIL, file.currentPos⟩ := by
  unfold rwOutcome
  dsimp only
  rw [hwalk]
  dsimp only
  rw [if_pos h, if_pos hnew, hadd]

theorem rwOutcome_grow (h : file.entry.fileSize < dword (file.currentPos + size))
    (hnew : size / v.clusterSize + 1 < 2 ^ 31)
    (hadd : addClusters (size / v.clusterSize + 1) v cluster = (v1, some last)) :
    rwOutcome fuel .write v file size = transfer fuel (fatSetFATCluster v1 last fatEndofcluster).fat
      v.clusterSize
      file.currentPos cluster size := by
  unfold rwOutcome
  dsimp only
  rw [hwalk]
  dsimp only
  rw [if_pos h, if_pos hnew, hadd]

end walked

/-! ## The bytes that are copied -/

theorem dword_sum (h : InRange clusterSize pos fileSize size) : dword (pos + size) = pos + size := by
  obtain ⟨-, hpos, hfile, hsize⟩ := h
  unfold dword
  omega

theorem addClusters_clusterSize (k : Nat) (v : Volume) (prev : Int) :
    (addClusters k v prev).1.clusterSize = v.clusterSize := by
  induction k generalizing v prev with
  | zero => rfl
  | succ k ih =>
    rw [addClusters]
    split
    · rfl
    · exact ih _ _

theorem rwBytes_clusterSize (mode : Mode) (v : Volume) (buffer : Mem) (bytesRw : Nat) (cluster : Int)
    (offset bytes : Nat) :
    (rwBytes mode v buffer bytesRw cluster offset bytes).1.clusterSize = v.clusterSize := by
  cases mode <;> rfl

theorem rwLoop_iterations {v' : Volume} {buffer buffer' : Mem} {bytesRw n : Nat} {its : List Iteration}
    (hb : Bounded v.clusterSize pos offset size)
    (hloop : rwLoop mode pos n v buffer bytesRw cluster offset size = some (v', buffer', m))
    (hits : iterations v.fat v.clusterSize pos fuel cluster offset size = some its) :
    (m : Int) = bytesRw + moved its := by
  induction n generalizing v buffer bytesRw cluster offset size fuel its with
  | zero => cases hloop
  | succ n ih =>
    cases fuel with
    | zero => cases hits
    | succ fuel =>
      rw [iterations_succ hb] at hits
      rw [rwLoop] at hloop
      dsimp only at hloop
      rw [rwBytes_fat] at hloop
      split at hloop
      case isTrue => cases hloop
      case isFalse =>
        split at hloop
        case isTrue hleft =>
          rw [if_pos hleft] at hits
          cases hits
          obtain ⟨-, -, rfl⟩ := by simpa only [Option.some.injEq, Prod.mk.injEq] using hloop
          simp
        case isFalse hleft =>
          rw [if_neg hleft] at hits
          cases hnext : nextCluster v.fat cluster with
          | none =>
            rw [hnext] at hloop hits
            cases hits
            obtain ⟨-, -, rfl⟩ := by simpa only [Option.some.injEq, Prod.mk.injEq] using hloop
            simp
          | some next =>
            rw [hnext] at hloop hits
            obtain ⟨rest, hrest, rfl⟩ := Option.map_eq_some_iff.mp hits
            have hm := ih (by rw [rwBytes_clusterSize]; exact hb.next _) hloop
              (by rw [rwBytes_clusterSize, rwBytes_fat]; exact hrest)
            rw [moved_cons]
            dsimp only
            omega

theorem rwFrom_transfer {file' : FatFile} {v' : Volume} {buffer buffer' : Mem} {r : Int} {o : Outcome}
    (hb : Bounded v.clusterSize file.currentPos (file.currentPos % v.clusterSize) size)
    (hrw : rwFrom mode v file buffer cluster size = some (v', file', buffer', r))
    (ho : transfer fuel v.fat v.clusterSize file.currentPos cluster size = some o) :
    o.ret = r ∧ o.currentPos = file'.currentPos := by
  rw [rwFrom] at hrw
  obtain ⟨⟨v1, buffer1, m⟩, hloop, hrest⟩ := Option.bind_eq_some_iff.mp hrw
  obtain ⟨its, hits, hfinish⟩ := Option.bind_eq_some_iff.mp ho
  have hm := rwLoop_iterations hb hloop hits
  dsimp only at hrest
  split at hrest
  case isFalse => cases hrest
  case isTrue hlt =>
    rw [if_pos (by omega)] at hfinish
    cases hfinish
    obtain ⟨-, rfl, -, rfl⟩ := by simpa only [Option.some.injEq, Prod.mk.injEq] using hrest
    dsimp only
    omega

theorem fatRw_rwOutcome {file' : FatFile} {v' : Volume} {buffer buffer' : Mem} {r : Int} {o : Outcome}
    (h : InRange v.clusterSize file.currentPos file.entry.fileSize size)
    (hrw : fatRw mode v file buffer size = some (v', file', buffer', r))
    (ho : rwOutcome fuel mode v file size = some o) : o.ret = r ∧ o.currentPos = file'.currentPos := by
  have hsum := dword_sum h
  have hpos := h.pos_le
  have hfile := h.fileSize_lt
  rw [fatRw, fatRwWith] at hrw
  cases hwalk : walkChain v.fat (file.currentPos / v.clusterSize) file.entry.startCluster with
  | none =>
    rw [hwalk] at hrw
    rw [rwOutcome_none hwalk] at ho
    cases ho
    obtain ⟨-, rfl, -, rfl⟩ := by simpa only [Option.some.injEq, Prod.mk.injEq] using hrw
    exact ⟨rfl, rfl⟩
  | some cluster =>
    rw [hwalk] at hrw
    dsimp only at hrw
    split at hrw
    case isFalse hin =>
      rw [rwOutcome_same hwalk (Nat.le_of_not_lt hin)] at ho
      exact rwFrom_transfer (h.bounded (Nat.le_refl size)) hrw ho
    case isTrue hgrow =>
      cases mode with
      | read =>
        rw [rwOutcome_read hwalk hgrow] at ho
        refine rwFrom_transfer (h.bounded ?_) hrw ho
        unfold dword
        omega
      | write =>
        by_cases hnew : size / v.clusterSize + 1 < 2 ^ 31
        · cases hadd : addClusters (size / v.clusterSize + 1) v cluster with
          | mk v1 last =>
            rw [hadd] at hrw
            cases last with
            | none =>
              rw [rwOutcome_full hwalk hgrow hnew hadd] at ho
              cases ho
              obtain ⟨-, rfl, -, rfl⟩ := by simpa only [Option.some.injEq, Prod.mk.injEq] using hrw
              exact ⟨rfl, rfl⟩
            | some last =>
              rw [rwOutcome_grow hwalk hgrow hnew hadd] at ho
              have hcs : (fatSetFATCluster v1 last fatEndofcluster).clusterSize = v.clusterSize := by
                have := addClusters_clusterSize (size / v.clusterSize + 1) v cluster
                rwa [hadd] at this
              rw [← hcs] at ho
              exact rwFrom_transfer (hcs ▸ h.bounded (Nat.le_refl size)) hrw ho
        · rw [rwOutcome_overflow hwalk hgrow (Nat.le_of_not_lt hnew)] at ho
          cases ho

/-! ## When it makes progress -/

/-- No `int` overflows: the write stays in the file, or the position stays below 2^31 where the new clusters end. -/
def Advances (mode : Mode) (clusterSize pos fileSize size : Nat) : Prop :=
  mode = .read ∨ pos + size ≤ fileSize ∨
    size / clusterSize + 1 < 2 ^ 31 ∧ pos + reach clusterSize pos size < 2 ^ 31

theorem makesProgress (h : InRange clusterSize pos fileSize size)
    (ha : Advances mode clusterSize pos fileSize size) :
    MakesProgress mode clusterSize pos fileSize size := by
  rintro v file rfl rfl rfl
  have hsum := dword_sum h
  have hrest : dword (2 ^ 32 + file.entry.fileSize - file.currentPos) =
    file.entry.fileSize - file.currentPos := by
    have := h.pos_le
    have := h.fileSize_lt
    unfold dword
    omega
  have hpos := h.pos_le
  have hfile := h.fileSize_lt
  cases hwalk : walkChain v.fat (file.currentPos / v.clusterSize) file.entry.startCluster with
  | none => exact ⟨0, _, rwOutcome_none hwalk 0 mode size, failed_progress _ _⟩
  | some cluster =>
    by_cases hgrow : file.currentPos + size ≤ file.entry.fileSize
    · obtain ⟨fuel, o, ho, hprogress⟩ := transfer_progress v.fat cluster (h.bounded (Nat.le_refl size))
        fun its ht => by
          have := ht.sum_le
          omega
      refine ⟨fuel, o, (rwOutcome_same hwalk (by omega)).trans ho, ?_⟩
      have hclipped : clipped mode file.currentPos file.entry.fileSize size = size := by
        cases mode with
        | write => rfl
        | read => exact Nat.min_eq_left (by omega)
      rwa [hclipped]
    · cases mode with
      | read =>
        have hclipped : clipped .read file.currentPos file.entry.fileSize size =
          file.entry.fileSize - file.currentPos :=
          Nat.min_eq_right (by omega)
        obtain ⟨fuel, o, ho, hprogress⟩ := transfer_progress v.fat cluster
          (h.bounded (n := file.entry.fileSize - file.currentPos) (by omega)) fun its ht => by
            have := ht.sum_le
            omega
        refine ⟨fuel, o, ?_, hclipped ▸ hprogress⟩
        rw [rwOutcome_read hwalk (by omega), hrest]
        exact ho
      | write =>
        obtain ⟨hnew, hreach⟩ : size / v.clusterSize + 1 < 2 ^ 31 ∧
            file.currentPos + reach v.clusterSize file.currentPos size < 2 ^ 31 := by
          rcases ha with hread | hin | hlt
          · cases hread
          · exact absurd hin hgrow
          · exact hlt
        cases hadd : addClusters (size / v.clusterSize + 1) v cluster with
        | mk v1 r =>
          cases r with
          | none => exact ⟨0, _, rwOutcome_full hwalk (by omega) hnew hadd, failed_progress _ _⟩
          | some last =>
            obtain ⟨j, hj, hend⟩ := addClusters_ends _ hadd
            obtain ⟨fuel, o, ho, hprogress⟩ :=
              transfer_progress _ _ (h.bounded (Nat.le_refl size)) fun its ht => by
              have hle := ht.le_of_end j hend
              have hsize := ht.sum_le
              have heq := reach_eq h.clusterSize_pos file.currentPos size
              have hmul : j * v.clusterSize ≤ (size / v.clusterSize + 2) / 2 * v.clusterSize :=
                Nat.mul_le_mul_right _ hj
              omega
            exact ⟨fuel, o, (rwOutcome_grow hwalk (by omega) hnew hadd).trans ho, hprogress⟩

/-- Cluster 1 is linked to itself, and the `m` clusters from 2 on are free. -/
def loopVolume (clusterSize m : Nat) : Volume where
  fat c := if c = 0 then FAIL else if c = 1 then 1 else fatFreecluster
  data _ _ := 0
  rootdir _ := 0
  numRootDirEnts := 0
  clusterSize := clusterSize
  totalClusters := m + 2

def loopFile (pos fileSize : Nat) : FatFile where
  entry := FatEntry.setFileSize (fun x => if x = 26 then 1 else 0) fileSize
  dirCluster := 0
  dirIndex := none
  currentPos := pos

theorem loopFile_fileSize (h : fileSize < 2 ^ 32) : (loopFile pos fileSize).entry.fileSize = fileSize := by
  unfold loopFile FatEntry.fileSize FatEntry.setFileSize
  rw [load32_store32, Nat.mod_eq_of_lt h]

theorem loopFile_startCluster : (loopFile pos fileSize).entry.startCluster = 1 := by
  have hentry : (loopFile pos fileSize).entry = store32 (fun x => if x = 26 then 1 else 0) 28 fileSize := rfl
  rw [FatEntry.startCluster, load16, hentry, store32_other (by omega), store32_other (by omega)]
  rfl

theorem loopVolume_used : (loopVolume clusterSize m).fat 0 ≠ fatFreecluster ∧
    (loopVolume clusterSize m).fat 1 ≠ fatFreecluster :=
  ⟨show FAIL ≠ fatFreecluster by decide, show (1 : Int) ≠ fatFreecluster by decide⟩

theorem loopVolume_walk (i : Nat) : walkChain (loopVolume clusterSize m).fat i 1 = some 1 := by
  induction i with
  | zero => rfl
  | succ i ih =>
    rw [walkChain]
    exact ih

theorem loopVolume_free : (freeClusters (loopVolume clusterSize m)).length = m := by
  have hrange : List.range (m + 2) = 0 :: 1 :: List.range' 2 m := by
    rw [List.range_eq_range', Nat.add_comm m 2, ← List.range'_append_1]
    rfl
  have hfree : ∀ i ∈ List.range' 2 m, decide ((loopVolume clusterSize m).fat
    (i : Nat) = fatFreecluster) = true := by
    intro i hi
    rw [List.mem_range'_1] at hi
    rw [decide_eq_true_eq]
    exact (if_neg (by omega)).trans (if_neg (by omega))
  have htotal : (loopVolume clusterSize m).totalClusters = m + 2 := rfl
  rw [freeClusters, List.length_map, htotal, hrange,
    List.filter_cons_of_neg (by simpa using loopVolume_used.1),
    List.filter_cons_of_neg (by simpa using loopVolume_used.2), List.filter_eq_self.mpr hfree,
      List.length_range']

theorem loopVolume_overflow (h : InRange clusterSize pos fileSize size) (hgrow : fileSize < pos + size)
    (hlt : size / clusterSize + 1 < 2 ^ 31 → 2 ^ 31 ≤ pos + reach clusterSize pos size) (fuel : Nat) :
    rwOutcome fuel .write (loopVolume clusterSize ((size / clusterSize + 2) / 2))
      (loopFile pos fileSize) size = none := by
  have hfile := h.fileSize_lt
  have hsum := dword_sum h
  have hfs : (loopFile pos fileSize).entry.fileSize = fileSize := loopFile_fileSize (by omega)
  have hwalk : ∀ i, walkChain (loopVolume clusterSize ((size / clusterSize + 2) / 2)).fat i
      (loopFile pos fileSize).entry.startCluster = some 1 := by
    intro i
    rw [loopFile_startCluster]
    exact loopVolume_walk i
  have hdword : (loopFile pos fileSize).entry.fileSize < dword
    ((loopFile pos fileSize).currentPos + size) := by
    rw [hfs]
    exact lt_of_lt_of_eq hgrow hsum.symm
  by_cases hnew : size / clusterSize + 1 < 2 ^ 31
  · obtain ⟨v1, last, hadd, hgrown⟩ := addClusters_spec (size / clusterSize + 1)
      (loopVolume clusterSize ((size / clusterSize + 2) / 2)) 1 loopVolume_used.2 loopVolume_used.1
        (by decide)
      (Nat.le_of_eq loopVolume_free.symm)
    rw [rwOutcome_grow (hwalk _) hdword hnew hadd]
    apply transfer_overflow (h.bounded (Nat.le_refl size))
    intro its ht
    have hlength : (1 :: (freeClusters (loopVolume clusterSize ((size / clusterSize + 2) / 2))).take
        ((size / clusterSize + 1 + 1) / 2)).length = (size / clusterSize + 2) / 2 + 1 := by
      rw [List.length_cons, List.length_take, loopVolume_free, Nat.min_self]
    have hge := ht.ge_of_walk ((size / clusterSize + 2) / 2) _
      (hgrown.chain.walk_getElem (by rw [hlength]; omega))
    have heq := reach_eq h.clusterSize_pos pos size
    have hover := hlt hnew
    rw [heq] at hge
    show (2 : Int) ^ 31 ≤ (pos : Int) + moved its
    omega
  · exact rwOutcome_overflow (hwalk _) hdword (Nat.le_of_not_lt hnew)

theorem makesProgress_iff (mode : Mode) (h : InRange clusterSize pos fileSize size) :
    MakesProgress mode clusterSize pos fileSize size ↔ Advances mode clusterSize pos fileSize size := by
  refine ⟨fun hp => ?_, makesProgress h⟩
  have hfile := h.fileSize_lt
  by_contra hno
  unfold Advances at hno
  simp only [not_or, not_and, Nat.not_lt, Nat.not_le] at hno
  obtain ⟨hmode, hgrow, hlt⟩ := hno
  cases mode with
  | read => exact hmode rfl
  | write =>
    obtain ⟨fuel, o, ho, -⟩ := hp (loopVolume clusterSize ((size / clusterSize + 2) / 2))
      (loopFile pos fileSize) rfl rfl
      (loopFile_fileSize (by omega))
    rw [loopVolume_overflow h hgrow hlt] at ho
    cases ho

theorem sector_makesProgress : MakesProgress .write 512 1000 1000 600 :=
  (makesProgress_iff .write ⟨by decide, by decide, by decide, by decide⟩).mpr (.inr (.inr (by decide)))

/-- A write at the end of a file of almost 2 GB. -/
theorem largeFile_not_makesProgress : ¬ MakesProgress .write 512 (2 ^ 31 - 1024) (2 ^ 31 - 1024) 2048 := by
  intro hp
  obtain ⟨fuel, o, ho, -⟩ := hp (loopVolume 512 ((2048 / 512 + 2) / 2))
    (loopFile (2 ^ 31 - 1024) (2 ^ 31 - 1024)) rfl rfl
    (loopFile_fileSize (by decide))
  rw [loopVolume_overflow ⟨by decide, by decide, by decide, by decide⟩ (by decide) (by decide)] at ho
  cases ho

end SystemProjects.Fat
