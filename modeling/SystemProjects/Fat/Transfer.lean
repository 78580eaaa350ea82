import SystemProjects.Fat.Chain
import SystemProjects.Lib.Memory

/-!
# The transfer loop
-/

open SystemProjects.Memory SystemProjects.Blocks

namespace SystemProjects.Fat

variable {v : Volume} {clusterSize pos offset size fuel bytesRw : Nat} {cluster : Int} {rest : List Int}
  {buffer : Mem}

/-! ## One iteration -/

/-- The transfers that the loop splits right at the end of the first cluster. -/
def Fits (clusterSize pos offset size : Nat) : Prop :=
  offset = 0 ∨ offset + size ≤ clusterSize ∨ pos < clusterSize ∧ size ≤ clusterSize

theorem limit_cases (pos : Nat) (hcs : 0 < clusterSize) :
    pos < clusterSize ∧ (pos / clusterSize + 1) * clusterSize = clusterSize ∨
      clusterSize ≤ pos ∧ 2 * clusterSize ≤ (pos / clusterSize + 1) * clusterSize := by
  by_cases h : pos < clusterSize
  · exact .inl ⟨h, by rw [Nat.div_eq_of_lt h, Nat.zero_add, Nat.one_mul]⟩
  · have h1 : 1 ≤ pos / clusterSize := (Nat.one_le_div_iff hcs).mpr (by omega)
    exact .inr ⟨by omega, Nat.mul_le_mul_right clusterSize (by omega)⟩

theorem bytesToRw_of_fits (hoff : offset < clusterSize) (h : Fits clusterSize pos offset size) :
    bytesToRw clusterSize pos offset size = min size (clusterSize - offset) := by
  have hlimit := limit_cases pos (show 0 < clusterSize by omega)
  unfold Fits at h
  unfold bytesToRw
  generalize (pos / clusterSize + 1) * clusterSize = limit at hlimit
  dsimp only
  split <;> split <;> omega

theorem past_of_not_fits (hoff : offset < clusterSize) (h : ¬ Fits clusterSize pos offset size) :
    offset + bytesToRw clusterSize pos offset size > clusterSize := by
  have hlimit := limit_cases pos (show 0 < clusterSize by omega)
  unfold Fits at h
  unfold bytesToRw
  generalize (pos / clusterSize + 1) * clusterSize = limit at hlimit
  dsimp only
  split <;> split <;> omega

@[simp] theorem rwBytes_fat (mode : Mode) (v : Volume) (buffer : Mem) (bytesRw : Nat) (cluster : Int)
    (offset bytes : Nat) : (rwBytes mode v buffer bytesRw cluster offset bytes).1.fat = v.fat := by
  cases mode <;> rfl

theorem rwLoop_last {mode : Mode} (hoff : offset < v.clusterSize) (hfits : Fits v.clusterSize pos offset size)
    (hlimit : (pos / v.clusterSize + 1) * v.clusterSize < 2 ^ 31)
    (hend : size ≤ v.clusterSize - offset ∨ nextCluster v.fat cluster = none) :
    rwLoop mode pos (fuel + 1) v buffer bytesRw cluster offset size =
      some ((rwBytes mode v buffer bytesRw cluster offset (min size (v.clusterSize - offset))).1,
        (rwBytes mode v buffer bytesRw cluster offset (min size (v.clusterSize - offset))).2,
        bytesRw + min size (v.clusterSize - offset)) := by
  rw [rwLoop, bytesToRw_of_fits hoff hfits, if_neg (by omega)]
  simp only [rwBytes_fat]
  split
  · rfl
  · rw [hend.resolve_left (by omega)]

theorem rwLoop_next {mode : Mode} {next : Int} (hoff : offset < v.clusterSize)
    (hfits : Fits v.clusterSize pos offset size)
    (hlimit : (pos / v.clusterSize + 1) * v.clusterSize < 2 ^ 31) (hsize : v.clusterSize - offset < size)
    (hnext : nextCluster v.fat cluster = some next) :
    rwLoop mode pos (fuel + 1) v buffer bytesRw cluster offset size =
      rwLoop mode pos fuel (rwBytes mode v buffer bytesRw cluster offset (v.clusterSize - offset)).1
        (rwBytes mode v buffer bytesRw cluster offset (v.clusterSize - offset)).2
        (bytesRw + (v.clusterSize - offset)) next 0 (size - (v.clusterSize - offset)) := by
  rw [rwLoop, bytesToRw_of_fits hoff hfits, if_neg (by omega), Nat.min_eq_right (by omega)]
  simp only [rwBytes_fat]
  rw [if_neg (by omega), hnext]

theorem rwBytes_write {bytes x : Nat} (hx : x < v.clusterSize) (hfit : offset + bytes ≤ v.clusterSize) :
    (rwBytes .write v buffer bytesRw cluster offset bytes).1.data cluster x =
      if offset ≤ x ∧ x < offset + bytes then buffer (bytesRw + (x - offset)) else v.data cluster x := by
  simp only [rwBytes, Volume.setData, if_true, memcpy]
  split
  · rfl
  · rw [if_pos (by omega)]

theorem rwBytes_write_other {bytes : Nat} {c : Int} (hc : c ≠ cluster) :
    (rwBytes .write v buffer bytesRw cluster offset bytes).1.data c = v.data c := if_neg hc

/-! ## What the loop may do -/

theorem bytesToRw_le (clusterSize pos offset size : Nat) : bytesToRw clusterSize pos offset size ≤ size := by
  unfold bytesToRw
  dsimp only
  split <;> split <;> omega

theorem rwBytes_same (mode : Mode) (v : Volume) (buffer : Mem) (bytesRw : Nat) (cluster : Int)
    (offset bytes : Nat) :
    (rwBytes mode v buffer bytesRw cluster offset bytes).1 =
      { v with data := (rwBytes mode v buffer bytesRw cluster offset bytes).1.data } := by
  cases mode <;> rfl

theorem rwBytes_other {mode : Mode} {bytes : Nat} {c : Int} (hc : c ≠ cluster) :
    (rwBytes mode v buffer bytesRw cluster offset bytes).1.data c = v.data c := by
  cases mode with
  | read => rfl
  | write => exact rwBytes_write_other hc

theorem rwLoop_succ {mode : Mode} {v' : Volume} {buffer' : Mem} {m : Nat}
    (h : rwLoop mode pos (fuel + 1) v buffer bytesRw cluster offset size = some (v', buffer', m)) :
    ∃ bytes v1 buffer1, offset + bytes ≤ v.clusterSize ∧ bytes ≤ size ∧
      rwBytes mode v buffer bytesRw cluster offset bytes = (v1, buffer1) ∧
      (v' = v1 ∧ buffer' = buffer1 ∧ m = bytesRw + bytes ∨
        ∃ next, nextCluster v.fat cluster = some next ∧
          rwLoop mode pos fuel v1 buffer1 (bytesRw + bytes) next 0 (size - bytes) =
            some (v', buffer', m)) := by
  rw [rwLoop] at h
  dsimp only at h
  split at h
  case isTrue => contradiction
  case isFalse hdefined =>
    refine ⟨_, _, _, by omega, bytesToRw_le v.clusterSize pos offset size, rfl, ?_⟩
    split at h
    case isTrue =>
      obtain ⟨rfl, rfl, rfl⟩ : _ = v' ∧ _ = buffer' ∧
        _ = m := by simpa only [Option.some.injEq, Prod.mk.injEq] using h
      exact .inl ⟨rfl, rfl, rfl⟩
    case isFalse =>
      split at h
      case h_1 =>
        obtain ⟨rfl, rfl, rfl⟩ : _ = v' ∧ _ = buffer' ∧
          _ = m := by simpa only [Option.some.injEq, Prod.mk.injEq] using h
        exact .inl ⟨rfl, rfl, rfl⟩
      case h_2 next hnext =>
        rw [rwBytes_fat] at hnext
        exact .inr ⟨next, hnext, h⟩

/-- The loop changes no cluster that it does not come to, and moves no more than it was asked to and no more than
there is up to the end of the chain. -/
structure Transferred (v v' : Volume) (cluster : Int) (offset size moved : Nat) : Prop where
  same : v' = { v with data := v'.data }
  others : ∀ c, (∀ k, walkChain v.fat k cluster ≠ some c) → v'.data c = v.data c
  le : moved ≤ size
  end_le : ∀ k, walkChain v.fat k cluster = none → offset + moved ≤ k * v.clusterSize

theorem rwLoop_moved {mode : Mode} {v' : Volume} {buffer' : Mem} {m : Nat} :
    ∀ {fuel : Nat} {v : Volume} {buffer : Mem} {bytesRw offset size : Nat} {cluster : Int},
    rwLoop mode pos fuel v buffer bytesRw cluster offset size = some (v', buffer', m) →
    ∃ moved, m = bytesRw + moved ∧ Transferred v v' cluster offset size moved := by
  intro fuel
  induction fuel with
  | zero =>
    intro v buffer bytesRw offset size cluster h
    contradiction
  | succ fuel ih =>
    intro v buffer bytesRw offset size cluster h
    obtain ⟨bytes, v1, buffer1, hfit, hbytes, hrw, hrest⟩ := rwLoop_succ h
    have hfst : (rwBytes mode v buffer bytesRw cluster offset bytes).1 = v1 := congrArg Prod.fst hrw
    have hv1 : v1 = { v with data := v1.data } :=
      hfst ▸ rwBytes_same mode v buffer bytesRw cluster offset bytes
    have hothers : ∀ c, (∀ k, walkChain v.fat k cluster ≠ some c) → v1.data c = v.data c := by
      intro c hc
      rw [← hfst]
      exact rwBytes_other fun heq => hc 0 (heq ▸ rfl)
    rcases hrest with ⟨rfl, -, rfl⟩ | ⟨next, hnext, hloop⟩
    · refine ⟨bytes, rfl, hv1, hothers, hbytes, fun k hk => ?_⟩
      cases k with
      | zero => contradiction
      | succ k =>
        rw [Nat.add_mul]
        omega
    · obtain ⟨moved, rfl, hmoved⟩ := ih hloop
      have hfat : v1.fat = v.fat := by rw [hv1]
      have hcs : v1.clusterSize = v.clusterSize := by rw [hv1]
      have hwalk : ∀ k, walkChain v.fat (k + 1) cluster = walkChain v1.fat k next := by
        intro k
        rw [walkChain, hnext, hfat, Option.bind_some]
      have hle := hmoved.le
      refine ⟨bytes + moved, by omega, ?_, fun c hc => ?_, by omega, fun k hk => ?_⟩
      · rw [hmoved.same, hv1]
      · rw [hmoved.others c fun k hk => hc (k + 1) ((hwalk k).trans hk), hothers c hc]
      · cases k with
        | zero => contradiction
        | succ k =>
          have hend := hmoved.end_le k ((hwalk k).symm.trans hk)
          rw [hcs] at hend
          rw [Nat.add_mul]
          omega

/-! ## Writing along a chain -/

/-- What the loop has done to the bytes of a chain: `moved` of them, from `offset` on, come from the
buffer. -/
structure Wrote (v v' : Volume) (chain : List Int) (buffer : Mem) (bytesRw offset moved : Nat) : Prop where
  same : v' = { v with data := v'.data }
  others : ∀ c ∉ chain, v'.data c = v.data c
  bytes : ∀ a, byteAt v.clusterSize v'.data chain a =
    if offset ≤ a ∧ a < offset + moved then some (buffer (bytesRw + (a - offset)))
    else byteAt v.clusterSize v.data chain a

theorem wrote_last (hoff : offset < v.clusterSize) (hnotin : cluster ∉ rest) {bytes : Nat}
    (hfit : offset + bytes ≤ v.clusterSize) :
    Wrote v (rwBytes .write v buffer bytesRw cluster offset bytes).1 (cluster :: rest) buffer bytesRw offset
      bytes := by
  refine ⟨rfl, fun c hc => rwBytes_write_other fun heq => hc (heq ▸ List.mem_cons_self), fun a => ?_⟩
  by_cases ha : a < v.clusterSize
  · rw [byteAt_cons_lt ha, byteAt_cons_lt ha, rwBytes_write ha hfit, apply_ite some]
  · rw [if_neg (by omega), byteAt_cons_ge (by omega) (by omega), byteAt_cons_ge (by omega) (by omega)]
    apply byteAt_congr (by omega)
    rintro c hc x -
    have hne : c ≠ cluster := fun heq => hnotin (heq ▸ hc)
    rw [rwBytes_write_other hne]

theorem Wrote.next {v1 v' : Volume} {moved : Nat} (hoff : offset < v.clusterSize) (hnotin : cluster ∉ rest)
    (h : Wrote v v1 (cluster :: rest) buffer bytesRw offset (v.clusterSize - offset))
    (h' : Wrote v1 v' rest buffer (bytesRw + (v.clusterSize - offset)) 0 moved) :
    Wrote v v' (cluster :: rest) buffer bytesRw offset (v.clusterSize - offset + moved) := by
  have hcs : v1.clusterSize = v.clusterSize := by rw [h.same]
  refine ⟨by rw [h'.same, h.same], fun c hc => ?_, fun a => ?_⟩
  · rw [h'.others c fun hin => hc (List.mem_cons_of_mem _ hin), h.others c hc]
  · by_cases ha : a < v.clusterSize
    · rw [byteAt_cons_lt ha, h'.others cluster hnotin, ← byteAt_cons_lt ha, h.bytes a]
      congr 1
      rw [eq_iff_iff]
      omega
    · have hrest := h'.bytes (a - v.clusterSize)
      have hv1 : byteAt v.clusterSize v1.data rest (a - v.clusterSize) =
          byteAt v.clusterSize v.data (cluster :: rest) a := by
        rw [← byteAt_cons_ge (by omega) (by omega), h.bytes a, if_neg (by omega)]
      rw [byteAt_cons_ge (by omega) (by omega)]
      rw [hcs, hv1] at hrest
      rw [hrest]
      by_cases hin : a - v.clusterSize < moved
      · rw [if_pos (by omega), if_pos (by omega)]
        congr 2
        omega
      · rw [if_neg (by omega), if_neg (by omega)]

theorem rwLoop_write (pos : Nat) (buffer : Mem) (rest : List Int) : ∀ (v : Volume) (cluster : Int)
    (fuel bytesRw offset size : Nat),
    ChainFrom v.fat cluster (cluster :: rest) → offset < v.clusterSize →
    Fits v.clusterSize pos offset size → (pos / v.clusterSize + 1) * v.clusterSize < 2 ^ 31 → size < fuel →
    ∃ v', rwLoop .write pos fuel v buffer bytesRw cluster offset size =
        some (v', buffer, bytesRw + min size ((rest.length + 1) * v.clusterSize - offset)) ∧
      Wrote v v' (cluster :: rest) buffer bytesRw offset
        (min size ((rest.length + 1) * v.clusterSize - offset)) := by
  induction rest with
  | nil =>
    rintro v cluster (_ | fuel) bytesRw offset size h hoff hfits hlimit hfuel
    · omega
    · rw [List.length_nil, Nat.zero_add, Nat.one_mul]
      refine ⟨_, rwLoop_last hoff hfits hlimit (.inr h.nextCluster_last), ?_⟩
      exact wrote_last hoff (by simp) (by omega)
  | cons next rest ih =>
    rintro v cluster (_ | fuel) bytesRw offset size h hoff hfits hlimit hfuel
    · omega
    have hnodup := List.nodup_cons.mp h.links.nodup
    by_cases hsize : size ≤ v.clusterSize - offset
    · have hmoved : min size (((next :: rest).length + 1) * v.clusterSize - offset) =
          min size (v.clusterSize - offset) := by
        rw [Nat.add_mul]
        omega
      rw [hmoved]
      exact ⟨_, rwLoop_last hoff hfits hlimit (.inl hsize), wrote_last hoff hnodup.1 (by omega)⟩
    · obtain rfl : v.fat cluster = next := h.links.2.2.1
      have hfits0 : Fits v.clusterSize pos 0 (size - (v.clusterSize - offset)) := .inl rfl
      obtain ⟨v', heq, hw⟩ := ih
        (rwBytes .write v buffer bytesRw cluster offset (v.clusterSize - offset)).1 (v.fat cluster) fuel
        (bytesRw + (v.clusterSize - offset)) 0 (size - (v.clusterSize - offset)) h.tail
        (show 0 < v.clusterSize by omega) hfits0 hlimit (by omega)
      have hmoved : min size (((v.fat cluster :: rest).length + 1) * v.clusterSize - offset) =
          v.clusterSize - offset + min (size - (v.clusterSize - offset))
            ((rest.length + 1) * v.clusterSize) := by
        rw [List.length_cons, Nat.add_mul (rest.length + 1)]
        omega
      refine ⟨v', ?_, ?_⟩
      · rw [rwLoop_next hoff hfits hlimit (by omega) h.nextCluster, hmoved, ← Nat.add_assoc]
        exact heq
      · rw [hmoved]
        exact (wrote_last hoff hnodup.1 (by omega)).next hoff hnodup.1 hw

/-! ## Reading along a chain -/

/-- The loop has put `moved` bytes of the chain into the buffer. -/
structure Read (v : Volume) (chain : List Int) (buffer buffer' : Mem) (bytesRw offset moved : Nat) :
    Prop where
  bytes : ∀ i < moved, byteAt v.clusterSize v.data chain (offset + i) = some (buffer' (bytesRw + i))
  before : ∀ x < bytesRw, buffer' x = buffer x

theorem rwBytes_read (v : Volume) (buffer : Mem) (bytesRw : Nat) (cluster : Int) (offset bytes : Nat) :
    (rwBytes .read v buffer bytesRw cluster offset bytes).2 =
      memcpy buffer bytesRw (fun x => v.data cluster (offset + x)) bytes := rfl

theorem read_last {bytes : Nat} (hfit : offset + bytes ≤ v.clusterSize) :
    Read v (cluster :: rest) buffer (rwBytes .read v buffer bytesRw cluster offset bytes).2 bytesRw offset
      bytes := by
  constructor
  · intro i hi
    rw [byteAt_cons_lt (by omega), rwBytes_read, memcpy_self hi]
  · intro x hx
    rw [rwBytes_read]
    exact memcpy_other (.inl hx)

theorem Read.next {buffer1 buffer' : Mem} {moved : Nat} (hoff : offset < v.clusterSize)
    (h : Read v (cluster :: rest) buffer buffer1 bytesRw offset (v.clusterSize - offset))
    (h' : Read v rest buffer1 buffer' (bytesRw + (v.clusterSize - offset)) 0 moved) :
    Read v (cluster :: rest) buffer buffer' bytesRw offset (v.clusterSize - offset + moved) := by
  constructor
  · intro i hi
    by_cases hfirst : i < v.clusterSize - offset
    · rw [h.bytes i hfirst, h'.before _ (by omega)]
    · have hrest := h'.bytes (i - (v.clusterSize - offset)) (by omega)
      rw [byteAt_cons_ge (by omega) (by omega)]
      rw [show 0 + (i - (v.clusterSize - offset)) = offset + i - v.clusterSize by omega,
        show bytesRw + (v.clusterSize - offset) + (i - (v.clusterSize - offset)) =
          bytesRw + i by omega] at hrest
      exact hrest
  · intro x hx
    rw [h'.before x (by omega), h.before x hx]

theorem rwLoop_read (pos : Nat) (rest : List Int) : ∀ (buffer : Mem) (cluster : Int)
    (fuel bytesRw offset size : Nat),
    ChainFrom v.fat cluster (cluster :: rest) → offset < v.clusterSize →
    Fits v.clusterSize pos offset size → (pos / v.clusterSize + 1) * v.clusterSize < 2 ^ 31 → size < fuel →
    ∃ buffer', rwLoop .read pos fuel v buffer bytesRw cluster offset size =
        some (v, buffer', bytesRw + min size ((rest.length + 1) * v.clusterSize - offset)) ∧
      Read v (cluster :: rest) buffer buffer' bytesRw offset
        (min size ((rest.length + 1) * v.clusterSize - offset)) := by
  induction rest with
  | nil =>
    rintro buffer cluster (_ | fuel) bytesRw offset size h hoff hfits hlimit hfuel
    · omega
    · rw [List.length_nil, Nat.zero_add, Nat.one_mul]
      exact ⟨_, rwLoop_last hoff hfits hlimit (.inr h.nextCluster_last), read_last (by omega)⟩
  | cons next rest ih =>
    rintro buffer cluster (_ | fuel) bytesRw offset size h hoff hfits hlimit hfuel
    · omega
    by_cases hsize : size ≤ v.clusterSize - offset
    · have hmoved : min size (((next :: rest).length + 1) * v.clusterSize - offset) =
          min size (v.clusterSize - offset) := by
        rw [Nat.add_mul]
        omega
      rw [hmoved]
      exact ⟨_, rwLoop_last hoff hfits hlimit (.inl hsize), read_last (by omega)⟩
    · obtain rfl : v.fat cluster = next := h.links.2.2.1
      obtain ⟨buffer', heq, hr⟩ := ih (rwBytes .read v buffer bytesRw cluster offset
        (v.clusterSize - offset)).2
        (v.fat cluster) fuel (bytesRw + (v.clusterSize - offset)) 0 (size - (v.clusterSize - offset)) h.tail
        (by omega) (.inl rfl) hlimit (by omega)
      have hmoved : min size (((v.fat cluster :: rest).length + 1) * v.clusterSize - offset) =
          v.clusterSize - offset + min (size - (v.clusterSize - offset))
            ((rest.length + 1) * v.clusterSize) := by
        rw [List.length_cons, Nat.add_mul (rest.length + 1)]
        omega
      refine ⟨buffer', ?_, ?_⟩
      · rw [rwLoop_next hoff hfits hlimit (by omega) h.nextCluster, hmoved, ← Nat.add_assoc]
        exact heq
      · rw [hmoved]
        exact (read_last (by omega)).next hoff hr

/-! ## Transfers that are not defined -/

theorem rwLoop_undefined {mode : Mode} (hoff : offset < v.clusterSize)
    (h : ¬ (Fits v.clusterSize pos offset size ∧ (pos / v.clusterSize + 1) * v.clusterSize < 2 ^ 31)) :
    rwLoop mode pos fuel v buffer bytesRw cluster offset size = none := by
  cases fuel with
  | zero => rfl
  | succ fuel =>
    rw [rwLoop, if_pos]
    by_cases hfits : Fits v.clusterSize pos offset size
    · have : ¬ (pos / v.clusterSize + 1) * v.clusterSize < 2 ^ 31 := fun hlimit => h ⟨hfits, hlimit⟩
      exact .inl (by omega)
    · exact .inr (past_of_not_fits hoff hfits)

end SystemProjects.Fat
