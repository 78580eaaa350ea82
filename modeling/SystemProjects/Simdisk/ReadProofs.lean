import SystemProjects.Simdisk.DirCodec
import SystemProjects.Simdisk.Inodes
import SystemProjects.Simdisk.Read

/-!
# Which reads are right
-/

open SystemProjects.Memory

namespace SystemProjects.Simdisk

variable {w : World} {d : Device} {this inode buf tmp : Mem} {junk : Nat → Mem} {count b temp : Int}
  {s s' : ReadState} {fdd inum size cnt e i j k n x : Nat}

/-! ## Blocks -/

theorem readBlockAt_readable (h : readBlockAt d b tmp = some buf) : -2 ^ 31 ≤ b * blocksize := by
  unfold readBlockAt blocksize at *
  split at h
  · omega
  · split at h
    · cases h
    · omega

theorem exists_readBlockAt (h : -2 ^ 31 ≤ b * blocksize) (tmp : Mem) :
    ∃ buf, readBlockAt d b tmp = some buf := by
  unfold readBlockAt
  split
  · exact ⟨_, rfl⟩
  · rw [if_neg (by omega)]
    split <;> exact ⟨_, rfl⟩

theorem readBlockAt_data (h : 0 ≤ b) (hd : b < d.devsize) (tmp : Mem) :
    ∃ buf, readBlockAt d b tmp = some buf ∧ ∀ x < 1024, buf x = blockAt d b x := by
  obtain ⟨n, rfl⟩ : ∃ n : Nat, b = n := ⟨b.toNat, by omega⟩
  have hn : n < d.devsize := by omega
  exact ⟨_, readBlockAt_of_lt hn tmp, fun x hx => readBlock_self hn hx⟩

theorem DataBlock.readBlockAt (h : DataBlock d b) (tmp : Mem) :
    ∃ buf, readBlockAt d b tmp = some buf ∧ ∀ x < 1024, buf x = blockAt d b x :=
  readBlockAt_data (by have := h.1; unfold blockTableStart at this; omega) h.2 tmp

/-! ## One block -/

theorem readCopy_some {dst off : Int} (h : readCopy d b dst off temp s = some s') :
    -2 ^ 31 ≤ b * blocksize ∧ 0 ≤ temp ∧ s'.len = s.len ∧ s'.flag = s.flag ∧ s'.reads = s.reads ++ [b] := by
  obtain ⟨tmp, htmp, h⟩ := Option.bind_eq_some_iff.mp h
  split at h
  · cases h
  · cases h
    exact ⟨readBlockAt_readable htmp, by omega, rfl, rfl, rfl⟩

theorem copyBlock_some (h : copyBlock d b temp s = some s') (hlen : 0 ≤ s.len)
    (ht : s.flag = true ∨ 0 < temp) :
    -2 ^ 31 ≤ b * blocksize ∧ 0 ≤ temp ∧ s'.len = s.len + temp ∧ s'.flag = true ∧
      s'.reads = s.reads ++ [b] := by
  unfold copyBlock at h
  split at h
  case isTrue hflag =>
    obtain ⟨s1, h1, rfl⟩ := Option.map_eq_some_iff.mp h
    obtain ⟨hb, htemp, hlen1, hflag1, hreads⟩ := readCopy_some h1
    exact ⟨hb, htemp, congrArg (· + temp) hlen1, hflag1.trans hflag, hreads⟩
  case isFalse hflag =>
    have hpos : 0 < temp := ht.resolve_left hflag
    unfold tempp fpoff at h
    rw [if_pos (by omega)] at h
    dsimp only at h
    rw [if_pos (by omega)] at h
    obtain ⟨s1, h1, rfl⟩ := Option.map_eq_some_iff.mp h
    obtain ⟨hb, -, hlen1, -, hreads⟩ := readCopy_some h1
    exact ⟨hb, by omega, by dsimp only; omega, rfl, hreads⟩

/-- The block comes behind what has been copied before. -/
theorem copyBlock_eq (htmp : readBlockAt d b s.tmp = some tmp) (hlen : 0 ≤ s.len) (htemp : 0 ≤ temp)
    (hs : s.flag = true ∨ s.len = 0 ∧ 0 < temp) : copyBlock d b temp s =
      some { buf := memcpy s.buf s.len.toNat tmp temp.toNat, tmp := tmp, len := s.len + temp, flag := true,
             reads := s.reads ++ [b] } := by
  have hcopy : ∀ dst : Int, 0 ≤ dst → readCopy d b dst 0 temp s = some { s with
      buf := memcpy s.buf dst.toNat tmp temp.toNat, tmp := tmp, reads := s.reads ++ [b] } := by
    intro dst hdst
    rw [readCopy, htmp, Option.bind_some, if_neg (by omega)]
    simp only [Int.toNat_zero, Nat.zero_add]
  unfold copyBlock tempp fpoff
  by_cases hflag : s.flag = true
  · rw [if_pos hflag, Int.sub_zero, hcopy s.len hlen, Option.map_some, hflag]
  · obtain ⟨hzero, hpos⟩ := hs.resolve_left hflag
    rw [if_neg hflag, if_pos (by omega), Int.sub_zero]
    dsimp only
    rw [if_pos hpos, hcopy 0 (Int.le_refl 0), Option.map_some, hzero]
    simp

/-! ## The loops over direct blocks -/

theorem readDirect_some {is : List Nat} (h : readDirect d this temp is s = some s') :
    s'.len = s.len + temp * is.length ∧ s'.flag = s.flag := by
  induction is generalizing s with
  | nil =>
    cases h
    simp
  | cons i is ih =>
    rw [readDirect] at h
    obtain ⟨s1, h1, h⟩ := Option.bind_eq_some_iff.mp h
    obtain ⟨-, -, hlen, hflag, -⟩ := readCopy_some h1
    obtain ⟨hlen', hflag'⟩ := ih h
    refine ⟨?_, hflag'.trans hflag⟩
    rw [hlen', List.length_cons, Int.natCast_succ, Int.mul_add]
    dsimp only
    omega

theorem copyDirect_some {is : List Nat} (h : copyDirect d this is s = some s') (hlen : 0 ≤ s.len) :
    s'.len = s.len + 1024 * is.length ∧ (is ≠ [] → s'.flag = true) ∧
      s'.reads = s.reads ++ is.map (inodeBlock this) := by
  induction is generalizing s with
  | nil =>
    cases h
    simp
  | cons i is ih =>
    rw [copyDirect] at h
    obtain ⟨s1, h1, h⟩ := Option.bind_eq_some_iff.mp h
    obtain ⟨-, -, hlen1, hflag1, hreads1⟩ := copyBlock_some h1 hlen (.inr (by decide))
    obtain ⟨hlen', hflag', hreads'⟩ := ih h (by omega)
    refine ⟨?_, fun _ => ?_, ?_⟩
    · rw [hlen', List.length_cons]
      omega
    · by_cases his : is = []
      · subst his
        cases h
        exact hflag1
      · exact hflag' his
    · rw [hreads', hreads1, List.append_assoc, List.map_cons]
      rfl

/-! ## The loops over indirect blocks as one loop -/

section steps

variable (d this junk count)

/-- What is in `ib` in iteration `i`. -/
def ibAt (i : Nat) : Mem := (readBlockAt d (inodeIndBlock this i) (junk i)).getD fun _ => 0

def pointerAt (e : Nat) : Int := indBlock (ibAt d this junk (e / 256)) (e % 256)

def enter (i : Nat) (s : ReadState) : Option ReadState :=
  if 30 ≤ i then none
  else (readBlockAt d (inodeIndBlock this i) (junk i)).map fun _ =>
    { s with reads := s.reads ++ [inodeIndBlock this i] }

def copyAt (e : Nat) (s : ReadState) : Option ReadState :=
  copyBlock d (pointerAt d this junk e) (if 1024 + s.len > count then count - s.len else 1024) s

/-- One pointer, with the indirect block that it is the first of. -/
def stepAt (e : Nat) (s : ReadState) : Option ReadState :=
  (if e % 256 = 0 then enter d this junk (e / 256) s else some s).bind (copyAt d this junk count e)

def steps : Nat → Nat → ReadState → Option ReadState
  | 0, _, s => some s
  | n + 1, e, s => (stepAt d this junk count e s).bind (steps n (e + 1))

end steps

theorem steps_add (m n e : Nat) (s : ReadState) : steps d this junk count (m + n) e s =
    (steps d this junk count m e s).bind (steps d this junk count n (e + m)) := by
  induction m generalizing e s with
  | zero => rw [Nat.zero_add, steps, Option.bind_some, Nat.add_zero]
  | succ m ih =>
    rw [Nat.add_right_comm, steps, steps, Option.bind_assoc]
    congr 1
    funext s1
    rw [ih, Nat.add_right_comm, Nat.add_assoc]

theorem pointerAt_eq (hj : j < 256) : pointerAt d this junk (256 * i + j) =
    indBlock (ibAt d this junk i) j := by
  unfold pointerAt
  rw [show (256 * i + j) / 256 = i by omega, show (256 * i + j) % 256 = j by omega]

theorem copyPointers_cons {js : List Nat} (hj : j < 256) (s : ReadState) :
    copyPointers d (ibAt d this junk i) count n i (j :: js) s =
      (copyAt d this junk count (256 * i + j) s).bind fun s =>
        if n = 256 * i + j then some s else copyPointers d (ibAt d this junk i) count n i js s := by
  have hiff : (n : Int) = j + i * 256 ↔ n = 256 * i + j := by omega
  rw [copyPointers, copyAt, pointerAt_eq hj]
  simp only [hiff]

theorem copyPointers_eq {m : Nat} (hj : j + (m + 1) = 256) (hn : 256 * i + j ≤ n) (s : ReadState) :
    copyPointers d (ibAt d this junk i) count n i (List.range' j (m + 1)) s =
      (copyAt d this junk count (256 * i + j) s).bind
        (steps d this junk count (min (n - (256 * i + j)) m) (256 * i + j + 1)) := by
  induction m generalizing j s with
  | zero =>
    rw [List.range'_succ, copyPointers_cons (by omega), Nat.min_zero]
    congr 1
    funext s1
    split <;> rfl
  | succ m ih =>
    rw [List.range'_succ, copyPointers_cons (by omega)]
    congr 1
    funext s1
    by_cases hend : n = 256 * i + j
    · rw [if_pos hend, hend, Nat.sub_self, Nat.zero_min, steps]
    · have hmin : min (n - (256 * i + j)) (m + 1) = min (n - (256 * i + (j + 1))) m + 1 := by omega
      have hstep : ∀ s, stepAt d this junk count (256 * i + j + 1) s =
        copyAt d this junk count (256 * i + (j + 1)) s := by
        intro s
        rw [stepAt, if_neg (by omega), Option.bind_some]
        rfl
      rw [if_neg hend, ih (by omega) (by omega), hmin, steps, hstep]
      rfl

theorem copyIndirect_cons {is : List Nat} (s : ReadState) :
    copyIndirect d this junk count n (i :: is) s = (enter d this junk i s).bind fun s =>
      (copyPointers d (ibAt d this junk i) count n i (List.range 256) s).bind
        (copyIndirect d this junk count n is) := by
  rw [copyIndirect, enter]
  split
  · rfl
  · unfold ibAt
    cases readBlockAt d (inodeIndBlock this i) (junk i) <;> rfl

theorem enter_copyPointers {m : Nat} (hm : min (n - 256 * i) 255 = m) (hn : 256 * i ≤ n) (s : ReadState) :
    ((enter d this junk i s).bind (copyPointers d (ibAt d this junk i) count n i (List.range 256))) =
      steps d this junk count (m + 1) (256 * i) s := by
  have hmod : 256 * i % 256 = 0 := by omega
  have hdiv : 256 * i / 256 = i := by omega
  rw [steps, stepAt, if_pos hmod, hdiv, Option.bind_assoc]
  congr 1
  funext s1
  rw [List.range_eq_range', copyPointers_eq (m := 255) rfl hn, Nat.add_zero, hm]

theorem copyIndirect_eq {m : Nat} (hm : i + m = n / 256) (s : ReadState) :
    copyIndirect d this junk count n (List.range' i (m + 1)) s =
      steps d this junk count (n + 1 - 256 * i) (256 * i) s := by
  induction m generalizing i s with
  | zero =>
    have hcount : n + 1 - 256 * i = n - 256 * i + 1 := by omega
    rw [List.range'_succ, copyIndirect_cons, ← Option.bind_assoc, enter_copyPointers (m :=
      n - 256 * i) (by omega) (by omega),
      hcount]
    cases steps d this junk count (n - 256 * i + 1) (256 * i) s <;> rfl
  | succ m ih =>
    have hcount : n + 1 - 256 * i = 255 + 1 + (n + 1 - 256 * (i + 1)) := by omega
    have hrest : copyIndirect d this junk count n (List.range' (i + 1) (m + 1)) =
        steps d this junk count (n + 1 - 256 * (i + 1)) (256 * i + (255 + 1)) := by
      funext s1
      rw [ih (by omega), Nat.mul_succ]
    rw [List.range'_succ, copyIndirect_cons, ← Option.bind_assoc, enter_copyPointers (m :=
      255) (by omega) (by omega),
      hcount, steps_add (255 + 1) (n + 1 - 256 * (i + 1)), hrest]

/-- The blocks that are read for pointer `e`. -/
def traceAt (d : Device) (this : Mem) (junk : Nat → Mem) (e : Nat) : List Int :=
  (if e % 256 = 0 then [inodeIndBlock this (e / 256)] else []) ++ [pointerAt d this junk e]

theorem enter_some (h : enter d this junk i s = some s') :
    (i < 30 ∧ -2 ^ 31 ≤ inodeIndBlock this i * blocksize) ∧
      s' = { s with reads := s.reads ++ [inodeIndBlock this i] } := by
  rw [enter] at h
  split at h
  · cases h
  · obtain ⟨ib, hib, rfl⟩ := Option.map_eq_some_iff.mp h
    exact ⟨⟨by omega, readBlockAt_readable hib⟩, rfl⟩

/-- Both reads for pointer `e` have an outcome. -/
structure CanRead (d : Device) (this : Mem) (junk : Nat → Mem) (e : Nat) : Prop where
  indirect : e % 256 = 0 → e / 256 < 30 ∧ -2 ^ 31 ≤ inodeIndBlock this (e / 256) * blocksize
  pointer : -2 ^ 31 ≤ pointerAt d this junk e * blocksize

theorem stepAt_some (h : stepAt d this junk count e s = some s') (hflag : s.flag = true) (hlen : 0 ≤ s.len)
    (hle : s.len ≤ count) :
    CanRead d this junk e ∧ s'.flag = true ∧
      s'.len = min count (s.len + 1024) ∧ s'.reads = s.reads ++ traceAt d this junk e := by
  obtain ⟨s1, h1, h⟩ := Option.bind_eq_some_iff.mp h
  have henter : (e % 256 = 0 → e / 256 < 30 ∧ -2 ^ 31 ≤ inodeIndBlock this (e / 256) * blocksize) ∧
    s1.flag = true ∧ s1.len = s.len ∧
      s1.reads = s.reads ++ if e % 256 = 0 then [inodeIndBlock this (e / 256)] else [] := by
    by_cases he : e % 256 = 0
    · rw [if_pos he] at h1
      obtain ⟨hi, rfl⟩ := enter_some h1
      rw [if_pos he]
      exact ⟨fun _ => hi, hflag, rfl, rfl⟩
    · rw [if_neg he] at h1
      cases h1
      rw [if_neg he, List.append_nil]
      exact ⟨fun h => absurd h he, hflag, rfl, rfl⟩
  obtain ⟨hind, hflag1, hlen1, hreads1⟩ := henter
  obtain ⟨hb, -, hlen', hflag', hreads'⟩ := copyBlock_some h (by omega) (.inl hflag1)
  refine ⟨⟨hind, hb⟩, hflag', ?_, ?_⟩
  · rw [hlen', hlen1]
    split <;> omega
  · rw [hreads', hreads1, List.append_assoc]
    rfl

theorem steps_some (h : steps d this junk count n e s = some s') (hflag : s.flag = true) (hlen : 0 ≤ s.len)
    (hle : s.len ≤ count) :
    (∀ x, e ≤ x → x < e + n → CanRead d this junk x) ∧
      s'.len = min count (s.len + 1024 * n) ∧
      s'.reads = s.reads ++ (List.range' e n).flatMap (traceAt d this junk) := by
  induction n generalizing e s with
  | zero =>
    cases h
    refine ⟨fun x hx hx' => by omega, by omega, by simp⟩
  | succ n ih =>
    obtain ⟨s1, h1, h⟩ := Option.bind_eq_some_iff.mp h
    obtain ⟨hread, hflag1, hlen1, hreads1⟩ := stepAt_some h1 hflag hlen hle
    obtain ⟨hall, hlen', hreads'⟩ := ih h hflag1 (by omega) (by omega)
    refine ⟨fun x hx hx' => ?_, by omega, ?_⟩
    · by_cases hxe : x = e
      · exact hxe ▸ hread
      · exact hall x (by omega) (by omega)
    · rw [hreads', hreads1, List.append_assoc, List.range'_succ, List.flatMap_cons]

/-! ## The bytes -/

/-- The first `k` blocks have been copied, and `cnt` bytes at most. -/
structure Copied (d : Device) (this buf : Mem) (cnt k : Nat) (s : ReadState) : Prop where
  ready : s.flag = true ∨ k = 0
  len : s.len = (min cnt (1024 * k) : Nat)
  bytes : ∀ x, s.buf x = if x < min cnt (1024 * k) then fileByteAt d this x else buf x

theorem copied_zero (d : Device) (this buf tmp : Mem) (cnt : Nat) : Copied d this buf cnt 0
    { buf := buf, tmp := tmp, len := 0, flag := false, reads := [] } :=
  ⟨.inr rfl, by simp, fun x => by simp⟩

theorem Copied.copy (h : Copied d this buf cnt k s) (hk : 1024 * k < cnt)
    (hb : DataBlock d (filePointer d this k)) :
    ∃ s', copyBlock d (filePointer d this k) (min 1024 (cnt - 1024 * k) : Nat) s = some s' ∧
      Copied d this buf cnt (k + 1) s' := by
  obtain ⟨tmp, htmp, hbytes⟩ := hb.readBlockAt s.tmp
  have hlen := h.len
  have hs : s.flag = true ∨ s.len = 0 ∧ (0 : Int) < (min 1024 (cnt - 1024 * k) : Nat) :=
    h.ready.imp_right fun hk0 => by omega
  refine ⟨_, copyBlock_eq htmp (by omega) (by omega) hs, .inl rfl, ?_, fun x => ?_⟩
  · dsimp only
    omega
  · have hpos : s.len.toNat = 1024 * k := by omega
    dsimp only
    rw [hpos, Int.toNat_natCast, memcpy]
    by_cases hx : 1024 * k ≤ x ∧ x < 1024 * k + min 1024 (cnt - 1024 * k)
    · have hdiv : x / 1024 = k := by omega
      have hmod : x % 1024 = x - 1024 * k := by omega
      rw [if_pos hx, if_pos (by omega), hbytes _ (by omega), fileByteAt, hdiv, hmod]
    · rw [if_neg hx, h.bytes]
      by_cases hlt : x < 1024 * k
      · rw [if_pos (by omega), if_pos (by omega)]
      · rw [if_neg (by omega), if_neg (by omega)]

theorem copyDirect_copied (hcnt : 10240 < cnt) (hdata : ∀ e < 10, DataBlock d (filePointer d this e))
    (hn : k + n ≤ 10) (h : Copied d this buf cnt k s) :
    ∃ s', copyDirect d this (List.range' k n) s = some s' ∧ Copied d this buf cnt (k + n) s' := by
  induction n generalizing k s with
  | zero => exact ⟨s, rfl, h⟩
  | succ n ih =>
    obtain ⟨s1, h1, hs1⟩ := h.copy (by omega) (hdata k (by omega))
    have htemp : min 1024 (cnt - 1024 * k) = 1024 := by omega
    have hpointer : filePointer d this k = inodeBlock this k := if_pos (by omega)
    rw [htemp, hpointer] at h1
    obtain ⟨s', h', hs'⟩ := ih (by omega) hs1
    refine ⟨s', ?_, by rwa [Nat.add_right_comm] at hs'⟩
    rw [List.range'_succ, copyDirect]
    exact (congrArg (Option.bind · _) h1).trans h'

/-! ## The bytes behind the pointers -/

theorem pointerAt_data (h : 0 ≤ inodeIndBlock this (e / 256))
    (hd : inodeIndBlock this (e / 256) < d.devsize) :
    pointerAt d this junk e = filePointer d this (10 + e) := by
  obtain ⟨ib, hib, hbytes⟩ := readBlockAt_data h hd (junk (e / 256))
  have hsub : 10 + e - 10 = e := by omega
  rw [pointerAt, ibAt, hib, Option.getD_some, filePointer, if_neg (by omega), hsub]
  apply loadInt_congr
  intro x _ hx
  exact hbytes x (by omega)

theorem enter_eq (hi : i < 30) (h : -2 ^ 31 ≤ inodeIndBlock this i * blocksize) (s : ReadState) :
    enter d this junk i s = some { s with reads := s.reads ++ [inodeIndBlock this i] } := by
  obtain ⟨ib, hib⟩ := exists_readBlockAt (d := d) h (junk i)
  rw [enter, if_neg (by omega), hib, Option.map_some]

theorem Copied.enter (h : Copied d this buf cnt k s) (junk : Nat → Mem) (hi : e % 256 = 0 → e / 256 < 30)
    (hb : e % 256 = 0 → -2 ^ 31 ≤ inodeIndBlock this (e / 256) * blocksize) :
    ∃ s', (if e % 256 = 0 then Simdisk.enter d this junk (e / 256) s else some s) = some s' ∧
      Copied d this buf cnt k s' := by
  by_cases he : e % 256 = 0
  · rw [if_pos he, enter_eq (hi he) (hb he)]
    exact ⟨_, rfl, h.ready, h.len, h.bytes⟩
  · rw [if_neg he]
    exact ⟨s, rfl, h⟩

structure Needed (d : Device) (this : Mem) (cnt : Nat) : Prop where
  table : blocksOf cnt ≤ 10 + 30 * 256
  data : ∀ e < blocksOf cnt, DataBlock d (filePointer d this e)
  indirect : ∀ i, 10 + 256 * i < blocksOf cnt → DataBlock d (inodeIndBlock this i)

theorem DataBlock.readable (h : DataBlock d b) : -2 ^ 31 ≤ b * blocksize := by
  have := h.1
  unfold blockTableStart at this
  unfold blocksize
  omega

theorem stepAt_copied (junk : Nat → Mem) (hd : Needed d this cnt) (he : 10 + e < blocksOf cnt)
    (h : Copied d this buf cnt (10 + e) s) :
    ∃ s', stepAt d this junk cnt e s = some s' ∧ Copied d this buf cnt (10 + e + 1) s' := by
  have hind := hd.indirect (e / 256) (by omega)
  have htable := hd.table
  obtain ⟨s1, h1, hs1⟩ := h.enter junk (e := e) (fun _ => by omega) fun _ => hind.readable
  have hpointer : pointerAt d this junk e = filePointer d this (10 + e) :=
    pointerAt_data (by have := hind.1; unfold blockTableStart at this; omega) hind.2
  have hlt : 1024 * (10 + e) < cnt := by
    unfold blocksOf at he
    omega
  obtain ⟨s', h', hs'⟩ := hs1.copy hlt (hd.data _ he)
  refine ⟨s', ?_, hs'⟩
  have hlen := hs1.len
  have htemp : (if 1024 + s1.len > cnt then (cnt : Int) - s1.len else 1024) = (min 1024
    (cnt - 1024 * (10 + e)) : Nat) := by
    split <;> omega
  rw [stepAt, h1, Option.bind_some, copyAt, hpointer, htemp]
  exact h'

theorem steps_copied (junk : Nat → Mem) (hd : Needed d this cnt) (hn : 10 + e + n ≤ blocksOf cnt)
    (h : Copied d this buf cnt (10 + e) s) :
    ∃ s', steps d this junk cnt n e s = some s' ∧ Copied d this buf cnt (10 + e + n) s' := by
  induction n generalizing e s with
  | zero => exact ⟨s, rfl, h⟩
  | succ n ih =>
    obtain ⟨s1, h1, hs1⟩ := stepAt_copied junk hd (by omega) h
    obtain ⟨s', h', hs'⟩ := ih (e := e + 1) (by omega) hs1
    refine ⟨s', ?_, by rwa [show 10 + (e + 1) + n = 10 + e + (n + 1) by omega] at hs'⟩
    rw [steps, h1, Option.bind_some]
    exact h'

theorem stepAt_next (junk : Nat → Mem) (hcnt : cnt ≤ 1024 * k) (hk : 0 < k) (hi : e % 256 = 0 → e / 256 < 30)
    (hind : e % 256 = 0 → -2 ^ 31 ≤ inodeIndBlock this (e / 256) * blocksize)
    (hb : -2 ^ 31 ≤ pointerAt d this junk e * blocksize) (h : Copied d this buf cnt k s) :
    ∃ s', stepAt d this junk cnt e s = some s' ∧ Copied d this buf cnt k s' := by
  obtain ⟨s1, h1, hs1⟩ := h.enter junk hi hind
  obtain ⟨tmp, htmp⟩ := exists_readBlockAt (d := d) hb s1.tmp
  have hlen := hs1.len
  have htemp : (if 1024 + s1.len > cnt then (cnt : Int) - s1.len else 1024) = 0 := by
    rw [if_pos (by omega)]
    omega
  have hflag : s1.flag = true := hs1.ready.resolve_right (by omega)
  have hcopy := copyBlock_eq htmp (by omega) (Int.le_refl 0) (.inl hflag)
  rw [← htemp] at hcopy
  refine ⟨_, by rw [stepAt, h1, Option.bind_some]; exact hcopy, .inl rfl, by dsimp only; omega, fun x => ?_⟩
  dsimp only
  rw [htemp, memcpy, if_neg (by simp), hs1.bytes]

/-! ## The function -/

theorem blocks_eq (hcnt : 1 ≤ cnt) : ((cnt : Int) - 1).tdiv 1024 + 1 = blocksOf cnt := by
  rw [Int.tdiv_eq_ediv_of_nonneg (by omega), blocksOf]
  omega

def initial (buf tmp : Mem) : ReadState := { buf := buf, tmp := tmp, len := 0, flag := false, reads := [] }

theorem myRead_large (hcnt : 10240 < cnt) {r : Int} {rj : ReadJunk}
    (hread : readInode w.dev (w.fd fdd) rj.this = some (this, r)) :
    myRead w fdd buf cnt rj = (copyDirect w.dev this (List.range 10) (initial buf rj.tmp)).bind fun s =>
      (steps w.dev this rj.ib cnt (blocksOf cnt - 10 + 1) 0 s).map fun s => (s.len, s.buf, s.reads) := by
  have hblocks : 11 ≤ blocksOf cnt := by
    unfold blocksOf
    omega
  have hsub : (blocksOf cnt : Int) - 10 = (blocksOf cnt - 10 : Nat) := by omega
  have hind : ((blocksOf cnt - 10 : Nat) : Int).tdiv 256 + 1 = ((blocksOf cnt - 10) / 256 + 1 : Nat) := by
    rw [Int.tdiv_eq_ediv_of_nonneg (by omega)]
    omega
  rw [myRead]
  dsimp only
  rw [hread, Option.bind_some]
  dsimp only
  rw [blocks_eq (by omega), if_neg (by omega), Option.bind_some, hsub, hind, Int.toNat_natCast]
  congr 1
  funext s
  rw [List.range_eq_range', copyIndirect_eq (i := 0) (by omega), Nat.mul_zero, Nat.sub_zero]
  simp only [tempp, Int.sub_zero]

theorem copyIndirect_negative (hflag : s.flag = true) (hlen : 0 ≤ s.len) (h : count < s.len)
    (blknum : Int) (is : List Nat) :
    copyIndirect d this junk count blknum (0 :: is) s = none := by
  by_contra hsome
  obtain ⟨s', hs'⟩ := Option.ne_none_iff_exists'.mp hsome
  rw [copyIndirect, if_neg (by decide)] at hs'
  obtain ⟨ib, -, hs'⟩ := Option.bind_eq_some_iff.mp hs'
  obtain ⟨s1, h1, -⟩ := Option.bind_eq_some_iff.mp hs'
  rw [show 256 = 255 + 1 from rfl, List.range_succ_eq_map, copyPointers] at h1
  obtain ⟨s2, h2, -⟩ := Option.bind_eq_some_iff.mp h1
  obtain ⟨-, htemp, -⟩ := copyBlock_some h2 hlen (.inl hflag)
  dsimp only at htemp
  rw [if_pos (by omega)] at htemp
  omega

theorem le_direct (hpos : 1 ≤ cnt) : (cnt : Int) ≤ (if (cnt : Int) > 1024 then 1024 else (cnt :
    Int)) * blocksOf cnt := by
  split
  · unfold blocksOf
    omega
  · have hone : blocksOf cnt = 1 := by
      unfold blocksOf
      omega
    rw [hone]
    omega

/-- With direct blocks only, the copies go on behind `cnt`, up to one of a negative number of bytes. -/
theorem myRead_small (hpos : 1 ≤ cnt) (hcnt : cnt ≤ 10240) (buf : Mem) (rj : ReadJunk) :
    myRead w fdd buf cnt rj = none := by
  have hblocks : 1 ≤ blocksOf cnt ∧ blocksOf cnt ≤ 10 := by
    unfold blocksOf
    omega
  have hind : ((blocksOf cnt : Int) - 10).tdiv 256 + 1 = 1 := by
    have hneg : (blocksOf cnt : Int) - 10 = -(10 - blocksOf cnt : Nat) := by omega
    rw [hneg, Int.neg_tdiv, Int.tdiv_eq_ediv_of_nonneg (by omega)]
    omega
  by_contra hsome
  obtain ⟨out, hout⟩ := Option.ne_none_iff_exists'.mp hsome
  rw [myRead] at hout
  dsimp only at hout
  obtain ⟨⟨this, r⟩, -, hout⟩ := Option.bind_eq_some_iff.mp hout
  dsimp only at hout
  rw [blocks_eq hpos, if_pos (show (blocksOf cnt : Int) ≤ 10 by omega), Int.toNat_natCast, hind] at hout
  obtain ⟨s1, h1, hout⟩ := Option.bind_eq_some_iff.mp hout
  obtain ⟨s2, h2, hout⟩ := Option.bind_eq_some_iff.mp hout
  obtain ⟨s3, h3, -⟩ := Option.map_eq_some_iff.mp hout
  obtain ⟨hlen1, -⟩ := readDirect_some h1
  have hdirect := le_direct hpos
  rw [List.length_range] at hlen1
  dsimp only at hlen1
  obtain ⟨hlen2, hflag2, -⟩ := copyDirect_some h2 (by omega)
  rw [List.length_range] at hlen2
  rw [show (1 : Int).toNat = 0 + 1 from rfl, List.range_succ_eq_map,
    copyIndirect_negative (hflag2 (by simp)) (by omega) (by omega)] at h3
  cases h3

theorem myRead_some (hcnt : 10240 < cnt) {r : Int} {rj : ReadJunk} {out : Int × Mem × List Int}
    (hread : readInode w.dev (w.fd fdd) rj.this = some (this, r)) (h : myRead w fdd buf cnt rj = some out) :
    out.1 = cnt ∧
      out.2.2 = (List.range 10).map (inodeBlock this) ++
        (List.range' 0 (blocksOf cnt - 10 + 1)).flatMap (traceAt w.dev this rj.ib) ∧
      ∀ e ≤ blocksOf cnt - 10, CanRead w.dev this rj.ib e := by
  rw [myRead_large hcnt hread] at h
  obtain ⟨s1, h1, h⟩ := Option.bind_eq_some_iff.mp h
  obtain ⟨s2, h2, rfl⟩ := Option.map_eq_some_iff.mp h
  obtain ⟨hlen1, hflag1, hreads1⟩ := copyDirect_some h1 (Int.le_refl 0)
  have hten : s1.len = 10240 := hlen1
  obtain ⟨hall, hlen2, hreads2⟩ := steps_some h2 (hflag1 (by simp)) (by omega) (by omega)
  refine ⟨?_, ?_, fun e he => hall e (Nat.zero_le e) (by omega)⟩
  · unfold blocksOf at hlen2
    dsimp only
    omega
  · rw [hreads2, hreads1]
    rfl

/-! ## The inode -/

theorem filePointer_congr (h : Agree this inode 0 256) (he : e < 10 + 30 * 256) :
    filePointer d this e = filePointer d inode e := by
  have hdirect : e < 10 → inodeBlock this e = inodeBlock inode e := fun he =>
    loadInt_congr fun x _ hx => h x (Nat.zero_le x) (by omega)
  have hind : inodeIndBlock this ((e - 10) / 256) = inodeIndBlock inode ((e - 10) / 256) :=
    loadInt_congr fun x _ hx => h x (Nat.zero_le x) (by omega)
  unfold filePointer
  rw [hind]
  split
  · exact hdirect ‹_›
  · rfl

theorem inodeIndBlock_congr (h : Agree this inode 0 256) (hi : i < 30) :
    inodeIndBlock this i = inodeIndBlock inode i :=
  loadInt_congr fun x _ hx => h x (Nat.zero_le x) (by omega)

theorem blocksOf_mono (h : cnt ≤ size) : blocksOf cnt ≤ blocksOf size := by
  unfold blocksOf
  omega

theorem StoredFile.table (h : StoredFile d inode size) (hle : cnt ≤ size) : blocksOf cnt ≤ 10 + 30 * 256 := by
  have := h.size_le
  unfold blocksOf
  omega

theorem StoredFile.needed (h : StoredFile d inode size) (hthis : Agree this inode 0 256) (hle : cnt ≤ size) :
    Needed d this cnt := by
  have hmono := blocksOf_mono hle
  have htable := h.table hle
  refine ⟨htable, fun e he => ?_, fun i hi => ?_⟩
  · rw [filePointer_congr hthis (by omega)]
    exact h.data e (by omega)
  · rw [inodeIndBlock_congr hthis (by omega)]
    exact h.indirect i (by omega)

/-! ## What has been read -/

theorem mem_neededBlocks : b ∈ neededBlocks d inode n ↔ ∃ e < blocksOf n, filePointer d inode e = b := by
  simp [neededBlocks]

theorem filePointer_mem (he : e < blocksOf n) : filePointer d inode e ∈ neededBlocks d inode n :=
  mem_neededBlocks.mpr ⟨e, he, rfl⟩

theorem StoredFile.indirect_not_mem (h : StoredFile d inode size) (hle : cnt ≤ size)
    (hi : 10 + 256 * i < blocksOf cnt) :
    inodeIndBlock inode i ∉ neededBlocks d inode cnt := by
  have hmono := blocksOf_mono hle
  intro hin
  obtain ⟨e, he, heq⟩ := mem_neededBlocks.mp hin
  exact h.apart_indirect i (by omega) e (by omega) heq.symm

theorem StoredFile.pointerAt (h : StoredFile d inode size) (hthis : Agree this inode 0 256) (hle : cnt ≤ size)
    (he : 10 + e < blocksOf cnt) : Simdisk.pointerAt d this junk e = filePointer d inode (10 + e) := by
  have htable := h.table hle
  have hind := (h.needed hthis hle).indirect (e / 256) (by omega)
  have hpos := hind.1
  unfold blockTableStart at hpos
  rw [pointerAt_data (by omega) hind.2, filePointer_congr hthis (by omega)]

theorem StoredFile.traceAt_filter (h : StoredFile d inode size) (hthis : Agree this inode 0 256)
    (hle : cnt ≤ size) (he : 10 + e < blocksOf cnt) :
    (traceAt d this junk e).filter (fun b => b ∈ neededBlocks d inode cnt) =
      [filePointer d inode (10 + e)] := by
  have htable := h.table hle
  have hmem : filePointer d inode (10 + e) ∈ neededBlocks d inode cnt := filePointer_mem he
  have hapart : inodeIndBlock inode (e / 256) ∉ neededBlocks d inode cnt := h.indirect_not_mem hle (by omega)
  rw [traceAt, h.pointerAt hthis hle he, inodeIndBlock_congr hthis (by omega)]
  split <;> simp [hmem, hapart]

theorem StoredFile.trace_filter (h : StoredFile d inode size) (hthis : Agree this inode 0 256)
    (hle : cnt ≤ size) (hcnt : 10240 < cnt) :
    ((List.range 10).map (inodeBlock this) ++
      (List.range' 0 (blocksOf cnt - 10)).flatMap (traceAt d this junk)).filter (fun b =>
        b ∈ neededBlocks d inode cnt) =
      neededBlocks d inode cnt := by
  have hten : blocksOf cnt = 10 + (blocksOf cnt - 10) := by
    unfold blocksOf
    omega
  have hdirect : ((List.range 10).map (inodeBlock this)).filter (fun b => b ∈ neededBlocks d inode cnt) =
      (List.range 10).map (filePointer d inode) := by
    have heq : (List.range 10).map (inodeBlock this) = (List.range 10).map (filePointer d inode) := by
      apply List.map_congr_left
      intro e he
      rw [List.mem_range] at he
      rw [← filePointer_congr hthis (by omega), filePointer, if_pos he]
    rw [heq, List.filter_eq_self]
    intro b hb
    obtain ⟨e, he, rfl⟩ := List.mem_map.mp hb
    rw [List.mem_range] at he
    simpa using filePointer_mem (by omega)
  have hind : ((List.range' 0 (blocksOf cnt - 10)).flatMap (traceAt d this junk)).filter
      (fun b => b ∈ neededBlocks d inode cnt) = (List.range' 10 (blocksOf cnt - 10)).map
        (filePointer d inode) := by
    have hrange : List.range' 10 (blocksOf cnt - 10) = (List.range' 0 (blocksOf cnt - 10)).map (10 + ·) :=
      (List.map_add_range' 0 _ 1).symm
    rw [List.filter_flatMap, hrange, List.map_map, ← List.flatMap_pure_eq_map]
    apply List.flatMap_congr
    intro e he
    rw [List.mem_range'_1] at he
    exact h.traceAt_filter hthis hle (by omega)
  rw [List.filter_append, hdirect, hind, ← List.map_append, List.range_eq_range']
  conv_rhs => rw [neededBlocks, hten, List.range_eq_range', ← List.range'_append_1]

theorem StoredFile.trace_split (h : StoredFile d inode size) (hthis : Agree this inode 0 256)
    (hle : cnt ≤ size) (hcnt : 10240 < cnt) :
    ((List.range 10).map (inodeBlock this) ++ (List.range' 0 (blocksOf cnt - 10 + 1)).flatMap
      (traceAt d this junk)).filter
        (fun b => b ∈ neededBlocks d inode cnt) =
      neededBlocks d inode cnt ++
        (traceAt d this junk (blocksOf cnt - 10)).filter (fun b => b ∈ neededBlocks d inode cnt) := by
  rw [List.range'_1_concat, List.flatMap_append, ← List.append_assoc, List.filter_append,
    h.trace_filter hthis hle hcnt,
    Nat.zero_add, List.flatMap_singleton]

/-! ## When a read is right -/

/-- An open descriptor of an inode of the table. -/
structure OpenOn (w : World) (fdd inum : Nat) : Prop where
  isOpen : fdd < maxOpenFiles
  bound : w.fd fdd = inum
  pos : 1 ≤ inum
  lt : inum < maxFileNum

theorem OpenOn.readInode (h : OpenOn w fdd inum) (buffer : Mem) :
    ∃ this, Simdisk.readInode w.dev (w.fd fdd) buffer = some (this, 0) ∧
      Agree this (inodeAt w.dev inum) 0 256 := by
  refine ⟨_, by rw [h.bound]; exact readInode_eq h.pos h.lt buffer, fun x _ hx => ?_⟩
  exact read_self hx buffer

theorem NextHarmless.pointerAt (h : NextHarmless d inode cnt) (junk : Nat → Mem)
    (hfile : StoredFile d inode size)
    (hthis : Agree this inode 0 256) (hle : cnt ≤ size) (hcnt : 10240 < cnt) :
    Simdisk.pointerAt d this junk (blocksOf cnt - 10) = filePointer d inode (blocksOf cnt) := by
  have hten : 10 + (blocksOf cnt - 10) = blocksOf cnt := by
    unfold blocksOf
    omega
  have htable := h.inTable
  have hind : 0 ≤ inodeIndBlock this ((blocksOf cnt - 10) / 256) ∧
    inodeIndBlock this ((blocksOf cnt - 10) / 256) < d.devsize := by
    by_cases hfirst : (blocksOf cnt - 10) % 256 = 0
    · rw [inodeIndBlock_congr hthis (by omega)]
      exact ⟨(h.indirect hfirst).1, (h.indirect hfirst).2.1⟩
    · obtain ⟨hpos, hlt⟩ := (hfile.needed hthis hle).indirect ((blocksOf cnt - 10) / 256) (by omega)
      unfold blockTableStart at hpos
      exact ⟨by omega, hlt⟩
  rw [pointerAt_data hind.1 hind.2, hten, filePointer_congr hthis (by omega)]

theorem NextHarmless.trace (h : NextHarmless d inode cnt) (junk : Nat → Mem) (hfile : StoredFile d inode size)
    (hthis : Agree this inode 0 256) (hle : cnt ≤ size) (hcnt : 10240 < cnt) :
    (traceAt d this junk (blocksOf cnt - 10)).filter (fun b => b ∈ neededBlocks d inode cnt) = [] := by
  have hother := h.other
  have htable := h.inTable
  rw [traceAt, h.pointerAt junk hfile hthis hle hcnt]
  by_cases hfirst : (blocksOf cnt - 10) % 256 = 0
  · have hapart := (h.indirect hfirst).2.2
    rw [if_pos hfirst, inodeIndBlock_congr hthis (by omega)]
    simp [hother, hapart]
  · rw [if_neg hfirst]
    simp [hother]

theorem myRead_copied (hfile : StoredFile w.dev inode size) (hthis : Agree this inode 0 256)
    (hcnt : 10240 < cnt)
    (hle : cnt ≤ size) (hnext : NextHarmless w.dev inode cnt) {r : Int} {rj : ReadJunk}
    (hread : readInode w.dev (w.fd fdd) rj.this = some (this, r)) (buf : Mem) :
    ∃ s, myRead w fdd buf cnt rj = some (s.len, s.buf, s.reads) ∧
      Copied w.dev this buf cnt (blocksOf cnt) s := by
  have hneeded := hfile.needed hthis hle
  have htable := hnext.inTable
  have hblocks : 10 < blocksOf cnt ∧ cnt ≤ 1024 * blocksOf cnt := by
    unfold blocksOf
    omega
  have hpointer := hnext.pointerAt rj.ib hfile hthis hle hcnt
  generalize hE : blocksOf cnt - 10 = E at hpointer
  have hten : 10 + 0 + E = blocksOf cnt := by omega
  obtain ⟨s1, h1, hs1⟩ := copyDirect_copied (k := 0) (n :=
    10) hcnt (fun e he => hneeded.data e (by omega)) (by omega)
    (copied_zero w.dev this buf rj.tmp cnt)
  obtain ⟨s2, h2, hs2⟩ := steps_copied rj.ib (e := 0) (n := E) hneeded (by omega) hs1
  rw [hten] at hs2
  have hind : E % 256 = 0 → -2 ^ 31 ≤ inodeIndBlock this (E / 256) * blocksize := by
    intro hfirst
    have hpos := (hnext.indirect (by omega)).1
    rw [inodeIndBlock_congr hthis (by omega)]
    unfold blocksize
    subst hE
    omega
  obtain ⟨s3, h3, hs3⟩ := stepAt_next rj.ib (e := E) hblocks.2 (by omega) (by omega) hind
    (by rw [hpointer]; exact hnext.readable) hs2
  refine ⟨s3, ?_, hs3⟩
  rw [myRead_large hcnt hread, List.range_eq_range', initial, h1, Option.bind_some, hE, steps_add, h2,
    Option.bind_some,
    steps, Nat.zero_add, h3]
  rfl

theorem readsFile (hopen : OpenOn w fdd inum) (hfile : StoredFile w.dev (inodeAt w.dev inum) size)
    (hcnt : 10240 < cnt) (hle : cnt ≤ size) (hnext : NextHarmless w.dev (inodeAt w.dev inum) cnt) :
    ReadsFile w fdd (inodeAt w.dev inum) size cnt := by
  intro buf junk
  obtain ⟨this, hread, hthis⟩ := hopen.readInode junk.this
  obtain ⟨s, hout, hs⟩ := myRead_copied hfile hthis hcnt hle hnext hread buf
  have htable := hnext.inTable
  have hall : min cnt (1024 * blocksOf cnt) = cnt := by
    unfold blocksOf
    omega
  obtain ⟨-, hlen, hbytes⟩ := hs
  rw [hall] at hlen hbytes
  refine ⟨_, hout, ?_, fun x hx => ?_, fun x hx => ?_, ?_⟩
  · dsimp only
    omega
  · dsimp only
    rw [hbytes, if_pos (by omega), fileByteAt, filePointer_congr hthis (by unfold blocksOf at *; omega)]
    rfl
  · dsimp only
    rw [hbytes, if_neg (by omega)]
  · obtain ⟨-, hreads, -⟩ := myRead_some hcnt hread hout
    rw [Nat.min_eq_left hle, hreads, hfile.trace_split hthis hle hcnt,
      hnext.trace junk.ib hfile hthis hle hcnt,
      List.append_nil]

/-- The memory of `ib` before it is read, with a block number that cannot be multiplied. -/
def badPointer : Mem := fun x => if x = 3 then 0x80 else 0

theorem indBlock_badPointer : indBlock badPointer 0 = -2 ^ 31 := by decide

theorem onDisk_of_canRead (hfirst : e % 256 = 0) (h : CanRead d this (fun _ => badPointer) e) :
    0 ≤ inodeIndBlock this (e / 256) ∧ inodeIndBlock this (e / 256) < d.devsize := by
  by_contra hnot
  have hread : readBlockAt d (inodeIndBlock this (e / 256)) badPointer = some badPointer := by
    have hmul := (h.indirect hfirst).2
    unfold readBlockAt
    split
    · rfl
    · rw [if_neg (by omega), if_pos (by omega)]
  have hpointer := h.pointer
  rw [pointerAt, ibAt, hread, Option.getD_some, hfirst, indBlock_badPointer] at hpointer
  unfold blocksize at hpointer
  omega

theorem nextHarmless (hopen : OpenOn w fdd inum) (hfile : StoredFile w.dev (inodeAt w.dev inum) size)
    (hcnt : 10240 < cnt) (hle : cnt ≤ size) (h : ReadsFile w fdd (inodeAt w.dev inum) size cnt) :
    NextHarmless w.dev (inodeAt w.dev inum) cnt := by
  let junk : ReadJunk := { this := fun _ => 0, tmp := fun _ => 0, ib := fun _ => badPointer }
  obtain ⟨out, hout, hright⟩ := h (fun _ => 0) junk
  obtain ⟨this, hread, hthis⟩ := hopen.readInode junk.this
  obtain ⟨-, hreads, hall⟩ := myRead_some hcnt hread hout
  have htable := hfile.table hle
  have hten : 10 + (blocksOf cnt - 10) = blocksOf cnt := by
    unfold blocksOf
    omega
  have hlast : CanRead w.dev this junk.ib (blocksOf cnt - 10) := hall _ (Nat.le_refl _)
  have hin : blocksOf cnt < 10 + 30 * 256 := by
    by_contra hfull
    have := (hlast.indirect (by omega)).1
    omega
  have hnone : (traceAt w.dev this junk.ib (blocksOf cnt - 10)).filter
      (fun b => b ∈ neededBlocks w.dev (inodeAt w.dev inum) cnt) = [] := by
    have honce := hright.once
    rw [Nat.min_eq_left hle, hreads, hfile.trace_split hthis hle hcnt] at honce
    exact List.self_eq_append_right.mp honce.symm
  have hnot : ∀ b ∈ traceAt w.dev this junk.ib (blocksOf cnt - 10),
    b ∉ neededBlocks w.dev (inodeAt w.dev inum) cnt := by
    intro b hb
    simpa using List.filter_eq_nil_iff.mp hnone b hb
  have hdisk : 0 ≤ inodeIndBlock this ((blocksOf cnt - 10) / 256) ∧
      inodeIndBlock this ((blocksOf cnt - 10) / 256) < w.dev.devsize := by
    by_cases hfirst : (blocksOf cnt - 10) % 256 = 0
    · exact onDisk_of_canRead hfirst hlast
    · obtain ⟨hpos, hlt⟩ := (hfile.needed hthis hle).indirect ((blocksOf cnt - 10) / 256) (by omega)
      unfold blockTableStart at hpos
      exact ⟨by omega, hlt⟩
  have hpointer : pointerAt w.dev this junk.ib (blocksOf cnt - 10) =
    filePointer w.dev (inodeAt w.dev inum) (blocksOf cnt) := by
    rw [pointerAt_data hdisk.1 hdisk.2, hten, filePointer_congr hthis hin]
  refine ⟨hin, fun hfirst => ?_, ?_, ?_⟩
  · rw [inodeIndBlock_congr hthis (by omega)] at hdisk
    refine ⟨hdisk.1, hdisk.2, hnot _ ?_⟩
    rw [traceAt, if_pos hfirst, inodeIndBlock_congr hthis (by omega)]
    exact List.mem_append_left _ (List.mem_singleton_self _)
  · rw [← hpointer]
    exact hlast.pointer
  · apply hnot
    rw [← hpointer]
    exact List.mem_append_right _ (List.mem_singleton_self _)

/-- **Reading.** The file is read right if its indirect part is needed, `cnt` does not go past its end, and the block
behind the last one can be read without harm. -/
theorem readsFile_iff (hopen : OpenOn w fdd inum) (hfile : StoredFile w.dev (inodeAt w.dev inum) size)
    (hpos : 1 ≤ cnt) :
    ReadsFile w fdd (inodeAt w.dev inum) size cnt ↔
      10240 < cnt ∧ cnt ≤ size ∧ NextHarmless w.dev (inodeAt w.dev inum) cnt := by
  constructor
  · intro h
    let junk : ReadJunk := { this := fun _ => 0, tmp := fun _ => 0, ib := fun _ _ => 0 }
    obtain ⟨out, hout, hright⟩ := h (fun _ => 0) junk
    have hcnt : 10240 < cnt := by
      by_contra hsmall
      rw [myRead_small hpos (by omega)] at hout
      cases hout
    obtain ⟨this, hread, -⟩ := hopen.readInode junk.this
    have hle : cnt ≤ size := by
      obtain ⟨hret, -, -⟩ := myRead_some hcnt hread hout
      have := hright.ret
      omega
    exact ⟨hcnt, hle, nextHarmless hopen hfile hcnt hle h⟩
  · rintro ⟨hcnt, hle, hnext⟩
    exact readsFile hopen hfile hcnt hle hnext

/-! ## A file of eleven blocks -/

/-- The `int`s of a disk where inode 20 is a file of blocks 3000 to 3009 and 3011. Its indirect block is 3010, and
3012 comes next. -/
def fileWord (i : Nat) : Nat :=
  if i = 5376 then fileType
  else if i = 5377 then 20
  else if i = 5378 then 11264
  else if 5384 ≤ i ∧ i < 5394 then 3000 + (i - 5384)
  else if i = 5394 then 3010
  else if i = 770560 then 3011
  else if i = 770561 then 3012
  else 0

def fileWorld : World where
  dev := { newDisk with file := fun x => BitVec.ofNat 8 (fileWord (x / 4) / 2 ^ (8 * (x % 4))), devsize := 102400 }
  fd := fun i => if i = 0 then 20 else -1
  cwdInode := 1

theorem openOn_fileWorld : OpenOn fileWorld 0 20 := ⟨by decide, rfl, by decide, by decide⟩

theorem filePointer_fileWorld : ∀ e < 12, filePointer fileWorld.dev (inodeAt fileWorld.dev 20) e =
    if e < 10 then 3000 + (e : Int) else 3001 + (e : Int) := by
  decide +kernel

theorem inodeIndBlock_fileWorld : inodeIndBlock (inodeAt fileWorld.dev 20) 0 = 3010 := by decide +kernel

theorem storedFile_fileWorld : StoredFile fileWorld.dev (inodeAt fileWorld.dev 20) 11264 := by
  have hblocks : blocksOf 11264 = 11 := rfl
  have hdev : fileWorld.dev.devsize = 102400 := rfl
  have hpointer := filePointer_fileWorld
  refine ⟨by decide +kernel, by decide +kernel, by decide, fun e he => ?_, fun i hi => ?_, fun e he e' he' heq => ?_,
    fun i hi e he => ?_⟩
  · rw [hpointer e (by omega)]
    unfold DataBlock blockTableStart
    omega
  · obtain rfl : i = 0 := by omega
    rw [inodeIndBlock_fileWorld]
    unfold DataBlock blockTableStart
    omega
  · rw [hpointer e (by omega), hpointer e' (by omega)] at heq
    omega
  · obtain rfl : i = 0 := by omega
    rw [inodeIndBlock_fileWorld, hpointer e (by omega)]
    omega

theorem nextHarmless_fileWorld : NextHarmless fileWorld.dev (inodeAt fileWorld.dev 20) 11000 := by
  have hpointer := filePointer_fileWorld
  have hblocks : blocksOf 11000 = 11 := rfl
  refine ⟨by decide, fun h => absurd h (by decide), ?_, ?_⟩
  · rw [hblocks, hpointer 11 (by omega)]
    decide
  · rw [mem_neededBlocks]
    rintro ⟨e, he, heq⟩
    rw [hblocks, hpointer 11 (by omega), hpointer e (by omega)] at heq
    omega

theorem fileWorld_readsFile : ReadsFile fileWorld 0 (inodeAt fileWorld.dev 20) 11264 11000 :=
  (readsFile_iff openOn_fileWorld storedFile_fileWorld (by decide)).mpr
    ⟨by decide, by decide, nextHarmless_fileWorld⟩

/-- One byte of it: the loops over the other blocks run too, and the last copy has a negative number of bytes. -/
theorem fileWorld_not_readsFile : OpenOn fileWorld 0 20 ∧
    StoredFile fileWorld.dev (inodeAt fileWorld.dev 20) 11264 ∧
    ¬ ReadsFile fileWorld 0 (inodeAt fileWorld.dev 20) 11264 1 := by
  refine ⟨openOn_fileWorld, storedFile_fileWorld, fun h => ?_⟩
  obtain ⟨out, hout, -⟩ := h (fun _ => 0) ⟨fun _ => 0, fun _ => 0, fun _ _ => 0⟩
  rw [myRead_small (Nat.le_refl 1) (by decide)] at hout
  cases hout

end SystemProjects.Simdisk
