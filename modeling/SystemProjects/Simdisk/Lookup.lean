import SystemProjects.Lib.Split
import SystemProjects.Simdisk.Creat
import SystemProjects.Simdisk.DirCodec

/-!
# Looking up a path

The directories of a disk and what a path leads to in them, and what `find` does with the entries that are stored.
-/

open SystemProjects.Memory SystemProjects.Lists

namespace SystemProjects.Simdisk

variable {w : World} {d : Device} {direc direc' name name' arg tmp : Mem} {path c : CString}
  {names : List CString} {dir : Bool} {i j k n m x fuel : Nat}

/-! ## What is claimed -/

/-- The components of a path, without a slash at its begin or its end. -/
def components (path : CString) : List CString :=
  let rel := if path.head? = some slash then path.tail else path
  (if path.getLast? = some slash then rel.dropLast else rel).splitOn slash

structure ProperPath (path : CString) : Prop where
  ne : path ≠ []
  chars : ∀ c ∈ path, c ≠ 0
  levels : (components path).length ≤ maxLevel
  lengths : ∀ c ∈ components path, c.length < maxFileNameLength

/-- The names lead from directory `n` to `inum`: the last one to an entry of the type, those before to directories. -/
def Leads (d : Device) (type : Nat) : List CString → Nat → Nat → Prop
  | [], n, inum => n = inum
  | c :: cs, n, inum =>
    ∃ m : Nat, HasEntry d n c m (if cs = [] then type else dirType : Nat) ∧ Leads d type cs m inum

def startOf (w : World) (path : CString) : Nat := if path.head? = some slash then 1 else w.cwdInode.toNat

def Resolves (w : World) (path : CString) (inum : Nat) : Prop :=
  if path = [slash] then inum = 1
  else Leads w.dev (if path.getLast? = some slash then dirType else fileType) (components path)
    (startOf w path) inum

/-- Blocks are on the disk, entries have one of the two types and the number of an inode, and no two of them have
name and type in common. -/
structure DirectoryOk (d : Device) (n : Nat) : Prop where
  pos : 1 ≤ n
  lt : n < maxFileNum
  blocks : ∀ j < 10, inodeBlock (inodeAt d n) j < d.devsize
  entries : ∀ name inum type, HasEntry d n name inum type →
    (type = fileType ∨ type = dirType) ∧ 1 ≤ inum ∧ inum < maxFileNum
  unique : ∀ name inum inum' type, HasEntry d n name inum type → HasEntry d n name inum' type → inum = inum'

/-- The directory that the path starts from, the root or the working directory, and the directories below it. -/
inductive IsDirectory (w : World) (path : CString) : Nat → Prop
  | start : IsDirectory w path (startOf w path)
  | sub {n m : Nat} {name : CString} (h : IsDirectory w path n) (he : HasEntry w.dev n name m dirType) :
    IsDirectory w path m

structure WellFormed (w : World) (path : CString) : Prop where
  cwd : path.head? ≠ some slash → 0 ≤ w.cwdInode
  directories : ∀ n, IsDirectory w path n → DirectoryOk w.dev n

/-- The inode is found if the path leads to one, and `NULL` comes back if not. -/
def FindsPath (w : World) (path : CString) : Prop :=
  ∀ junk, (∀ inum, Resolves w path inum →
      ∃ inode, find w path junk = some (some inode) ∧ Agree inode (inodeAt w.dev inum) 0 256) ∧
    ((∀ inum, ¬ Resolves w path inum) → find w path junk = some none)

/-! ## What decides -/

def firstBlock (inode : Mem) : Option Int := ((List.range 10).map (inodeBlock inode)).find? (0 < ·)

def storedPart (direc : Mem) : Mem := fun x => if x < blocksize then direc x else 0

/-- The loop over the entries finds one of those that are stored. -/
def FoundStored (direc : Mem) (name : CString) (dir : Bool) (k : Nat) : Prop :=
  findDentry (storedPart direc) (cstring name) dir 32 0 = some (some k)

/-- Name after name is found in the first block in use of the inode before, down to an inode that is `last`. Without a
block in use the search is over. -/
def Settled (d : Device) (dir : Bool) (last : Mem → Prop) : List CString → Mem → Mem → Prop
  | [], inode, _ => last inode
  | c :: cs, inode, direc => ∀ b, firstBlock inode = some b →
    ∃ direc' k inode' r, readBlockAt d b direc = some direc' ∧ FoundStored direc' c dir k ∧
      readInode d (dentryInode direc' k) inode = some (inode', r) ∧ Settled d dir last cs inode' direc'

/-! ## The path in rows -/

/-- Row `i` of `arg`, with its `NUL`. -/
def RowIs (arg : Mem) (i : Nat) (c : CString) : Prop :=
    ∀ x ≤ c.length, arg (maxFileNameLength * i + x) = cstring c x

def Rows (arg : Mem) : Nat → List CString → Prop
  | _, [] => True
  | i, c :: cs => RowIs arg i c ∧ Rows arg (i + 1) cs

theorem cstring_length (c : CString) : cstring c c.length = 0 := by simp [cstring]

theorem parse_piece (hj : j < maxLevel) (hc : slash ∉ c) (hk : k + c.length ≤ maxFileNameLength)
    (rest : CString) (arg : Mem) :
    ∃ arg', parse arg j k (c ++ rest) = parse arg' j (k + c.length) rest ∧
      (∀ x < maxFileNameLength * j + k, arg' x = arg x) ∧
      ∀ x < c.length, arg' (maxFileNameLength * j + k + x) = cstring c x := by
  induction c generalizing k arg with
  | nil => exact ⟨arg, rfl, fun x _ => rfl, fun x hx => absurd hx (Nat.not_lt_zero x)⟩
  | cons a c ih =>
    obtain ⟨ha, hc⟩ := not_or.mp (List.mem_cons.not.mp hc)
    rw [List.length_cons] at hk ⊢
    obtain ⟨arg', hparse, hbefore, hrow⟩ := ih (k := k + 1) hc (by omega)
      fun x => if x = maxFileNameLength * j + k then a else arg x
    refine ⟨arg', ?_, fun x hx => ?_, fun x hx => ?_⟩
    · rw [List.cons_append, parse, if_neg (by omega), if_neg (by omega), if_pos (Ne.symm ha), hparse,
        Nat.add_right_comm,
        Nat.add_assoc]
    · rw [hbefore x (by omega), if_neg (by omega)]
    · cases x with
      | zero =>
        rw [hbefore _ (by omega), if_pos (by omega)]
        rfl
      | succ x =>
        have hshift : maxFileNameLength * j + k + (x + 1) = maxFileNameLength * j + (k + 1) + x := by omega
        rw [hshift, hrow x (by omega)]
        rfl

theorem parse_component (hj : j < maxLevel) (hc : slash ∉ c) (hlen : c.length < maxFileNameLength)
    (rest : CString) (arg : Mem) :
    ∃ arg', parse arg j 0 (c ++ slash :: rest) = parse arg' (j + 1) 0 rest ∧
      (∀ x < maxFileNameLength * j, arg' x = arg x) ∧ RowIs arg' j c := by
  obtain ⟨arg', hparse, hbefore, hrow⟩ := parse_piece (k := 0) hj hc (by omega) (slash :: rest) arg
  refine ⟨fun x => if x = maxFileNameLength * j + (0 + c.length) then 0 else arg' x, ?_, fun x hx =>
    ?_, fun x hx => ?_⟩
  · rw [hparse, parse, if_neg (by omega), if_neg (by omega), if_neg (by simp)]
  · dsimp only
    rw [if_neg (by omega), hbefore x (by omega)]
  · dsimp only
    by_cases hend : x = c.length
    · rw [if_pos (by omega), hend, cstring_length]
    · rw [if_neg (by omega), ← hrow x (by omega), Nat.add_zero]

theorem RowIs.congr {arg' : Mem} (h : RowIs arg i c) (hlen : c.length < maxFileNameLength)
    (heq : ∀ x < maxFileNameLength * (i + 1), arg' x = arg x) : RowIs arg' i c := by
  intro x hx
  rw [heq _ (by rw [Nat.mul_succ]; omega)]
  exact h x hx

theorem parse_components (hj : j + names.length ≤ maxLevel)
    (hnames : ∀ c ∈ names, slash ∉ c ∧ c.length < maxFileNameLength) (rest : CString) (arg : Mem) :
    ∃ arg', parse arg j 0 (names.flatMap (· ++ [slash]) ++ rest) = parse arg' (j + names.length) 0 rest ∧
      (∀ x < maxFileNameLength * j, arg' x = arg x) ∧ Rows arg' j names := by
  induction names generalizing j arg with
  | nil => exact ⟨arg, rfl, fun x _ => rfl, trivial⟩
  | cons c cs ih =>
    obtain ⟨hc, hlen⟩ := hnames c List.mem_cons_self
    rw [List.length_cons] at hj ⊢
    obtain ⟨arg1, hparse1, hbefore1, hrow1⟩ :=
      parse_component (j := j) (by omega) hc hlen (cs.flatMap (· ++ [slash]) ++ rest)
      arg
    obtain ⟨arg', hparse, hbefore, hrows⟩ := ih (j :=
      j + 1) (by omega) (fun a ha => hnames a (List.mem_cons_of_mem c ha)) arg1
    refine ⟨arg', ?_, fun x hx => ?_, hrow1.congr hlen hbefore, hrows⟩
    · have hjoin : (c :: cs).flatMap (· ++ [slash]) ++ rest =
        c ++ slash :: (cs.flatMap (· ++ [slash]) ++ rest) := by simp
      rw [hjoin, hparse1, hparse, Nat.add_right_comm, Nat.add_assoc]
    · rw [hbefore x (by rw [Nat.mul_succ]; omega), hbefore1 x hx]

/-! ## Names -/

theorem strEq_cstring {a b : Mem} (h : ∀ x ≤ c.length, b x = cstring c x) (hk : k ≤ c.length) (n : Nat) :
    strEq a b k n = strEq a (cstring c) k n := by
  induction n generalizing k with
  | zero => rfl
  | succ n ih =>
    rw [strEq, strEq, h k hk]
    split
    · rfl
    · rename_i heq
      split
      · rfl
      · rename_i hne
        apply ih
        by_contra hend
        rw [(by omega : k = c.length), cstring_length, not_not] at heq
        exact hne ((by omega : k = c.length) ▸ heq)

theorem strEq_congr {a a' b : Mem} (h : ∀ x, k ≤ x → x < k + n → a x = a' x) :
    strEq a b k n = strEq a' b k n := by
  induction n generalizing k with
  | zero => rfl
  | succ n ih =>
    rw [strEq, strEq, h k (Nat.le_refl k) (by omega), ih fun x hx hx' => h x (by omega) (by omega)]

theorem exists_strEq {a : Mem} (hk : k ≤ c.length) (hn : c.length < k + n) :
    ∃ r, strEq a (cstring c) k n = some r := by
  induction n generalizing k with
  | zero => omega
  | succ n ih =>
    rw [strEq]
    split
    · exact ⟨false, rfl⟩
    · rename_i heq
      split
      · exact ⟨true, rfl⟩
      · rename_i hne
        apply ih _ (by omega)
        by_contra hend
        rw [(by omega : k = c.length), cstring_length, not_not] at heq
        exact hne ((by omega : k = c.length) ▸ heq)

theorem strEq_true {a : Mem} (hc : ∀ x ∈ c, x ≠ 0) (h : strEq a (cstring c) k n = some true) :
    ∀ x, k ≤ x → x ≤ c.length → a x = cstring c x := by
  induction n generalizing k with
  | zero => cases h
  | succ n ih =>
    intro x hx hx'
    rw [strEq] at h
    split at h
    · cases h
    · rename_i heq
      have hak : a k = cstring c k := not_not.mp heq
      by_cases hxk : x = k
      · rw [hxk, hak]
      · have hlt : k < c.length := by omega
        have hne : cstring c k ≠ 0 := by
          rw [cstring, List.getElem?_eq_getElem hlt, Option.getD_some]
          exact hc _ (List.getElem_mem hlt)
        rw [if_neg (by rw [hak]; exact hne)] at h
        exact ih h x (by omega) hx'

theorem strEq_same {a : Mem} (h : ∀ x ≤ c.length, a x = cstring c x) (hk : k ≤ c.length)
    (hn : c.length < k + n) :
    strEq a (cstring c) k n = some true := by
  induction n generalizing k with
  | zero => omega
  | succ n ih =>
    rw [strEq, if_neg (not_not.mpr (h k hk))]
    split
    · rfl
    · rename_i hne
      apply ih _ (by omega)
      by_contra hend
      rw [(by omega : k = c.length), h _ (Nat.le_refl _), cstring_length] at hne
      exact hne rfl

theorem strEq_open {a b : Mem} (h : ∀ x < k + n, a x = b x) (hb : ∀ x, b x ≠ 0) : strEq a b k n = none := by
  induction n generalizing k with
  | zero => rfl
  | succ n ih =>
    rw [strEq, if_neg (not_not.mpr (h k (by omega))), if_neg (by rw [h k (by omega)]; exact hb k)]
    exact ih fun x hx => h x (by omega)

/-! ## The loop over the entries -/

def skipped (direc : Mem) (dir : Bool) (k : Nat) : Bool :=
  dentryInode direc k = 0 ∨ dir ∧ dentryType direc k = fileType ∨ ¬ dir ∧ dentryType direc k = dirType

theorem findDentry_step (direc name : Mem) (dir : Bool) (fuel k : Nat) :
    findDentry direc name dir (fuel + 1) k =
    if 32 ≤ k then some none
    else if skipped direc dir k then findDentry direc name dir fuel (k + 1)
    else (strEq (dentryName direc k) name 0 maxFileNameLength).bind fun eq =>
      if eq then some (some k) else findDentry direc name dir fuel
        (if dentryLength direc k = 64 then k + 2 else k + 1) := by
  rw [findDentry]
  unfold skipped
  by_cases hend : 32 ≤ k
  · rw [if_pos hend, if_pos hend]
  by_cases hunused : dentryInode direc k = 0
  · simp [hunused]
  by_cases hfile : dir ∧ dentryType direc k = fileType
  · simp [hfile]
  by_cases hdir : ¬ dir ∧ dentryType direc k = dirType
  · simp [hdir]
  · simp only [hunused, hfile, hdir, or_self, decide_false, Bool.false_eq_true, if_false]

theorem findDentry_some (h : findDentry direc name dir fuel k = some (some i)) :
    k ≤ i ∧ i < 32 ∧ skipped direc dir i = false ∧
      strEq (dentryName direc i) name 0 maxFileNameLength = some true := by
  induction fuel generalizing k with
  | zero => cases h
  | succ fuel ih =>
    rw [findDentry_step] at h
    split at h
    · cases h
    · split at h
      · obtain ⟨hle, hrest⟩ := ih h
        exact ⟨by omega, hrest⟩
      · rename_i hlt hskip
        obtain ⟨eq, heq, h⟩ := Option.bind_eq_some_iff.mp h
        split at h
        · rename_i htrue
          cases h
          exact ⟨Nat.le_refl _, by omega, by simpa using hskip, htrue ▸ heq⟩
        · obtain ⟨hle, hrest⟩ := ih h
          refine ⟨?_, hrest⟩
          split at hle <;> omega

theorem dentry_eq (dir : Bool) (h : dentry direc k = dentry direc' k) :
    skipped direc dir k = skipped direc' dir k ∧ dentryLength direc k = dentryLength direc' k ∧
      ∀ x < maxFileNameLength, dentryName direc k x = dentryName direc' k x := by
  have hinode : dentryInode direc k = dentryInode direc' k := congrArg DirEntry.inode h
  have htype : dentryType direc k = dentryType direc' k := congrArg DirEntry.type h
  refine ⟨by rw [skipped, skipped, hinode, htype], congrArg DirEntry.length h, fun x hx => ?_⟩
  exact List.map_inj_left.mp (congrArg DirEntry.name h) x (List.mem_range.mpr hx)

theorem findDentry_congr (h : ∀ k < n, dentry direc k = dentry direc' k) (hi : i < n) :
    findDentry direc name dir fuel k = some (some i) ↔ findDentry direc' name dir fuel k = some (some i) := by
  induction fuel generalizing k with
  | zero => rfl
  | succ fuel ih =>
    by_cases hk : k < n
    · obtain ⟨hskip, hlength, hname⟩ := dentry_eq dir (h k hk)
      rw [findDentry_step, findDentry_step, hskip, hlength, strEq_congr (fun x _ hx => hname x (by omega))]
      split
      · rfl
      · split
        · exact ih
        · cases strEq (dentryName direc' k) name 0 maxFileNameLength with
          | none => rw [Option.bind_none, Option.bind_none]
          | some eq =>
            rw [Option.bind_some, Option.bind_some]
            split
            · rfl
            · exact ih
    · refine iff_of_false (fun hfound => ?_) fun hfound => ?_
      · have := (findDentry_some hfound).1
        omega
      · have := (findDentry_some hfound).1
        omega

/-! ## Entries that are stored -/

theorem dentry_storedPart (direc : Mem) (hk : k < 16) : dentry (storedPart direc) k = dentry direc k := by
  apply dentry_congr
  intro x _ hx
  unfold storedPart blocksize
  rw [if_pos (by omega)]

theorem storedPart_unused (hk : 16 ≤ k) : dentryInode (storedPart direc) k = 0 := by
  have hzero : loadInt (storedPart direc) (64 * k) = loadInt (fun _ => 0) (64 * k) := by
    apply loadInt_congr
    intro x hx _
    unfold storedPart blocksize
    rw [if_neg (by omega)]
  rw [dentryInode, hzero]
  rfl

theorem storedPart_congr (h : Agree direc direc' 0 blocksize) : storedPart direc = storedPart direc' := by
  funext x
  unfold storedPart
  split
  · exact h x (Nat.zero_le x) ‹_›
  · rfl

theorem foundStored_iff : FoundStored direc c dir i ↔ i < 16 ∧ findDentry direc (cstring c) dir 32 0 =
    some (some i) := by
  have hlt : FoundStored direc c dir i → i < 16 := by
    intro h
    have hskip := (findDentry_some h).2.2.1
    by_contra hge
    rw [skipped, storedPart_unused (by omega)] at hskip
    simp at hskip
  constructor
  · intro h
    exact ⟨hlt h, (findDentry_congr (fun k hk => dentry_storedPart direc hk) (hlt h)).mp h⟩
  · rintro ⟨hi, h⟩
    exact (findDentry_congr (fun k hk => dentry_storedPart direc hk) hi).mpr h

/-! ## What may lie behind them -/

/-- An entry of the right type and the name, with an inode number that overflows. -/
def badEntry (dir : Bool) (name : Mem) : Mem := fun x =>
  if x = 3 then 0x80
  else if x = 4 then (if dir then 2 else 1)
  else if 12 ≤ x then name (x - 12)
  else 0

def badDirec (dir : Bool) (name : Mem) : Mem := fun x => badEntry dir name (x % 64)

/-- The entries behind the block are bad ones. -/
structure Bad (dir : Bool) (name direc : Mem) : Prop where
  inode : ∀ k, 16 ≤ k → k < 32 → dentryInode direc k = -2 ^ 31
  skip : ∀ k, 16 ≤ k → k < 32 → skipped direc dir k = false
  name : ∀ k, 16 ≤ k → k < 32 → ∀ x < maxFileNameLength, dentryName direc k x = name x

theorem badEntry_inode : loadInt (badEntry dir name) 0 = -2 ^ 31 := by
  have hload : load32 (badEntry dir name) 0 = 2 ^ 31 := by simp [load32, badEntry]
  rw [loadInt, hload]
  rfl

theorem badEntry_type : loadInt (badEntry dir name) 4 = if dir then 2 else 1 := by
  have hload : load32 (badEntry dir name) 4 = if dir then 2 else 1 := by cases dir <;> simp [load32, badEntry]
  rw [loadInt, hload]
  cases dir <;> rfl

theorem loadInt_badDirec (hi : i + 4 ≤ 64) : loadInt (badDirec dir name) (64 * k + i) =
    loadInt (badEntry dir name) i := by
  have hmod : ∀ j < 4, (64 * k + i + j) % 64 = i + j := fun j hj => by omega
  unfold loadInt load32 badDirec
  rw [hmod 1 (by omega), hmod 2 (by omega), hmod 3 (by omega), ← Nat.add_zero (64 * k + i),
    hmod 0 (by omega), Nat.add_zero]

theorem bad_of_badDirec (h : ∀ x, blocksize ≤ x → direc x = badDirec dir name x) : Bad dir name direc := by
  have hload : ∀ k, 16 ≤ k → ∀ i, i + 4 ≤ 64 → loadInt direc (64 * k + i) =
    loadInt (badEntry dir name) i := by
    intro k hk i hi
    rw [← loadInt_badDirec (k := k) hi]
    apply loadInt_congr
    intro x hx _
    exact h x (by unfold blocksize; omega)
  have hinode : ∀ k, 16 ≤ k → dentryInode direc k = -2 ^ 31 := fun k hk =>
    (hload k hk 0 (by decide)).trans badEntry_inode
  have htype : ∀ k, 16 ≤ k → dentryType direc k = if dir then 2 else 1 := fun k hk =>
    (hload k hk 4 (by decide)).trans badEntry_type
  refine ⟨fun k hk _ => hinode k hk, fun k hk _ => ?_, fun k hk _ x hx => ?_⟩
  · rw [skipped, hinode k hk, htype k hk]
    cases dir <;> rfl
  · have hmod : (64 * k + 12 + x) % 64 = 12 + x := by
      unfold maxFileNameLength at hx
      omega
    rw [dentryName, h _ (by unfold blocksize; omega), badDirec, hmod, badEntry, if_neg (by omega),
      if_neg (by omega),
      if_pos (by omega), Nat.add_sub_cancel_left]

/-- From its begin, the loop finds a stored entry, or it stops without an outcome, or it gets behind them. -/
theorem findDentry_behind (Q : Option (Option Nat) → Prop)
    (hq : ∀ fuel k, 16 ≤ k → k ≤ 17 → Q (findDentry direc name dir (fuel + 1) k)) (hk : k ≤ 17)
    (hfuel : 18 ≤ k + fuel) :
    (∃ e < 16, findDentry direc name dir fuel k = some (some e)) ∨ findDentry direc name dir fuel k = none ∨
      Q (findDentry direc name dir fuel k) := by
  induction fuel generalizing k with
  | zero => omega
  | succ fuel ih =>
    by_cases hbehind : 16 ≤ k
    · exact .inr (.inr (hq fuel k hbehind hk))
    · rw [findDentry_step, if_neg (by omega)]
      split
      · exact ih (by omega) (by omega)
      · cases strEq (dentryName direc k) name 0 maxFileNameLength with
        | none => exact .inr (.inl rfl)
        | some eq =>
          rw [Option.bind_some]
          cases eq with
          | true => exact .inl ⟨k, by omega, rfl⟩
          | false =>
            rw [if_neg Bool.false_ne_true]
            split
            · exact ih (by omega) (by omega)
            · exact ih (by omega) (by omega)

theorem exists_findDentry (hc : c.length < maxFileNameLength) (direc : Mem) (dir : Bool) (fuel k : Nat) :
    ∃ r, findDentry direc (cstring c) dir fuel k = some r := by
  induction fuel generalizing k with
  | zero => exact ⟨none, rfl⟩
  | succ fuel ih =>
    rw [findDentry_step]
    split
    · exact ⟨none, rfl⟩
    · split
      · exact ih _
      · obtain ⟨eq, heq⟩ := exists_strEq (a := dentryName direc k) (Nat.zero_le c.length)
          (by omega : c.length < 0 + maxFileNameLength)
        rw [heq, Option.bind_some]
        split
        · exact ⟨some k, rfl⟩
        · exact ih _

theorem findDentry_bad (hc : c.length < maxFileNameLength) (hbad : Bad dir (cstring c) direc)
    (hnot : ∀ i, ¬ FoundStored direc c dir i) :
    ∃ e, findDentry direc (cstring c) dir 32 0 = some (some e) ∧ dentryInode direc e = -2 ^ 31 := by
  have hq : ∀ fuel k, 16 ≤ k → k ≤ 17 →
      ∃ e, findDentry direc (cstring c) dir (fuel + 1) k = some (some e) ∧ dentryInode direc e = -2 ^ 31 := by
    intro fuel k hk hk'
    have heq : strEq (dentryName direc k) (cstring c) 0 maxFileNameLength = some true :=
      strEq_same (fun x hx => hbad.name k hk (by omega) x (by omega)) (Nat.zero_le _) (by omega)
    refine ⟨k, ?_, hbad.inode k hk (by omega)⟩
    rw [findDentry_step, if_neg (by omega), hbad.skip k hk (by omega), heq]
    rfl
  obtain ⟨r, hr⟩ := exists_findDentry hc direc dir 32 0
  rcases findDentry_behind (fun r => ∃ e, r = some (some e) ∧ dentryInode direc e = -2 ^ 31) hq
    (Nat.zero_le 17) (by decide : 18 ≤ 0 + 32) with
    ⟨e, he, hfound⟩ | hnone | hbehind
  · exact absurd (foundStored_iff.mpr ⟨he, hfound⟩) (hnot e)
  · rw [hr] at hnone
    cases hnone
  · exact hbehind

theorem findDentry_open (hname : ∀ x, name x ≠ 0) (hbad : Bad dir name direc) :
    findDentry direc name dir 32 0 = none := by
  have hq : ∀ fuel k, 16 ≤ k → k ≤ 17 → findDentry direc name dir (fuel + 1) k = none := by
    intro fuel k hk hk'
    have heq : strEq (dentryName direc k) name 0 maxFileNameLength = none :=
      strEq_open (fun x hx => hbad.name k hk (by omega) x (by omega)) hname
    rw [findDentry_step, if_neg (by omega), hbad.skip k hk (by omega), heq]
    rfl
  rcases findDentry_behind (fun r => r = none) hq (Nat.zero_le 17) (by decide : 18 ≤ 0 + 32) with
    ⟨e, he, hfound⟩ | hnone | hbehind
  · exact absurd hfound (findDentry_unterminated hname _ _ _)
  · exact hnone
  · exact hbehind

end SystemProjects.Simdisk
