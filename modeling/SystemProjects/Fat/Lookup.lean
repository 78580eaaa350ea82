import SystemProjects.Fat.Paths

/-!
# What a lookup depends on
-/

open SystemProjects.Memory

namespace SystemProjects.Fat

variable {v v' : Volume} {d d' : Dir} {name rest path : List Byte} {cs tail : List (List Byte)}
    {n s i j : Nat}
  {e : FatEntry} {file : FatFile}

/-! ## Entries -/

theorem FatEntry.copy_apply {x : Nat} (hx : x < entrySize) : e.copy x = e x := by
  rw [copy, memcpy, if_pos (by omega), Nat.sub_zero]

theorem FatEntry.copy_congr {e e' : FatEntry} (h : ∀ x < entrySize, e x = e' x) : e.copy = e'.copy := by
  funext x
  simp only [copy, memcpy]
  split
  · exact h _ (by omega)
  · rfl

@[simp] theorem FatEntry.name0_copy : e.copy.name0 = e.name0 := copy_apply (by decide)

@[simp] theorem FatEntry.directory_copy : e.copy.directory = e.directory := by
  rw [directory, copy_apply (by decide), directory]

@[simp] theorem FatEntry.startCluster_copy : e.copy.startCluster = e.startCluster := by
  rw [startCluster, load16, copy_apply (by decide), copy_apply (by decide), startCluster, load16]

@[simp] theorem FatEntry.fileSize_copy : e.copy.fileSize = e.fileSize :=
  load32_congr fun _ _ hx => copy_apply (by rw [entrySize]; omega)

/-- The volumes differ in one entry, which is now `e`. -/
structure Replaced (v v' : Volume) (d : Dir) (i : Nat) (e : FatEntry) : Prop where
  slots : v'.dirSlots = v.dirSlots
  entry : v'.entryAt d i = e.copy
  others : ∀ d' j, (d', j) ≠ (d, i) → v'.entryAt d' j = v.entryAt d' j

theorem Replaced.other (h : Replaced v v' d i e) (hj : j ≠ i) : v'.entryAt d j = v.entryAt d j :=
  h.others d j fun heq => hj (Prod.ext_iff.mp heq).2

theorem entryAt_setData_other {c : Nat} {block : Mem} (hd : d ≠ .cluster c) :
    (v.setData c block).entryAt d i = v.entryAt d i := by
  cases d with
  | root => rfl
  | cluster b =>
    have hne : (b : Int) ≠ c := fun heq => hd (congrArg Dir.cluster (Int.ofNat_inj.mp heq))
    simp only [Volume.entryAt, Volume.dir, Volume.setData, if_neg hne]

theorem entryAt_setData {c : Nat} {block : Mem} :
    (v.setData c block).entryAt (.cluster c) i = (entryOf block i).copy := by
  simp only [Volume.entryAt, Volume.dir, Volume.setData, if_true]

theorem dirSlots_setData {c : Int} {block : Mem} : (v.setData c block).dirSlots = v.dirSlots := by
  funext d
  cases d <;> rfl

theorem copy_entryOf_memcpy {dir : Mem} (hj : j ≠ i) :
    (entryOf (memcpy dir (entrySize * i) e entrySize) j).copy = (entryOf dir j).copy :=
  FatEntry.copy_congr fun x hx => memcpy_other (by unfold entrySize at *; omega)

theorem copy_entryOf_memcpy_self {dir : Mem} :
    (entryOf (memcpy dir (entrySize * i) e entrySize) i).copy = e.copy :=
  FatEntry.copy_congr fun _ hx => memcpy_self hx

theorem copy_entryOf_endMark {dir : Mem} (hj : j ≠ i) :
    (entryOf (memcpy dir (entrySize * i) (fun _ => 0) 1) j).copy = (entryOf dir j).copy :=
  FatEntry.copy_congr fun x hx => memcpy_other (by unfold entrySize at *; omega)

theorem replaced_setData {c : Nat} {block : Mem}
    (hblock : ∀ j, j ≠ i → (entryOf block j).copy = (entryOf (v.data c) j).copy)
    (hentry : (entryOf block i).copy = e.copy) : Replaced v (v.setData c block) (.cluster c) i e := by
  refine ⟨dirSlots_setData, entryAt_setData.trans hentry, fun d' j hne => ?_⟩
  by_cases hd : d' = .cluster c
  · subst hd
    rw [entryAt_setData, hblock j fun heq => hne (by rw [heq])]
    rfl
  · exact entryAt_setData_other hd

theorem slot_room (hi : i < v.slots) : entrySize * i + entrySize ≤ v.clusterSize := by
  unfold Volume.slots entrySize at hi
  unfold entrySize
  omega

theorem fatUpdateFileEntry_index (file : FatFile) (hindex : file.dirIndex = some i) (hi : i < v.slots) :
    fatUpdateFileEntry v file =
      some (v.setData file.dirCluster (memcpy (v.data file.dirCluster) (entrySize * i) file.entry entrySize),
        { file with dirIndex := some i }, SUCCESS) := by
  unfold fatUpdateFileEntry
  rw [hindex]
  exact if_pos (slot_room hi)

theorem fatUpdateFileEntry_slot {c : Nat} (file : FatFile) (hindex : file.dirIndex = some i)
    (hdir : file.dirCluster = c) (hi : i < v.slots) :
    ∃ v', fatUpdateFileEntry v file = some (v', { file with dirIndex := some i }, SUCCESS) ∧
      Replaced v v' (.cluster c) i file.entry := by
  refine ⟨_, fatUpdateFileEntry_index file hindex hi, ?_⟩
  rw [hdir]
  exact replaced_setData (fun j hj => copy_entryOf_memcpy hj) copy_entryOf_memcpy_self

def endSlot (v : Volume) (dirCluster : Int) : Option Nat :=
  (List.range v.slots).find? fun i =>
    (entryOf (v.data dirCluster) i).fileSize ≠ 0xFFFFFFFF ∧ (entryOf (v.data dirCluster) i).name0 = 0

/-- The entry `e` is put at the end of a directory, and the end after it. -/
structure Appended (v v' : Volume) (d : Dir) (i : Nat) (e : FatEntry) : Prop where
  slots : v'.dirSlots = v.dirSlots
  room : i + 1 < v.dirSlots d
  wasEnd : (v.entryAt d i).name0 = 0
  entry : v'.entryAt d i = e.copy
  isEnd : (v'.entryAt d (i + 1)).name0 = 0
  others : ∀ d' j, (d', j) ≠ (d, i) → (d', j) ≠ (d, i + 1) → v'.entryAt d' j = v.entryAt d' j

theorem endSlot_eq_some {c : Int} (h : endSlot v c = some i) :
    i < v.slots ∧ (entryOf (v.data c) i).name0 = 0 := by
  unfold endSlot at h
  obtain ⟨hend, hi, -⟩ := List.find?_range_eq_some.mp h
  exact ⟨List.mem_range.mp hi, (of_decide_eq_true hend).2⟩

theorem fatUpdateFileEntry_no_end (file : FatFile) (hindex : file.dirIndex = none)
    (hend : endSlot v file.dirCluster = none) :
    fatUpdateFileEntry v file = none := by
  have hroom : ¬ entrySize * v.slots + entrySize ≤ v.clusterSize := by
    unfold Volume.slots entrySize
    omega
  unfold endSlot at hend
  rw [fatUpdateFileEntry, hindex]
  dsimp only
  rw [hend]
  exact if_neg hroom

theorem fatUpdateFileEntry_last (file : FatFile) (hindex : file.dirIndex = none)
    (hend : endSlot v file.dirCluster = some i) (hi : i + 1 ≥ v.slots) :
    fatUpdateFileEntry v file = some (v, { file with dirIndex := some i }, FAIL) := by
  unfold endSlot at hend
  rw [fatUpdateFileEntry, hindex]
  dsimp only
  rw [hend]
  exact if_pos hi

/-- A copy over slot `i`, after an end mark has been put into the next one. -/
def appendBlock (dir : Mem) (i : Nat) (e : FatEntry) : Mem :=
  memcpy (memcpy dir (entrySize * (i + 1)) (fun _ => 0) 1) (entrySize * i) e entrySize

theorem appendBlock_self {dir : Mem} : (entryOf (appendBlock dir i e) i).copy = e.copy :=
    copy_entryOf_memcpy_self

theorem appendBlock_next {dir : Mem} : (entryOf (appendBlock dir i e) (i + 1)).copy.name0 = 0 := by
  rw [appendBlock, copy_entryOf_memcpy (by omega), FatEntry.name0_copy, FatEntry.name0, entryOf]
  exact memcpy_self (by omega)

theorem appendBlock_other {dir : Mem} (hj : j ≠ i) (hj' : j ≠ i + 1) :
    (entryOf (appendBlock dir i e) j).copy = (entryOf dir j).copy := by
  rw [appendBlock, copy_entryOf_memcpy hj]
  exact copy_entryOf_endMark hj'

theorem fatUpdateFileEntry_free (file : FatFile) (hindex : file.dirIndex = none)
    (hend : endSlot v file.dirCluster = some i) (hi : i + 1 < v.slots) :
    fatUpdateFileEntry v file =
      some (v.setData file.dirCluster (appendBlock (v.data file.dirCluster) i file.entry),
        { file with dirIndex := some i }, SUCCESS) := by
  unfold endSlot at hend
  unfold fatUpdateFileEntry
  rw [hindex]
  dsimp only
  rw [hend]
  dsimp only
  rw [if_neg (by omega), writeEntry, if_pos (slot_room (by omega))]
  rfl

theorem fatUpdateFileEntry_append {c : Nat} (file : FatFile) (hindex : file.dirIndex = none)
    (hdir : file.dirCluster = c) (hend : endSlot v c = some i) (hi : i + 1 < v.slots) :
    ∃ v', fatUpdateFileEntry v file = some (v', { file with dirIndex := some i }, SUCCESS) ∧
      Appended v v' (.cluster c) i file.entry := by
  obtain ⟨-, hname⟩ := endSlot_eq_some hend
  rw [← hdir] at hend
  refine ⟨_, fatUpdateFileEntry_free file hindex hend hi, ?_⟩
  rw [hdir]
  refine ⟨dirSlots_setData, hi, FatEntry.name0_copy.trans hname, ?_, ?_, fun d' j hne hne' => ?_⟩
  · rw [entryAt_setData, appendBlock_self]
  · rw [entryAt_setData, appendBlock_next]
  · by_cases hd : d' = .cluster c
    · subst hd
      rw [entryAt_setData, appendBlock_other (fun heq => hne (by rw [heq])) fun heq => hne' (by rw [heq])]
      rfl
    · exact entryAt_setData_other hd

theorem writeEntry_result {dir : Mem} {ret : Int} {file' : FatFile}
    (h : writeEntry v file dir i = some (v', file', ret)) :
    (∃ block, v' = v.setData file.dirCluster block) ∧ ret = SUCCESS := by
  unfold writeEntry at h
  split at h
  case isFalse => contradiction
  case isTrue =>
    obtain ⟨rfl, -, rfl⟩ : _ = v' ∧ _ = file' ∧ SUCCESS = ret := by simpa using h
    exact ⟨⟨_, rfl⟩, rfl⟩

theorem fatUpdateFileEntry_result {ret : Int} {file' : FatFile}
    (h : fatUpdateFileEntry v file = some (v', file', ret)) :
    v' = v ∧ ret = FAIL ∨ (∃ block, v' = v.setData file.dirCluster block) ∧ ret = SUCCESS := by
  unfold fatUpdateFileEntry at h
  dsimp only at h
  split at h
  case h_1 => exact .inr (writeEntry_result h)
  case h_2 =>
    split at h
    case h_2 => exact .inr (writeEntry_result h)
    case h_1 =>
      split at h
      case isFalse => exact .inr (writeEntry_result h)
      case isTrue =>
        obtain ⟨rfl, -, rfl⟩ : v = v' ∧ _ = file' ∧ FAIL = ret := by simpa using h
        exact .inl ⟨rfl, rfl⟩

theorem fatUpdateFileEntry_fat {ret : Int} {file' : FatFile}
    (h : fatUpdateFileEntry v file = some (v', file', ret)) : v'.fat = v.fat := by
  rcases fatUpdateFileEntry_result h with ⟨rfl, -⟩ | ⟨⟨block, rfl⟩, -⟩ <;> rfl

/-! ## Scans -/

theorem scanEntry_stop : scanEntry e name = some .stop ↔ e.name0 = 0 := by
  unfold scanEntry
  split
  · simp_all
  split
  · simp_all
  split
  · simp_all
  · cases fatCompareName e name with
    | none => simp_all
    | some same => cases same <;> simp_all

theorem getIndexFrom_congr_before {k : Nat} (hslots : v'.dirSlots = v.dirSlots) (hk : s ≤ k)
    (h : ∀ j, s ≤ j → j < k → v'.entryAt d j = v.entryAt d j)
    (hstop : s + n ≤ k ∨ (v.entryAt d k).name0 = 0 ∧ (v'.entryAt d k).name0 = 0) :
    getIndexFrom v' d name n s = getIndexFrom v d name n s := by
  induction n generalizing s with
  | zero => rfl
  | succ n ih =>
    rw [getIndexFrom, getIndexFrom, hslots]
    by_cases hsk : s = k
    · subst hsk
      obtain ⟨hend, hend'⟩ := hstop.resolve_left (by omega)
      rw [scanEntry_stop.mpr hend, scanEntry_stop.mpr hend']
      rfl
    · rw [h s s.le_refl (by omega), ih (by omega) (fun j hj => h j (by omega)) (hstop.imp_left (by omega))]

theorem getIndexFrom_congr (hslots : v'.dirSlots = v.dirSlots)
    (h : ∀ j, s ≤ j → v'.entryAt d j = v.entryAt d j) :
    getIndexFrom v' d name n s = getIndexFrom v d name n s :=
  getIndexFrom_congr_before hslots (Nat.le_add_right s n) (fun j hj _ => h j hj) (.inl (Nat.le_refl _))

theorem fatGetIndex_root_setData {c : Int} {block : Mem} :
    fatGetIndex (v.setData c block) .root name = fatGetIndex v .root name :=
  getIndexFrom_congr dirSlots_setData fun _ _ => rfl

/-- The entries before the one that is found are passed over. -/
theorem getIndexFrom_found (h : getIndexFrom v d name n s = some (some i)) :
    s ≤ i ∧ i < s + n ∧ i < v.dirSlots d ∧ scanEntry (v.entryAt d i) name = some .found ∧
      ∀ j, s ≤ j → j < i → scanEntry (v.entryAt d j) name = some .next := by
  induction n generalizing s with
  | zero => simp [getIndexFrom] at h
  | succ n ih =>
    rw [getIndexFrom] at h
    split at h
    case isFalse => contradiction
    case isTrue hs =>
      obtain ⟨r, hscan, hr⟩ := Option.bind_eq_some_iff.mp h
      cases r with
      | stop => simp at hr
      | found =>
        obtain rfl : s = i := by simpa using hr
        exact ⟨by omega, by omega, hs, hscan, fun j _ _ => by omega⟩
      | next =>
        obtain ⟨hle, hlt, hslots, hfound, hbefore⟩ := ih hr
        refine ⟨by omega, by omega, hslots, hfound, fun j hj hji => ?_⟩
        by_cases hjs : j = s
        · rw [hjs, hscan]
        · exact hbefore j (by omega) hji

theorem getIndexFrom_skip {k : Nat} (hk : s ≤ k) (hn : k ≤ s + n)
    (h : ∀ j, s ≤ j → j < k → j < v.dirSlots d ∧ scanEntry (v.entryAt d j) name = some .next) :
    getIndexFrom v d name n s = getIndexFrom v d name (n - (k - s)) k := by
  induction n generalizing s with
  | zero => rw [show s = k by omega, Nat.zero_sub]
  | succ n ih =>
    by_cases hsk : s = k
    · rw [hsk, Nat.sub_self, Nat.sub_zero]
    · obtain ⟨hs, hscan⟩ := h s s.le_refl (by omega)
      rw [getIndexFrom, if_pos hs, hscan]
      simp only [Option.bind_some]
      rw [ih (by omega) (by omega) fun j hj => h j (by omega)]
      congr 1
      omega

theorem scanEntry_found (h : scanEntry e name = some .found) :
    e.name0 ≠ 0 ∧ e.name0 ≠ fatEntryDeleted ∧ fatCompareName e name = some true := by
  unfold scanEntry at h
  split at h
  case isTrue => simp at h
  split at h
  case isTrue => simp at h
  split at h
  case isTrue => simp at h
  case isFalse hne hdel _ =>
    obtain ⟨same, hcompare, hsame⟩ := Option.map_eq_some_iff.mp h
    cases same with
    | true => exact ⟨hne, hdel, hcompare⟩
    | false => simp at hsame

theorem scanEntry_deleted (he : e.name0 = fatEntryDeleted) : scanEntry e name = some .next := by
  rw [scanEntry, if_neg (by rw [he]; decide), if_pos he]

/-! ## Live entries -/

/-- An entry before the end of a directory that is not deleted. -/
def Live (v : Volume) (d : Dir) (j : Nat) : Prop :=
  j < v.dirSlots d ∧ (∀ k ≤ j, (v.entryAt d k).name0 ≠ 0) ∧ (v.entryAt d j).name0 ≠ fatEntryDeleted

/-- The directories of the volume. -/
inductive IsDir (v : Volume) : Dir → Prop
  | root : IsDir v .root
  | sub {d : Dir} {j : Nat} : IsDir v d → Live v d j → (v.entryAt d j).directory = true →
    IsDir v (.cluster (v.entryAt d j).startCluster)

/-! ## Walks -/

/-- The lookups that the loop makes: the directory, the name and the result. -/
def lookups (v : Volume) (rest : List Byte) : List (List Byte) → Dir → List (Dir × List Byte × Option Nat)
  | [], _ => []
  | c :: cs, d =>
    let name := c ++ 0 :: joinPath rest cs
    match fatGetIndex v d name with
    | none => []
    | some none => [(d, name, none)]
    | some (some i) => (d, name, some i) :: lookups v rest cs (.cluster (v.entryAt d i).startCluster)

theorem get_of_mem_lookups {r : Option Nat} (h : (d', name, r) ∈ lookups v rest cs d) :
    fatGetIndex v d' name = some r := by
  induction cs generalizing d with
  | nil => simp [lookups] at h
  | cons c cs ih =>
    rw [lookups] at h
    split at h
    case h_1 => simp at h
    case h_2 hget =>
      obtain ⟨rfl, rfl, rfl⟩ : d' = d ∧ name = _ ∧ r = none := by simpa using h
      exact hget
    case h_3 i hget =>
      rcases List.mem_cons.mp h with heq | hmem
      · obtain ⟨rfl, rfl, rfl⟩ : d' = d ∧ name = _ ∧ r = some i := by simpa using heq
        exact hget
      · exact ih hmem

def LeadsThrough (v : Volume) (path : List Byte) (d : Dir) (i : Nat) : Prop :=
  ∃ name, (d, name, some i) ∈ lookups v (afterString path) (components (cstr path)) .root

theorem file2entryLoop_kept {r : Option FatFile}
    (h : ∀ d' name r, (d', name, r) ∈ lookups v rest cs d →
      fatGetIndex v' d' name = some r ∧ ∀ j, r = some j → v'.entryAt d' j = v.entryAt d' j)
    (hr : file2entryLoop v rest cs d file = some r) : file2entryLoop v' rest cs d file = some r := by
  induction cs generalizing d file with
  | nil => exact hr
  | cons c cs ih =>
    rw [file2entryLoop] at hr ⊢
    rw [lookups] at h
    cases hget : fatGetIndex v d (c ++ 0 :: joinPath rest cs) with
    | none =>
      rw [hget] at hr
      contradiction
    | some found =>
      rw [hget] at hr h
      cases found with
      | none =>
        rw [(h d _ none List.mem_cons_self).1]
        exact hr
      | some i =>
        obtain ⟨hsame, hentry⟩ := h d _ (some i) List.mem_cons_self
        rw [hsame, Option.bind_some]
        simp only [hentry i rfl]
        exact ih (fun d' name r hmem => h d' name r (List.mem_cons_of_mem _ hmem)) hr

/-! ## The entry that a path names -/

/-- The components lead from a directory through directories to entry `i` of `d'`. -/
inductive Names (v : Volume) (rest : List Byte) : List (List Byte) → Dir → Dir → Nat → Prop
  | entry {c : List Byte} {d : Dir} {i : Nat} :
    fatGetIndex v d (c ++ 0 :: rest) = some (some i) → Names v rest [c] d d i
  | step {c : List Byte} {cs : List (List Byte)} {d d' : Dir} {i j : Nat} :
    fatGetIndex v d (c ++ 0 :: joinPath rest cs) = some (some i) → (v.entryAt d i).directory = true →
    Names v rest cs (.cluster (v.entryAt d i).startCluster) d' j → Names v rest (c :: cs) d d' j

/-- The path names entry `i` of `d`. -/
def NamesEntry (v : Volume) (path : List Byte) (d : Dir) (i : Nat) : Prop :=
  Names v (afterString path) (components (cstr path)) .root d i

def lastName (rest : List Byte) (cs : List (List Byte)) : List Byte := cs.getLastD [] ++ 0 :: rest

theorem Names.ne_nil (h : Names v rest cs d d' i) : cs ≠ [] := by
  cases h <;> exact List.cons_ne_nil _ _

theorem lastName_cons {c : List Byte} (hcs : cs ≠ []) : lastName rest (c :: cs) = lastName rest cs := by
  cases cs with
  | nil => contradiction
  | cons c' cs => rfl

theorem Names.get (h : Names v rest cs d d' i) : fatGetIndex v d' (lastName rest cs) = some (some i) := by
  induction h with
  | entry hget => exact hget
  | step hget hdir hnames ih => rw [lastName_cons hnames.ne_nil]; exact ih

theorem Names.loop (h : Names v rest cs d d' i) (file : FatFile) (hd : d = .cluster file.entry.startCluster) :
    ∃ c : Nat, d' = .cluster c ∧ file2entryLoop v rest cs d file =
      some (some { file with entry := v.entryAt d' i, dirCluster := c, dirIndex := some i }) := by
  induction h generalizing file with
  | entry hget =>
    refine ⟨file.entry.startCluster, hd, ?_⟩
    rw [file2entryLoop, joinPath, hget]
    rfl
  | step hget hdir hnames ih =>
    rw [file2entryLoop, hget]
    exact ih _ rfl

/-- From the root on, a file in a subdirectory is found with its directory. Nothing has been saved as the
directory of a file in the root itself. -/
theorem NamesEntry.file2entry (h : NamesEntry v path d i) (prev : FatEntry) :
    ∃ c : Nat, (d = .root ∧ c = prev.startCluster ∨ d = .cluster c) ∧ fatFile2entry v prev path =
      some (some { entry := v.entryAt d i, dirCluster := c, dirIndex := some i, currentPos := 0 }) := by
  unfold NamesEntry at h
  unfold fatFile2entry
  generalize components (cstr path) = cs at h ⊢
  cases h with
  | entry hget =>
    refine ⟨prev.startCluster, .inl ⟨rfl, rfl⟩, ?_⟩
    rw [file2entryLoop, joinPath, hget]
    rfl
  | @step _ _ _ _ j _ hget hdir hnames =>
    rw [file2entryLoop, hget]
    obtain ⟨c, hc, hloop⟩ := hnames.loop ⟨v.entryAt .root j, prev.startCluster, some j, 0⟩ rfl
    exact ⟨c, .inr hc, hloop⟩

/-! ## The directory that a path leads to -/

/-- From the directory `d` the components lead through directories to `d'`, with `tail` still to come. -/
inductive LeadsTo (v : Volume) (rest : List Byte) (tail : List (List Byte)) (d' : Dir) :
    List (List Byte) → Dir → Prop
  | here : LeadsTo v rest tail d' tail d'
  | step {c : List Byte} {cs : List (List Byte)} {d : Dir} {i : Nat} :
    fatGetIndex v d (c ++ 0 :: joinPath rest cs) = some (some i) → (v.entryAt d i).directory = true →
    LeadsTo v rest tail d' cs (.cluster (v.entryAt d i).startCluster) → LeadsTo v rest tail d' (c :: cs) d

theorem LeadsTo.suffix (h : LeadsTo v rest tail d' cs d) : ∃ pre, cs = pre ++ tail := by
  induction h with
  | here => exact ⟨[], rfl⟩
  | @step c _ _ _ _ _ _ ih =>
    obtain ⟨pre, rfl⟩ := ih
    exact ⟨c :: pre, rfl⟩

theorem LeadsTo.loop (h : LeadsTo v rest tail d' cs d) (file : FatFile) :
    ∃ file', file2entryLoop v rest cs d file = file2entryLoop v rest tail d' file' := by
  induction h generalizing file with
  | here => exact ⟨file, rfl⟩
  | @step c cs d i hget _ _ ih =>
    rw [file2entryLoop, hget]
    exact ih _

/-! ## A small volume -/

def newEntry (name : List Byte) (attr : Byte) (start size : Nat) : FatEntry :=
  let e : FatEntry := fun x => if x = 11 then attr else fatSetFileName (fun _ => 0) name x
  (e.setStartCluster start).setFileSize size

def directoryOf (es : List FatEntry) : Mem := fun x =>
  match es[x / entrySize]? with
  | some e => e (x % entrySize)
  | none => 0

/-- The root has the directory `D`, which has the file `F` and the empty file `E`. -/
def smallVolume : Volume where
  fat := fun c => if c < 4 then FAIL else fatFreecluster
  data := fun c => if c = 2 then directoryOf [newEntry [0x46] 0x20 3 5,
    newEntry [0x45] 0x20 0 0] else fun _ => 0
  rootdir := directoryOf [newEntry [0x44] 0x10 2 0]
  numRootDirEnts := 16
  clusterSize := 512
  totalClusters := 8

theorem smallVolume_names (c : List Byte) {i : Nat}
    (hpath : components (cstr path) = [[0x44], c]) (hrest : afterString path = [])
    (hroot : fatGetIndex smallVolume .root (0x44 :: 0 :: (c ++ [0])) = some (some 0))
    (hget : fatGetIndex smallVolume (.cluster 2) (c ++ [0]) = some (some i)) :
    NamesEntry smallVolume path (.cluster 2) i := by
  rw [NamesEntry, hpath, hrest]
  exact .step hroot (by decide) (.entry hget)

end SystemProjects.Fat
