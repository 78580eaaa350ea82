import SystemProjects.Fat.Search

/-!
# Listing a directory in `fat.c`

The result is an array of 32 slots. `fat_mont` is read as `fat_mount`, `attributes` of an entry as its `attribute`,
and `attributes.directory` of a slot as its `attributes`. A read past the memory of the directory has no outcome, and
neither has a write past the 32 slots.
-/

open SystemProjects.Memory

namespace SystemProjects.Fat

variable {v : Volume} {d : Dir} {e : FatEntry} {n s k x : Nat} {field : Nat → Byte} {f : Byte → Byte}
    {dst : Mem}

/-! ## The code -/

def vfsFile : Int := 0

def vfsDirectory : Int := 1

def tolower (c : Byte) : Byte := if 0x41 ≤ c ∧ c ≤ 0x5A then c + 0x20 else c

/-- `struct VFS_DIRLIST_ENTRY`. -/
structure DirlistEntry where
  name : Mem
  attributes : Int
  size : Int

def zeroDirlistEntry : DirlistEntry := { name := fun _ => 0, attributes := 0, size := 0 }

/-- Copies the bytes of a field up to its padding to `x`, and gives the index after them. -/
def copyField (f : Byte → Byte) (field : Nat → Byte) : Nat → Nat → Mem → Nat → Mem × Nat
  | 0, _, name, x => (name, x)
  | n + 1, i, name, x =>
    if field i = fatPadbyte then (name, x)
    else copyField f field n (i + 1) (fun y => if y = x then f (field i) else name y) (x + 1)

/-- The name as the two loops fill it in. Only the base is put into lower case. -/
def dirlistName (e : FatEntry) : Mem :=
  let (name, x) := copyField tolower e fatNamesize 0 (fun _ => 0) 0
  if e 8 ≠ fatPadbyte then
    (copyField id (fun x => e (8 + x)) fatExtensionsize 0 (fun y => if y = x then dot else name y) (x + 1)).1
  else name

def dirlistEntry (e : FatEntry) : DirlistEntry :=
  { name := dirlistName e
    attributes := if e.directory then vfsDirectory else vfsFile
    size := toInt e.fileSize }

/-- The loop from entry `dirIndex` on, with `n` entries left in the memory of the directory. -/
def listFrom (v : Volume) (d : Dir) : Nat → Nat → Nat → (Nat → DirlistEntry) → Option (Nat → DirlistEntry)
  | 0, dirIndex, entryIndex, entry => if entryIndex < 32 ∨ dirIndex < 16 then none else some entry
  | n + 1, dirIndex, entryIndex, entry =>
    if entryIndex < 32 ∨ dirIndex < 16 then
      let e := v.entryAt d dirIndex
      if e.name0 = 0 then some entry
      else if e.name0 = fatEntryDeleted then listFrom v d n (dirIndex + 1) entryIndex entry
      else if e.fileSize = 0xFFFFFFFF then listFrom v d n (dirIndex + 1) entryIndex entry
      else if entryIndex < 32 then
        listFrom v d n (dirIndex + 1) (entryIndex + 1) fun x =>
          if x = entryIndex then dirlistEntry e else entry x
      else none
    else some entry

def listedDir (v : Volume) (prevEntry : FatEntry) (dirname : List Byte) : Option (Option Dir) :=
  if cstr dirname = [] then some (some .root)
  else (fatFile2entry v prevEntry dirname).map fun found => found.map fun file =>
    .cluster file.entry.startCluster

def fatList (v : Volume) (prevEntry : FatEntry) (dirname : List Byte) :
    Option (Option (Nat → DirlistEntry)) :=
  (listedDir v prevEntry dirname).bind fun
    | none => some none
    | some d => (listFrom v d (v.dirSlots d) 0 0 fun _ => zeroDirlistEntry).map some

/-! ## What is claimed -/

def Listed (e : FatEntry) : Prop := e.name0 ≠ fatEntryDeleted ∧ e.fileSize ≠ 0xFFFFFFFF

instance (e : FatEntry) : Decidable (Listed e) := inferInstanceAs (Decidable (_ ∧ _))

/-- The entries from `s` on, `n` of them at most, that come before the end mark and are listed. -/
def listedFrom (v : Volume) (d : Dir) (n s : Nat) : List FatEntry :=
  (((List.range' s n).map (v.entryAt d)).takeWhile fun e => e.name0 ≠ 0).filter fun e => Listed e

def listed (v : Volume) (d : Dir) : List FatEntry := listedFrom v d (v.dirSlots d) 0

/-- The slot has the name in any case, the kind and the size of the entry. -/
structure Shows (slot : DirlistEntry) (e : FatEntry) : Prop where
  name : ∀ x, toupper (slot.name x) = toupper (e.rendering[x]?.getD 0)
  attributes : slot.attributes = if e.directory then vfsDirectory else vfsFile
  size : slot.size = toInt e.fileSize

/-- The slots show the first 32 entries, in their order, and no others. -/
def ListsExactly (v : Volume) (prev : FatEntry) (dirname : List Byte) (d : Dir) : Prop :=
  ∃ entry, fatList v prev dirname = some (some entry) ∧
    (∀ k e, ((listed v d).take 32)[k]? = some e → Shows (entry k) e) ∧
    ∀ k, ((listed v d).take 32).length ≤ k → entry k = zeroDirlistEntry

def HasEnd (v : Volume) (d : Dir) : Prop := ∃ k < v.dirSlots d, (v.entryAt d k).name0 = 0

/-! ## Names -/

def bytesOf (l : List Byte) : Mem := fun x => l[x]?.getD 0

theorem bytesOf_concat (l : List Byte) (b : Byte) :
    (fun x => if x = l.length then b else bytesOf l x) = bytesOf (l ++ [b]) := by
  funext x
  unfold bytesOf
  by_cases hx : x < l.length
  · rw [if_neg (by omega), List.getElem?_append_left hx]
  · rw [List.getElem?_append_right (by omega), List.getElem?_singleton, List.getElem?_eq_none (by omega)]
    by_cases heq : x = l.length
    · simp [heq]
    · rw [if_neg heq, if_neg (by omega)]

theorem copyField_eq (f : Byte → Byte) (field : Nat → Byte) (n i : Nat) (l : List Byte) :
    copyField f field n i (bytesOf l) l.length =
      (bytesOf (l ++ (unpadded field n i).map f), (l ++ (unpadded field n i).map f).length) := by
  induction n generalizing i l with
  | zero => simp [copyField, unpadded]
  | succ n ih =>
    rw [copyField, unpadded_succ]
    by_cases hpad : field i = fatPadbyte
    · simp [hpad]
    · have hlength : (l ++ [f (field i)]).length = l.length + 1 := List.length_append
      rw [if_neg hpad, if_neg hpad, bytesOf_concat, ← hlength, ih, List.map_cons, List.append_assoc]
      rfl

theorem dirlistName_eq (e : FatEntry) :
    dirlistName e = bytesOf (e.base.map tolower ++ if e.ext = [] then [] else dot :: e.ext) := by
  unfold dirlistName
  have hbase : copyField tolower e fatNamesize 0 (fun _ => 0) 0 =
      (bytesOf (e.base.map tolower), (e.base.map tolower).length) := copyField_eq tolower e fatNamesize 0 []
  rw [hbase]
  dsimp only
  by_cases hext : e.ext = []
  · rw [if_neg fun hne => hne (FatEntry.ext_eq_nil.mp hext), if_pos hext, List.append_nil]
  · have hlength : (e.base.map tolower ++ [dot]).length = (e.base.map tolower).length + 1 :=
      List.length_append
    have hcopy : copyField id (fun x => e (8 + x)) fatExtensionsize 0 _ _ = _ :=
      copyField_eq id (fun x => e (8 + x)) fatExtensionsize 0 (e.base.map tolower ++ [dot])
    rw [hlength, ← bytesOf_concat] at hcopy
    rw [if_pos fun hpad => hext (FatEntry.ext_eq_nil.mpr hpad), if_neg hext]
    rw [hcopy, List.map_id, List.append_assoc]
    rfl

theorem toupper_tolower (b : Byte) : toupper (tolower b) = toupper b := by
  revert b
  decide

theorem shows_dirlistEntry (e : FatEntry) : Shows (dirlistEntry e) e := by
  refine ⟨fun x => ?_, rfl, rfl⟩
  change toupper (dirlistName e x) = _
  rw [dirlistName_eq, bytesOf, FatEntry.rendering]
  by_cases hx : x < e.base.length
  · rw [List.getElem?_append_left (by simpa using hx), List.getElem?_append_left hx, List.getElem?_map,
      List.getElem?_eq_getElem hx]
    exact toupper_tolower _
  · rw [List.getElem?_append_right (by simpa using hx), List.getElem?_append_right (by omega),
      List.length_map]

/-! ## The loop -/

/-- The slots from `k` on are filled in. -/
def fillFrom (entry : Nat → DirlistEntry) (k : Nat) : List FatEntry → (Nat → DirlistEntry)
  | [] => entry
  | e :: es => fillFrom (fun x => if x = k then dirlistEntry e else entry x) (k + 1) es

theorem fillFrom_apply (entry : Nat → DirlistEntry) (k : Nat) (es : List FatEntry) (x : Nat) :
    fillFrom entry k es x = if x < k then entry x else (es[x - k]?.map dirlistEntry).getD (entry x) := by
  induction es generalizing entry k with
  | nil => simp [fillFrom]
  | cons e es ih =>
    rw [fillFrom, ih]
    by_cases hx : x < k
    · rw [if_pos (by omega), if_pos hx, if_neg (by omega)]
    · by_cases heq : x = k
      · simp [heq]
      · obtain ⟨y, hy⟩ : ∃ y, x - k = y + 1 := ⟨x - k - 1, by omega⟩
        rw [if_neg (by omega), if_neg hx, if_neg heq, hy, List.getElem?_cons_succ, show x - (k + 1) =
          y by omega]

theorem listedFrom_succ : listedFrom v d (n + 1) s =
    if (v.entryAt d s).name0 = 0 then []
    else if Listed (v.entryAt d s) then v.entryAt d s :: listedFrom v d n (s + 1) else listedFrom v d
      n (s + 1) := by
  unfold listedFrom
  rw [List.range'_succ, List.map_cons]
  by_cases h0 : (v.entryAt d s).name0 = 0
  · rw [if_pos h0, List.takeWhile_cons_of_neg (by simp [h0])]
    rfl
  · rw [if_neg h0, List.takeWhile_cons_of_pos (by simpa using h0), List.filter_cons]
    simp only [decide_eq_true_eq]

def Ends (v : Volume) (d : Dir) (n s k : Nat) : Prop :=
  (∃ j, s ≤ j ∧ j < s + n ∧ (v.entryAt d j).name0 = 0) ∨ 32 ≤ k + (listedFrom v d n s).length

theorem ends_end (h : (v.entryAt d s).name0 = 0) : Ends v d (n + 1) s k := .inl ⟨s, s.le_refl, by omega, h⟩

theorem ends_later (h : (v.entryAt d s).name0 ≠ 0) :
    (∃ j, s ≤ j ∧ j < s + (n + 1) ∧ (v.entryAt d j).name0 = 0) ↔
      ∃ j, s + 1 ≤ j ∧ j < s + 1 + n ∧ (v.entryAt d j).name0 = 0 := by
  refine ⟨?_, fun ⟨j, hj, hlt, hend⟩ => ⟨j, by omega, by omega, hend⟩⟩
  rintro ⟨j, hj, hlt, hend⟩
  have hjs : j ≠ s := fun heq => h (heq ▸ hend)
  exact ⟨j, by omega, by omega, hend⟩

theorem ends_passed (h : (v.entryAt d s).name0 ≠ 0) (hno : ¬ Listed (v.entryAt d s)) :
    Ends v d (n + 1) s k ↔ Ends v d n (s + 1) k := by
  unfold Ends
  rw [ends_later h, listedFrom_succ, if_neg h, if_neg hno]

theorem ends_listed (h : (v.entryAt d s).name0 ≠ 0) (hyes : Listed (v.entryAt d s)) :
    Ends v d (n + 1) s k ↔ Ends v d n (s + 1) (k + 1) := by
  unfold Ends
  rw [ends_later h, listedFrom_succ, if_neg h, if_pos hyes, List.length_cons, Nat.add_right_comm k]
  rfl

theorem listFrom_full (entry : Nat → DirlistEntry) (hs : 32 ≤ s) :
    listFrom v d n s 32 entry = some entry := by
  cases n <;> exact if_neg (by omega)

theorem listFrom_passed (entry : Nat → DirlistEntry) (hk : k < 32) (h0 : (v.entryAt d s).name0 ≠ 0)
    (hno : ¬ Listed (v.entryAt d s)) : listFrom v d (n + 1) s k entry = listFrom v d n (s + 1) k entry := by
  rw [listFrom, if_pos (.inl hk)]
  dsimp only
  rw [if_neg h0]
  by_cases hdel : (v.entryAt d s).name0 = fatEntryDeleted
  · rw [if_pos hdel]
  · have hsize : (v.entryAt d s).fileSize = 0xFFFFFFFF := Decidable.not_not.mp fun hsize => hno ⟨hdel, hsize⟩
    rw [if_neg hdel, if_pos hsize]

theorem listFrom_listed (entry : Nat → DirlistEntry) (hk : k < 32) (h0 : (v.entryAt d s).name0 ≠ 0)
    (hyes : Listed (v.entryAt d s)) : listFrom v d (n + 1) s k entry =
      listFrom v d n (s + 1) (k + 1) fun x => if x = k then dirlistEntry (v.entryAt d s) else entry x := by
  rw [listFrom, if_pos (.inl hk)]
  dsimp only
  rw [if_neg h0, if_neg hyes.1, if_neg hyes.2, if_pos hk]

theorem listFrom_spec (entry : Nat → DirlistEntry) (hk : k ≤ s) (hk' : k ≤ 32) :
    (Ends v d n s k → listFrom v d n s k entry =
      some (fillFrom entry k ((listedFrom v d n s).take (32 - k)))) ∧
      (¬ Ends v d n s k → listFrom v d n s k entry = none) := by
  induction n generalizing s k entry with
  | zero =>
    by_cases hfull : k = 32
    · subst hfull
      rw [listFrom_full entry hk]
      exact ⟨fun _ => rfl, fun hno => absurd (.inr (by omega)) hno⟩
    · refine ⟨fun hends => ?_, fun _ => if_pos (.inl (by omega))⟩
      rcases hends with ⟨j, hj, hlt, -⟩ | hlen
      · omega
      · simp [listedFrom] at hlen
        omega
  | succ n ih =>
    by_cases hfull : k = 32
    · subst hfull
      rw [listFrom_full entry hk, Nat.sub_self, List.take_zero]
      exact ⟨fun _ => rfl, fun hno => absurd (.inr (by omega)) hno⟩
    · have hlt : k < 32 := by omega
      by_cases h0 : (v.entryAt d s).name0 = 0
      · refine ⟨fun _ => ?_, fun hno => absurd (ends_end h0) hno⟩
        have hnil : listedFrom v d (n + 1) s = [] := by rw [listedFrom_succ, if_pos h0]
        rw [listFrom, if_pos (.inl hlt), hnil, List.take_nil]
        exact if_pos h0
      · by_cases hyes : Listed (v.entryAt d s)
        · rw [ends_listed h0 hyes, listFrom_listed entry hlt h0 hyes, listedFrom_succ, if_neg h0, if_pos hyes,
            show 32 - k = (32 - (k + 1)) + 1 by omega, List.take_succ_cons]
          exact ih _ (by omega) (by omega)
        · rw [ends_passed h0 hyes, listFrom_passed entry hlt h0 hyes, listedFrom_succ, if_neg h0, if_neg hyes]
          exact ih _ (by omega) (by omega)

theorem ends_iff (v : Volume) (d : Dir) : Ends v d (v.dirSlots d) 0 0 ↔
    HasEnd v d ∨ 32 ≤ (listed v d).length := by
  simp [Ends, HasEnd, listed]

theorem exists_listFrom (v : Volume) (d : Dir) (entry : Nat → DirlistEntry) :
    (∃ slots, listFrom v d (v.dirSlots d) 0 0 entry = some slots) ↔
      HasEnd v d ∨ 32 ≤ (listed v d).length := by
  obtain ⟨hsome, hnone⟩ := listFrom_spec (v := v) (d := d) (n :=
    v.dirSlots d) entry (Nat.le_refl 0) (Nat.zero_le 32)
  rw [← ends_iff]
  refine ⟨fun ⟨slots, hslots⟩ => Classical.byContradiction fun hno => ?_, fun h => ⟨_, hsome h⟩⟩
  rw [hnone hno] at hslots
  contradiction

/-- **Listing.** It is exact unless a directory without an end mark has fewer than 32 entries to list. -/
theorem fatList_exact_iff (v : Volume) (prev : FatEntry) (dirname : List Byte) (d : Dir)
    (hd : listedDir v prev dirname = some (some d)) :
    ListsExactly v prev dirname d ↔ HasEnd v d ∨ 32 ≤ (listed v d).length := by
  have hlist : fatList v prev dirname =
      (listFrom v d (v.dirSlots d) 0 0 fun _ => zeroDirlistEntry).map some := by
    rw [fatList, hd]
    rfl
  constructor
  · rintro ⟨entry, hentry, -⟩
    rw [hlist] at hentry
    obtain ⟨slots, hslots, -⟩ := Option.map_eq_some_iff.mp hentry
    exact (exists_listFrom v d _).mp ⟨slots, hslots⟩
  · intro h
    have hfilled := (listFrom_spec (v := v) (d := d) (n := v.dirSlots d) (fun _ => zeroDirlistEntry)
      (Nat.le_refl 0) (Nat.zero_le 32)).1 ((ends_iff v d).mpr h)
    refine ⟨_, by rw [hlist, hfilled]; rfl, fun k e hk => ?_, fun k hk => ?_⟩
    · rw [fillFrom_apply, if_neg (Nat.not_lt_zero k)]
      change Shows ((((listed v d).take 32)[k]?.map dirlistEntry).getD _) e
      rw [hk]
      exact shows_dirlistEntry e
    · rw [fillFrom_apply, if_neg (Nat.not_lt_zero k)]
      change (((listed v d).take 32)[k]?.map dirlistEntry).getD _ = _
      rw [List.getElem?_eq_none hk]
      rfl

/-- `D` holds `F` and `E`. -/
theorem smallVolume_lists_D : (listed smallVolume (.cluster 2)).length = 2 ∧
    ListsExactly smallVolume (fun _ => 0) [0x44, 0] (.cluster 2) :=
  ⟨by decide, (fatList_exact_iff smallVolume (fun _ => 0) [0x44, 0] (.cluster 2) (by decide)).mpr
    (.inl ⟨2, by decide, by decide⟩)⟩

/-- Behind the 16 files of `D` the loop reads on. -/
theorem fullVolume_lists_on : ¬ ∀ (v : Volume) (prev : FatEntry) (dirname : List Byte) (d : Dir),
    listedDir v prev dirname = some (some d) → ListsExactly v prev dirname d := by
  intro h
  obtain ⟨entry, hlist, -⟩ := h fullVolume (fun _ => 0) [0x44, 0] (.cluster 2) (by decide)
  have hnone : (fatList fullVolume (fun _ => 0) [0x44, 0]).isNone = true := by decide
  rw [hlist] at hnone
  contradiction

end SystemProjects.Fat
