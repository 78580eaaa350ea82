import SystemProjects.Fat.Replace
import SystemProjects.Lib.Split

/-!
# A created file is found
-/

open SystemProjects.Memory SystemProjects.Lists

namespace SystemProjects.Fat

variable {v v' : Volume} {d d' dir : Dir} {name rest path c : List Byte} {cs tail : List (List Byte)}
  {n s i j : Nat} {e : FatEntry} {file : FatFile} {prev : FatEntry} {wantDir : Bool}

/-! ## What is claimed -/

/-- The bytes that a comment in `fat_setFileName` lists. -/
def illegalBytes : List Byte :=
  [0x22, 0x2A, 0x2B, 0x2C, 0x2E, 0x2F, 0x3A, 0x3B, 0x3C, 0x3D, 0x3E, 0x3F, 0x5B, 0x5C, 0x5D, 0x7C]

def Legal (b : Byte) : Prop := fatPadbyte ≤ b ∧ b ∉ illegalBytes

instance (b : Byte) : Decidable (Legal b) := inferInstanceAs (Decidable (fatPadbyte ≤ b ∧ b ∉ illegalBytes))

/-- A name of up to eight bytes, and a dot and up to three more. -/
def ValidName (c : List Byte) : Prop :=
  ∃ base extension, (c = base ∧ extension = [] ∨ c = base ++ dot :: extension ∧ extension ≠ []) ∧
    base ≠ [] ∧ base.head? ≠ some fatPadbyte ∧ base.length ≤ fatNamesize ∧
    extension.length ≤ fatExtensionsize ∧ ∀ b ∈ base ++ extension, Legal b

/-- What comes after the last name: an empty component when the path ends in a slash. -/
def slashPart (wantDir : Bool) : List (List Byte) := if wantDir then [[]] else []

/-- The parent of the path is the directory `d`, and its last component `c` is not there. -/
structure Creatable (v : Volume) (path c : List Byte) (d : Dir) (wantDir : Bool) : Prop where
  parent : LeadsTo v (afterString path) (c :: slashPart wantDir) d (components (cstr path)) .root
  first : ValidName ((components (cstr path)).headD [])
  last : ValidName c
  missing : fatGetIndex v d (c ++ 0 :: joinPath (afterString path) (slashPart wantDir)) = some none

def FindsNew (v' : Volume) (path : List Byte) (wantDir : Bool) : Prop :=
  ∀ prev, ∃ file, fatFile2entry v' prev path = some (some file) ∧ file.entry.fileSize = 0 ∧
    file.entry.directory = wantDir ∧ (wantDir = false → file.entry.archive = true)

def KeepsFound (v v' : Volume) : Prop :=
  ∀ q prev file, fatFile2entry v prev q = some (some file) → fatFile2entry v' prev q = some (some file)

/-- The new entry is found, and so is what was found before. -/
def CreateFinds (v : Volume) (prev : FatEntry) (path : List Byte) (wantDir : Bool) : Prop :=
  ∃ v' ret, fatCreate v prev path = some (v', ret) ∧
    (ret = SUCCESS → FindsNew v' path wantDir ∧ KeepsFound v v')

/-! ## Strings -/

theorem toupper_eq_slash {b : Byte} : toupper b = slash ↔ b = slash := by
  revert b
  decide

theorem toupper_legal_head {b : Byte} (hlegal : Legal b) (hpad : b ≠ fatPadbyte) :
    toupper b ≠ 0 ∧ toupper b ≠ fatPadbyte := by
  have h : ∀ b : Byte, fatPadbyte ≤ b → b ≠ fatPadbyte → toupper b ≠ 0 ∧ toupper b ≠ fatPadbyte := by decide
  exact h b hlegal.1 hpad

theorem strrchr_eq_none {s : List Byte} (h : slash ∉ s) : strrchr s = none := by
  induction s with
  | nil => rfl
  | cons b s ih =>
    rw [strrchr, ih fun hmem => h (List.mem_cons_of_mem b hmem)]
    exact if_neg (by rintro rfl; exact h List.mem_cons_self)

theorem strrchr_first {s : List Byte} (h : slash ∉ s) : strrchr (slash :: s) = some 0 := by
  rw [strrchr, strrchr_eq_none h]
  rfl

theorem strrchr_last (s : List Byte) : strrchr (s ++ [slash]) = some s.length := by
  induction s with
  | nil => rfl
  | cons b s ih =>
    rw [List.cons_append, strrchr, ih]
    rfl

theorem dropSlash_cases (p : List Byte) :
    p.head? = some slash ∧ p = slash :: dropSlash p ∨ p.head? ≠ some slash ∧ dropSlash p = p := by
  cases p with
  | nil => exact .inr ⟨by simp, rfl⟩
  | cons b s =>
    by_cases hb : b = slash
    · subst hb
      exact .inl ⟨rfl, rfl⟩
    · have hne : (b :: s).head? ≠ some slash := by simpa using hb
      exact .inr ⟨hne, if_neg hne⟩

theorem ends_in_slash {p : List Byte} (hlast : (components p).getLast? = some [])
    (hlength : 1 < (components p).length) : ∃ s, p = s ++ [slash] := by
  obtain ⟨b, hb, heq⟩ : ∃ b, (dropSlash p).getLast? = some b ∧ toupper b = slash := by
    rcases getLast?_of_splitOn hlast with hnil | hslash
    · rw [components, hnil] at hlength
      simp at hlength
    · simpa [List.getLast?_map] using hslash
  rw [toupper_eq_slash] at heq
  subst heq
  obtain ⟨s, hs⟩ := List.getLast?_eq_some_iff.mp hb
  rcases dropSlash_cases p with ⟨-, hp⟩ | ⟨-, hp⟩
  · exact ⟨slash :: s, by rw [hp, hs]; rfl⟩
  · exact ⟨s, hp ▸ hs⟩

theorem cutAfter_last {s : List Byte} (h : cstr path = s ++ [slash]) : cutAfter path s.length = path := by
  have hlength : s.length + 1 = (cstr path).length := by rw [h, List.length_append]; rfl
  rw [cutAfter, hlength]
  clear h hlength
  induction path with
  | nil => rfl
  | cons b s ih =>
    by_cases hb : b = 0
    · subst hb
      rfl
    · have h : cstr (b :: s) = b :: cstr s := List.takeWhile_cons_of_pos (by simpa using hb)
      rw [h, List.length_cons, List.set_cons_succ, ih]

theorem ValidName.ne_nil (h : ValidName c) : c ≠ [] := by
  obtain ⟨base, extension, ⟨rfl, -⟩ | ⟨rfl, -⟩, hne, -⟩ := h
  · exact hne
  · simp

theorem ValidName.head (h : ValidName c) : ∃ b s, c = b :: s ∧ Legal b ∧ b ≠ fatPadbyte := by
  obtain ⟨base, extension, hc, hne, hpad, -, -, hlegal⟩ := h
  obtain ⟨b, s, rfl⟩ := List.exists_cons_of_ne_nil hne
  have hb : b ≠ fatPadbyte := fun heq => hpad (by rw [heq]; rfl)
  rcases hc with ⟨rfl, -⟩ | ⟨rfl, -⟩
  · exact ⟨b, s, rfl, hlegal b (by simp), hb⟩
  · exact ⟨b, s ++ dot :: extension, rfl, hlegal b (by simp), hb⟩

/-! ## The string after the lookup -/

/-- The first component of a path, which is what the new file is called. -/
def firstPart (path : List Byte) : List Byte := (components (cstr path)).headD []

theorem slash_not_mem_firstPart : slash ∉ firstPart path := by
  obtain ⟨y, ys, hsplit⟩ := List.exists_cons_of_ne_nil
    (List.splitOn_ne_nil slash ((dropSlash (cstr path)).map toupper))
  have hy := not_mem_of_mem_splitOn y (hsplit ▸ List.mem_cons_self)
  rw [firstPart, components, hsplit]
  exact hy

theorem getLast?_cutString (h : firstPart path ≠ []) : (cutString path).getLast? ≠ some slash := by
  intro hlast
  have heq : (cutString path).getLast? = (firstPart path).getLast? := by
    rw [cutString, List.getLast?_append, ← firstPart]
    cases hp : firstPart path with
    | nil => contradiction
    | cons b s => simp [List.getLast?_cons]
  rw [heq] at hlast
  exact slash_not_mem_firstPart (List.mem_of_getLast? hlast)

theorem strrchr_cutString (path : List Byte) : (cstr path).head? = some slash ∧
    strrchr (cutString path) = some 0 ∧
      (cutString path).drop 1 = firstPart path ∨
    (cstr path).head? ≠ some slash ∧ strrchr (cutString path) = none := by
  by_cases h : (cstr path).head? = some slash
  · have heq : cutString path = slash :: firstPart path := by rw [cutString, if_pos h]; rfl
    exact .inl ⟨h, by rw [heq]; exact strrchr_first slash_not_mem_firstPart, by rw [heq]; rfl⟩
  · have heq : cutString path = firstPart path := by rw [cutString, if_neg h]; rfl
    exact .inr ⟨h, by rw [heq]; exact strrchr_eq_none slash_not_mem_firstPart⟩

/-! ## The walk to the parent -/

theorem Creatable.not_found (h : Creatable v path c d wantDir) : fatFile2entry v prev path = some none := by
  obtain ⟨file, hloop⟩ := h.parent.loop ⟨prev, FAIL, none, 0⟩
  rw [fatFile2entry, hloop, file2entryLoop, h.missing, Option.bind_some]
  exact if_neg h.last.ne_nil

theorem Creatable.fatCreate (h : Creatable v path c d wantDir) (prev : FatEntry) :
    fatCreate v prev path = (strrchr (cstr path)).bind fun tmp =>
      (fatFile2entry v prev (cutAfter path tmp)).bind fun
        | none => some (v, FAIL)
        | some parent =>
          if (cstr path).head? = some slash then
            createEntry v parent.entry.startCluster (firstPart path) false
          else none := by
  have hne := getLast?_cutString h.first.ne_nil
  have hnil : cutString path ≠ [] := by
    rw [cutString, ← firstPart]
    exact List.append_ne_nil_of_right_ne_nil _ h.first.ne_nil
  rw [Fat.fatCreate, fatCreateWith, h.not_found, Option.bind_some]
  simp only [hne, if_false, decide_false, if_neg hnil]
  congr 1
  funext tmp
  congr 1
  funext found
  cases found with
  | none => rfl
  | some parent =>
    rcases strrchr_cutString path with ⟨hhead, hslash, hdrop⟩ | ⟨hhead, hslash⟩
    · dsimp only
      rw [hslash, if_pos hhead, Option.bind_some, hdrop]
    · dsimp only
      rw [hslash, if_neg hhead]
      rfl

theorem fatCreate_slash (h : Creatable v path c d true) : fatCreate v prev path = some (v, FAIL) := by
  obtain ⟨pre, hpre⟩ := h.parent.suffix
  obtain ⟨s, hs⟩ : ∃ s, cstr path = s ++ [slash] := by
    refine ends_in_slash ?_ ?_
    · simp [hpre, slashPart]
    · simp only [hpre, slashPart, if_true, List.length_append, List.length_cons]
      omega
  rw [h.fatCreate, hs, strrchr_last, Option.bind_some, cutAfter_last hs, h.not_found]
  rfl

/-! ## A directory with a new entry -/

theorem Appended.same_before (h : Appended v v' dir i e) (hj : j < i) : v'.entryAt d j = v.entryAt d j := by
  refine h.others d j (fun heq => ?_) (fun heq => ?_) <;>
  · have := (Prod.mk.inj heq).2
    omega

theorem Appended.same_other (h : Appended v v' dir i e) (hd : d ≠ dir) : v'.entryAt d j = v.entryAt d j :=
  h.others d j (fun heq => hd (Prod.mk.inj heq).1) fun heq => hd (Prod.mk.inj heq).1

theorem Appended.found_before (h : Appended v v' dir i e)
    (hr : fatGetIndex v dir name = some (some j)) : j < i := by
  obtain ⟨-, -, -, hfound, hbefore⟩ := getIndexFrom_found hr
  have hend : scanEntry (v.entryAt dir i) name = some .stop := scanEntry_stop.mpr h.wasEnd
  rcases Nat.lt_trichotomy i j with hlt | rfl | hgt
  · rw [hbefore i (by omega) hlt] at hend
    contradiction
  · rw [hfound] at hend
    contradiction
  · exact hgt

theorem Appended.get_found (h : Appended v v' dir i e) (hr : fatGetIndex v d name = some (some j)) :
    fatGetIndex v' d name = some (some j) ∧ v'.entryAt d j = v.entryAt d j := by
  obtain ⟨-, hlt, hslots, hfound, hbefore⟩ := getIndexFrom_found hr
  have hsame : ∀ k, k ≤ j → v'.entryAt d k = v.entryAt d k := by
    intro k hk
    by_cases hd : d = dir
    · subst hd
      have hji := h.found_before hr
      exact h.same_before (by omega)
    · exact h.same_other hd
  refine ⟨?_, hsame j j.le_refl⟩
  rw [fatGetIndex, getIndexFrom_skip (Nat.zero_le j) (by omega)]
  · obtain ⟨m, hm⟩ : ∃ m, 32 - (j - 0) = m + 1 := ⟨31 - j, by omega⟩
    rw [hm, getIndexFrom, if_pos (by rw [h.slots]; exact hslots), hsame j j.le_refl, hfound]
    rfl
  · intro k hk hkj
    rw [hsame k (by omega), h.slots]
    exact ⟨by omega, hbefore k hk hkj⟩

def Visible (v : Volume) (d : Dir) (i : Nat) : Prop := i < 32 ∧ ∀ j < i, (v.entryAt d j).name0 ≠ 0

theorem Appended.get_missing (h : Appended v v' dir i e) (hr : fatGetIndex v dir name = some none) :
    Visible v dir i ∧ fatGetIndex v' dir name = (scanEntry e.copy name).map (fun scan =>
      if scan = .found then some i else none) ∨
    ¬ Visible v dir i ∧ fatGetIndex v' dir name = some none := by
  by_cases hvisible : Visible v dir i
  · refine .inl ⟨hvisible, ?_⟩
    have hbefore := getIndexFrom_none hr (show i ≤ 0 + 32 by have := hvisible.1; omega)
      fun j _ hj => hvisible.2 j hj
    have hroom := h.room
    obtain ⟨m, hm⟩ : ∃ m, 32 - (i - 0) = m + 1 := ⟨31 - i, by have := hvisible.1; omega⟩
    have hlast : getIndexFrom v' dir name m (i + 1) = some none := by
      cases m with
      | zero => rfl
      | succ m =>
        rw [getIndexFrom, if_pos (by rw [h.slots]; exact hroom), scanEntry_stop.mpr h.isEnd]
        rfl
    rw [fatGetIndex, getIndexFrom_skip (Nat.zero_le i) (by have := hvisible.1; omega), hm, getIndexFrom,
      if_pos (by rw [h.slots]; omega), h.entry]
    · cases hscan : scanEntry e.copy name with
      | none => rfl
      | some scan =>
        cases scan with
        | stop => rfl
        | found => rfl
        | next => exact hlast
    · intro j hj hji
      rw [h.same_before hji, h.slots]
      exact hbefore j hj hji
  · refine .inr ⟨hvisible, ?_⟩
    rw [← hr]
    by_cases hi : i < 32
    · obtain ⟨j, hji, hend⟩ : ∃ j < i, (v.entryAt dir j).name0 = 0 := by
        simpa [Visible, hi] using hvisible
      exact getIndexFrom_congr_before h.slots (Nat.zero_le j) (fun k _ hk => h.same_before (by omega))
        (.inr ⟨hend, by rw [h.same_before hji, hend]⟩)
    · exact getIndexFrom_congr_before h.slots (Nat.zero_le i) (fun k _ hk => h.same_before hk)
        (.inl (by omega))

theorem LeadsTo.appended (h : Appended v v' dir i e) (hl : LeadsTo v rest tail d' cs d) :
    LeadsTo v' rest tail d' cs d := by
  induction hl with
  | here => exact .here
  | step hget hdir _ ih =>
    obtain ⟨hget', hentry⟩ := h.get_found hget
    exact .step hget' (hentry ▸ hdir) (hentry ▸ ih)

/-! ## When a created file is found -/

/-- The entry of a new file is called after the first component of its path. -/
def createdEntry (path : List Byte) : FatEntry := (fatSetFileName (fun _ => 0) (firstPart path)).setArchive

/-- The slot is one that lookups get to, and the entry there answers to the last component. -/
def Answers (v : Volume) (path c : List Byte) (d : Dir) (i : Nat) : Prop :=
  Visible v d i ∧ scanEntry (createdEntry path) (c ++ 0 :: afterString path) = some .found

/-- Either nothing is created, or the file gets into its directory under a name that answers. -/
def Creates (v : Volume) (prev : FatEntry) (path c : List Byte) (d : Dir) (wantDir : Bool) : Prop :=
  wantDir = true ∨ ∃ tmp, strrchr (cstr path) = some tmp ∧
    (fatFile2entry v prev (cutAfter path tmp) = some none ∨
      ∃ parent i, fatFile2entry v prev (cutAfter path tmp) = some (some parent) ∧
        (cstr path).head? = some slash ∧ endSlot v parent.entry.startCluster = some i ∧
        (v.slots ≤ i + 1 ∨ d = .cluster parent.entry.startCluster ∧ Answers v path c d i))

theorem copy_createdEntry : (createdEntry path).copy = createdEntry path := by
  funext x
  by_cases hx : x < entrySize
  · exact FatEntry.copy_apply hx
  · have hx' : 32 ≤ x := Nat.le_of_not_lt hx
    unfold FatEntry.copy memcpy createdEntry FatEntry.setArchive
    rw [if_neg (by unfold entrySize; omega), if_neg (by omega)]
    unfold fatSetFileName
    dsimp only
    rw [if_neg (by omega), if_neg (by omega), if_neg (by omega)]

theorem createdEntry_attribute : createdEntry path 11 = 0x20 := by
  simp [createdEntry, FatEntry.setArchive, fatSetFileName]

theorem createdEntry_name0 (h : ValidName (firstPart path)) :
    (createdEntry path).name0 ≠ 0 ∧ (createdEntry path).name0 ≠ fatPadbyte := by
  obtain ⟨b, s, hfirst, hlegal, hpad⟩ := h.head
  have hdot : toupper b ≠ dot := by
    have h : ∀ b : Byte, b ∉ illegalBytes → toupper b ≠ dot := by decide
    exact h b hlegal.2
  have heq : (createdEntry path).name0 = toupper b := by
    rw [createdEntry, hfirst]
    simp [FatEntry.name0, FatEntry.setArchive, fatSetFileName, fatNamesize, hdot]
  rw [heq]
  exact toupper_legal_head hlegal hpad

def createdFile (path : List Byte) (dirCluster : Nat) : FatFile where
  entry := createdEntry path
  dirCluster := dirCluster
  dirIndex := none
  currentPos := 0

theorem createEntry_file {dirCluster : Nat} : createEntry v dirCluster (firstPart path) false =
    (fatUpdateFileEntry v (createdFile path dirCluster)).map fun (v, _, ret) => (v, ret) := rfl

theorem Appended.kept (h : Appended v v' dir i e) (h0 : e.name0 ≠ 0) (hpad : e.name0 ≠ fatPadbyte)
    {q : List Byte}
    (hr : fatFile2entry v prev q = some (some file)) : fatFile2entry v' prev q = some (some file) := by
  refine file2entryLoop_kept (fun d' name r hmem => ?_) hr
  cases r with
  | some j =>
    obtain ⟨hget, hentry⟩ := h.get_found (get_of_mem_lookups hmem)
    exact ⟨hget, fun k hk => Option.some.inj hk ▸ hentry⟩
  | none =>
    refine ⟨?_, fun _ hk => by contradiction⟩
    obtain ⟨after, rfl⟩ := lookups_none hr hmem
    have hget := get_of_mem_lookups hmem
    by_cases hd : d' = dir
    · subst hd
      rcases h.get_missing hget with ⟨-, hget'⟩ | ⟨-, hget'⟩
      · rw [hget', scanEntry_empty (by simpa using h0) (by simpa using hpad)]
        rfl
      · exact hget'
    · rw [← hget]
      exact getIndexFrom_congr h.slots fun j _ => h.same_other hd

theorem found_iff_of_appended {a : Nat} (h : Creatable v path c d false)
    (happ : Appended v v' (.cluster a) i (createdEntry path)) :
    FindsNew v' path false ∧ KeepsFound v v' ↔ d = .cluster a ∧ Answers v path c d i := by
  obtain ⟨h0, hpad⟩ := createdEntry_name0 h.first
  have hparent := h.parent.appended happ
  have hmissing : fatGetIndex v d (c ++ 0 :: afterString path) = some none := h.missing
  constructor
  · rintro ⟨hfinds, -⟩
    obtain ⟨file, hfile, -⟩ := hfinds fun _ => 0
    obtain ⟨file', hloop⟩ := hparent.loop ⟨fun _ => 0, FAIL, none, 0⟩
    rw [fatFile2entry, hloop, file2entryLoop] at hfile
    change (fatGetIndex v' d (c ++ 0 :: afterString path)).bind _ = _ at hfile
    have hfound : fatGetIndex v' d (c ++ 0 :: afterString path) ≠ some none := by
      intro hnone
      rw [hnone, Option.bind_some, if_neg h.last.ne_nil] at hfile
      simp at hfile
    by_cases hd : d = .cluster a
    · subst hd
      rcases happ.get_missing hmissing with ⟨hvisible, hget⟩ | ⟨-, hget⟩
      · refine ⟨rfl, hvisible, ?_⟩
        rw [copy_createdEntry] at hget
        cases hscan : scanEntry (createdEntry path) (c ++ 0 :: afterString path) with
        | none =>
          rw [hget, hscan] at hfile
          simp at hfile
        | some scan =>
          rw [hget, hscan] at hfound
          cases scan with
          | found => rfl
          | next => exact absurd rfl hfound
          | stop => exact absurd rfl hfound
      · exact absurd hget hfound
    · have hsame : fatGetIndex v' d (c ++ 0 :: afterString path) = some none := by
        rw [← hmissing]
        exact getIndexFrom_congr happ.slots fun j _ => happ.same_other hd
      exact absurd hsame hfound
  · rintro ⟨rfl, hvisible, hscan⟩
    refine ⟨fun prev => ?_, fun q prev file => happ.kept h0 hpad⟩
    obtain ⟨file', hloop⟩ := hparent.loop ⟨prev, FAIL, none, 0⟩
    have hget : fatGetIndex v' (.cluster a) (c ++ 0 :: afterString path) = some (some i) := by
      rcases happ.get_missing hmissing with ⟨-, hget⟩ | ⟨hnot, -⟩
      · rw [hget, copy_createdEntry, hscan]
        rfl
      · exact absurd hvisible hnot
    refine ⟨⟨createdEntry path, file'.entry.startCluster, some i, file'.currentPos⟩, ?_, ?_, ?_, fun _ => ?_⟩
    · rw [fatFile2entry, hloop, file2entryLoop]
      change (fatGetIndex v' (.cluster a) (c ++ 0 :: afterString path)).bind _ = _
      rw [hget, Option.bind_some]
      dsimp only
      rw [happ.entry, copy_createdEntry]
      rfl
    · rfl
    · exact congrArg (BitVec.getLsbD · 4) createdEntry_attribute
    · exact congrArg (BitVec.getLsbD · 5) createdEntry_attribute

theorem not_createFinds (h : fatCreate v prev path = none) : ¬ CreateFinds v prev path wantDir := by
  rintro ⟨v', ret, hsome, -⟩
  rw [h] at hsome
  contradiction

theorem createFinds_of_fail (h : fatCreate v prev path = some (v, FAIL)) : CreateFinds v prev path wantDir :=
  ⟨v, FAIL, h, fun hret => by simp [FAIL, SUCCESS] at hret⟩

theorem createFinds_of_success (h : fatCreate v prev path = some (v', SUCCESS)) :
    CreateFinds v prev path wantDir ↔ FindsNew v' path wantDir ∧ KeepsFound v v' := by
  constructor
  · rintro ⟨v1, ret, hsome, hfinds⟩
    rw [h] at hsome
    obtain ⟨rfl, rfl⟩ := Prod.mk.inj (Option.some.inj hsome)
    exact hfinds rfl
  · exact fun hfinds => ⟨v', SUCCESS, h, fun _ => hfinds⟩

/-- When the parent is found and the path begins with a slash, it is the update of its directory that decides. -/
theorem createFinds_of_parent {parent : FatFile} {tmp : Nat} (h : Creatable v path c d false)
    (hhead : (cstr path).head? = some slash) (hslash : strrchr (cstr path) = some tmp)
    (hparent : fatFile2entry v prev (cutAfter path tmp) = some (some parent)) :
    CreateFinds v prev path false ↔ ∃ i, endSlot v parent.entry.startCluster = some i ∧
      (v.slots ≤ i + 1 ∨ d = .cluster parent.entry.startCluster ∧ Answers v path c d i) := by
  have hcreate : fatCreate v prev path =
      (fatUpdateFileEntry v (createdFile path parent.entry.startCluster)).map fun (v, _, ret) =>
        (v, ret) := by
    rw [h.fatCreate, hslash, Option.bind_some, hparent, Option.bind_some]
    dsimp only
    rw [if_pos hhead, createEntry_file]
  cases hend : endSlot v parent.entry.startCluster with
  | none =>
    rw [fatUpdateFileEntry_no_end (createdFile path _) rfl hend] at hcreate
    simpa using not_createFinds hcreate
  | some i =>
    by_cases hlast : v.slots ≤ i + 1
    · rw [fatUpdateFileEntry_last (createdFile path _) rfl hend hlast] at hcreate
      simpa [hlast] using createFinds_of_fail hcreate
    · obtain ⟨v', hupdate, happ⟩ := fatUpdateFileEntry_append
        (createdFile path parent.entry.startCluster) rfl rfl hend (by omega)
      rw [hupdate] at hcreate
      rw [createFinds_of_success hcreate, found_iff_of_appended h happ]
      simp [hlast]

/-- A created file is found if nothing is created after all, or if its directory is not the root and the first
component of the path, of which its name is made, answers to the last one. -/
theorem fatCreate_finds_iff (h : Creatable v path c d wantDir) :
    CreateFinds v prev path wantDir ↔ Creates v prev path c d wantDir := by
  cases wantDir with
  | true => exact ⟨fun _ => .inl rfl, fun _ => createFinds_of_fail (fatCreate_slash h)⟩
  | false =>
    have hcreate := h.fatCreate prev
    cases hslash : strrchr (cstr path) with
    | none =>
      rw [hslash] at hcreate
      simpa [Creates, hslash] using not_createFinds hcreate
    | some tmp =>
      rw [hslash, Option.bind_some] at hcreate
      cases hparent : fatFile2entry v prev (cutAfter path tmp) with
      | none =>
        rw [hparent] at hcreate
        simpa [Creates, hslash, hparent] using not_createFinds hcreate
      | some found =>
        rw [hparent, Option.bind_some] at hcreate
        cases found with
        | none => simpa [Creates, hslash, hparent] using createFinds_of_fail hcreate
        | some parent =>
          by_cases hhead : (cstr path).head? = some slash
          · rw [createFinds_of_parent h hhead hslash hparent]
            simp [Creates, hslash, hparent, hhead]
          · dsimp only at hcreate
            rw [if_neg hhead] at hcreate
            simpa [Creates, hslash, hparent, hhead] using not_createFinds hcreate

theorem smallVolume_creatable (c : List Byte) (hpath : components (cstr path) = [[0x44], c])
    (hrest : afterString path = []) (hc : ValidName c)
    (hroot : fatGetIndex smallVolume .root (0x44 :: 0 :: (c ++ [0])) = some (some 0))
    (hget : fatGetIndex smallVolume (.cluster 2) (c ++ [0]) = some none) :
    Creatable smallVolume path c (.cluster 2) false := by
  refine ⟨?_, ?_, hc, ?_⟩
  · rw [hpath, hrest]
    exact .step hroot (by decide) .here
  · rw [hpath]
    exact ⟨[0x44], [], .inl ⟨rfl, rfl⟩, by decide⟩
  · rw [hrest]
    exact hget

theorem smallVolume_parent (prev : FatEntry) (path after : List Byte)
    (hpath : components (cstr path) = [[0x44], []])
    (hrest : afterString path = after)
    (hroot : fatGetIndex smallVolume .root (0x44 :: 0 :: 0 :: after) = some (some 0))
    (hget : fatGetIndex smallVolume (.cluster 2) (0 :: after) = some none) :
    fatFile2entry smallVolume prev path =
      some (some ⟨smallVolume.entryAt .root 0, prev.startCluster, none, 0⟩) := by
  rw [fatFile2entry, hpath, hrest, file2entryLoop]
  change (fatGetIndex smallVolume .root (0x44 :: 0 :: 0 :: after)).bind _ = _
  rw [hroot, Option.bind_some]
  dsimp only
  rw [file2entryLoop]
  change (fatGetIndex smallVolume (.cluster 2) (0 :: after)).bind _ = _
  rw [hget]
  rfl

/-- In the directory `D` a file `D` can be created. -/
theorem smallVolume_creates_D :
    CreateFinds smallVolume (fun _ => 0) [slash, 0x44, slash, 0x44, 0] false := by
  have hc : ValidName [0x44] := ⟨[0x44], [], .inl ⟨rfl, rfl⟩, by decide⟩
  have hparent := smallVolume_parent (fun _ => 0) (cutAfter [slash, 0x44, slash, 0x44, 0] 2) [0] (by decide)
    (by decide) (by decide) (by decide)
  refine (fatCreate_finds_iff (smallVolume_creatable [0x44] (by decide) (by decide) hc (by decide)
    (by decide))).mpr (.inr ⟨2, by decide, .inr ⟨_, 2, hparent, by decide, by decide, .inr ⟨by decide, ?_, ?_⟩⟩⟩)
  · rw [Visible]
    decide
  · decide

/-- A file `N` is called `D` when it is created there. -/
theorem smallVolume_creates_no_N :
    ¬ ∀ v prev path c d wantDir, Creatable v path c d wantDir → CreateFinds v prev path wantDir := by
  intro h
  have hc : ValidName [0x4E] := ⟨[0x4E], [], .inl ⟨rfl, rfl⟩, by decide⟩
  have hnew : Creatable smallVolume [slash, 0x44, slash, 0x4E, 0] [0x4E] (.cluster 2) false :=
    smallVolume_creatable [0x4E] (by decide) (by decide) hc (by decide) (by decide)
  have hparent := smallVolume_parent (fun _ => 0) (cutAfter [slash, 0x44, slash, 0x4E, 0] 2) [0] (by decide)
    (by decide) (by decide) (by decide)
  obtain ⟨i, hend, hlast⟩ := (createFinds_of_parent hnew (by decide) (by decide) hparent).mp
    (h _ (fun _ => 0) _ _ _ _ hnew)
  obtain rfl : 2 = i := by
    rw [show endSlot smallVolume _ = some 2 by decide] at hend
    exact Option.some.inj hend
  rcases hlast with hlast | ⟨-, -, hscan⟩
  · exact absurd hlast (by decide)
  · exact absurd hscan (by decide)

end SystemProjects.Fat
