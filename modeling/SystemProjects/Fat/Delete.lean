import SystemProjects.Fat.Replace

/-!
# A deleted file is gone
-/

open SystemProjects.Memory

namespace SystemProjects.Fat

variable {v v' : Volume} {d d' : Dir} {name rest path : List Byte} {cs : List (List Byte)} {n s i : Nat}
  {e : FatEntry} {file : FatFile} {prev : FatEntry}

/-! ## What is claimed -/

/-- The path fails, and a path that does not lead through the file has the result it had. -/
structure Removed (v v' : Volume) (path : List Byte) (d : Dir) (i : Nat) : Prop where
  fails : ∀ prev, fatFile2entry v' prev path = some none
  others : ∀ q prev r, ¬ LeadsThrough v q d i → fatFile2entry v prev q = some r →
    fatFile2entry v' prev q = some r

def DeleteRemoves (v : Volume) (prev : FatEntry) (path : List Byte) (d : Dir) (i : Nat) : Prop :=
  ∃ v' ret, fatDelete v prev path = some (v', ret) ∧ (ret = SUCCESS → Removed v v' path d i)

/-! ## A deleted entry is passed over -/

theorem Names.loop_deleted (hnames : Names v rest cs d' d i) (file : FatFile)
    (hfile : (v.entryAt d i).directory = false)
    (h : Replaced v v' d i e) (he : e.name0 = fatEntryDeleted) (hlive : (v.entryAt d i).name0 ≠ 0) :
    file2entryLoop v' rest cs d' file = some none ↔ cs.getLastD [] ≠ [] ∧
      NoneAfter v d (lastName rest cs) i := by
  induction hnames generalizing file with
  | @entry c d i hget =>
    rw [file2entryLoop, joinPath, h.get_after hget (scanEntry_deleted (by rw [FatEntry.name0_copy, he]))]
    show _ ↔ c ≠ [] ∧ getIndexFrom v d (c ++ 0 :: rest) (32 - (i + 1)) (i + 1) = some none
    cases getIndexFrom v d (c ++ 0 :: rest) (32 - (i + 1)) (i + 1) with
    | none => simp
    | some found =>
      cases found with
      | none => by_cases hc : c = [] <;> simp [hc]
      | some j => simp [file2entryLoop]
  | @step c cs d1 d i j hget hdir hnames ih =>
    have hne : (d1, i) ≠ (d, j) := by
      intro heq
      obtain ⟨rfl, rfl⟩ := Prod.mk.inj heq
      rw [hdir] at hfile
      contradiction
    have hget' : fatGetIndex v' d1 (c ++ 0 :: joinPath rest cs) = some (some i) :=
      h.get_deleted he hlive hget fun _ heq => Option.some.inj heq ▸ hne
    rw [file2entryLoop, hget', Option.bind_some, lastName_cons hnames.ne_nil]
    simp only [h.others _ _ hne]
    rw [ih _ hfile h hlive]
    cases cs with
    | nil => cases hnames
    | cons c' cs => rfl

/-! ## The write -/

@[simp] theorem FatEntry.fileSize_setDeleted : e.setDeleted.fileSize = e.fileSize :=
  load32_congr fun _ _ _ => if_neg (by omega)

theorem FatEntry.name0_setFileSize {size : Nat} : (e.setFileSize size).name0 = e.name0 := by
  rw [name0, setFileSize, store32_other (by omega), name0]

theorem fatDelete_empty (h : NamesEntry v path d i) (hsize : (v.entryAt d i).fileSize = 0) :
    fatDelete v prev path = some (v, SUCCESS) := by
  obtain ⟨c, -, hfile⟩ := h.file2entry prev
  rw [fatDelete, hfile, Option.bind_some]
  dsimp only
  rw [fatSetFileSize, if_pos (by simpa using hsize)]
  rfl

def deletedFile (v : Volume) (d : Dir) (i c : Nat) : FatFile where
  entry := (v.entryAt d i).setDeleted.setFileSize 0
  dirCluster := c
  dirIndex := some i
  currentPos := 0

theorem name0_deletedFile {c : Nat} : (deletedFile v d i c).entry.name0 = fatEntryDeleted := by
  rw [deletedFile, FatEntry.name0_setFileSize]
  rfl

theorem fatDelete_nonempty (prev : FatEntry) (h : NamesEntry v path d i)
    (hsize : (v.entryAt d i).fileSize ≠ 0) :
    ∃ c : Nat, (d = .root ∨ d = .cluster c) ∧ fatDelete v prev path =
      (fatUpdateFileEntry v (deletedFile v d i c)).map fun (v, _, ret) => (v, ret) := by
  obtain ⟨c, hc, hfile⟩ := h.file2entry prev
  refine ⟨c, hc.imp_left And.left, ?_⟩
  rw [fatDelete, hfile, Option.bind_some]
  dsimp only
  rw [fatSetFileSize, if_neg (by simpa using hsize)]
  rfl

/-! ## When a file is removed -/

theorem not_removes_of_empty (h : NamesEntry v path d i) (hsize : (v.entryAt d i).fileSize = 0) :
    ¬ DeleteRemoves v prev path d i := by
  rintro ⟨v', ret, hdelete, hremoved⟩
  rw [fatDelete_empty h hsize] at hdelete
  obtain ⟨rfl, rfl⟩ : v = v' ∧ SUCCESS = ret := by simpa using hdelete
  exact h.not_fails ((hremoved rfl).fails prev)

theorem not_removes_of_root (h : NamesEntry v path .root i) (hsize : (v.entryAt .root i).fileSize ≠ 0) :
    ¬ DeleteRemoves v prev path .root i := by
  rintro ⟨v', ret, hdelete, hremoved⟩
  obtain ⟨c, -, heq⟩ := fatDelete_nonempty prev h hsize
  rw [heq] at hdelete
  obtain ⟨⟨v1, file1, ret1⟩, hupdate, heq⟩ := Option.map_eq_some_iff.mp hdelete
  obtain ⟨rfl, rfl⟩ : v1 = v' ∧ ret1 = ret := by simpa using heq
  obtain ⟨⟨block, rfl⟩, hret⟩ := writeEntry_result hupdate
  exact h.root_kept.not_fails ((hremoved hret).fails prev)

theorem removes_iff_of_sub {c : Nat} (h : NamesEntry v path (.cluster c) i)
    (hfile : (v.entryAt (.cluster c) i).directory = false)
    (hsize : (v.entryAt (.cluster c) i).fileSize ≠ 0) :
    DeleteRemoves v prev path (.cluster c) i ↔
      (components (cstr path)).getLastD [] ≠ [] ∧
        NoneAfter v (.cluster c) (lastName (afterString path) (components (cstr path))) i := by
  obtain ⟨b, hb, hdelete⟩ := fatDelete_nonempty prev h hsize
  obtain rfl : c = b := by simpa using hb
  have hslots := (getIndexFrom_found (Names.get h)).2.2.1
  obtain ⟨v', hupdate, hreplaced⟩ :=
    fatUpdateFileEntry_slot (deletedFile v (.cluster c) i c) rfl rfl hslots
  have hfails (prev : FatEntry) :=
    Names.loop_deleted h ⟨prev, FAIL, none, 0⟩ hfile hreplaced name0_deletedFile h.live
  rw [hupdate] at hdelete
  constructor
  · rintro ⟨v1, ret, hdelete1, hremoved⟩
    rw [hdelete] at hdelete1
    obtain ⟨rfl, rfl⟩ : v' = v1 ∧ SUCCESS = ret := by simpa using hdelete1
    exact (hfails prev).mp ((hremoved rfl).fails prev)
  · intro hnone
    refine ⟨v', SUCCESS, hdelete, fun _ => ⟨fun prev => (hfails prev).mpr hnone, ?_⟩⟩
    intro q prev r hleads hr
    refine file2entryLoop_kept (fun d' name r hmem => ?_) hr
    have hne : ∀ j, r = some j → (d', j) ≠ (.cluster c, i) := by
      rintro j rfl heq
      obtain ⟨rfl, rfl⟩ := Prod.mk.inj heq
      exact hleads ⟨name, hmem⟩
    exact ⟨hreplaced.get_deleted name0_deletedFile h.live (get_of_mem_lookups hmem) hne,
      fun j hj => hreplaced.others d' j (hne j hj)⟩

/-- A file is removed if it is in a subdirectory and has bytes, and the scan of its directory finds no other
entry for the name after it. -/
theorem fatDelete_removes_iff (h : NamesEntry v path d i) (hfile : (v.entryAt d i).directory = false) :
    DeleteRemoves v prev path d i ↔ (v.entryAt d i).fileSize ≠ 0 ∧ d ≠ .root ∧
      (components (cstr path)).getLastD [] ≠ [] ∧
      NoneAfter v d (lastName (afterString path) (components (cstr path))) i := by
  by_cases hsize : (v.entryAt d i).fileSize = 0
  · exact ⟨fun hremoves => absurd hremoves (not_removes_of_empty h hsize), fun hc => absurd hsize hc.1⟩
  · cases d with
    | root => exact ⟨fun hremoves => absurd hremoves (not_removes_of_root h hsize), fun hc => absurd rfl hc.2.1⟩
    | cluster c =>
      rw [removes_iff_of_sub h hfile hsize]
      exact ⟨fun hc => ⟨hsize, Dir.noConfusion, hc⟩, fun hc => hc.2.2⟩

/-- `/D/F` has five bytes and no other entry answers to its name. -/
theorem smallVolume_removes_F : DeleteRemoves smallVolume (fun _ => 0) [slash, 0x44, slash, 0x46, 0]
    (.cluster 2) 0 :=
  (fatDelete_removes_iff (smallVolume_names [0x46] (by decide) (by decide) (by decide) (by decide))
    (by decide)).mpr ⟨by decide, by decide, by decide, by rw [NoneAfter]; decide⟩

/-- `/D/E` is empty, and stays. -/
theorem smallVolume_keeps_E :
    ¬ ∀ v prev path d i, NamesEntry v path d i → (v.entryAt d i).directory = false →
      DeleteRemoves v prev path d i := by
  intro h
  have hnames : NamesEntry smallVolume [slash, 0x44, slash, 0x45, 0] (.cluster 2) 1 :=
    smallVolume_names [0x45] (by decide) (by decide) (by decide) (by decide)
  exact not_removes_of_empty hnames (by decide) (h _ (fun _ => 0) _ _ _ hnames (by decide))

end SystemProjects.Fat
