import SystemProjects.Fat.Search
import SystemProjects.Lib.Split

/-!
# Resolving a path

`fat_file2entry` follows each entry whatever its kind, has no cluster for the root, and stops at an empty component.
-/

open SystemProjects.Memory SystemProjects.Lists

namespace SystemProjects.Fat

variable {v : Volume} {d d' : Dir} {c s rest path : List Byte} {cs : List (List Byte)} {i k : Nat}
    {file : FatFile}
  {prev : FatEntry} {find : Dir → List Byte → Option (Option Nat)} {r : Option FatFile}

/-! ## The lookup over any search -/

/-- `file2entryLoop`, with the search of a directory left open. -/
def walkLoop (find : Dir → List Byte → Option (Option Nat)) (v : Volume) (rest : List Byte) :
    List (List Byte) → Dir → FatFile → Option (Option FatFile)
  | [], _, file => some (some file)
  | c :: cs, d, file =>
    (find d (c ++ 0 :: joinPath rest cs)).bind fun
      | none => if c = [] then some (some { file with dirIndex := none }) else some none
      | some i =>
        let entry := v.entryAt d i
        walkLoop find v rest cs (.cluster entry.startCluster)
          { file with entry := entry, dirCluster := file.entry.startCluster, dirIndex := some i }

def walk (find : Dir → List Byte → Option (Option Nat)) (v : Volume) (prevEntry : FatEntry)
    (filename : List Byte) :
    Option (Option FatFile) :=
  walkLoop find v (afterString filename) (components (cstr filename)) .root
    { entry := prevEntry, dirCluster := FAIL, dirIndex := none, currentPos := 0 }

theorem file2entryLoop_eq (cs : List (List Byte)) (d : Dir) (file : FatFile) :
    file2entryLoop v rest cs d file = walkLoop (fatGetIndex v) v rest cs d file := by
  induction cs generalizing d file with
  | nil => rfl
  | cons c cs ih =>
    rw [file2entryLoop, walkLoop]
    congr 1
    funext found
    cases found with
    | none => rfl
    | some i => exact ih _ _

theorem fatFile2entry_eq (v : Volume) (prev : FatEntry) (path : List Byte) :
    fatFile2entry v prev path = walk (fatGetIndex v) v prev path := file2entryLoop_eq _ _ _

/-- The walk comes to a name that is not there. It follows files too, and an empty component ends it. -/
def Misses (find : Dir → List Byte → Option (Option Nat)) (v : Volume) (rest : List Byte) :
    List (List Byte) → Dir → Prop
  | [], _ => False
  | c :: cs, d =>
    match find d (c ++ 0 :: joinPath rest cs) with
    | none => False
    | some none => c ≠ []
    | some (some i) => Misses find v rest cs (.cluster (v.entryAt d i).startCluster)

def MissesPath (find : Dir → List Byte → Option (Option Nat)) (v : Volume) (path : List Byte) : Prop :=
  Misses find v (afterString path) (components (cstr path)) .root

theorem walkLoop_none : walkLoop find v rest cs d file = some none ↔ Misses find v rest cs d := by
  induction cs generalizing d file with
  | nil => simp [walkLoop, Misses]
  | cons c cs ih =>
    rw [walkLoop, Misses]
    cases find d (c ++ 0 :: joinPath rest cs) with
    | none => simp
    | some found =>
      cases found with
      | none => by_cases hc : c = [] <;> simp [hc]
      | some i => exact ih

theorem walk_none : walk find v prev path = some none ↔ MissesPath find v path := walkLoop_none

/-! ## What is claimed -/

/-- Entry `k` is a live one before the end mark with this name. -/
def HasName (v : Volume) (d : Dir) (name : List Byte) (k : Nat) : Prop :=
  (∀ j ≤ k, (v.entryAt d j).name0 ≠ 0) ∧ Usable (v.entryAt d k) ∧ (v.entryAt d k).rendering = name.map toupper

instance (v : Volume) (d : Dir) (name : List Byte) (k : Nat) : Decidable (HasName v d name k) :=
  inferInstanceAs (Decidable (_ ∧ _))

/-- The first entry of the directory with the name. None has the empty one. -/
def search (v : Volume) (d : Dir) (name : List Byte) : Option Nat :=
  if name = [] then none else (List.range (v.dirSlots d)).find? fun k => HasName v d name k

def exactIndex (v : Volume) (d : Dir) (name : List Byte) : Option (Option Nat) :=
    some (search v d (cstr name))

/-- The directory and the index of what the names lead to, through directories only. -/
def resolve (v : Volume) : List (List Byte) → Dir → Option (Dir × Nat)
  | [], _ => none
  | c :: cs, d => (search v d c).bind fun i =>
    if cs = [] then some (d, i)
    else if (v.entryAt d i).directory then resolve v cs (.cluster (v.entryAt d i).startCluster)
    else none

def pathNames (path : List Byte) : List (List Byte) := (components (cstr path)).filter (· ≠ [])

/-- The file has entry `i` of the directory `d`, and says where it is. -/
structure Locates (v : Volume) (d : Dir) (i : Nat) (file : FatFile) : Prop where
  entry : file.entry = v.entryAt d i
  dirCluster : ∃ c : Nat, d = .cluster c ∧ file.dirCluster = c
  dirIndex : file.dirIndex = some i

/-- The lookup finds what the names lead to, and nothing else. -/
def Resolves (v : Volume) (prev : FatEntry) (path : List Byte) : Prop :=
  ∃ r, walk (exactIndex v) v prev path = some r ∧
    (r.isSome ↔ pathNames path = [] ∨ (resolve v (pathNames path) .root).isSome) ∧
    ∀ file d i, r = some file → resolve v (pathNames path) .root = some (d, i) → Locates v d i file

/-- No names; or a name that is not there before the first empty component; or no empty component, and the names
lead to an entry of a subdirectory. -/
def ResolveOk (v : Volume) (path : List Byte) : Prop :=
  pathNames path = [] ∨ MissesPath (exactIndex v) v path ∨
    [] ∉ components (cstr path) ∧ ∃ c i, resolve v (components (cstr path)) .root = some (.cluster c, i)

/-! ## Components -/

theorem zero_not_mem_components : ∀ c ∈ components (cstr path), 0 ∉ c := by
  intro c hc hzero
  obtain ⟨b, hb, hup⟩ := List.mem_map.mp (mem_of_mem_splitOn c hc hzero)
  have hne : b ≠ 0 := by
    have hmem : b ∈ cstr path := by
      unfold dropSlash at hb
      split at hb
      · exact List.mem_of_mem_tail hb
      · exact hb
    simpa using List.all_eq_true.mp List.all_takeWhile b hmem
  have htoupper : ∀ b : Byte, toupper b = 0 → b = 0 := by decide
  exact hne (htoupper b hup)

theorem exactIndex_component (hc : 0 ∉ c) : exactIndex v d (c ++ 0 :: rest) = some (search v d c) := by
  rw [exactIndex, cstr_append hc]

theorem search_nil : search v d [] = none := if_pos rfl

theorem exists_walkLoop (v : Volume) (rest : List Byte) (cs : List (List Byte)) (d : Dir) (file : FatFile) :
    ∃ r, walkLoop (exactIndex v) v rest cs d file = some r := by
  induction cs generalizing d file with
  | nil => exact ⟨_, rfl⟩
  | cons c cs ih =>
    rw [walkLoop, exactIndex, Option.bind_some]
    cases search v d (cstr (c ++ 0 :: joinPath rest cs)) with
    | none => by_cases hc : c = [] <;> simp [hc]
    | some i => exact ih _ _

/-! ## Names that lead nowhere -/

theorem Misses.resolve (h : Misses (exactIndex v) v rest cs d) (hz : ∀ c ∈ cs, 0 ∉ c) :
    cs.filter (· ≠ []) ≠ [] ∧ resolve v (cs.filter (· ≠ [])) d = none := by
  induction cs generalizing d with
  | nil => exact h.elim
  | cons c cs ih =>
    rw [Misses, exactIndex_component (hz c List.mem_cons_self)] at h
    have hc : c ≠ [] := by
      rintro rfl
      rw [search_nil] at h
      exact h rfl
    rw [List.filter_cons_of_pos (by simpa using hc), Fat.resolve]
    refine ⟨List.cons_ne_nil _ _, ?_⟩
    cases hsearch : search v d c with
    | none => rfl
    | some i =>
      rw [hsearch] at h
      obtain ⟨hne, hnone⟩ := ih h fun c hc => hz c (List.mem_cons_of_mem _ hc)
      rw [Option.bind_some, if_neg hne, hnone, ite_self]

theorem walkLoop_empty (hz : ∀ c ∈ cs, 0 ∉ c) (hempty : [] ∈ cs)
    (h : ¬ Misses (exactIndex v) v rest cs d) (file : FatFile) :
    ∃ file', walkLoop (exactIndex v) v rest cs d file = some (some file') ∧ file'.dirIndex = none := by
  induction cs generalizing d file with
  | nil => simp at hempty
  | cons c cs ih =>
    have hindex : exactIndex v d (c ++ 0 :: joinPath rest cs) = some (search v d c) :=
      exactIndex_component (hz c List.mem_cons_self)
    rw [Misses, hindex] at h
    rw [walkLoop, hindex, Option.bind_some]
    cases hsearch : search v d c with
    | none =>
      rw [hsearch] at h
      exact ⟨_, if_pos (Decidable.not_not.mp h), rfl⟩
    | some i =>
      rw [hsearch] at h
      have hc : [] ≠ c := by
        rintro rfl
        rw [search_nil] at hsearch
        contradiction
      exact ih (fun c hc => hz c (List.mem_cons_of_mem _ hc)) ((List.mem_cons.mp hempty).resolve_left hc) h _

/-! ## Names that lead to an entry -/

/-- The directory that is saved is the one before the last, or the cluster of the file that the walk began with. -/
theorem resolve_walkLoop (rest : List Byte) (hz : ∀ c ∈ cs, 0 ∉ c) (h : resolve v cs d = some (d', i))
    (file : FatFile) :
    ∃ n : Int, walkLoop (exactIndex v) v rest cs d file =
        some (some { file with entry := v.entryAt d' i, dirCluster := n, dirIndex := some i }) ∧
      (d' = d ∧ n = file.entry.startCluster ∨ ∃ c : Nat, d' = .cluster c ∧ n = c) := by
  induction cs generalizing d file with
  | nil => contradiction
  | cons c cs ih =>
    obtain ⟨j, hsearch, hj⟩ := Option.bind_eq_some_iff.mp h
    rw [walkLoop, exactIndex_component (hz c List.mem_cons_self), hsearch, Option.bind_some]
    by_cases hcs : cs = []
    · rw [if_pos hcs] at hj
      cases hj
      rw [hcs]
      exact ⟨_, rfl, .inl ⟨rfl, rfl⟩⟩
    · rw [if_neg hcs] at hj
      split at hj
      case isFalse => contradiction
      case isTrue =>
        obtain ⟨n, hwalk, hdir⟩ := ih (fun c hc => hz c (List.mem_cons_of_mem _ hc)) hj
          { file with entry := v.entryAt d j, dirCluster := file.entry.startCluster, dirIndex := some j }
        refine ⟨n, hwalk, .inr ?_⟩
        rcases hdir with ⟨rfl, rfl⟩ | hdir
        · exact ⟨_, rfl, rfl⟩
        · exact hdir

theorem pathNames_eq (h : [] ∉ components (cstr path)) : pathNames path = components (cstr path) := by
  refine List.filter_eq_self.mpr fun c hc => decide_eq_true fun hnil => h (hnil ▸ hc)

/-! ## When a lookup resolves its path -/

theorem ResolveOk.resolves (h : ResolveOk v path) (prev : FatEntry) : Resolves v prev path := by
  obtain ⟨r, hr⟩ := exists_walkLoop v (afterString path) (components (cstr path)) .root
    { entry := prev, dirCluster := FAIL, dirIndex := none, currentPos := 0 }
  refine ⟨r, hr, ?_⟩
  rcases h with hnil | hmiss | ⟨hempty, c, i, hresolve⟩
  · have hsome : r.isSome := by
      cases r with
      | none => exact absurd hnil (Misses.resolve (walk_none.mp hr) zero_not_mem_components).1
      | some file => rfl
    refine ⟨iff_of_true hsome (.inl hnil), fun file d i _ hres => ?_⟩
    rw [hnil] at hres
    contradiction
  · obtain ⟨hne, hnone⟩ := Misses.resolve hmiss zero_not_mem_components
    obtain rfl : none = r := Option.some.inj ((walkLoop_none.mpr hmiss).symm.trans hr)
    refine ⟨iff_of_false (by simp) ?_, fun file d i hfile => by contradiction⟩
    exact not_or.mpr ⟨hne, fun hsome => by rw [pathNames, hnone] at hsome; contradiction⟩
  · rw [pathNames_eq hempty]
    obtain ⟨n, hwalk, hdir⟩ := resolve_walkLoop (afterString path) zero_not_mem_components hresolve
      { entry := prev, dirCluster := FAIL, dirIndex := none, currentPos := 0 }
    obtain rfl := Option.some.inj (hwalk.symm.trans hr)
    refine ⟨iff_of_true rfl (.inr (by rw [hresolve]; rfl)), fun file d i hfile hres => ?_⟩
    cases hfile
    obtain ⟨rfl, rfl⟩ := Prod.mk.inj (Option.some.inj (hresolve.symm.trans hres))
    refine ⟨rfl, ?_, rfl⟩
    rcases hdir with ⟨hroot, -⟩ | hdir
    · contradiction
    · exact hdir

theorem Resolves.ok (h : Resolves v prev path) : ResolveOk v path := by
  obtain ⟨r, hr, hiff, hlocates⟩ := h
  by_cases hnil : pathNames path = []
  · exact .inl hnil
  by_cases hmiss : MissesPath (exactIndex v) v path
  · exact .inr (.inl hmiss)
  cases r with
  | none => exact absurd (walk_none.mp hr) hmiss
  | some file =>
    obtain ⟨⟨d, i⟩, hresolve⟩ := Option.isSome_iff_exists.mp ((hiff.mp rfl).resolve_left hnil)
    have hfile := hlocates file d i rfl hresolve
    have hempty : [] ∉ components (cstr path) := by
      intro hmem
      obtain ⟨file', hwalk, hnone⟩ := walkLoop_empty zero_not_mem_components hmem hmiss
        { entry := prev, dirCluster := FAIL, dirIndex := none, currentPos := 0 }
      obtain rfl := Option.some.inj (Option.some.inj (hwalk.symm.trans hr))
      rw [hfile.dirIndex] at hnone
      contradiction
    obtain ⟨c, rfl, -⟩ := hfile.dirCluster
    rw [pathNames_eq hempty] at hresolve
    exact .inr (.inr ⟨hempty, c, i, hresolve⟩)

/-- **Path resolution.** A lookup resolves a path that leads to an entry of a subdirectory or comes to a missing name,
without an empty component before. -/
theorem fatFile2entry_resolves_iff (v : Volume) (prev : FatEntry) (path : List Byte) :
    Resolves v prev path ↔ ResolveOk v path :=
  ⟨Resolves.ok, fun h => h.resolves prev⟩

/-- `/D` is found, but not where it is: nothing stands for the root directory. -/
theorem smallVolume_root_entry : ¬ ∀ (v : Volume) (prev : FatEntry) (path : List Byte), path.head? ≠ some 0 →
    Resolves v prev path := by
  intro h
  obtain ⟨r, hr, hiff, hlocates⟩ := h smallVolume (fun _ => 0) [slash, 0x44, 0] (by decide)
  have hresolve : resolve smallVolume (pathNames [slash, 0x44, 0]) .root = some (.root, 0) := by decide
  obtain ⟨file, rfl⟩ := Option.isSome_iff_exists.mp (hiff.mpr (.inr (by rw [hresolve]; rfl)))
  obtain ⟨c, hc, -⟩ := (hlocates file .root 0 rfl hresolve).dirCluster
  contradiction

end SystemProjects.Fat
