import SystemProjects.Fat.Create
import SystemProjects.Fat.Resolve

/-!
# The path after a lookup

The slashes up to where a lookup stops have become ends of strings, so the next one sees the first component only.
-/

open SystemProjects.Memory SystemProjects.Lists

namespace SystemProjects.Fat

variable {v : Volume} {d : Dir} {c rest path : List Byte} {cs : List (List Byte)} {i : Nat} {prev : FatEntry}
  {file : FatFile} {r : Option FatFile}

/-! ## The buffer that is left -/

/-- The buffer from a component on, after the walk over the components. -/
def cutPath (v : Volume) (rest : List Byte) : List (List Byte) → Dir → List Byte
  | [], _ => rest
  | c :: cs, d =>
    c ++ 0 :: match fatGetIndex v d (c ++ 0 :: joinPath rest cs) with
      | some (some i) => cutPath v rest cs (.cluster (v.entryAt d i).startCluster)
      | _ => joinPath rest cs

def pathAfter (v : Volume) (path : List Byte) : List Byte :=
  (if (cstr path).head? = some slash then [slash] else []) ++
    cutPath v (afterString path) (components (cstr path)) .root

/-! ## What is claimed -/

/-- A second lookup in the same buffer gives what the first one gave, whatever its variables held before. -/
def SameTwice (v : Volume) (path : List Byte) : Prop :=
  ∃ r, ∀ prev prev', fatFile2entry v prev path = some r ∧ fatFile2entry v prev' (pathAfter v path) = some r

def KeepsPath (v : Volume) (path : List Byte) : Prop :=
  components (cstr (pathAfter v path)) = components (cstr path)

/-- The path misses, and the root has no first component, which is not empty, in the buffer that is left. -/
structure TwiceOk (v : Volume) (path : List Byte) : Prop where
  misses : MissesPath (fatGetIndex v) v path
  first : firstPart path ≠ []
  again : fatGetIndex v .root (firstPart path ++ 0 :: afterString (pathAfter v path)) = some none

/-- The path is one component, which is not empty and not in the root. -/
def OneMissing (v : Volume) (path : List Byte) : Prop :=
  ∃ c, components (cstr path) = [c] ∧ c ≠ [] ∧ fatGetIndex v .root (c ++ 0 :: afterString path) = some none

/-! ## The string that is left -/

theorem components_eq (path : List Byte) :
    components (cstr path) = firstPart path :: (components (cstr path)).tail := by
  obtain ⟨c, cs, hsplit⟩ := List.exists_cons_of_ne_nil
    (List.splitOn_ne_nil slash ((dropSlash (cstr path)).map toupper))
  rw [firstPart, components, hsplit]
  rfl

theorem firstPart_mem (path : List Byte) : firstPart path ∈ components (cstr path) := by
  rw [components_eq]
  exact List.mem_cons_self

theorem map_toupper_firstPart (path : List Byte) : (firstPart path).map toupper = firstPart path := by
  conv => rhs; rw [← List.map_id (firstPart path)]
  refine List.map_congr_left fun b hb => ?_
  obtain ⟨b', -, rfl⟩ := List.mem_map.mp (mem_of_mem_splitOn _ (firstPart_mem path) hb)
  exact toupper_toupper b'

theorem zero_not_mem_cutString (path : List Byte) : 0 ∉ cutString path := by
  have hfirst := zero_not_mem_components _ (firstPart_mem path)
  rw [cutString, ← firstPart]
  split
  · simpa [slash] using hfirst
  · exact hfirst

theorem pathAfter_eq (v : Volume) (path : List Byte) :
    ∃ after, pathAfter v path = cutString path ++ 0 :: after ∧
    (fatGetIndex v .root (firstPart path ++ 0 :: joinPath (afterString path)
      (components (cstr path)).tail) = some none →
      after = joinPath (afterString path) (components (cstr path)).tail) := by
  rw [pathAfter, components_eq, cutPath, ← List.append_assoc]
  refine ⟨_, rfl, fun h => ?_⟩
  rw [List.tail_cons] at h ⊢
  rw [h]

theorem cstr_pathAfter : cstr (pathAfter v path) = cutString path := by
  obtain ⟨after, hafter, -⟩ := pathAfter_eq v path
  rw [hafter, cstr_append (zero_not_mem_cutString path)]

theorem afterString_append {s after : List Byte} (hs : 0 ∉ s) : afterString (s ++ 0 :: after) = after := by
  rw [afterString, cstr_append hs, List.drop_length_add_append]
  rfl

theorem components_cutString (path : List Byte) : components (cutString path) = [firstPart path] := by
  have hdrop : dropSlash (cutString path) = firstPart path := by
    rw [cutString, ← firstPart]
    split
    · rfl
    · refine if_neg fun hhead => ?_
      have hslash : slash ∈ firstPart path := List.mem_of_mem_head? hhead
      exact slash_not_mem_firstPart hslash
  rw [components, hdrop, map_toupper_firstPart]
  exact List.splitOn_eq_singleton slash_not_mem_firstPart

/-! ## The second lookup -/

theorem lookup_again (v : Volume) (prev : FatEntry) (path : List Byte) :
    fatFile2entry v prev (pathAfter v path) =
    file2entryLoop v (afterString (pathAfter v path)) [firstPart path] .root
      { entry := prev, dirCluster := FAIL, dirIndex := none, currentPos := 0 } := by
  rw [fatFile2entry, cstr_pathAfter, components_cutString]

/-- What is found in the root depends on the memory before the lookup. -/
theorem lookup_again_none (h : ∀ prev, fatFile2entry v prev (pathAfter v path) = some r) :
    firstPart path ≠ [] ∧
    fatGetIndex v .root (firstPart path ++ 0 :: afterString (pathAfter v path)) = some none := by
  have h0 := h fun _ => 0
  have h1 := h fun _ => 1
  rw [lookup_again, file2entryLoop, joinPath] at h0 h1
  cases hget : fatGetIndex v .root (firstPart path ++ 0 :: afterString (pathAfter v path)) with
  | none =>
    rw [hget] at h0
    contradiction
  | some found =>
    rw [hget, Option.bind_some] at h0 h1
    have hsame := h0.trans h1.symm
    cases found with
    | none =>
      refine ⟨fun hnil => ?_, rfl⟩
      rw [if_pos hnil, if_pos hnil] at hsame
      injection hsame with hsame
      injection hsame with hsame
      injection hsame with hentry
      exact absurd (congrFun hentry 0) (by decide)
    | some i =>
      simp only [file2entryLoop] at hsame
      injection hsame with hsame
      injection hsame with hsame
      injection hsame with _ hcluster
      exact absurd hcluster (by decide)

theorem TwiceOk.again_none (h : TwiceOk v path) (prev : FatEntry) :
    fatFile2entry v prev (pathAfter v path) = some none := by
  rw [lookup_again, file2entryLoop, joinPath, h.again]
  exact if_neg h.first

theorem sameTwice_iff (v : Volume) (path : List Byte) : SameTwice v path ↔ TwiceOk v path := by
  constructor
  · rintro ⟨r, h⟩
    obtain ⟨hfirst, hagain⟩ := lookup_again_none fun prev => (h prev prev).2
    have hnone : fatFile2entry v (fun _ => 0) (pathAfter v path) = some none := by
      rw [lookup_again, file2entryLoop, joinPath, hagain]
      exact if_neg hfirst
    obtain ⟨hfound, hagain'⟩ := h (fun _ => 0) fun _ => 0
    obtain rfl : none = r := Option.some.inj (hnone.symm.trans hagain')
    rw [fatFile2entry_eq, walk_none] at hfound
    exact ⟨hfound, hfirst, hagain⟩
  · intro h
    refine ⟨none, fun prev prev' => ⟨?_, h.again_none prev'⟩⟩
    rw [fatFile2entry_eq, walk_none]
    exact h.misses

theorem OneMissing.twiceOk (h : OneMissing v path) : TwiceOk v path := by
  obtain ⟨c, hc, hne, hget⟩ := h
  have hfirst : firstPart path = c := by rw [firstPart, hc]; rfl
  obtain ⟨after, hafter, hsame⟩ := pathAfter_eq v path
  rw [hfirst, hc, List.tail_cons, joinPath] at hsame
  refine ⟨?_, hfirst ▸ hne, ?_⟩
  · rw [MissesPath, hc, Misses, joinPath, hget]
    exact hne
  · rw [hafter, afterString_append (zero_not_mem_cutString path), hsame hget, hfirst]
    exact hget

theorem keepsPath_iff : KeepsPath v path ↔ (components (cstr path)).tail = [] := by
  obtain ⟨c, cs, hsplit⟩ : ∃ c cs, components (cstr path) = c :: cs := ⟨_, _, components_eq path⟩
  rw [KeepsPath, cstr_pathAfter, components_cutString, firstPart, hsplit]
  simp [eq_comm]

/-- **A path after its lookup.** A second lookup gives the same exactly when both find nothing, and the path is then
still there when it has one component only. -/
theorem fatFile2entry_twice_iff (v : Volume) (path : List Byte) : (SameTwice v path ↔ TwiceOk v path) ∧
    (SameTwice v path ∧ KeepsPath v path ↔ OneMissing v path) := by
  refine ⟨sameTwice_iff v path, ?_⟩
  rw [sameTwice_iff]
  constructor
  · rintro ⟨h, hkeeps⟩
    have hone := components_eq path
    rw [keepsPath_iff.mp hkeeps] at hone
    obtain ⟨after, hafter, hsame⟩ := pathAfter_eq v path
    have hmiss := h.misses
    rw [MissesPath, hone, Misses, joinPath] at hmiss
    refine ⟨firstPart path, hone, h.first, ?_⟩
    cases hget : fatGetIndex v .root (firstPart path ++ 0 :: afterString path) with
    | none =>
      rw [hget] at hmiss
      exact hmiss.elim
    | some found =>
      cases found with
      | none => rfl
      | some i =>
        rw [hget] at hmiss
        exact hmiss.elim
  · intro h
    obtain ⟨c, hc, -⟩ := id h
    exact ⟨h.twiceOk, keepsPath_iff.mpr (by rw [hc]; rfl)⟩

/-- After `/D/E`, which is there, the second lookup finds `/D`. -/
theorem smallVolume_cut : ¬ ∀ (v : Volume) (path : List Byte), SameTwice v path ∧ KeepsPath v path := by
  intro h
  obtain ⟨⟨r, hr⟩, -⟩ := h smallVolume [slash, 0x44, slash, 0x45, 0]
  obtain ⟨hfirst, hagain⟩ := hr (fun _ => 0) fun _ => 0
  have hne : (fatFile2entry smallVolume (fun _ => 0) [slash, 0x44, slash, 0x45, 0]).map
    (·.map FatFile.dirIndex) ≠
      (fatFile2entry smallVolume (fun _ => 0) (pathAfter smallVolume [slash, 0x44, slash, 0x45, 0])).map
        (·.map FatFile.dirIndex) := by decide
  rw [hfirst, hagain] at hne
  exact hne rfl

end SystemProjects.Fat
