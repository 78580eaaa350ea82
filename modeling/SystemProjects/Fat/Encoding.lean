import SystemProjects.Fat.Listing

/-!
# Storing a name and reading it back
-/

open SystemProjects.Memory

namespace SystemProjects.Fat

variable {e : FatEntry} {base ext l : List Byte} {field : Nat → Byte} {n i x : Nat}

/-! ## What is claimed -/

/-- Up to eight bytes, and up to three. -/
structure Name83 (base ext : List Byte) : Prop where
  base_ne : base ≠ []
  base_length : base.length ≤ fatNamesize
  ext_length : ext.length ≤ fatExtensionsize
  chars : ∀ b ∈ base ++ ext, b ≠ 0 ∧ b ≠ dot ∧ b ≠ fatPadbyte

def nameOf (base ext : List Byte) : List Byte := base ++ if ext = [] then [] else dot :: ext

/-- The stored name is accepted, listed in some case, and not that of another name. -/
structure NameCoded (e : FatEntry) (base ext : List Byte) : Prop where
  accepted : ∀ rest, fatCompareName (fatSetFileName e (nameOf base ext))
    (nameOf base ext ++ 0 :: rest) = some true
  listed : ∀ x, toupper (dirlistName (fatSetFileName e (nameOf base ext)) x) =
    toupper ((nameOf base ext)[x]?.getD 0)
  distinct : ∀ base' ext', Name83 base' ext' →
    (nameOf base' ext').map toupper ≠ (nameOf base ext).map toupper →
    ∃ x < fatNamesize + fatExtensionsize,
      fatSetFileName e (nameOf base' ext') x ≠ fatSetFileName e (nameOf base ext) x

/-! ## The stored fields -/

theorem unpadded_of_getD (h : ∀ x < n, field (i + x) = l[x]?.getD fatPadbyte) (hl : l.length ≤ n)
    (hpad : fatPadbyte ∉ l) : unpadded field n i = l := by
  induction n generalizing i l with
  | zero => rw [List.eq_nil_of_length_eq_zero (Nat.le_zero.mp hl)]; rfl
  | succ n ih =>
    rw [unpadded_succ]
    cases l with
    | nil => exact if_pos (h 0 (by omega))
    | cons b l =>
      have hb : field i = b := h 0 (by omega)
      rw [if_neg (by rw [hb]; exact fun heq => hpad (heq ▸ List.mem_cons_self)), hb]
      congr 1
      refine ih (fun x hx => ?_) (by simpa using hl) fun hmem => hpad (List.mem_cons_of_mem b hmem)
      rw [Nat.add_right_comm, Nat.add_assoc, h (x + 1) (by omega), List.getElem?_cons_succ]

theorem toupper_eq_dot {b : Byte} : toupper b = dot ↔ b = dot := by
  revert b
  decide

theorem toupper_eq_pad {b : Byte} : toupper b = fatPadbyte ↔ b = fatPadbyte := by
  revert b
  decide

theorem toupper_lt {b : Byte} : toupper b < 0x80 ↔ b < 0x80 := by
  revert b
  decide

theorem map_nameOf (base ext : List Byte) : (nameOf base ext).map toupper =
    nameOf (base.map toupper) (ext.map toupper) := by
  unfold nameOf
  by_cases hext : ext = []
  · simp [hext]
  · rw [if_neg hext, if_neg (by simpa using hext), List.map_append, List.map_cons]
    rfl

theorem nameOf_ext (base ext : List Byte) : (if (nameOf base ext)[base.length]? = some dot then
    (nameOf base ext).drop (base.length + 1) else []) = ext := by
  unfold nameOf
  rw [List.getElem?_append_right (Nat.le_refl _), Nat.sub_self, List.drop_length_add_append]
  by_cases hext : ext = []
  · simp [hext]
  · rw [if_neg hext]
    exact if_pos rfl

theorem fatSetFileName_eq (e : FatEntry) (h : Name83 base ext) : fatSetFileName e (nameOf base ext) = fun x =>
    if x < 8 then (base.map toupper)[x]?.getD fatPadbyte
    else if x = 8 then (ext.map toupper).getLast?.getD fatPadbyte
    else if x < 11 then fatPadbyte
    else e x := by
  have hdot : ∀ b ∈ base.map toupper, decide (b ≠ dot) = true := by
    intro b hb
    obtain ⟨c, hc, rfl⟩ := List.mem_map.mp hb
    exact decide_eq_true fun heq => (h.chars c (List.mem_append_left _ hc)).2.1 (toupper_eq_dot.mp heq)
  have hlength : (base.map toupper).length ≤ fatNamesize := by
    rw [List.length_map]
    exact h.base_length
  have hbase : ((nameOf (base.map toupper) (ext.map toupper)).take fatNamesize).takeWhile (· ≠ dot) =
    base.map toupper := by
    unfold nameOf
    rw [List.take_append, List.take_of_length_le hlength, List.takeWhile_append_of_pos hdot]
    split
    · simp
    · cases fatNamesize - (base.map toupper).length <;> simp
  unfold fatSetFileName
  dsimp only
  rw [map_nameOf, hbase, nameOf_ext]

theorem base_fatSetFileName (h : Name83 base ext) :
    (fatSetFileName e (nameOf base ext)).base = base.map toupper := by
  rw [fatSetFileName_eq e h]
  refine unpadded_of_getD (fun x hx => ?_) (by simpa using h.base_length) fun hmem => ?_
  · rw [Nat.zero_add]
    exact if_pos hx
  · obtain ⟨b, hb, heq⟩ := List.mem_map.mp hmem
    exact (h.chars b (List.mem_append_left _ hb)).2.2 (toupper_eq_pad.mp heq)

theorem ext_fatSetFileName_nil (h : Name83 base []) : (fatSetFileName e (nameOf base [])).ext = [] := by
  rw [FatEntry.ext_eq_nil, fatSetFileName_eq e h]
  rfl

/-! ## When a name survives -/

theorem unpadded_congr {field' : Nat → Byte} (h : ∀ x < n, field x = field' x) :
    unpadded field n 0 = unpadded field' n 0 := by
  unfold unpadded
  rw [List.map_congr_left fun x hx => h x (by simpa using (List.mem_range'_1.mp hx).2)]

theorem collides (h : Name83 base ext) (hext : ext ≠ []) : ∃ ext', Name83 base ext' ∧
    ext'.length ≠ ext.length ∧
    ext'.getLast? = ext.getLast? := by
  obtain ⟨init, b, rfl⟩ := (List.eq_nil_or_concat ext).resolve_left hext
  have hb := h.chars b (by simp)
  have hbase : ∀ c ∈ base, c ≠ 0 ∧ c ≠ dot ∧ c ≠ fatPadbyte :=
    fun c hc => h.chars c (List.mem_append_left _ hc)
  have hname : ∀ ext', ext'.length ≤ fatExtensionsize → (∀ c ∈ ext', c = b) → Name83 base ext' := by
    refine fun ext' hlength hall => ⟨h.base_ne, h.base_length, hlength, fun c hc => ?_⟩
    rcases List.mem_append.mp hc with hc | hc
    · exact hbase c hc
    · exact hall c hc ▸ hb
  cases init with
  | nil => exact ⟨[b, b], hname _ (Nat.le_of_ble_eq_true rfl) (by simp), by simp, by simp⟩
  | cons c init =>
    refine ⟨[b], hname _ (Nat.le_of_ble_eq_true rfl) (by simp), by simp, ?_⟩
    rw [List.concat_eq_append, List.getLast?_concat]
    rfl

theorem NameCoded.ext_nil (hc : NameCoded e base ext) (h : Name83 base ext) : ext = [] := by
  refine Classical.byContradiction fun hext => ?_
  obtain ⟨ext', hname, hlength, hlast⟩ := collides h hext
  have hext' : ext' ≠ [] := by
    rintro rfl
    simp [eq_comm, hext] at hlast
  have hother : (nameOf base ext').map toupper ≠ (nameOf base ext).map toupper := by
    intro heq
    have hl := congrArg List.length heq
    simp [nameOf, hext, hext'] at hl
    exact hlength hl
  obtain ⟨x, -, hne⟩ := hc.distinct base ext' hname hother
  rw [fatSetFileName_eq e h, fatSetFileName_eq e hname, List.getLast?_map, List.getLast?_map, hlast] at hne
  exact hne rfl

theorem NameCoded.ascii (hc : NameCoded e base ext) (h : Name83 base ext) : ∀ b ∈ base, b < 0x80 := by
  intro b hb
  have hmatch := (matchField_true.mp (fatCompareName_true.mp (hc.accepted [])).1).2
  rw [base_fatSetFileName h] at hmatch
  exact toupper_lt.mp (hmatch _ (List.mem_map_of_mem hb))

theorem nameCoded_of_base (e : FatEntry) (h : Name83 base []) (hascii : ∀ b ∈ base, b < 0x80) :
    NameCoded e base [] := by
  have hs : nameOf base [] = base := List.append_nil base
  have hbase := base_fatSetFileName (e := e) h
  have hext := ext_fatSetFileName_nil (e := e) h
  have hzero : 0 ∉ base := fun hmem => (h.chars 0 (List.mem_append_left _ hmem)).1 rfl
  refine ⟨fun rest => ?_, fun x => ?_, fun base' ext' h' hne => ?_⟩
  · rw [fatCompareName_true, hbase, hext, hs, upperString_append hzero, matchField_true]
    refine ⟨⟨List.prefix_append _ _, fun b hb => ?_⟩, by simp, rfl⟩
    obtain ⟨c, hc, rfl⟩ := List.mem_map.mp hb
    exact toupper_lt.mpr (hascii c hc)
  · have hshows := (shows_dirlistEntry (fatSetFileName e (nameOf base []))).name x
    rw [FatEntry.rendering, hbase, hext, if_pos rfl, List.append_nil, List.getElem?_map] at hshows
    refine hshows.trans ?_
    rw [hs]
    cases base[x]? with
    | none => rfl
    | some b => exact toupper_toupper b
  · refine Classical.byContradiction fun hno => hne ?_
    have hsame : ∀ x < fatNamesize + fatExtensionsize,
        fatSetFileName e (nameOf base' ext') x = fatSetFileName e (nameOf base []) x := fun x hx =>
      Decidable.not_not.mp fun hx' => hno ⟨x, hx, hx'⟩
    have hbases : base'.map toupper = base.map toupper := by
      rw [← base_fatSetFileName (e := e) h', ← hbase]
      exact unpadded_congr fun x hx => hsame x (Nat.lt_add_right _ hx)
    have hnil : ext' = [] := by
      have hlast := hsame 8 (by decide)
      rw [fatSetFileName_eq e h, fatSetFileName_eq e h'] at hlast
      rcases List.eq_nil_or_concat ext' with rfl | ⟨init, b, rfl⟩
      · rfl
      · have hb : toupper b = fatPadbyte := by simpa using hlast
        exact absurd (toupper_eq_pad.mp hb) (h'.chars b (by simp)).2.2
    subst hnil
    rw [map_nameOf, map_nameOf, hbases]

/-- **The name codec.** A name survives when it has no extension and is ASCII. -/
theorem fatSetFileName_codes_iff (e : FatEntry) (base ext : List Byte) (h : Name83 base ext) :
    NameCoded e base ext ↔ ext = [] ∧ ∀ b ∈ base, b < 0x80 := by
  constructor
  · exact fun hc => ⟨hc.ext_nil h, hc.ascii h⟩
  · rintro ⟨rfl, hascii⟩
    exact nameCoded_of_base e h hascii

theorem abc_coded : NameCoded (fun _ => 0) [0x61, 0x62, 0x63] [] :=
  (fatSetFileName_codes_iff (fun _ => 0) [0x61, 0x62, 0x63] []
    ⟨by decide, by decide, by decide, by decide⟩).mpr
    ⟨rfl, by decide⟩

/-- `a.txt` is listed as `a.T`. -/
theorem txt_not_coded : ¬ ∀ (e : FatEntry) (base ext : List Byte), Name83 base ext →
    NameCoded e base ext := by
  intro h
  have hlisted := (h (fun _ => 0) [0x61] [0x74, 0x78, 0x74]
    ⟨by decide, by decide, by decide, by decide⟩).listed 3
  revert hlisted
  decide

end SystemProjects.Fat
