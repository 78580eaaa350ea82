import SystemProjects.Fat.Replace

/-!
# A renamed file
-/

open SystemProjects.Memory

namespace SystemProjects.Fat

variable {v v' : Volume} {d d' : Dir} {name rest src dst path c : List Byte} {cs : List (List Byte)}
    {i j : Nat}
  {e : FatEntry} {prev : FatEntry} {r : Option Nat}

/-! ## What is claimed -/

def pathLookups (v : Volume) (path : List Byte) : List (Dir × List Byte × Option Nat) :=
  lookups v (afterString path) (components (cstr path)) .root

def SameName (e e' : FatEntry) : Prop := ∀ x < 11, e x = e' x

def NoTwins (v : Volume) : Prop :=
  ∀ d, IsDir v d → ∀ j k, Live v d j → Live v d k → SameName (v.entryAt d j) (v.entryAt d k) → j = k

def NamesOther (v : Volume) (path : List Byte) (d : Dir) (i : Nat) : Prop :=
  ∃ d' j, NamesEntry v path d' j ∧ (d', j) ≠ (d, i)

/-- What comes before the last component does not lead to a directory. -/
def NoParent (v : Volume) (path : List Byte) : Prop :=
  ∀ c d, ¬ LeadsTo v (afterString path) [c] d (components (cstr path)) .root

/-- The entry that `src` led to is found at `dst` only. A path that did not lead through it has the result it had,
or fails no more because it leads to the entry now. -/
structure Moved (v v' : Volume) (src dst : List Byte) (d : Dir) (i : Nat) : Prop where
  resolves : ∀ prev, ∃ file, fatFile2entry v' prev dst = some (some file) ∧
    file.entry.startCluster = (v.entryAt d i).startCluster ∧
    file.entry.fileSize = (v.entryAt d i).fileSize ∧ file.entry 11 = v.entryAt d i 11
  gone : components (cstr src) ≠ components (cstr dst) → ∀ prev, fatFile2entry v' prev src = some none
  noTwins : NoTwins v → NoTwins v'
  others : ∀ q prev r, ¬ LeadsThrough v q d i → fatFile2entry v prev q = some r →
    fatFile2entry v' prev q = some r ∨ r = none ∧ LeadsThrough v' q d i

def RenameMoves (v : Volume) (prev : FatEntry) (src dst : List Byte) (d : Dir) (i : Nat) : Prop :=
  ∃ v' ret, fatRename v prev src dst = some (v', ret) ∧ (ret = SUCCESS → Moved v v' src dst d i) ∧
    (NamesOther v dst d i ∨ NoParent v dst → ret = FAIL ∧ v' = v)

/-! ## When it moves -/

/-- The entry with the name that follows the last slash of `dst`. -/
def renamedEntry (v : Volume) (d : Dir) (i : Nat) (dst : List Byte) (last : Nat) : FatEntry :=
  fatSetFileName (v.entryAt d i) ((cstr dst).drop (last + 1))

/-- The parent of `dst` is the directory that the entry is in. The new name `e` answers there to the last component,
and to nothing that is looked up on the way. -/
structure Reached (v : Volume) (dst : List Byte) (d : Dir) (i : Nat) (e : FatEntry) (c : List Byte) :
    Prop where
  parent : LeadsTo v (afterString dst) [c] d (components (cstr dst)) .root
  free : fatGetIndex v d (c ++ 0 :: afterString dst) = some none ∨
    fatGetIndex v d (c ++ 0 :: afterString dst) = some (some i)
  answers : scanEntry e (c ++ 0 :: afterString dst) = some .found
  way : ∀ x j, (d, x, some j) ∈ (pathLookups v dst).dropLast → j ≠ i ∧ Passes i e x (some j)

/-- The entry is in a subdirectory, and `dst` in the same one is free for it. What `src` finds the entry by is no name
of it any more, nor of an entry after it. The new name is no other entry's, and is not taken for the name of another
path. -/
structure Movable (v : Volume) (src dst : List Byte) (d : Dir) (i : Nat) (e : FatEntry) : Prop where
  sub : d ≠ .root
  reached : ∃ c, Reached v dst d i e c
  gone : components (cstr src) ≠ components (cstr dst) → ∀ x r, (d, x, r) ∈ pathLookups v src →
    if r = some i then x.head? ≠ some 0 ∧ scanEntry e x = some .next ∧ NoneAfter v d x i else Passes i e x r
  alone : ∀ k, Live v d k → k ≠ i → ¬ SameName e (v.entryAt d k)
  found : ∀ q prev file x r, ¬ LeadsThrough v q d i → fatFile2entry v prev q = some (some file) →
    (d, x, r) ∈ pathLookups v q → Passes i e x r
  failed : ∀ q x r, ¬ LeadsThrough v q d i → (d, x, r) ∈ pathLookups v q → Passes i e x r ∨
    scanEntry e x ≠ none

/-- Either `dst` has no slash, or the entry is movable. -/
def Renames (v : Volume) (src dst : List Byte) (d : Dir) (i : Nat) : Prop :=
  strrchr (cstr dst) = none ∨
    ∃ last, strrchr (cstr dst) = some last ∧ Movable v src dst d i (renamedEntry v d i dst last)

/-! ## The renamed entry -/

theorem renamedEntry_other {last x : Nat} (hx : 11 ≤ x) :
    renamedEntry v d i dst last x = v.entryAt d i x := by
  unfold renamedEntry fatSetFileName
  rw [if_neg (by omega), if_neg (by omega), if_neg (by omega)]

theorem copy_renamedEntry {last : Nat} : (renamedEntry v d i dst last).copy =
    renamedEntry v d i dst last := by
  funext x
  by_cases hx : x < entrySize
  · exact FatEntry.copy_apply hx
  · have hx' : 32 ≤ x := Nat.le_of_not_lt hx
    have hzero : ∀ e : FatEntry, e.copy x = 0 := fun e => if_neg (by unfold entrySize; omega)
    rw [hzero, renamedEntry_other (by omega), Volume.entryAt, hzero]

theorem startCluster_renamedEntry {last : Nat} :
    (renamedEntry v d i dst last).startCluster = (v.entryAt d i).startCluster := by
  rw [FatEntry.startCluster, FatEntry.startCluster, load16, load16, renamedEntry_other (by omega),
    renamedEntry_other (by omega)]

theorem fileSize_renamedEntry {last : Nat} :
    (renamedEntry v d i dst last).fileSize = (v.entryAt d i).fileSize :=
  load32_congr fun _ _ _ => renamedEntry_other (by omega)

theorem directory_renamedEntry {last : Nat} :
    (renamedEntry v d i dst last).directory = (v.entryAt d i).directory := by
  rw [FatEntry.directory, FatEntry.directory, renamedEntry_other (by omega)]

/-! ## Walks after the renaming -/

theorem LeadsTo.lookups_ne_nil (hl : LeadsTo v rest [c] d' cs d)
    (hget : fatGetIndex v d' (c ++ 0 :: rest) = some r) :
    lookups v rest cs d ≠ [] := by
  cases hl with
  | here =>
    rw [lookups, joinPath, hget]
    cases r <;> simp
  | step hget' _ _ =>
    rw [lookups, hget']
    simp

theorem LeadsTo.kept (hl : LeadsTo v rest [c] d' cs d) (hget : fatGetIndex v d' (c ++ 0 :: rest) = some r)
    (h : ∀ d1 x j, (d1, x, some j) ∈ (lookups v rest cs d).dropLast →
      fatGetIndex v' d1 x = some (some j) ∧ v'.entryAt d1 j = v.entryAt d1 j) :
    LeadsTo v' rest [c] d' cs d := by
  induction hl with
  | here => exact .here
  | @step c1 cs d1 j hget1 hdir hl ih =>
    have heq : (lookups v rest (c1 :: cs) d1).dropLast = (d1, c1 ++ 0 :: joinPath rest cs, some j) ::
        (lookups v rest cs (.cluster (v.entryAt d1 j).startCluster)).dropLast := by
      rw [lookups, hget1]
      exact List.dropLast_cons_of_ne_nil (hl.lookups_ne_nil hget)
    rw [heq] at h
    obtain ⟨hget', hentry⟩ := h d1 _ j List.mem_cons_self
    refine .step hget' (hentry ▸ hdir) ?_
    rw [hentry]
    exact ih fun d2 x k hmem => h d2 x k (List.mem_cons_of_mem _ hmem)

theorem Names.gone (hnames : Names v rest cs d' d i) (file : FatFile)
    (h : ∀ d1 x r, (d1, x, r) ∈ lookups v rest cs d' →
      if (d1, r) = (d, some i) then x.head? ≠ some 0 ∧ fatGetIndex v' d1 x = some none
      else fatGetIndex v' d1 x = some r ∧ ∀ j, r = some j → v'.entryAt d1 j = v.entryAt d1 j) :
    file2entryLoop v' rest cs d' file = some none := by
  induction hnames generalizing file with
  | @entry c d i hget =>
    rw [lookups, joinPath, hget] at h
    have hfirst := h d _ (some i) List.mem_cons_self
    rw [if_pos rfl] at hfirst
    obtain ⟨hhead, hnone⟩ := hfirst
    have hc : c ≠ [] := by
      rintro rfl
      simp at hhead
    rw [file2entryLoop, joinPath, hnone, Option.bind_some]
    exact if_neg hc
  | @step c cs d1 d j i hget hdir hnames ih =>
    rw [lookups, hget] at h
    have hfirst := h d1 _ (some j) List.mem_cons_self
    have hrest := fun d2 x r hmem => h d2 x r (List.mem_cons_of_mem _ hmem)
    split at hfirst
    · obtain ⟨hhead, hnone⟩ := hfirst
      have hc : c ≠ [] := by
        rintro rfl
        simp at hhead
      rw [file2entryLoop, hnone, Option.bind_some]
      exact if_neg hc
    · obtain ⟨hsame, hentry⟩ := hfirst
      rw [file2entryLoop, hsame, Option.bind_some]
      dsimp only
      rw [hentry j rfl]
      exact ih _ hrest

/-- A path is looked up as before, or it leads to the entry now. -/
theorem loop_or_through {file : FatFile} {found : Option FatFile}
    (h : ∀ d1 x r, (d1, x, r) ∈ lookups v rest cs d' →
      fatGetIndex v' d1 x = some r ∧ (∀ j, r = some j → v'.entryAt d1 j = v.entryAt d1 j) ∨
        d1 = d ∧ fatGetIndex v' d x = some (some i))
    (hr : file2entryLoop v rest cs d' file = some found) :
    file2entryLoop v' rest cs d' file = some found ∨ ∃ x, (d, x, some i) ∈ lookups v' rest cs d' := by
  induction cs generalizing d' file with
  | nil => exact .inl hr
  | cons c cs ih =>
    rw [file2entryLoop] at hr ⊢
    rw [lookups] at h
    cases hget : fatGetIndex v d' (c ++ 0 :: joinPath rest cs) with
    | none =>
      rw [hget] at hr
      contradiction
    | some r =>
      rw [hget] at hr h
      have hfirst : fatGetIndex v' d' (c ++ 0 :: joinPath rest cs) = some r ∧
          (∀ j, r = some j → v'.entryAt d' j = v.entryAt d' j) ∨
          d' = d ∧ fatGetIndex v' d (c ++ 0 :: joinPath rest cs) = some (some i) := by
        cases r <;> exact h d' _ _ List.mem_cons_self
      rcases hfirst with ⟨hsame, hentry⟩ | ⟨rfl, hthrough⟩
      · rw [hsame]
        cases r with
        | none => exact .inl hr
        | some j =>
          rw [lookups, hsame]
          simp only [Option.bind_some, hentry j rfl] at hr ⊢
          rcases ih (fun d1 x r hmem => h d1 x r (List.mem_cons_of_mem _ hmem)) hr with hkept | ⟨x, hx⟩
          · exact .inl hkept
          · exact .inr ⟨x, List.mem_cons_of_mem _ hx⟩
      · right
        refine ⟨c ++ 0 :: joinPath rest cs, ?_⟩
        rw [lookups, hthrough]
        exact List.mem_cons_self

theorem LeadsTo.names (hl : LeadsTo v rest [c] d cs d') {d1 : Dir} (hnames : Names v rest cs d' d1 j) :
    d1 = d ∧ fatGetIndex v d (c ++ 0 :: rest) = some (some j) := by
  induction hl with
  | here =>
    cases hnames with
    | entry hget => exact ⟨rfl, hget⟩
    | step _ _ hnil => cases hnil
  | step hget _ hl ih =>
    cases hnames with
    | entry =>
      obtain ⟨pre, hpre⟩ := hl.suffix
      simp at hpre
    | step hget' _ hnames =>
      obtain rfl := Option.some.inj (Option.some.inj (hget.symm.trans hget'))
      exact ih hnames

/-! ## Names in a directory -/

theorem Replaced.live_iff (h : Replaced v v' d i e) (hlive : Live v d i) (h0 : e.name0 ≠ 0)
    (hdel : e.name0 ≠ fatEntryDeleted) : Live v' d' j ↔ Live v d' j := by
  have hsame : ∀ k, ((v'.entryAt d' k).name0 ≠ 0 ↔ (v.entryAt d' k).name0 ≠ 0) ∧
      ((v'.entryAt d' k).name0 ≠ fatEntryDeleted ↔ (v.entryAt d' k).name0 ≠ fatEntryDeleted) := by
    intro k
    by_cases heq : (d', k) = (d, i)
    · obtain ⟨rfl, rfl⟩ := Prod.mk.inj heq
      rw [h.entry, FatEntry.name0_copy]
      exact ⟨⟨fun _ => hlive.2.1 k k.le_refl, fun _ => h0⟩, ⟨fun _ => hlive.2.2, fun _ => hdel⟩⟩
    · rw [h.others d' k heq]
      exact ⟨Iff.rfl, Iff.rfl⟩
  unfold Live
  rw [h.slots, (hsame j).2]
  simp only [(hsame _).1]

theorem Replaced.isDir (h : Replaced v v' d i e) (hlive : Live v d i) (h0 : e.name0 ≠ 0)
    (hdel : e.name0 ≠ fatEntryDeleted) (hdir : e.directory = (v.entryAt d i).directory)
    (hstart : e.startCluster = (v.entryAt d i).startCluster) (hd : IsDir v' d') : IsDir v d' := by
  induction hd with
  | root => exact .root
  | @sub d1 j _ hl hdirectory ih =>
    rw [h.live_iff hlive h0 hdel] at hl
    by_cases heq : (d1, j) = (d, i)
    · obtain ⟨rfl, rfl⟩ := Prod.mk.inj heq
      rw [h.entry, FatEntry.directory_copy, hdir] at hdirectory
      rw [h.entry, FatEntry.startCluster_copy, hstart]
      exact .sub ih hl hdirectory
    · rw [h.others d1 j heq] at hdirectory ⊢
      exact .sub ih hl hdirectory

theorem Replaced.noTwins (h : Replaced v v' d i e) (hlive : Live v d i) (h0 : e.name0 ≠ 0)
    (hdel : e.name0 ≠ fatEntryDeleted) (hdir : e.directory = (v.entryAt d i).directory)
    (hstart : e.startCluster = (v.entryAt d i).startCluster) (hcopy : e.copy = e)
    (halone : ∀ k, Live v d k → k ≠ i → ¬ SameName e (v.entryAt d k)) (htwins : NoTwins v) : NoTwins v' := by
  intro d' hd j k hj hk hsame
  rw [h.live_iff hlive h0 hdel] at hj hk
  have hd := h.isDir hlive h0 hdel hdir hstart hd
  by_cases hji : (d', j) = (d, i)
  · obtain ⟨rfl, rfl⟩ := Prod.mk.inj hji
    by_cases hki : k = j
    · exact hki.symm
    · rw [h.entry, hcopy, h.other hki] at hsame
      exact absurd hsame (halone k hk hki)
  · rw [h.others d' j hji] at hsame
    by_cases hki : (d', k) = (d, i)
    · obtain ⟨rfl, rfl⟩ := Prod.mk.inj hki
      rw [h.entry, hcopy] at hsame
      have hne : j ≠ k := fun heq => hji (by rw [heq])
      exact absurd (fun x hx => (hsame x hx).symm) (halone j hj hne)
    · rw [h.others d' k hki] at hsame
      exact htwins d' hd j k hj hk hsame

/-! ## The renaming -/

theorem fatRename_no_slash (h : NamesEntry v src d i) (hdst : strrchr (cstr dst) = none) :
    fatRename v prev src dst = some (v, FAIL) := by
  obtain ⟨c, -, hfile⟩ := h.file2entry prev
  rw [fatRename, hfile, Option.bind_some, hdst]

theorem fatRename_sub {last : Nat} (prev : FatEntry) (h : NamesEntry v src d i) (hsub : d ≠ .root)
    (hdst : strrchr (cstr dst) = some last) :
    ∃ v', fatRename v prev src dst = some (v', SUCCESS) ∧
      Replaced v v' d i (renamedEntry v d i dst last) := by
  obtain ⟨c, hc, hfile⟩ := h.file2entry prev
  obtain rfl := hc.resolve_left fun hroot => hsub hroot.1
  have hslots := (getIndexFrom_found (Names.get h)).2.2.1
  obtain ⟨v', hupdate, hreplaced⟩ :=
    fatUpdateFileEntry_slot ⟨renamedEntry v (.cluster c) i dst last, c, some i, 0⟩ rfl rfl hslots
  refine ⟨v', ?_, hreplaced⟩
  rw [fatRename, hfile, Option.bind_some, hdst]
  exact congrArg (Option.map _) hupdate

theorem not_moves_of_root {last : Nat} (h : NamesEntry v src .root i) (hdst : strrchr (cstr dst) = some last)
    (hne : components (cstr src) ≠ components (cstr dst)) : ¬ RenameMoves v prev src dst .root i := by
  rintro ⟨v', ret, hrename, hmoved, -⟩
  obtain ⟨c, -, hfile⟩ := h.file2entry prev
  rw [fatRename, hfile, Option.bind_some, hdst] at hrename
  obtain ⟨⟨v1, file1, ret1⟩, hupdate, heq⟩ := Option.map_eq_some_iff.mp hrename
  obtain ⟨rfl, rfl⟩ : v1 = v' ∧ ret1 = ret := by simpa using heq
  obtain ⟨⟨block, rfl⟩, hret⟩ := writeEntry_result hupdate
  exact h.root_kept.not_fails ((hmoved hret).gone hne fun _ => 0)

/-- A scan that did not find an entry before this one passes over those. -/
theorem Live.before_next (h : Live v d i) (hi : i < 32) (hget : fatGetIndex v d name = some r)
    (hr : ∀ j < i, r ≠ some j) : ∀ j < i, scanEntry (v.entryAt d j) name = some .next := by
  intro j hj
  cases r with
  | none => exact (getIndexFrom_none hget (by omega) (fun k _ hk => h.2.1 k (by omega)) j (Nat.zero_le j) hj).2
  | some k =>
    have hk : i ≤ k := Nat.le_of_not_lt fun hlt => hr k hlt rfl
    exact (getIndexFrom_found hget).2.2.2.2 j (Nat.zero_le j) (by omega)

theorem Replaced.get_cases (h : Replaced v v' d i e) (hcopy : e.copy = e) (hlive : Live v d i) (hi : i < 32)
    (h0 : e.name0 ≠ 0) (hget : fatGetIndex v d' name = some r) (hne : ∀ j, r = some j → (d', j) ≠ (d, i))
    (hpass : d' = d → Passes i e name r ∨ scanEntry e name ≠ none) :
    fatGetIndex v' d' name = some r ∧ (∀ j, r = some j → v'.entryAt d' j = v.entryAt d' j) ∨
      d' = d ∧ ¬ Passes i e name r ∧ fatGetIndex v' d name = some (some i) := by
  have hkept : (d' = d → Passes i e name r) → fatGetIndex v' d' name = some r ∧
      ∀ j, r = some j → v'.entryAt d' j = v.entryAt d' j := by
    intro hpass
    rw [← hcopy] at hpass
    exact ⟨h.get (hlive.2.1 i i.le_refl) hget hne hpass, fun j hj => h.others d' j (hne j hj)⟩
  by_cases hpasses : d' = d → Passes i e name r
  · exact .inl (hkept hpasses)
  · obtain ⟨rfl, hnot⟩ : d' = d ∧ ¬ Passes i e name r := by simpa using hpasses
    refine .inr ⟨rfl, hnot, h.get_answer hi hlive.1 ?_ ?_⟩
    · exact hlive.before_next hi hget fun j hj heq => hnot (.inl ⟨j, hj, heq⟩)
    · rw [hcopy]
      have hsome := (hpass rfl).resolve_left hnot
      cases hscan : scanEntry e name with
      | none => exact absurd hscan hsome
      | some scan =>
        cases scan with
        | found => rfl
        | next => exact absurd (.inr hscan) hnot
        | stop => exact absurd (scanEntry_stop.mp hscan) h0

theorem Reached.resolves (hc : Reached v dst d i e c) (h : Replaced v v' d i e) (hcopy : e.copy = e)
    (hlive : Live v d i) (hi : i < 32) (prev : FatEntry) :
    ∃ file, fatFile2entry v' prev dst = some (some file) ∧ file.entry = e := by
  obtain ⟨h0, -, -⟩ := scanEntry_found hc.answers
  obtain ⟨r, hget, hbefore⟩ : ∃ r, fatGetIndex v d (c ++ 0 :: afterString dst) = some r ∧ ∀ j < i,
    r ≠ some j := by
    rcases hc.free with hnone | hself
    · exact ⟨none, hnone, fun _ _ heq => by contradiction⟩
    · exact ⟨some i, hself, fun j hj heq => by have := Option.some.inj heq; omega⟩
  have hparent : LeadsTo v' (afterString dst) [c] d (components (cstr dst)) .root := by
    refine hc.parent.kept hget fun d1 x j hmem => ?_
    have hlookup := get_of_mem_lookups (List.dropLast_subset _ hmem)
    have hne : ∀ k, some j = some k → (d1, k) ≠ (d, i) := by
      rintro k hk heq
      obtain ⟨rfl, rfl⟩ := Prod.mk.inj heq
      exact (hc.way x j hmem).1 (Option.some.inj hk)
    have hway : d1 = d → Passes i e x (some j) := by
      rintro rfl
      exact (hc.way x j hmem).2
    rcases h.get_cases hcopy hlive hi h0 hlookup hne fun heq =>
      .inl (hway heq) with ⟨hsame, hentry⟩ | ⟨heq, hnot, -⟩
    · exact ⟨hsame, hentry j rfl⟩
    · exact absurd (hway heq) hnot
  have hfound : fatGetIndex v' d (c ++ 0 :: afterString dst) = some (some i) :=
    h.get_answer hi hlive.1 (hlive.before_next hi hget hbefore) (by rw [hcopy]; exact hc.answers)
  obtain ⟨file, hloop⟩ := hparent.loop ⟨prev, FAIL, none, 0⟩
  refine ⟨⟨e, file.entry.startCluster, some i, file.currentPos⟩, ?_, rfl⟩
  rw [fatFile2entry, hloop, file2entryLoop, joinPath, hfound, Option.bind_some]
  dsimp only
  rw [h.entry, hcopy]
  rfl

theorem moved_of_movable {last : Nat} (h : NamesEntry v src d i)
    (hm : Movable v src dst d i (renamedEntry v d i dst last))
    (hr : Replaced v v' d i (renamedEntry v d i dst last)) : Moved v v' src dst d i := by
  obtain ⟨c, hc⟩ := hm.reached
  have hlive := h.isLive
  have hi : i < 32 := by
    have := (getIndexFrom_found (Names.get h)).2.1
    omega
  obtain ⟨h0, hdel, -⟩ := scanEntry_found hc.answers
  refine ⟨fun prev => ?_, fun hne prev => ?_, ?_, fun q prev r hleads hq => ?_⟩
  · obtain ⟨file, hfile, hentry⟩ := hc.resolves hr copy_renamedEntry hlive hi prev
    refine ⟨file, hfile, ?_⟩
    rw [hentry]
    exact ⟨startCluster_renamedEntry, fileSize_renamedEntry, renamedEntry_other (by omega)⟩
  · refine Names.gone h _ fun d1 x r hmem => ?_
    have hget := get_of_mem_lookups hmem
    split
    case isTrue heq =>
      obtain ⟨rfl, rfl⟩ := Prod.mk.inj heq
      have hgone := hm.gone hne x _ hmem
      rw [if_pos rfl] at hgone
      obtain ⟨hhead, hnext, hnone⟩ := hgone
      exact ⟨hhead, by rw [hr.get_after hget (by rw [copy_renamedEntry]; exact hnext)]; exact hnone⟩
    case isFalse hother =>
      have hpass : d1 = d → Passes i (renamedEntry v d i dst last) x r := by
        rintro rfl
        have hgone := hm.gone hne x r hmem
        rwa [if_neg fun heq => hother (by rw [heq])] at hgone
      rcases hr.get_cases copy_renamedEntry hlive hi h0 hget (fun j hj heq =>
        hother (by rw [hj, (Prod.mk.inj heq).1, (Prod.mk.inj heq).2]))
        fun heq => .inl (hpass heq) with hkept | ⟨heq, hnot, -⟩
      · exact hkept
      · exact absurd (hpass heq) hnot
  · exact hr.noTwins hlive h0 hdel directory_renamedEntry startCluster_renamedEntry copy_renamedEntry hm.alone
  · have hne : ∀ {d1 x r}, (d1, x, r) ∈ pathLookups v q → ∀ j, r = some j → (d1, j) ≠ (d, i) := by
      rintro d1 x r hmem j rfl heq
      obtain ⟨rfl, rfl⟩ := Prod.mk.inj heq
      exact hleads ⟨x, hmem⟩
    cases r with
    | some file =>
      refine .inl (file2entryLoop_kept (fun d1 x r hmem => ?_) hq)
      have hpass : d1 = d → Passes i (renamedEntry v d i dst last) x r := by
        rintro rfl
        exact hm.found q prev file x r hleads hq hmem
      rcases hr.get_cases copy_renamedEntry hlive hi h0 (get_of_mem_lookups hmem) (hne hmem)
        fun heq => .inl (hpass heq) with hkept | ⟨heq, hnot, -⟩
      · exact hkept
      · exact absurd (hpass heq) hnot
    | none =>
      refine (loop_or_through (fun d1 x r hmem => ?_) hq).imp_right fun hthrough => ⟨rfl, hthrough⟩
      refine (hr.get_cases copy_renamedEntry hlive hi h0 (get_of_mem_lookups hmem) (hne hmem) ?_).imp_right
        fun hnew => ⟨hnew.1, hnew.2.2⟩
      rintro rfl
      exact hm.failed q x r hleads hmem

/-- A renaming moves the file if it is refused, or if the entry is movable. -/
theorem fatRename_moves (h : NamesEntry v src d i) (hr : Renames v src dst d i) :
    RenameMoves v prev src dst d i := by
  rcases hr with hdst | ⟨last, hdst, hm⟩
  · refine ⟨v, FAIL, fatRename_no_slash h hdst, fun hret => ?_, fun _ => ⟨rfl, rfl⟩⟩
    simp [FAIL, SUCCESS] at hret
  · obtain ⟨v', hrename, hreplaced⟩ := fatRename_sub prev h hm.sub hdst
    refine ⟨v', SUCCESS, hrename, fun _ => moved_of_movable h hm hreplaced, ?_⟩
    obtain ⟨c, hc⟩ := hm.reached
    rintro (⟨d', j, hnames, hne⟩ | hno)
    · obtain ⟨rfl, hget⟩ := hc.parent.names hnames
      rcases hc.free with hnone | hself
      · rw [hnone] at hget
        simp at hget
      · rw [hself] at hget
        obtain rfl := Option.some.inj (Option.some.inj hget)
        exact absurd rfl hne
    · exact absurd hc.parent (hno c d)

/-- The new name of the last entry of `D`. -/
def entryG : FatEntry := renamedEntry smallVolume (.cluster 2) 1 [slash, 0x44, slash, 0x47, 0] 2

theorem smallVolume_found {x : List Byte} (h :
    fatGetIndex smallVolume (.cluster 2) x = some (some j)) : j < 2 := by
  obtain ⟨-, -, -, hfound, hbefore⟩ := getIndexFrom_found h
  have hend : scanEntry (smallVolume.entryAt (.cluster 2) 2) x = some .stop := scanEntry_stop.mpr (by decide)
  rcases Nat.lt_trichotomy j 2 with hlt | rfl | hgt
  · exact hlt
  · rw [hfound] at hend
    simp at hend
  · rw [hbefore 2 (by omega) hgt] at hend
    simp at hend

theorem smallVolume_reached_G :
    Reached smallVolume [slash, 0x44, slash, 0x47, 0] (.cluster 2) 1 entryG [0x47] where
  parent := .step (i := 0) (by decide) (by decide) .here
  free := .inl (by decide)
  answers := by decide
  way := by
    have hlookups : (pathLookups smallVolume [slash, 0x44, slash, 0x47, 0]).dropLast =
      [(.root, [0x44, 0, 0x47, 0], some 0)] := by decide
    intro x j hmem
    rw [hlookups] at hmem
    simp at hmem

theorem smallVolume_movable_E : Movable smallVolume [slash, 0x44, slash, 0x45, 0] [slash, 0x44, slash,
    0x47, 0]
    (.cluster 2) 1 entryG where
  sub := Dir.noConfusion
  reached := ⟨[0x47], smallVolume_reached_G⟩
  gone := by
    have hlookups : pathLookups smallVolume [slash, 0x44, slash, 0x45, 0] =
      [(.root, [0x44, 0, 0x45, 0], some 0), (.cluster 2, [0x45, 0], some 1)] := by decide
    intro _ x r hmem
    rw [hlookups] at hmem
    obtain ⟨rfl, rfl⟩ : x = [0x45, 0] ∧ r = some 1 := by simpa using hmem
    rw [if_pos rfl, NoneAfter]
    decide
  alone := by
    rintro k ⟨-, hbefore, -⟩ hk hsame
    have hlt : k < 2 := Nat.lt_of_not_le fun hge => hbefore 2 hge (by decide)
    obtain rfl : k = 0 := by omega
    exact absurd (hsame 0 (by omega)) (by decide)
  found := by
    intro q prev file x r hleads hq hmem
    cases r with
    | some j =>
      have hj := smallVolume_found (get_of_mem_lookups hmem)
      have hne : j ≠ 1 := fun heq => hleads ⟨x, heq ▸ hmem⟩
      exact .inl ⟨j, by omega, rfl⟩
    | none =>
      obtain ⟨after, rfl⟩ := lookups_none hq hmem
      exact .inr (scanEntry_empty (by decide) (by decide))
  failed := by
    intro q x r hleads hmem
    obtain ⟨c, after, rfl⟩ := name_of_mem_lookups hmem
    obtain ⟨same, hsame⟩ := fatCompareName_within (e := entryG) (by decide) (by decide) c after
    right
    rw [scanEntry, hsame]
    split
    · simp
    split
    · simp
    split
    · simp
    · simp

/-- The last entry of `D` gets the name `G`. -/
theorem smallVolume_moves_E : RenameMoves smallVolume (fun _ => 0) [slash, 0x44, slash, 0x45, 0]
    [slash, 0x44, slash, 0x47, 0] (.cluster 2) 1 :=
  fatRename_moves (smallVolume_names [0x45] (by decide) (by decide) (by decide) (by decide))
    (.inr ⟨2, by decide, smallVolume_movable_E⟩)

/-- The name of another file is given a second time. -/
theorem smallVolume_second_E :
    ¬ ∀ v prev src dst d i, NamesEntry v src d i → RenameMoves v prev src dst d i := by
  intro h
  have hnames : NamesEntry smallVolume [slash, 0x44, slash, 0x46, 0] (.cluster 2) 0 :=
    smallVolume_names [0x46] (by decide) (by decide) (by decide) (by decide)
  have hother : NamesEntry smallVolume [slash, 0x44, slash, 0x45, 0] (.cluster 2) 1 :=
    smallVolume_names [0x45] (by decide) (by decide) (by decide) (by decide)
  have hdst : strrchr (cstr [slash, 0x44, slash, 0x45, 0]) = some 2 := by decide
  obtain ⟨v', hrename, -⟩ := fatRename_sub (fun _ => 0) hnames Dir.noConfusion hdst
  obtain ⟨v1, ret, hrename1, -, hfail⟩ := h _ (fun _ => 0) _ _ _ _ hnames
  have hsame := hrename.symm.trans hrename1
  obtain ⟨rfl, rfl⟩ := Prod.mk.inj (Option.some.inj hsame)
  have hret := (hfail (.inl ⟨_, 1, hother, by decide⟩)).1
  simp [FAIL, SUCCESS] at hret

end SystemProjects.Fat
