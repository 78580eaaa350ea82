import SystemProjects.Simdisk.Lookup
import SystemProjects.Simdisk.ReadProofs

/-!
# Which paths are found
-/

open SystemProjects.Memory SystemProjects.Lists

namespace SystemProjects.Simdisk

variable {w : World} {d : Device} {arg tmp direc direc' inode inode' inode0 direc0 : Mem} {path c : CString}
  {names : List CString} {is js : List Nat} {dir : Bool} {last : Mem → Prop} {b inum : Int} {i k n m x : Nat}

/-! ## The blocks of an inode -/

theorem firstBlock_congr (h : Agree inode inode' 0 256) : firstBlock inode = firstBlock inode' := by
  have hmap : (List.range 10).map (inodeBlock inode) = (List.range 10).map (inodeBlock inode') := by
    apply List.map_congr_left
    intro j hj
    rw [List.mem_range] at hj
    exact loadInt_congr fun x _ hx => h x (Nat.zero_le x) (by omega)
  rw [firstBlock, firstBlock, hmap]

theorem firstBlock_some (h : firstBlock inode = some b) : 0 < b ∧ ∃ j < 10, inodeBlock inode j = b := by
  obtain ⟨j, hj, rfl⟩ := List.mem_map.mp (List.mem_of_find?_eq_some h)
  exact ⟨by simpa using List.find?_some h, j, List.mem_range.mp hj, rfl⟩

theorem firstBlock_none (h : firstBlock inode = none) {j : Nat} (hj : j < 10) : inodeBlock inode j ≤ 0 := by
  have hnot := List.find?_eq_none.mp h _ (List.mem_map_of_mem (List.mem_range.mpr hj))
  simpa using hnot

theorem findInBlocks_none {name : Mem} (h : (js.map (inodeBlock tmp)).find? (0 < ·) = none) :
    findInBlocks d name dir tmp js direc = some (none, direc) := by
  induction js with
  | nil => rfl
  | cons j js ih =>
    rw [List.map_cons, List.find?_cons] at h
    split at h
    · cases h
    · rename_i hpos
      rw [findInBlocks, if_pos (by simpa using hpos)]
      exact ih h

theorem findInBlocks_some (h : (js.map (inodeBlock tmp)).find? (0 < ·) = some b) (d : Device)
    (name : Mem) (dir : Bool) (direc : Mem) :
    ∃ j js', inodeBlock tmp j = b ∧ 0 < b ∧
      findInBlocks d name dir tmp js direc = findInBlocks d name dir tmp (j :: js') direc := by
  induction js with
  | nil => cases h
  | cons j js ih =>
    rw [List.map_cons, List.find?_cons] at h
    split at h
    · rename_i hpos
      cases h
      exact ⟨j, js, rfl, by simpa using hpos, rfl⟩
    · rename_i hpos
      obtain ⟨j', js', hj', hb, hjs'⟩ := ih h
      refine ⟨j', js', hj', hb, ?_⟩
      rw [← hjs', findInBlocks, if_pos (by simpa using hpos)]

/-! ## The memory of the search -/

/-- The memory of `find` is that of the search among the stored entries, as far as it is read. -/
structure Same (d : Device) (tmp direc inode direc0 : Mem) : Prop where
  table : Agree tmp inode 0 256
  block : Agree direc direc0 0 blocksize ∨ ∀ b, firstBlock inode = some b → b < d.devsize

theorem readBlockAt_same (hb : 0 < b) (direc direc0 : Mem)
    (h : Agree direc direc0 0 blocksize ∨ b < d.devsize) :
    ∃ direc1 direc2, readBlockAt d b direc = some direc1 ∧ readBlockAt d b direc0 = some direc2 ∧
      Agree direc1 direc2 0 blocksize ∧ ∀ x, blocksize ≤ x → direc1 x = direc x := by
  by_cases hdev : b < d.devsize
  · obtain ⟨n, rfl⟩ : ∃ n : Nat, b = n := ⟨b.toNat, by omega⟩
    have hn : n < d.devsize := by omega
    refine ⟨_, _, readBlockAt_of_lt hn direc, readBlockAt_of_lt hn direc0, fun x _ hx => ?_,
      fun x hx => readBlock_behind hx⟩
    rw [readBlock_self hn hx, readBlock_self hn hx]
  · have hread : ∀ block, readBlockAt d b block = some block := fun block => if_pos (by omega)
    exact ⟨_, _, hread direc, hread direc0, h.resolve_right hdev, fun x _ => rfl⟩

theorem exists_readBlock (hfirst : firstBlock inode = some b) (direc : Mem) :
    ∃ direc', readBlockAt d b direc = some direc' ∧ ∀ x, blocksize ≤ x → direc' x = direc x := by
  obtain ⟨direc', -, hread, -, -, hbehind⟩ :=
    readBlockAt_same (d := d) (firstBlock_some hfirst).1 direc direc (.inl fun x _ _ => rfl)
  exact ⟨direc', hread, hbehind⟩

theorem readInode_same (h : Agree tmp inode 0 256) (inum : Int) :
    readInode d inum tmp = none ∧ readInode d inum inode = none ∨
      ∃ tmp' inode' r, readInode d inum tmp = some (tmp', r) ∧ readInode d inum inode = some (inode', r) ∧
        Agree tmp' inode' 0 256 := by
  unfold readInode
  split
  · exact .inr ⟨_, _, _, rfl, rfl, h⟩
  · cases inodeOffset inum with
    | none => exact .inl ⟨rfl, rfl⟩
    | some offset =>
      right
      rw [Option.map_some, Option.map_some]
      split
      · exact ⟨_, _, _, rfl, rfl, h⟩
      · refine ⟨_, _, _, rfl, rfl, fun x _ hx => ?_⟩
        rw [read_self hx, read_self hx]

/-! ## One row -/

theorem findDentry_row {name : Mem} (hname : ∀ x ≤ c.length, name x = cstring c x) (direc : Mem)
    (fuel k : Nat) :
    findDentry direc name dir fuel k = findDentry direc (cstring c) dir fuel k := by
  induction fuel generalizing k with
  | zero => rfl
  | succ fuel ih =>
    rw [findDentry_step, findDentry_step, strEq_cstring hname (Nat.zero_le _), ih]
    congr 3
    funext eq
    rw [ih]

theorem findRows_stop (h : firstBlock tmp = none) : findRows d arg dir (i :: is) tmp direc = some none := by
  rw [findRows, findInBlocks_none h, Option.bind_some]

theorem findRows_found (h : firstBlock tmp = some b) (hread : readBlockAt d b direc = some direc')
    (hfound : findDentry direc' (fun x => arg (maxFileNameLength * i + x)) dir 32 0 = some (some k)) :
    findRows d arg dir (i :: is) tmp direc =
      (readInode d (dentryInode direc' k) tmp).bind fun r => findRows d arg dir is r.1 direc' := by
  obtain ⟨j, js', rfl, hpos, hblocks⟩ := findInBlocks_some h d (fun x =>
    arg (maxFileNameLength * i + x)) dir direc
  rw [findRows, hblocks, findInBlocks, if_neg (by omega), hread, Option.bind_some, hfound]
  rfl

theorem findRows_open (h : firstBlock tmp = some b) (hread : readBlockAt d b direc = some direc')
    (hfound : findDentry direc' (fun x => arg (maxFileNameLength * i + x)) dir 32 0 = none) :
    findRows d arg dir (i :: is) tmp direc = none := by
  obtain ⟨j, js', rfl, hpos, hblocks⟩ := findInBlocks_some h d (fun x =>
    arg (maxFileNameLength * i + x)) dir direc
  rw [findRows, hblocks, findInBlocks, if_neg (by omega), hread, Option.bind_some, hfound]
  rfl

theorem findRows_next (hrow : RowIs arg i c) (hsame : Same d tmp direc inode direc0)
    (hfirst : firstBlock inode = some b)
    (hread : readBlockAt d b direc0 = some direc') (hfound : FoundStored direc' c dir k) (is : List Nat) :
    readInode d (dentryInode direc' k) inode = none ∧ findRows d arg dir (i :: is) tmp direc = none ∨
      ∃ inode' r tmp' direc1, readInode d (dentryInode direc' k) inode = some (inode', r) ∧
        Same d tmp' direc1 inode' direc' ∧ (∀ x, blocksize ≤ x → direc1 x = direc x) ∧
        findRows d arg dir (i :: is) tmp direc = findRows d arg dir is tmp' direc1 := by
  obtain ⟨direc1, direc2, hread1, hread2, hagree, hbehind⟩ :=
    readBlockAt_same (firstBlock_some hfirst).1 direc direc0 (hsame.block.imp_right fun h => h b hfirst)
  obtain rfl : direc' = direc2 := Option.some.inj (hread.symm.trans hread2)
  have hstored : FoundStored direc1 c dir k := by
    unfold FoundStored
    rwa [storedPart_congr hagree]
  obtain ⟨hk, hentry⟩ := foundStored_iff.mp hstored
  have hinum : dentryInode direc1 k = dentryInode direc' k :=
    congrArg DirEntry.inode (dentry_congr fun x _ hx => hagree x (Nat.zero_le x) (by unfold blocksize; omega))
  rw [findRows_found ((firstBlock_congr hsame.table).trans hfirst) hread1
    ((findDentry_row hrow direc1 32 0).trans hentry), hinum]
  obtain ⟨htmp, hnone⟩ | ⟨tmp', inode', r, htmp, hinode, hagree'⟩ :=
    readInode_same hsame.table (dentryInode direc' k)
  · left
    rw [htmp]
    exact ⟨hnone, rfl⟩
  · right
    rw [htmp]
    exact ⟨inode', r, tmp', direc1, hinode, ⟨hagree', .inl hagree⟩, hbehind, rfl⟩

theorem findRows_bad (hrow : RowIs arg i c) (hlen : c.length < maxFileNameLength)
    (hsame : Same d tmp direc inode direc0)
    (hfirst : firstBlock inode = some b) (hread : readBlockAt d b direc0 = some direc')
    (hnot : ∀ k, ¬ FoundStored direc' c dir k)
    (hbehind : ∀ x, blocksize ≤ x → direc x = badDirec dir (cstring c) x)
    (is : List Nat) : findRows d arg dir (i :: is) tmp direc = none := by
  obtain ⟨direc1, direc2, hread1, hread2, hagree, hkept⟩ :=
    readBlockAt_same (firstBlock_some hfirst).1 direc direc0 (hsame.block.imp_right fun h => h b hfirst)
  obtain rfl : direc' = direc2 := Option.some.inj (hread.symm.trans hread2)
  have hnot1 : ∀ k, ¬ FoundStored direc1 c dir k := by
    intro k
    unfold FoundStored
    rw [storedPart_congr hagree]
    exact hnot k
  have hbad : Bad dir (cstring c) direc1 := bad_of_badDirec fun x hx => (hkept x hx).trans (hbehind x hx)
  obtain ⟨e, hentry, hinum⟩ := findDentry_bad hlen hbad hnot1
  rw [findRows_found ((firstBlock_congr hsame.table).trans hfirst) hread1
    ((findDentry_row hrow direc1 32 0).trans hentry), hinum]
  rfl

/-! ## All rows -/

theorem findRows_settled (hs : Settled d dir last names inode direc0) (hrows : Rows arg i names)
    (hsame : Same d tmp direc inode direc0)
    (hlast : ∀ tmp inode direc, Agree tmp inode 0 256 → last inode → findRows d arg dir is tmp direc =
    some none) :
    findRows d arg dir (List.range' i names.length ++ is) tmp direc = some none := by
  induction names generalizing i tmp direc inode direc0 with
  | nil => exact hlast _ _ _ hsame.table hs
  | cons c cs ih =>
    obtain ⟨hrow, hrest⟩ := hrows
    rw [List.length_cons, List.range'_succ, List.cons_append]
    cases hfirst : firstBlock inode with
    | none => exact findRows_stop ((firstBlock_congr hsame.table).trans hfirst)
    | some b =>
      obtain ⟨direc', k, inode', r, hread, hfound, hinode, hs⟩ := hs b hfirst
      obtain ⟨hnone, -⟩ | ⟨inode'', r', tmp', direc1, hinode', hsame', -, hrec⟩ :=
        findRows_next hrow hsame hfirst hread hfound (List.range' (i + 1) cs.length ++ is)
      · rw [hinode] at hnone
        cases hnone
      · obtain rfl : inode' = inode'' := (Prod.mk.inj (Option.some.inj (hinode.symm.trans hinode'))).1
        rw [hrec]
        exact ih hs hrest hsame'

theorem exists_badDirec (hs : ¬ Settled d dir last names inode direc0) (hrows : Rows arg i names)
    (hlen : ∀ c ∈ names, c.length < maxFileNameLength)
    (hlast : ∀ inode, ¬ last inode → ∃ name, ∀ tmp direc, Agree tmp inode 0 256 →
      (∀ x, blocksize ≤ x → direc x = badDirec dir name x) → findRows d arg dir is tmp direc = none) :
    ∃ name, ∀ tmp direc, Same d tmp direc inode direc0 →
      (∀ x, blocksize ≤ x → direc x = badDirec dir name x) →
      findRows d arg dir (List.range' i names.length ++ is) tmp direc = none := by
  induction names generalizing i inode direc0 with
  | nil =>
    obtain ⟨name, hname⟩ := hlast inode hs
    exact ⟨name, fun tmp direc hsame hbehind => hname tmp direc hsame.table hbehind⟩
  | cons c cs ih =>
    obtain ⟨hrow, hrest⟩ := hrows
    rw [Settled] at hs
    push Not at hs
    obtain ⟨b, hfirst, hs⟩ := hs
    rw [List.length_cons, List.range'_succ, List.cons_append]
    obtain ⟨direc', hread, -⟩ := exists_readBlock (d := d) hfirst direc0
    by_cases hfound : ∃ k, FoundStored direc' c dir k
    · obtain ⟨k, hfound⟩ := hfound
      cases hinode : readInode d (dentryInode direc' k) inode with
      | none =>
        refine ⟨fun _ => 0, fun tmp direc hsame _ => ?_⟩
        obtain ⟨-, hnone⟩ | ⟨inode', r, tmp', direc1, hinode', -⟩ :=
          findRows_next hrow hsame hfirst hread hfound (List.range' (i + 1) cs.length ++ is)
        · exact hnone
        · rw [hinode] at hinode'
          cases hinode'
      | some p =>
        obtain ⟨name, hname⟩ := ih (hs direc' k p.1 p.2 hread hfound hinode) hrest fun a ha =>
          hlen a (List.mem_cons_of_mem c ha)
        refine ⟨name, fun tmp direc hsame hbehind => ?_⟩
        obtain ⟨hnone, -⟩ | ⟨inode', r, tmp', direc1, hinode', hsame', hbehind', hrec⟩ :=
          findRows_next hrow hsame hfirst hread hfound (List.range' (i + 1) cs.length ++ is)
        · rw [hinode] at hnone
          cases hnone
        · rw [hinode] at hinode'
          cases hinode'
          rw [hrec]
          exact hname tmp' direc1 hsame' fun x hx => (hbehind' x hx).trans (hbehind x hx)
    · refine ⟨cstring c, fun tmp direc hsame hbehind => ?_⟩
      exact findRows_bad hrow (hlen c List.mem_cons_self) hsame hfirst hread (fun k hk =>
        hfound ⟨k, hk⟩) hbehind _

/-! ## Directories -/

theorem DirectoryOk.block_lt (h : DirectoryOk d n) (hfirst : firstBlock (inodeAt d n) = some b) :
    b < d.devsize := by
  obtain ⟨j, hj, rfl⟩ := (firstBlock_some hfirst).2
  exact h.blocks j hj

theorem not_hasEntry (hfirst : firstBlock (inodeAt d n) = none) (name : CString) (inum type : Int) :
    ¬ HasEntry d n name inum type := by
  rintro ⟨j, k, he, -⟩
  have := firstBlock_none hfirst he.block
  have := he.pos
  omega

theorem FoundStored.hasEntry (hc : ∀ x ∈ c, x ≠ 0) (hlen : c.length < maxFileNameLength)
    (hfirst : firstBlock (inodeAt d n) = some b) (hb : b < d.devsize)
    (hread : readBlockAt d b direc0 = some direc) (hfound : FoundStored direc c dir k) :
    HasEntry d n c (dentryInode direc k) (dentryType direc k) ∧ skipped direc dir k = false := by
  obtain ⟨hk, hentry⟩ := foundStored_iff.mp hfound
  obtain ⟨-, -, hskip, heq⟩ := findDentry_some hentry
  obtain ⟨hpos, j, hj, rfl⟩ := firstBlock_some hfirst
  obtain ⟨direc1, hread1, hbytes⟩ := readBlockAt_data (by omega) hb direc0
  obtain rfl : direc = direc1 := Option.some.inj (hread.symm.trans hread1)
  have hdentry : dentry (dirAt d (inodeBlock (inodeAt d n) j).toNat) k = dentry direc k :=
    dentry_congr fun x _ hx => (hbytes x (by omega)).symm
  obtain ⟨-, -, hname⟩ := dentry_eq dir hdentry
  have hused : dentryInode direc k ≠ 0 := by
    intro hzero
    rw [skipped, hzero] at hskip
    simp at hskip
  refine ⟨⟨j, k, ⟨hj, hk, hpos, hb⟩, hused, congrArg DirEntry.inode hdentry, congrArg DirEntry.type hdentry,
    fun x hx => ?_⟩, hskip⟩
  rw [hname x (by omega)]
  exact strEq_true hc heq x (Nat.zero_le x) hx

theorem FoundStored.directory (hok : DirectoryOk d n) (hc : ∀ x ∈ c, x ≠ 0)
    (hlen : c.length < maxFileNameLength)
    (hfirst : firstBlock (inodeAt d n) = some b) (hread : readBlockAt d b direc0 = some direc)
    (hfound : FoundStored direc c true k) :
    ∃ m : Nat, dentryInode direc k = m ∧ HasEntry d n c m dirType := by
  obtain ⟨hentry, hskip⟩ := hfound.hasEntry hc hlen hfirst (hok.block_lt hfirst) hread
  obtain ⟨htype, hpos, -⟩ := hok.entries _ _ _ hentry
  have hdir : dentryType direc k = dirType := by
    refine htype.resolve_left fun hfile => ?_
    rw [skipped, hfile] at hskip
    simp at hskip
  rw [hdir] at hentry
  refine ⟨(dentryInode direc k).toNat, by omega, ?_⟩
  rwa [Int.toNat_of_nonneg (by omega)]

theorem leads_unique (hw : WellFormed w path) {m' : Nat} (hn : IsDirectory w path n) (h : Leads w.dev dirType names n m)
    (h' : Leads w.dev dirType names n m') : m = m' := by
  induction names generalizing n with
  | nil => exact h.symm.trans h'
  | cons c cs ih =>
    obtain ⟨l, he, h⟩ := h
    obtain ⟨l', he', h'⟩ := h'
    rw [ite_self] at he he'
    obtain rfl : l = l' := Int.ofNat.inj ((hw.directories n hn).unique _ _ _ _ he he')
    exact ih (hn.sub he) h h'

theorem findRows_leads (hw : WellFormed w path) (hn : IsDirectory w path n)
    (hinode : Agree inode (inodeAt w.dev n) 0 256)
    (hchars : ∀ c ∈ names, (∀ x ∈ c, x ≠ 0) ∧ c.length < maxFileNameLength)
    (hs : Settled w.dev true (fun _ => True) names inode direc0) (hrows : Rows arg i names)
    (hsame : Same w.dev tmp direc inode direc0) :
    (∃ m found, Leads w.dev dirType names n m ∧ Agree found (inodeAt w.dev m) 0 256 ∧
      findRows w.dev arg true (List.range' i names.length) tmp direc = some (some found)) ∨
    (∀ m, ¬ Leads w.dev dirType names n m) ∧
      findRows w.dev arg true (List.range' i names.length) tmp direc = some none := by
  induction names generalizing n i tmp direc inode direc0 with
  | nil => exact .inl ⟨n, tmp, rfl, hsame.table.trans hinode, rfl⟩
  | cons c cs ih =>
    obtain ⟨hrow, hrest⟩ := hrows
    obtain ⟨hc, hlen⟩ := hchars c List.mem_cons_self
    have hok := hw.directories n hn
    have hblock := firstBlock_congr hinode
    rw [List.length_cons, List.range'_succ]
    cases hfirst : firstBlock inode with
    | none =>
      right
      refine ⟨?_, findRows_stop ((firstBlock_congr hsame.table).trans hfirst)⟩
      rintro m ⟨l, he, -⟩
      exact not_hasEntry (hblock.symm.trans hfirst) _ _ _ he
    | some b =>
      obtain ⟨direc', k, inode1, r, hread, hfound, hinode1, hs⟩ := hs b hfirst
      obtain ⟨l, hl, he⟩ := hfound.directory hok hc hlen (hblock.symm.trans hfirst) hread
      have hdir := hn.sub he
      have hokl := hw.directories l hdir
      obtain ⟨hnone, -⟩ | ⟨inode2, r', tmp', direc1, hinode2, hsame', -, hrec⟩ :=
        findRows_next hrow hsame hfirst hread hfound (List.range' (i + 1) cs.length)
      · rw [hinode1] at hnone
        cases hnone
      · obtain rfl : inode1 = inode2 := (Prod.mk.inj (Option.some.inj (hinode1.symm.trans hinode2))).1
        have hagree : Agree inode1 (inodeAt w.dev l) 0 256 := by
          rw [hl, readInode_eq hokl.pos hokl.lt] at hinode1
          cases hinode1
          exact fun x _ hx => read_self hx inode
        rw [hrec]
        obtain ⟨m, found, hleads, hinum, hrows⟩ | ⟨hnot, hrows⟩ :=
          ih hdir hagree (fun a ha => hchars a (List.mem_cons_of_mem c ha)) hs hrest hsame'
        · exact .inl ⟨m, found, ⟨l, by rwa [ite_self], hleads⟩, hinum, hrows⟩
        · refine .inr ⟨?_, hrows⟩
          rintro m ⟨l', he', hleads⟩
          rw [ite_self] at he'
          obtain rfl : l = l' := Int.ofNat.inj (hok.unique _ _ _ _ he he')
          exact hnot m hleads

/-! ## The path -/

def relative (path : CString) : CString := if path.head? = some slash then path.tail else path

/-- The components that get a `NUL` in their row. -/
def rowNames (path : CString) : List CString :=
  if path.getLast? = some slash then components path else (components path).dropLast

theorem relative_getLast? (hne : path ≠ [slash]) : (relative path).getLast? = path.getLast? := by
  unfold relative
  split
  · rename_i hhead
    match path with
    | [] => rfl
    | [a] => exact absurd (by rw [Option.some.inj hhead]) hne
    | a :: b :: cs => exact List.getLast?_cons_cons.symm
  · rfl

theorem components_ne_nil : components path ≠ [] := List.splitOn_ne_nil _ _

theorem relative_eq (hne : path ≠ [slash]) :
    ∃ l, relative path = (rowNames path).flatMap (· ++ [slash]) ++ l ∧
      (path.getLast? = some slash ∧ l = [] ∨ path.getLast? ≠ some slash ∧
        components path = rowNames path ++ [l]) := by
  have hcomp : [slash].intercalate (components path) =
      if path.getLast? = some slash then (relative path).dropLast else relative path :=
        List.intercalate_splitOn slash
  obtain ⟨init, l, hl⟩ := (List.eq_nil_or_concat' (components path)).resolve_left components_ne_nil
  rw [hl, intercalate_concat] at hcomp
  by_cases hslash : path.getLast? = some slash
  · rw [if_pos hslash] at hcomp
    refine ⟨[], ?_, .inl ⟨hslash, rfl⟩⟩
    have hdrop := List.dropLast_append_getLast? slash ((relative_getLast? hne).trans hslash)
    rw [rowNames, if_pos hslash, hl, List.flatMap_append, List.flatMap_singleton, List.append_nil,
      ← List.append_assoc, hcomp, hdrop]
  · rw [if_neg hslash] at hcomp
    refine ⟨l, ?_, .inr ⟨hslash, ?_⟩⟩
    · rw [rowNames, if_neg hslash, hl, List.dropLast_concat, hcomp]
    · rw [rowNames, if_neg hslash, hl, List.dropLast_concat]

theorem mem_components (h : c ∈ rowNames path) : c ∈ components path := by
  unfold rowNames at h
  split at h
  · exact h
  · exact List.dropLast_subset _ h

theorem ProperPath.name (hpath : ProperPath path) (h : c ∈ components path) :
    (∀ x ∈ c, x ≠ 0) ∧ slash ∉ c ∧ c.length < maxFileNameLength := by
  refine ⟨fun x hx => hpath.chars x ?_, not_mem_of_mem_splitOn c h, hpath.lengths c h⟩
  have hmem := mem_of_mem_splitOn c h hx
  have hrel : x ∈ relative path := by
    split at hmem
    · exact List.dropLast_subset _ hmem
    · exact hmem
  unfold relative at hrel
  split at hrel
  · exact List.mem_of_mem_tail hrel
  · exact hrel

theorem Rows.congr {arg' : Mem} (h : Rows arg i names) (hlen : ∀ c ∈ names, c.length < maxFileNameLength)
    (heq : ∀ x < maxFileNameLength * (i + names.length), arg' x = arg x) : Rows arg' i names := by
  induction names generalizing i with
  | nil => trivial
  | cons c cs ih =>
    obtain ⟨hrow, hrest⟩ := h
    rw [List.length_cons] at heq
    refine ⟨hrow.congr (hlen c List.mem_cons_self) fun x hx => heq x ?_, ih hrest ?_ fun x hx => heq x ?_⟩
    · exact Nat.lt_of_lt_of_le hx (Nat.mul_le_mul_left _ (by omega))
    · exact fun a ha => hlen a (List.mem_cons_of_mem c ha)
    · rwa [Nat.add_right_comm, Nat.add_assoc] at hx

theorem parse_path (hpath : ProperPath path) (hne : path ≠ [slash]) (arg : Mem) :
    ∃ arg', parse arg 0 0 (relative path) = some (some (arg', (rowNames path).length)) ∧
      Rows arg' 0 (rowNames path) := by
  obtain ⟨l, hrel, hl⟩ := relative_eq hne
  have hnames : ∀ c ∈ rowNames path, slash ∉ c ∧ c.length < maxFileNameLength :=
    fun c hc => (hpath.name (mem_components hc)).2
  have hlevels := hpath.levels
  obtain ⟨-, rfl⟩ | ⟨hslash, hcomp⟩ := hl
  · have hcount : (rowNames path).length ≤ (components path).length := by
      unfold rowNames
      split
      · exact Nat.le_refl _
      · simp
    obtain ⟨arg', hparse, -, hrows⟩ := parse_components (j := 0) (by omega) hnames [] arg
    refine ⟨arg', ?_, hrows⟩
    rw [hrel, hparse, parse, Nat.zero_add]
  · have hlast := hpath.name (c := l) (by rw [hcomp]; simp)
    rw [hcomp, List.length_append, List.length_singleton] at hlevels
    obtain ⟨arg1, hparse, -, hrows⟩ := parse_components (j := 0) (by omega) hnames l arg
    obtain ⟨arg', hparse', hbefore, -⟩ := parse_piece (j := 0 + (rowNames path).length) (k :=
      0) (by omega) hlast.2.1
      (by omega) [] arg1
    refine ⟨arg', ?_, hrows.congr (fun c hc => (hnames c hc).2) hbefore⟩
    rw [List.append_nil] at hparse'
    rw [hrel, hparse, hparse', parse, Nat.zero_add]

/-! ## The function -/

theorem WellFormed.start (hw : WellFormed w path) :
    (if path.head? = some slash then 1 else w.cwdInode) = startOf w path := by
  unfold startOf
  split
  case isTrue => rfl
  case isFalse h => exact (Int.toNat_of_nonneg (hw.cwd h)).symm

theorem find_eq (hw : WellFormed w path) (hpath : ProperPath path) (hne : path ≠ [slash]) (junk : FindJunk) :
    ∃ arg tmp, parse junk.arg 0 0 (relative path) = some (some (arg, (rowNames path).length)) ∧
      Rows arg 0 (rowNames path) ∧ Same w.dev tmp junk.direc (inodeAt w.dev (startOf w path)) (fun _ => 0) ∧
      find w path junk = findRows w.dev arg (decide (path.getLast? = some slash))
        (List.range' 0 (rowNames path).length ++
          if path.getLast? = some slash then [] else [(rowNames path).length]) tmp junk.direc := by
  obtain ⟨arg, hparse, hrows⟩ := parse_path hpath hne junk.arg
  have hok := hw.directories _ .start
  obtain ⟨a, ha⟩ := Option.ne_none_iff_exists'.mp (List.getLast?_eq_none_iff.not.mpr hpath.ne)
  refine ⟨arg, w.dev.read (inodeTableStart * blocksize + startOf w path * 256) 256 junk.root, hparse,
    hrows, ⟨?_, .inr fun b hb => hok.block_lt hb⟩, ?_⟩
  · exact fun x _ hx => read_self hx junk.root
  · unfold relative at hparse
    rw [find, if_neg hne]
    simp only [decide_eq_true_eq]
    rw [hparse, Option.bind_some, hw.start, readInode_eq hok.pos hok.lt]
    simp only [Option.bind_some, ha, Option.getD_some, Option.some.injEq]
    by_cases hslash : a = slash
    · rw [if_pos hslash, if_pos hslash, List.append_nil, List.range_eq_range']
    · rw [if_neg hslash, if_neg hslash, List.range_succ, List.range_eq_range']

/-! ## When a path is found -/

theorem resolves_leads (hne : path ≠ [slash]) {m : Nat} : Resolves w path m ↔
    Leads w.dev (if path.getLast? = some slash then dirType else fileType) (components path)
      (startOf w path) m := by
  rw [Resolves, if_neg hne]

theorem FindsPath.ne_none (h : FindsPath w path) (junk : FindJunk) : find w path junk ≠ none := by
  obtain ⟨hfound, hnone⟩ := h junk
  by_cases hres : ∃ m, Resolves w path m
  · obtain ⟨m, hm⟩ := hres
    obtain ⟨inode, hfind, -⟩ := hfound m hm
    simp [hfind]
  · simp [hnone fun m hm => hres ⟨m, hm⟩]

theorem FindsPath.settled (h : FindsPath w path) (hw : WellFormed w path) (hpath : ProperPath path)
    (hne : path ≠ [slash])
    (last : Mem → Prop) (argJunk : Mem)
    (hlast : ∀ arg, parse argJunk 0 0 (relative path) = some (some (arg, (rowNames path).length)) →
      ∀ inode, ¬ last inode → ∃ name, ∀ tmp direc, Agree tmp inode 0 256 →
        (∀ x, blocksize ≤ x → direc x = badDirec (decide (path.getLast? = some slash)) name x) →
          findRows w.dev arg (decide (path.getLast? = some slash))
            (if path.getLast? = some slash then [] else [(rowNames path).length]) tmp direc = none) :
    Settled w.dev (decide (path.getLast? = some slash)) last (rowNames path)
      (inodeAt w.dev (startOf w path)) fun _ => 0 := by
  by_contra hs
  obtain ⟨arg, hparse, hrows⟩ := parse_path hpath hne argJunk
  have hlen : ∀ c ∈ rowNames path, c.length < maxFileNameLength :=
    fun c hc => hpath.lengths c (mem_components hc)
  obtain ⟨name, hnone⟩ := exists_badDirec hs hrows hlen (hlast arg hparse)
  let junk : FindJunk := ⟨fun _ => 0, badDirec (decide (path.getLast? = some slash)) name, argJunk, 0⟩
  obtain ⟨arg', tmp, hparse', -, hsame, hfind⟩ := find_eq hw hpath hne junk
  obtain rfl : arg = arg' := (Prod.mk.inj (Option.some.inj (Option.some.inj (hparse.symm.trans hparse')))).1
  exact h.ne_none junk (hfind.trans (hnone tmp junk.direc hsame fun x _ => rfl))

theorem findsPath_directory (hw : WellFormed w path) (hpath : ProperPath path) (hne : path ≠ [slash])
    (hslash : path.getLast? = some slash) :
    FindsPath w path ↔ Settled w.dev true (fun _ => True) (components path)
      (inodeAt w.dev (startOf w path)) fun _ => 0 := by
  have hnames : rowNames path = components path := if_pos hslash
  constructor
  · intro h
    have hs := h.settled hw hpath hne (fun _ => True) (fun _ => 0) fun _ _ inode hnot => absurd trivial hnot
    rwa [hnames, decide_eq_true hslash] at hs
  · intro hs junk
    obtain ⟨arg, tmp, -, hrows, hsame, hfind⟩ := find_eq hw hpath hne junk
    simp only [hslash, if_true, hnames, List.append_nil, decide_true] at hrows hfind
    have hdir : IsDirectory w path (startOf w path) := .start
    have hchars : ∀ c ∈ components path, (∀ x ∈ c, x ≠ 0) ∧ c.length < maxFileNameLength :=
      fun c hc => ⟨(hpath.name hc).1, hpath.lengths c hc⟩
    simp only [resolves_leads hne, hslash, if_true, hfind]
    obtain ⟨m, found, hleads, hinode, hrows⟩ | ⟨hnot, hrows⟩ :=
      findRows_leads hw hdir (fun x _ _ => rfl) hchars hs hrows hsame
    · refine ⟨fun inum hinum => ⟨found, hrows, ?_⟩, fun hnot => absurd hleads (hnot m)⟩
      rwa [leads_unique hw hdir hinum hleads]
    · exact ⟨fun inum hinum => absurd hinum (hnot inum), fun _ => hrows⟩

theorem findsPath_file (hw : WellFormed w path) (hpath : ProperPath path) (hslash : path.getLast? ≠ some slash) :
    FindsPath w path ↔ (∀ m, ¬ Resolves w path m) ∧
      Settled w.dev false (fun inode => firstBlock inode = none) (components path).dropLast
        (inodeAt w.dev (startOf w path)) fun _ => 0 := by
  have hne : path ≠ [slash] := by
    rintro rfl
    exact hslash rfl
  have hnames : rowNames path = (components path).dropLast := if_neg hslash
  constructor
  · intro h
    constructor
    · intro m hm
      obtain ⟨a, ha⟩ := Option.ne_none_iff_exists'.mp (List.getLast?_eq_none_iff.not.mpr hpath.ne)
      obtain ⟨inode, hfind, -⟩ := (h ⟨fun _ => 0, fun _ => 0, fun _ => 1, 0⟩).1 m hm
      refine find_unterminated hpath.chars ha (fun heq => hslash (heq ▸ ha)) (fun x => ?_) inode hfind
      exact (by decide : (1 : Byte) ≠ 0)
    · have hs := h.settled hw hpath hne (fun inode => firstBlock inode = none) (fun _ => 1) ?_
      · rwa [hnames, decide_eq_false hslash] at hs
      · intro arg hparse inode hfirst
        obtain ⟨b, hfirst⟩ := Option.ne_none_iff_exists'.mp hfirst
        have hchars : ∀ x ∈ relative path, x ≠ 0 := by
          intro x hx
          unfold relative at hx
          split at hx
          · exact hpath.chars x (List.mem_of_mem_tail hx)
          · exact hpath.chars x hx
        have hopen : ∀ x, arg (maxFileNameLength * (rowNames path).length + x) ≠ 0 := fun x =>
          parse_unterminated hchars (fun _ _ => (by decide : (1 : Byte) ≠ 0)) hparse _ (Nat.le_add_right _ x)
        refine ⟨fun x => arg (maxFileNameLength * (rowNames path).length + x),
          fun tmp direc hagree hbehind => ?_⟩
        rw [if_neg hslash]
        obtain ⟨direc1, hread, hsame⟩ := exists_readBlock hfirst direc
        exact findRows_open ((firstBlock_congr hagree).trans hfirst) hread
          (findDentry_open hopen (bad_of_badDirec fun x hx => (hsame x hx).trans (hbehind x hx)))
  · rintro ⟨hnot, hs⟩ junk
    refine ⟨fun m hm => absurd hm (hnot m), fun _ => ?_⟩
    obtain ⟨arg, tmp, -, hrows, hsame, hfind⟩ := find_eq hw hpath hne junk
    rw [hnames] at hrows hfind
    rw [hfind, if_neg hslash, decide_eq_false hslash]
    apply findRows_settled hs hrows hsame
    intro tmp inode direc hagree hfirst
    exact findRows_stop ((firstBlock_congr hagree).trans hfirst)

theorem findsPath_root (hw : WellFormed w [slash]) : FindsPath w [slash] := by
  have hok := hw.directories 1 .start
  have hres : ∀ m, Resolves w [slash] m ↔ m = 1 := fun m => by rw [Resolves, if_pos rfl]
  intro junk
  refine ⟨fun m hm => ?_, fun hnot => absurd ((hres 1).mpr rfl) (hnot 1)⟩
  obtain rfl := (hres m).mp hm
  refine ⟨w.dev.read (inodeTableStart * blocksize + 1 * 256) 256 junk.root, ?_, fun x _ hx =>
    read_self hx junk.root⟩
  rw [find, if_pos rfl]
  exact congrArg (Option.map fun r : Mem × Int => some r.1) (readInode_eq hok.pos hok.lt junk.root)

/-- The search along the path needs no memory but that of the blocks: a path to a directory is found entry by entry in
the first blocks, or it ends at a directory without a block; one to a file leads nowhere, and its search ends at an
inode without a block. -/
inductive SearchStored (w : World) (path : CString) : Prop where
  | root (h : path = [slash])
  | directory (h : path.getLast? = some slash)
      (hs : Settled w.dev true (fun _ => True) (components path) (inodeAt w.dev (startOf w path)) fun _ => 0)
  | file (h : path.getLast? ≠ some slash) (hnot : ∀ m, ¬ Resolves w path m)
      (hs : Settled w.dev false (fun inode => firstBlock inode = none) (components path).dropLast
        (inodeAt w.dev (startOf w path)) fun _ => 0)

/-- **Lookup.** The inode of a path is found if the search stays among the stored entries of the first blocks, and
never if the path is that of a file. -/
theorem findsPath_iff (hw : WellFormed w path) (hpath : ProperPath path) :
    FindsPath w path ↔ SearchStored w path := by
  by_cases hne : path = [slash]
  · subst hne
    exact iff_of_true (findsPath_root hw) (.root rfl)
  by_cases hslash : path.getLast? = some slash
  · rw [findsPath_directory hw hpath hne hslash]
    refine ⟨.directory hslash, fun h => ?_⟩
    cases h with
    | root h => exact absurd h hne
    | directory _ hs => exact hs
    | file h => exact absurd hslash h
  · rw [findsPath_file hw hpath hslash]
    refine ⟨fun ⟨hnot, hs⟩ => .file hslash hnot hs, fun h => ?_⟩
    cases h with
    | root h => exact absurd h hne
    | directory h => exact absurd h hslash
    | file _ hnot hs => exact ⟨hnot, hs⟩

/-! ## On the new disk -/

/-- The new disk, with the root directory as the working directory. -/
def rootWorld : World := { newWorld with cwdInode := 1 }

theorem newWorld_rootEntry (hk : k < 2) : dentryInode (dirAt newWorld.dev blockTableStart) k = 1 ∧
    dentryType (dirAt newWorld.dev blockTableStart) k = dirType := by
  have hentry : load32 (dentryAt (dirAt newWorld.dev blockTableStart) k) 0 = 1 ∧
      load32 (dentryAt (dirAt newWorld.dev blockTableStart) k) 4 = dirType := by
    obtain rfl | rfl : k = 0 ∨ k = 1 := by omega
    · exact ⟨newWorld_formatted.self.1, newWorld_formatted.self.2.1⟩
    · exact ⟨newWorld_formatted.parent.1, newWorld_formatted.parent.2.1⟩
  exact ⟨congrArg (fun v => (BitVec.ofNat 32 v).toInt) hentry.1,
    congrArg (fun v => (BitVec.ofNat 32 v).toInt) hentry.2⟩

theorem newWorld_hasEntry {name : CString} {type : Int} (h : HasEntry newWorld.dev 1 name inum type) :
    inum = 1 ∧ type = dirType := by
  obtain ⟨j, k, he, hne, hinode, htype, -⟩ := h
  rw [newWorld_entryAt he] at hinode htype
  by_cases hk : k < 2
  · obtain ⟨hone, hdir⟩ := newWorld_rootEntry hk
    exact ⟨hinode.symm.trans hone, htype.symm.trans hdir⟩
  · exact absurd (hinode.symm.trans (newWorld_unused he.entry (by omega))) hne

theorem startOf_rootWorld (path : CString) : startOf rootWorld path = 1 := by
  unfold startOf
  split <;> rfl

theorem rootWorld_isDirectory (h : IsDirectory rootWorld path n) : n = 1 := by
  induction h with
  | start => exact startOf_rootWorld path
  | sub _ he ih =>
    subst ih
    exact Int.ofNat.inj (newWorld_hasEntry he).1

theorem rootWorld_wellFormed (path : CString) : WellFormed rootWorld path := by
  refine ⟨fun _ => by decide, fun n hn => ?_⟩
  obtain rfl := rootWorld_isDirectory hn
  refine ⟨by decide, by decide, fun j hj => ?_, fun name inum type he => ?_, fun name inum inum' type he he' => ?_⟩
  · have hdev : rootWorld.dev.devsize = 102400 := newWorld_formatted.devsize
    have hblock : inodeBlock (inodeAt rootWorld.dev 1) j = _ := newWorld_rootBlock hj
    rw [hblock, hdev]
    split <;> decide
  · obtain ⟨rfl, rfl⟩ := newWorld_hasEntry he
    exact ⟨.inr rfl, by decide, by decide⟩
  · exact (newWorld_hasEntry he).1.trans (newWorld_hasEntry he').1.symm

theorem rootWorld_firstBlock : firstBlock (inodeAt rootWorld.dev 1) = some blockTableStart := by
  have hfirst : inodeBlock (inodeAt rootWorld.dev 1) 0 = blockTableStart := newWorld_rootBlock (by decide)
  rw [firstBlock, List.range_succ_eq_map, List.map_cons, hfirst]
  rfl

theorem rootWorld_readBlock : ∃ direc, readBlockAt rootWorld.dev blockTableStart (fun _ => 0) = some direc ∧
    ∀ k < 16, dentry (dirAt rootWorld.dev blockTableStart) k = dentry direc k := by
  have hdev : rootWorld.dev.devsize = 102400 := newWorld_formatted.devsize
  obtain ⟨direc, hread, hbytes⟩ := readBlockAt_data (d := rootWorld.dev) (b := blockTableStart) (by decide)
    (by rw [hdev]; decide) fun _ => 0
  exact ⟨direc, hread, fun k hk => dentry_congr fun x _ hx => (hbytes x (by omega)).symm⟩

theorem newWorld_name (hk : k < 2) : dentryName (dirAt newWorld.dev blockTableStart) k 0 = 0x2e := by
  obtain rfl | rfl : k = 0 ∨ k = 1 := by omega
  · exact newWorld_formatted.self.2.2 0 (Nat.zero_le _)
  · exact newWorld_formatted.parent.2.2 0 (Nat.zero_le _)

theorem newWorld_dot {x : Nat} (hx : x ≤ 1) : dentryName (dirAt newWorld.dev blockTableStart) 0 x =
    cstring [0x2e] x := by
  obtain rfl | rfl : x = 0 ∨ x = 1 := by omega
  · exact newWorld_name (by decide)
  · exact newWorld_formatted.self.2.2 1 (by decide)

theorem rootWorld_settled :
    Settled rootWorld.dev true (fun _ => True) [[0x2e]] (inodeAt rootWorld.dev 1) fun _ => 0 := by
  intro b hfirst
  obtain rfl : blockTableStart = b := Option.some.inj (rootWorld_firstBlock.symm.trans hfirst)
  obtain ⟨direc, hread, hentries⟩ := rootWorld_readBlock
  obtain ⟨hskip, -, hname⟩ := dentry_eq true (hentries 0 (by decide))
  obtain ⟨hone, htype⟩ := newWorld_rootEntry (k := 0) (by decide)
  have hinum : dentryInode direc 0 = (1 : Nat) :=
    (congrArg DirEntry.inode (hentries 0 (by decide))).symm.trans hone
  have hused : skipped direc true 0 = false := by
    rw [← hskip]
    change skipped (dirAt newWorld.dev blockTableStart) true 0 = false
    rw [skipped, hone, htype]
    decide
  have heq : strEq (dentryName direc 0) (cstring [0x2e]) 0 maxFileNameLength = some true := by
    apply strEq_same (fun x hx => ?_) (Nat.zero_le _) (by decide)
    have hx' : x < maxFileNameLength := Nat.lt_of_le_of_lt hx (by decide)
    exact (hname x hx').symm.trans (newWorld_dot hx)
  have hfound : FoundStored direc [0x2e] true 0 := by
    refine foundStored_iff.mpr ⟨by decide, ?_⟩
    rw [findDentry_step, if_neg (by decide), hused, heq]
    rfl
  have hinode := readInode_eq (d := rootWorld.dev) (Nat.le_refl 1) (by decide) (inodeAt rootWorld.dev 1)
  rw [← hinum] at hinode
  exact ⟨direc, 0, _, 0, hread, hfound, hinode, trivial⟩

/-- The path "./". -/
theorem rootWorld_dot_findsPath : FindsPath rootWorld [0x2e, slash] :=
  (findsPath_iff (rootWorld_wellFormed _) ⟨by decide, by decide, by decide, by decide⟩).mpr
    (.directory rfl rootWorld_settled)

/-- The path "/a/": memory behind the block may hold an entry of that name. -/
theorem rootWorld_missing_not_findsPath : WellFormed rootWorld [slash, 0x61, slash] ∧ ProperPath [slash, 0x61, slash] ∧
    ¬ FindsPath rootWorld [slash, 0x61, slash] := by
  have hpath : ProperPath [slash, 0x61, slash] := ⟨by decide, by decide, by decide, by decide⟩
  refine ⟨rootWorld_wellFormed _, hpath, fun h => ?_⟩
  have hs := (findsPath_directory (rootWorld_wellFormed _) hpath (by decide) rfl).mp h
  obtain ⟨direc, k, -, -, hread, hfound, -⟩ := hs _ rootWorld_firstBlock
  obtain ⟨direc1, hread1, hentries⟩ := rootWorld_readBlock
  obtain rfl : direc = direc1 := Option.some.inj (hread.symm.trans hread1)
  obtain ⟨hk, hentry⟩ := foundStored_iff.mp hfound
  obtain ⟨-, -, hskip, heq⟩ := findDentry_some hentry
  obtain ⟨hskip', -, hname⟩ := dentry_eq true (hentries k hk)
  by_cases hlt : k < 2
  · have hfirst := strEq_true (by decide) heq 0 (Nat.zero_le _) (Nat.zero_le _)
    rw [← hname 0 (by decide)] at hfirst
    exact absurd ((newWorld_name hlt).symm.trans hfirst) (by decide)
  · have hunused : dentryInode (dirAt rootWorld.dev blockTableStart) k = 0 := newWorld_unused hk (by omega)
    rw [← hskip', skipped, hunused] at hskip
    simp at hskip

end SystemProjects.Simdisk
