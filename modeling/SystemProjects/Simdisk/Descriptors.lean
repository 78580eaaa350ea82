import SystemProjects.Simdisk.NoTrace
import SystemProjects.Simdisk.Read

/-!
# The file descriptors of `file.c`

`my_open` and `my_creat` take a descriptor, `my_close` gives it back. An inode with the number 0 or -1 does not take
the one that it is put into.
-/

open SystemProjects.Memory

namespace SystemProjects.Simdisk

/-! ## The calls -/

def myOpen (w : World) (path : CString) (junk : FindJunk) : Option (World × Int) :=
  (find w path junk).map fun
    | none => (w, -1)
    | some this =>
      let (fd, ret) := openFd w.fd (inodeNum this)
      ({ w with fd := fd }, ret)

def myClose (w : World) (fdd : Int) : Option World :=
  if 0 ≤ fdd ∧ fdd < maxOpenFiles then some { w with fd := fun x => if x = fdd.toNat then -1 else w.fd x } else none

inductive FileCall where
  | myOpen (path : CString) (junk : FindJunk)
  | myCreat (path : CString) (junk : CreatJunk)
  | myRead (fdd : Nat) (buf : Mem) (cnt : Int) (junk : ReadJunk)
  | myClose (fdd : Int)

def fileStep (w : World) : FileCall → Option (World × Int)
  | .myOpen path junk => myOpen w path junk
  | .myCreat path junk => myCreat w path junk
  | .myRead fdd buf cnt junk => (myRead w fdd buf cnt junk).map fun out => (w, out.1)
  | .myClose fdd => (myClose w fdd).map fun w => (w, 0)

/-! ## What is claimed -/

def FileCall.opens : FileCall → Bool
  | .myOpen _ _ => true
  | .myCreat _ _ => true
  | _ => false

def InUse (w : World) (i : Nat) : Prop := w.fd i ≠ -1 ∧ w.fd i ≠ 0

def NumberOf (w : World) (n : Int) : FileCall → Prop
  | .myOpen path junk => ∃ this, find w path junk = some (some this) ∧ n = inodeNum this
  | .myCreat _ _ => inodeTableStart ≤ n ∧ n < maxFileNum
  | _ => False

/-- The call has taken descriptor `i`, the first one that is not in use. -/
structure Opened (t : Run.Transition World FileCall Int) (i : Nat) : Prop where
  out : t.out = i
  lt : i < maxOpenFiles
  free : ¬ InUse t.pre i
  lowest : ∀ j < i, InUse t.pre j
  number : NumberOf t.pre (t.post.fd i) t.act
  others : ∀ j, j ≠ i → t.post.fd j = t.pre.fd j

structure NotOpened (t : Run.Transition World FileCall Int) : Prop where
  out : t.out = -1
  fd : t.post.fd = t.pre.fd
  /-- `my_open` fails where the path leads nowhere or ten files are open. -/
  why : ∀ path junk, t.act = .myOpen path junk → find t.pre path junk = some none ∨
    ∀ j < maxOpenFiles, InUse t.pre j

/-! ## One call -/

theorem openFd_spec (fd : Nat → Int) (inum : Int) :
    (openFd fd inum = (fd, -1) ∧ ∀ j < maxOpenFiles, fd j ≠ -1 ∧ fd j ≠ 0) ∨
      ∃ i, openFd fd inum = (fun x => if x = i then inum else fd x, (i : Int)) ∧ i < maxOpenFiles ∧
        (fd i = -1 ∨ fd i = 0) ∧ ∀ j < i, fd j ≠ -1 ∧ fd j ≠ 0 := by
  unfold openFd
  cases hfind : (List.range maxOpenFiles).find? fun i => fd i = -1 ∨ fd i = 0 with
  | none =>
    left
    refine ⟨rfl, fun j hj => ?_⟩
    have hj := List.find?_eq_none.mp hfind j (List.mem_range.mpr hj)
    simpa using hj
  | some i =>
    right
    obtain ⟨hi, hmem, hlow⟩ := List.find?_range_eq_some.mp hfind
    refine ⟨i, rfl, List.mem_range.mp hmem, by simpa using hi, fun j hj => ?_⟩
    simpa using hlow j hj

theorem getInode_range {d d' : Device} {bits : Mem} {r : Int} (h : getInode d bits = some (d', r)) :
    (inodeTableStart : Int) ≤ r ∧ r < maxFileNum := by
  have hne := getInode_ne h
  rw [getInode, acquire] at h
  obtain ⟨⟨i, j, bits'⟩, -, h⟩ := Option.bind_eq_some_iff.mp h
  dsimp only at h
  split at h
  case isTrue => exact absurd (Prod.mk.inj (Option.some.inj h)).2.symm hne
  case isFalse hlt =>
    split at h
    case isTrue =>
      have hr := (Prod.mk.inj (Option.some.inj h)).2
      omega
    case isFalse => cases h

theorem openFd_opened {w : World} (w' : World) {call : FileCall} {inum ret : Int}
    (hnum : NumberOf w inum call) (h : openFd w.fd inum = (w'.fd, ret)) :
    (ret = -1 ∧ w'.fd = w.fd ∧ ∀ j < maxOpenFiles, InUse w j) ∨ ∃ i, Opened ⟨w, call, ret, w'⟩ i := by
  obtain ⟨heq, hall⟩ | ⟨i, heq, hi, hfree, hlow⟩ := openFd_spec w.fd inum
  · rw [heq] at h
    obtain ⟨hfd, hret⟩ := Prod.mk.inj h
    exact .inl ⟨hret.symm, hfd.symm, hall⟩
  · rw [heq] at h
    obtain ⟨hfd, hret⟩ := Prod.mk.inj h
    refine .inr ⟨i, hret.symm, hi, fun huse => ?_, hlow, ?_, fun j hj => ?_⟩
    · exact hfree.elim huse.1 huse.2
    · exact ((congrFun hfd i).symm.trans (if_pos rfl) : w'.fd i = inum) ▸ hnum
    · exact (congrFun hfd j).symm.trans (if_neg hj)

theorem myOpen_opened {w w' : World} {path : CString} {junk : FindJunk} {ret : Int}
    (h : myOpen w path junk = some (w', ret)) :
    NotOpened ⟨w, .myOpen path junk, ret, w'⟩ ∨ ∃ i, Opened ⟨w, .myOpen path junk, ret, w'⟩ i := by
  obtain ⟨found, hfind, h⟩ := Option.map_eq_some_iff.mp h
  cases found with
  | none =>
    obtain ⟨rfl, rfl⟩ := Prod.mk.inj h
    refine .inl ⟨rfl, rfl, ?_⟩
    rintro path' junk' hact
    cases hact
    exact .inl hfind
  | some this =>
    obtain ⟨rfl, rfl⟩ := Prod.mk.inj h
    have hnum : NumberOf w (inodeNum this) (.myOpen path junk) := ⟨this, hfind, rfl⟩
    obtain ⟨hret, hfd, hall⟩ | hopened := openFd_opened
      { w with fd := (openFd w.fd (inodeNum this)).1 } hnum rfl
    · exact .inl ⟨hret, hfd, fun _ _ _ => .inr hall⟩
    · exact .inr hopened

theorem creatIn_cases {w w' : World} {cur : Mem} {name : CString} {junk : CreatJunk} {ret : Int}
    (h : creatIn w cur name junk = some (w', ret)) :
    (w' = w ∧ ret = -1) ∨ ∃ dev inum, ((inodeTableStart : Int) ≤ inum ∧ inum < maxFileNum) ∧
      w' = { w with dev := dev, fd := (openFd w.fd inum).1 } ∧ ret = (openFd w.fd inum).2 := by
  obtain ⟨⟨found, direc⟩, -, h⟩ := Option.bind_eq_some_iff.mp h
  dsimp only at h
  split at h
  case isTrue =>
    obtain ⟨rfl, rfl⟩ := Prod.mk.inj (Option.some.inj h)
    exact .inl ⟨rfl, rfl⟩
  case isFalse =>
    obtain ⟨⟨dev, block, k, direc⟩, -, h⟩ := Option.bind_eq_some_iff.mp h
    obtain ⟨⟨dev, inum⟩, hinode, h⟩ := Option.bind_eq_some_iff.mp h
    dsimp only at h
    rw [if_neg (getInode_ne hinode)] at h
    obtain ⟨dev, -, h⟩ := Option.bind_eq_some_iff.mp h
    obtain ⟨⟨inode, s⟩, -, h⟩ := Option.bind_eq_some_iff.mp h
    obtain ⟨⟨dev, fileBlock⟩, -, h⟩ := Option.bind_eq_some_iff.mp h
    obtain ⟨⟨dev, s⟩, -, h⟩ := Option.map_eq_some_iff.mp h
    obtain ⟨rfl, rfl⟩ := Prod.mk.inj h
    exact .inr ⟨dev, inum, getInode_range hinode, rfl, rfl⟩

theorem myCreat_opened {w w' : World} {path : CString} {junk : CreatJunk} {ret : Int}
    (h : myCreat w path junk = some (w', ret)) :
    NotOpened ⟨w, .myCreat path junk, ret, w'⟩ ∨ ∃ i, Opened ⟨w, .myCreat path junk, ret, w'⟩ i := by
  have hsame : NotOpened ⟨w, .myCreat path junk, -1, w⟩ := ⟨rfl, rfl, fun _ _ hact => nomatch hact⟩
  obtain ⟨⟨dirName, fileName⟩, -, h⟩ := Option.bind_eq_some_iff.mp h
  obtain ⟨found, -, h⟩ := Option.bind_eq_some_iff.mp h
  cases found with
  | none =>
    obtain ⟨rfl, rfl⟩ := Prod.mk.inj (Option.some.inj h)
    exact .inl hsame
  | some cur =>
    dsimp only at h
    split at h
    case isTrue =>
      obtain ⟨rfl, rfl⟩ := Prod.mk.inj (Option.some.inj h)
      exact .inl hsame
    case isFalse =>
      obtain ⟨rfl, rfl⟩ | ⟨dev, inum, hrange, rfl, rfl⟩ := creatIn_cases h
      · exact .inl hsame
      · have hnum : NumberOf w inum (.myCreat path junk) := hrange
        obtain ⟨hret, hfd, -⟩ | hopened := openFd_opened
          { w with dev := dev, fd := (openFd w.fd inum).1 } hnum rfl
        · exact .inl ⟨hret, hfd, fun _ _ hact => nomatch hact⟩
        · exact .inr hopened

theorem fileStep_opened {w w' : World} {call : FileCall} {ret : Int} (h : fileStep w call = some (w', ret))
    (hcall : call.opens = true) : NotOpened ⟨w, call, ret, w'⟩ ∨ ∃ i, Opened ⟨w, call, ret, w'⟩ i := by
  cases call with
  | myOpen path junk => exact myOpen_opened h
  | myCreat path junk => exact myCreat_opened h
  | myRead fdd buf cnt junk => cases hcall
  | myClose fdd => cases hcall

theorem myClose_fd {w w' : World} {fdd : Int} (h : myClose w fdd = some w') {i : Nat} (hi : fdd ≠ i) :
    w'.fd i = w.fd i := by
  unfold myClose at h
  split at h
  case isTrue =>
    rw [← Option.some.inj h]
    exact if_neg (by omega)
  case isFalse => cases h

/-! ## A descriptor in use -/

/-- It stays as it is until it is closed. -/
theorem inUse_kept {w w' : World} {call : FileCall} {ret : Int} {i : Nat} {n : Int} (hn : n ≠ -1 ∧ n ≠ 0)
    (h : w.fd i = n) (hcall : call ≠ .myClose i) (hstep : fileStep w call = some (w', ret)) :
    w'.fd i = n := by
  have huse : InUse w i := by
    rw [InUse, h]
    exact hn
  have hopens : call.opens = true → w'.fd i = n := by
    intro hcall
    obtain hnot | ⟨j, hopened⟩ := fileStep_opened hstep hcall
    · exact (congrFun hnot.fd i).trans h
    · have hne : i ≠ j := by
        rintro rfl
        exact hopened.free huse
      exact (hopened.others i hne).trans h
  cases call with
  | myOpen path junk => exact hopens rfl
  | myCreat path junk => exact hopens rfl
  | myRead fdd buf cnt junk =>
    obtain ⟨out, -, heq⟩ := Option.map_eq_some_iff.mp hstep
    rw [← (Prod.mk.inj heq).1]
    exact h
  | myClose fdd =>
    obtain ⟨w1, hclose, heq⟩ := Option.map_eq_some_iff.mp hstep
    rw [← (Prod.mk.inj heq).1, myClose_fd hclose fun hi => hcall (by rw [hi])]
    exact h

/-! ## Every run -/

/-- **Descriptors.** Along every run of the calls, from any disk and any table. -/
theorem descriptor_held (w : World) (calls : List FileCall) (ts : List (Run.Transition World FileCall Int))
    (h : Run.trace fileStep w calls = some ts) :
    (∀ t ∈ ts, t.act.opens = true → NotOpened t ∨ ∃ i, Opened t i) ∧
      ∀ pre t1 mid t2 post i, ts = pre ++ t1 :: (mid ++ t2 :: post) → Opened t1 i → InUse t1.post i →
        (∀ t ∈ mid, t.act ≠ .myClose i) → t2.pre.fd i = t1.post.fd i ∧ ¬ Opened t2 i := by
  have hl := Run.trace_linked calls h
  constructor
  · intro t ht hcall
    obtain ⟨us, vs, rfl⟩ := List.append_of_mem ht
    exact fileStep_opened hl.step_eq.1 hcall
  · rintro pre t1 mid t2 post i rfl hopened huse hopen
    have hkept := hl.step_eq.2.kept (P := fun w => w.fd i = t1.post.fd i) (A := fun call => call ≠ .myClose i)
      (fun _ _ _ _ hfd hcall hstep => inUse_kept huse hfd hcall hstep) rfl hopen
    refine ⟨hkept, fun hagain => hagain.free ?_⟩
    rw [InUse, hkept]
    exact huse

def rootOpen : FileCall := .myOpen [slash] ⟨fun _ => 0, fun _ => 0, fun _ => 0, 0⟩

theorem newWorld_rootOpen {fd fd' : Nat → Int} {r : Int} (h : openFd fd 1 = (fd', r)) :
    fileStep { newWorld with fd := fd } rootOpen = some ({ newWorld with fd := fd' }, r) := by
  have hf := newWorld_formatted
  have hread := readInode_eq (d := newWorld.dev) (i := 1) (Nat.le_refl 1) (by decide) fun _ => 0
  generalize hthis : newWorld.dev.read (inodeTableStart * blocksize + 1 * 256) 256 (fun _ => 0) =
    this at hread
  have hfind : find { newWorld with fd := fd } [slash] ⟨fun _ => 0, fun _ => 0, fun _ => 0, 0⟩ =
    some (some this) := by
    rw [find, if_pos rfl]
    exact congrArg (Option.map fun r => some r.1) hread
  have hnum : load32 this 4 = load32 (rootInode fun _ => 0) 4 := by
    apply load32_congr
    intro x _ hx
    rw [← hthis, read_self (by omega)]
    exact hf.inode x (by omega)
  have hone : inodeNum this = 1 := by
    rw [inodeNum, loadInt, hnum]
    decide
  rw [rootOpen, fileStep, myOpen, hfind, Option.map_some]
  dsimp only
  rw [hone, h]

/-- The root directory is opened twice, closed once and opened again. -/
theorem rootCalls_trace : ∃ ts, Run.trace fileStep newWorld [rootOpen, rootOpen, .myClose 0,
    rootOpen] = some ts ∧
    ts.map (·.out) = [0, 1, 0, 0] := by
  let fd1 := fun x => if x = 0 then 1 else newWorld.fd x
  let fd2 := fun x => if x = 1 then 1 else fd1 x
  let fd3 := fun x => if x = 0 then -1 else fd2 x
  have h1 : openFd newWorld.fd 1 = (fd1, 0) := rfl
  have h2 : openFd fd1 1 = (fd2, 1) := rfl
  have h3 : openFd fd3 1 = (fun x => if x = 0 then 1 else fd3 x, 0) := rfl
  have hclose : fileStep { newWorld with fd := fd2 } (.myClose 0) = some ({ newWorld with fd := fd3 },
    0) := rfl
  have htrace := Run.trace_cons (newWorld_rootOpen h1) [rootOpen, .myClose 0, rootOpen]
  rw [Run.trace_cons (newWorld_rootOpen h2), Run.trace_cons hclose,
    Run.trace_cons (newWorld_rootOpen h3)] at htrace
  exact ⟨_, htrace, rfl⟩

theorem descriptor_held_root :
    ∃ ts, Run.trace fileStep newWorld [rootOpen, rootOpen, .myClose 0, rootOpen] = some ts ∧
      ts.map (·.out) = [0, 1, 0, 0] ∧ (∀ t ∈ ts, t.act.opens = true → NotOpened t ∨ ∃ i, Opened t i) ∧
      ∀ pre t1 mid t2 post i, ts = pre ++ t1 :: (mid ++ t2 :: post) → Opened t1 i → InUse t1.post i →
        (∀ t ∈ mid, t.act ≠ .myClose i) → t2.pre.fd i = t1.post.fd i ∧ ¬ Opened t2 i := by
  obtain ⟨ts, hts, houts⟩ := rootCalls_trace
  exact ⟨ts, hts, houts, descriptor_held newWorld _ ts hts⟩

end SystemProjects.Simdisk
