import SystemProjects.Paging.Budget

/-!
# The page tables of several processes

They lie in one memory, and `physical_pageAlloc` has one supply of pages for all of them. A call for one process
writes to its own directory and its own tables, also where the loop over a new table runs into the self map.
-/

open SystemProjects.Run

namespace SystemProjects.Paging

/-! ## The kernel -/

/-- What `struct PROCESS_INFO` says of the pages. -/
structure Process where
  pageDir : Nat
  privilege : Bool

structure Kernel where
  phys : Frame → Nat → PageEntry
  supply : List Nat
  process : Nat → Process

def Kernel.view (k : Kernel) (i : Nat) : State :=
  { phys := k.phys, supply := k.supply, pageDir := (k.process i).pageDir, privilege := (k.process i).privilege }

def Kernel.put (k : Kernel) (i : Nat) (s : State) : Kernel :=
  { phys := s.phys, supply := s.supply, process := fun j => if j = i then ⟨s.pageDir, s.privilege⟩ else k.process j }

inductive Call where
  | createDirectory (p : Nat)
  | setPageTableEntry (p : Nat) (op : Op)

def Call.process : Call → Nat
  | .createDirectory p => p
  | .setPageTableEntry p _ => p

/-- Without a page, `paging_createDirectory` leaves `NULL` in `page_dir`. -/
def callStep (fuel : Nat) (k : Kernel) : Call → Option (Kernel × Int)
  | .createDirectory p =>
    if k.supply = [] then some (k.put p { k.view p with pageDir := 0 }, FAIL)
    else (pagingCreateDirectory (k.view p)).map fun (s, r) => (k.put p s, r)
  | .setPageTableEntry p op =>
    (pagingSetPageTableEntry fuel (k.view p) op.va op.pa op.present).map fun s => (k.put p s, 0)

/-! ## What is claimed -/

/-- The process has a directory, and the page is not in the region of the self map. -/
def Call.Allowed (k : Kernel) : Call → Prop
  | .createDirectory _ => True
  | .setPageTableEntry p op => (k.process p).pageDir ≠ 0 ∧ pageAlign op.va < selfMap

abbrev Taken := Transition Kernel Call Int

/-- The pages that `physical_pageAlloc` returned in the calls for a process. -/
def pagesFor (i : Nat) (ts : List Taken) : List Nat :=
  ts.flatMap fun t => if t.act.process = i then t.pre.supply.take
    (t.pre.supply.length - t.post.supply.length) else []

def Held (ts : List Taken) (i : Nat) (f : Frame) : Prop := ∃ p ∈ pagesFor i ts, f = pagingMapQuick p

def IsFrame (s : State) (f : Frame) : Prop :=
  f = dir s ∨ ∃ i < pageEntrys, (pde s i).present = true ∧ f = (pde s i).address

/-- The call `t`, after the calls `us`. -/
structure Isolated (us : List Taken) (t : Taken) : Prop where
  held : ∀ i, (t.post.process i).pageDir ≠ 0 → ∀ f, IsFrame (t.post.view i) f → Held (us ++ [t]) i f
  apart : ∀ i j f, i ≠ j → Held (us ++ [t]) i f → ¬ Held (us ++ [t]) j f
  writes : ∀ f, t.post.phys f ≠ t.pre.phys f → Held (us ++ [t]) t.act.process f
  others : ∀ j, j ≠ t.act.process → t.post.process j = t.pre.process j ∧
    ((t.pre.process j).pageDir ≠ 0 → ∀ v, walk (t.post.view j) v = walk (t.pre.view j) v)

/-- What the calls for process `i` say since its directory was made. -/
def callMap (i : Nat) (M : Nat → Option (Frame × Bool)) : Call → Nat → Option (Frame × Bool)
  | .createDirectory p => if p = i then fun _ => none else M
  | .setPageTableEntry p op => if p = i then setMap M op else M

def mapFor (i : Nat) (ts : List Taken) : Nat → Option (Frame × Bool) :=
  ts.foldl (fun M t => callMap i M t.act) fun _ => none

/-- The region of the page has a table, or the page is the first of it. -/
def Call.Ready (k : Kernel) : Call → Prop
  | .createDirectory _ => True
  | .setPageTableEntry p op => (k.process p).pageDir ≠ 0 ∧ Paging.Allowed (k.view p) op ∧ RegionReady (k.view p) op

variable {O : Frame → Prop} {s s' s'' : State} {ps qs : List Nat} {la p : Nat} {f : Frame}

/-! ## Frames of one process -/

def plusPages (O : Frame → Prop) (ps : List Nat) : Frame → Prop :=
    fun f => O f ∨ ∃ p ∈ ps, f = pagingMapQuick p

theorem plusPages_nil : plusPages O [] = O := by
  funext f
  simp [plusPages]

theorem plusPages_append : plusPages (plusPages O ps) qs = plusPages O (ps ++ qs) := by
  funext f
  simp only [plusPages, List.mem_append, or_and_right, exists_or, or_assoc]

/-- The pages to come are not owned yet. -/
structure Supplied (O : Frame → Prop) (supply : List Nat) : Prop where
  fresh : FreshPages supply
  zero : ¬ O 0
  unowned : ∀ p ∈ supply, ¬ O (pagingMapQuick p)

theorem Supplied.rest (h : Supplied O (ps ++ qs)) : Supplied (plusPages O ps) qs := by
  have hpage : ∀ p ∈ ps, p % pageSize = 0 ∧ 0 < p ∧ p < 2 ^ 32 :=
    fun p hp => h.fresh.page p (List.mem_append_left _ hp)
  refine ⟨⟨(List.nodup_append.mp h.fresh.nodup).2.1, fun q hq =>
    h.fresh.page q (List.mem_append_right _ hq)⟩, ?_, ?_⟩
  · rintro (h0 | ⟨p, hp, h0⟩)
    · exact h.zero h0
    · exact mapQuick_ne_zero (hpage p hp) h0.symm
  · rintro q hq (hO | ⟨p, hp, heq⟩)
    · exact h.unowned q (List.mem_append_right _ hq) hO
    · have hpq := mapQuick_inj (h.fresh.page q (List.mem_append_right _ hq)) (hpage p hp) heq
      exact (List.nodup_append.mp h.fresh.nodup).2.2 p hp q hq hpq.symm

/-- The directory and the tables are owned. Below the self map no table is the directory. -/
structure Owns (O : Frame → Prop) (s : State) : Prop where
  supplied : Supplied O s.supply
  dir : O (dir s)
  entry : ∀ i < pageEntrys, ((pde s i).address = 0 ∧ (pde s i).present = false) ∨ O (pde s i).address
  table : ∀ i < pageEntrys - 1, (pde s i).address ≠ Paging.dir s

/-- The call has taken the pages `ps`, and has written to owned frames. -/
structure Within (O : Frame → Prop) (s s' : State) (ps : List Nat) : Prop where
  supply : s.supply = ps ++ s'.supply
  pageDir : s'.pageDir = s.pageDir
  privilege : s'.privilege = s.privilege
  others : ∀ f, ¬ plusPages O ps f → s'.phys f = s.phys f
  owns : Owns (plusPages O ps) s'

theorem Within.refl (h : Owns O s) : Within O s s [] := by
  refine ⟨rfl, rfl, rfl, fun _ _ => rfl, ?_⟩
  rw [plusPages_nil]
  exact h

theorem Within.trans (h : Within O s s' ps) (h' : Within (plusPages O ps) s' s'' qs) :
    Within O s s'' (ps ++ qs) := by
  refine ⟨?_, h'.pageDir.trans h.pageDir, h'.privilege.trans h.privilege, fun f hf => ?_, ?_⟩
  · rw [h.supply, h'.supply, List.append_assoc]
  · rw [← plusPages_append] at hf
    exact (h'.others f hf).trans (h.others f fun hps => hf (.inl hps))
  · rw [← plusPages_append]
    exact h'.owns

/-! ## One write -/

/-- An entry in an owned frame. Only one that says nothing may be written to the directory. -/
theorem writeEntry_within (h : Owns O s) (hf : O f) (k : Nat) {e : PageEntry}
    (he : f ≠ dir s ∨ e.address = 0 ∧ e.present = false) : Within O s (writeEntry s f k e) [] := by
  have hpde : ∀ i, pde (writeEntry s f k e) i = pde s i ∨ pde (writeEntry s f k e) i = e ∧ f = dir s := by
    intro i
    by_cases hi : dir s = f ∧ i = k
    · exact .inr ⟨if_pos hi, hi.1.symm⟩
    · exact .inl (if_neg hi)
  refine ⟨rfl, rfl, rfl, fun g hg => ?_, ?_⟩
  · funext i
    apply if_neg
    rintro ⟨rfl, -⟩
    exact hg (.inl hf)
  · rw [plusPages_nil]
    refine ⟨h.supplied, h.dir, fun i hi => ?_, fun i hi => ?_⟩
    · obtain heq | ⟨heq, hfd⟩ := hpde i
      · rw [heq]
        exact h.entry i hi
      · rw [heq]
        exact .inl (he.resolve_left fun hne => hne hfd)
    · obtain heq | ⟨heq, hfd⟩ := hpde i
      · rw [heq]
        exact h.table i hi
      · rw [heq, (he.resolve_left fun hne => hne hfd).1]
        intro h0
        exact h.supplied.zero (h0 ▸ h.dir)

theorem newTable_within (la : Nat) (h : Owns O s) (hp : s.supply = p :: ps) :
    Within O s (pagingSetPageDirectoryEntry { s with supply := ps } la p) [p] := by
  have hmem : p ∈ s.supply := by rw [hp]; exact List.mem_cons_self
  have hpage := h.supplied.fresh.page p hmem
  have hdir : pagingMapQuick p ≠ dir s := fun heq => h.supplied.unowned p hmem (heq ▸ h.dir)
  have hnew := (pde_setDirectoryEntry { s with supply := ps } la p).1
  have hold : ∀ j, j ≠ getDirectoryIndex la →
    pde (pagingSetPageDirectoryEntry { s with supply := ps } la p) j = pde s j :=
    fun j hj => pde_setDirectoryEntry_other _ la p hj
  refine ⟨hp, rfl, rfl, fun g hg => ?_, ?_, .inl h.dir, fun i hi => ?_, fun i hi => ?_⟩
  · funext i
    apply if_neg
    rintro ⟨rfl, -⟩
    exact hg (.inl h.dir)
  · have hsupplied : Supplied O ([p] ++ ps) := by
      rw [List.singleton_append, ← hp]
      exact h.supplied
    exact hsupplied.rest
  · by_cases hj : i = getDirectoryIndex la
    · rw [hj, hnew]
      exact .inr (.inr ⟨p, List.mem_singleton_self p, rfl⟩)
    · rw [hold i hj]
      exact (h.entry i hi).imp id .inl
  · by_cases hj : i = getDirectoryIndex la
    · rw [hj, hnew]
      exact hdir
    · rw [hold i hj]
      exact h.table i hi

/-! ## One call -/

theorem clearTable_within {set : State → Nat → Option State}
    (hset : ∀ O s la s', Owns O s → set s la = some s' → ∃ ps, Within O s s' ps) :
    ∀ n O s s', Owns O s → clearTable set la n s = some s' → ∃ ps, Within O s s' ps := by
  intro n
  induction n with
  | zero =>
    intro O s s' hs h
    rw [← Option.some.inj h]
    exact ⟨[], .refl hs⟩
  | succ n ih =>
    intro O s s' hs h
    obtain ⟨s1, h1, h⟩ := Option.bind_eq_some_iff.mp h
    obtain ⟨ps, hps⟩ := hset O s _ s1 hs h1
    obtain ⟨qs, hqs⟩ := ih _ s1 s' hps.owns h
    exact ⟨ps ++ qs, hps.trans hqs⟩

theorem getDirectoryIndex_lt_pageEntrys (v : Nat) : getDirectoryIndex v < pageEntrys :=
    Nat.mod_lt _ (by decide)

/-- The entry that is found lies in an owned frame, and in the directory only for the self map. -/
theorem getEntry_within {set : State → Nat → Option State} {k : Nat}
    (hset : ∀ O s la s', Owns O s → set s la = some s' → ∃ ps, Within O s s' ps) (hs : Owns O s)
    (h : pagingGetPageTableEntry set s la = some (s', f, k)) :
    ∃ ps, Within O s s' ps ∧ plusPages O ps f ∧ (getDirectoryIndex la < pageEntrys - 1 → f ≠ dir s') := by
  by_cases h0 : (pde s (getDirectoryIndex la)).address = 0
  · obtain ⟨p, ps, hp, hclear⟩ := getEntry_loop h0 h
    rw [getEntry_of_noTable hp h0 hclear] at h
    obtain ⟨-, hfk⟩ := Prod.mk.inj (Option.some.inj h)
    obtain rfl := (Prod.mk.inj hfk).1
    have hnew := newTable_within la hs hp
    obtain ⟨qs, hqs⟩ := clearTable_within hset _ _ _ _ hnew.owns hclear
    have hall := hnew.trans hqs
    refine ⟨_, hall, .inr ⟨p, by simp, rfl⟩, fun _ hdir => ?_⟩
    -- The page was not owned, and the directory is the one from before.
    rw [dir, hall.pageDir] at hdir
    exact hs.supplied.unowned p (by rw [hp]; exact List.mem_cons_self) (hdir ▸ hs.dir)
  · rw [getEntry_of_table rfl h0] at h
    obtain ⟨rfl, hfk⟩ := Prod.mk.inj (Option.some.inj h)
    obtain rfl := (Prod.mk.inj hfk).1
    refine ⟨[], .refl hs, ?_, fun hlt => hs.table _ hlt⟩
    rw [plusPages_nil]
    exact (hs.entry _ (getDirectoryIndex_lt_pageEntrys la)).resolve_left fun hz => h0 hz.1

theorem set_within : ∀ fuel O s la pa b s', Owns O s →
    (getDirectoryIndex (pageAlign la) < pageEntrys - 1 ∨ pa = 0 ∧ b = false) →
    pagingSetPageTableEntry fuel s la pa b = some s' → ∃ ps, Within O s s' ps := by
  intro fuel
  induction fuel with
  | zero => intro O s la pa b s' _ _ h; cases h
  | succ fuel ih =>
    intro O s la pa b s' hs hla h
    obtain ⟨⟨s1, f, k⟩, h1, rfl⟩ := Option.map_eq_some_iff.mp h
    obtain ⟨ps, hps, hf, hdir⟩ := getEntry_within (fun O s la s' hs =>
      ih O s la 0 false s' hs (.inr ⟨rfl, rfl⟩)) hs h1
    have hwrite := writeEntry_within hps.owns hf k (e := tableEntry s1 pa b) (hla.imp hdir ?_)
    · exact ⟨ps ++ [], hps.trans hwrite⟩
    · rintro ⟨rfl, rfl⟩
      exact ⟨tableEntry_null s1, rfl⟩

theorem createDirectory_within {r : Int} (hs : Supplied O s.supply)
    (h : pagingCreateDirectory s = some (s', r)) :
    ∃ p, s.supply = p :: s'.supply ∧ s'.pageDir = p ∧ s'.privilege = s.privilege ∧
      (∀ f, f ≠ pagingMapQuick p → s'.phys f = s.phys f) ∧ Owns (plusPages O [p]) s' := by
  obtain ⟨⟨s1, p⟩, h1, h2⟩ := Option.map_eq_some_iff.mp h
  obtain ⟨ps, hp, rfl⟩ : ∃ ps, s.supply = p :: ps ∧ s1 = { s with supply := ps } := by
    unfold physicalPageAlloc at h1
    split at h1
    · cases h1
    · rename_i q ps hps
      obtain ⟨rfl, rfl⟩ := Prod.mk.inj (Option.some.inj h1)
      exact ⟨ps, hps, rfl⟩
  have hpage := hs.fresh.page p (by rw [hp]; exact List.mem_cons_self)
  dsimp only at h2
  rw [if_neg (by omega)] at h2
  obtain ⟨hs', -⟩ := Prod.mk.inj h2
  have hentry : ∀ i < pageEntrys, pde s' i = defaultEntry { s with supply := ps, pageDir := p } i := by
    rw [← hs']
    exact fun i hi => if_pos ⟨rfl, hi⟩
  have hdir : dir s' = pagingMapQuick p := by
    rw [← hs']
    rfl
  have hsupplied : Supplied O ([p] ++ ps) := by
    rw [List.singleton_append, ← hp]
    exact hs
  subst hs'
  refine ⟨p, hp, rfl, rfl, fun f hf => ?_, hsupplied.rest, .inr ⟨p, List.mem_singleton_self p, hdir⟩,
    fun i hi => ?_, fun i hi => ?_⟩
  · funext i
    exact if_neg fun hfi => hf hfi.1
  · rw [hentry i hi, defaultEntry]
    split
    · exact .inr (.inr ⟨p, List.mem_singleton_self p, rfl⟩)
    · exact .inl ⟨rfl, rfl⟩
  · rw [hentry i (by omega), hdir, defaultEntry, if_neg (by omega)]
    exact (mapQuick_ne_zero hpage).symm

/-! ## The kernel -/

@[simp] theorem Kernel.view_put_self (k : Kernel) (i : Nat) (s : State) : (k.put i s).view i = s := by
  simp [Kernel.view, Kernel.put]

theorem Kernel.process_put {k : Kernel} {i j : Nat} (h : j ≠ i) (s : State) :
    (k.put i s).process j = k.process j := if_neg h

theorem pagesFor_append (i : Nat) (us vs : List Taken) :
    pagesFor i (us ++ vs) = pagesFor i us ++ pagesFor i vs :=
  List.flatMap_append

theorem pagesFor_call {t : Taken} (h : t.pre.supply = ps ++ t.post.supply) (i : Nat) :
    pagesFor i [t] = if t.act.process = i then ps else [] := by
  rw [pagesFor, List.flatMap_singleton, h]
  simp

theorem held_snoc (us : List Taken) {t : Taken} (h : t.pre.supply = ps ++ t.post.supply) (i : Nat) :
    Held (us ++ [t]) i = if t.act.process = i then plusPages (Held us i) ps else Held us i := by
  funext f
  unfold Held
  rw [pagesFor_append, pagesFor_call h]
  split
  · simp [plusPages, or_and_right, exists_or]
  · simp

/-- Each process has its frames. -/
structure Separated (us : List Taken) (k : Kernel) : Prop where
  supplied : ∀ i, Supplied (Held us i) k.supply
  owns : ∀ i, (k.process i).pageDir ≠ 0 → Owns (Held us i) (k.view i)
  apart : ∀ i j f, i ≠ j → Held us i f → ¬ Held us j f

/-- What a call for process `i` does to the kernel. -/
structure Serves (us : List Taken) (k k' : Kernel) (i : Nat) (ps : List Nat) : Prop where
  supply : k.supply = ps ++ k'.supply
  process : ∀ j, j ≠ i → k'.process j = k.process j
  phys : ∀ f, ¬ plusPages (Held us i) ps f → k'.phys f = k.phys f
  owns : (k'.process i).pageDir ≠ 0 → Owns (plusPages (Held us i) ps) (k'.view i)

theorem serves_put {us : List Taken} {k : Kernel} {i : Nat} (hsupply : k.supply = ps ++ s.supply)
    (hphys : ∀ f, ¬ plusPages (Held us i) ps f → s.phys f = k.phys f)
    (howns : s.pageDir ≠ 0 → Owns (plusPages (Held us i) ps) s) : Serves us k (k.put i s) i ps := by
  refine ⟨hsupply, fun j hj => Kernel.process_put hj s, hphys, fun h => ?_⟩
  rw [Kernel.view_put_self]
  exact howns (by simpa [Kernel.put] using h)

theorem callStep_serves {fuel : Nat} {us : List Taken} {k k' : Kernel} {call : Call} {r : Int}
    (hk : Separated us k) (hcall : call.Allowed k) (h : callStep fuel k call = some (k', r)) :
    ∃ ps, Serves us k k' call.process ps := by
  cases call with
  | createDirectory i =>
    rw [callStep] at h
    split at h
    case isTrue =>
      obtain ⟨rfl, -⟩ := Prod.mk.inj (Option.some.inj h)
      exact ⟨[], serves_put rfl (fun _ _ => rfl) fun h0 => absurd rfl h0⟩
    case isFalse =>
      obtain ⟨⟨s, r'⟩, hcreate, heq⟩ := Option.map_eq_some_iff.mp h
      obtain ⟨rfl, -⟩ := Prod.mk.inj heq
      obtain ⟨p, hp, -, -, hphys, howns⟩ := createDirectory_within (hk.supplied i) hcreate
      refine ⟨[p], serves_put hp (fun f hf => hphys f fun hfp => ?_) fun _ => howns⟩
      exact hf (.inr ⟨p, List.mem_singleton_self p, hfp⟩)
  | setPageTableEntry i op =>
    obtain ⟨hdir, hlt⟩ := hcall
    obtain ⟨s, hset, heq⟩ := Option.map_eq_some_iff.mp h
    obtain ⟨rfl, -⟩ := Prod.mk.inj heq
    obtain ⟨ps, hps⟩ := set_within _ _ _ _ _ _ _ (hk.owns i hdir) (.inl (getDirectoryIndex_lt hlt)) hset
    exact ⟨ps, serves_put hps.supply hps.others fun _ => hps.owns⟩

/-! ## The other processes -/

theorem Supplied.later (h : Supplied O (ps ++ qs)) : Supplied O qs :=
  ⟨⟨(List.nodup_append.mp h.fresh.nodup).2.1, fun q hq =>
    h.fresh.page q (List.mem_append_right _ hq)⟩, h.zero,
    fun q hq => h.unowned q (List.mem_append_right _ hq)⟩

theorem Serves.others {us : List Taken} {k k' : Kernel} {i j : Nat} (h : Serves us k k' i ps)
    (hk : Separated us k)
    (hj : j ≠ i) (hf : Held us j f) : k'.phys f = k.phys f := by
  apply h.phys
  rintro (hi | ⟨p, hp, rfl⟩)
  · exact hk.apart i j f hj.symm hi hf
  · exact (hk.supplied j).unowned p (by rw [h.supply]; exact List.mem_append_left _ hp) hf

theorem Owns.pde_congr (h : Owns O s) (hdir : s'.pageDir = s.pageDir)
    (hphys : ∀ f, O f → s'.phys f = s.phys f) (i : Nat) :
    pde s' i = pde s i := by
  unfold pde
  rw [show Paging.dir s' = Paging.dir s from congrArg pagingMapQuick hdir, hphys _ h.dir]

theorem Owns.congr (h : Owns O s) (hsupplied : Supplied O s'.supply) (hdir : s'.pageDir = s.pageDir)
    (hphys : ∀ f, O f → s'.phys f = s.phys f) : Owns O s' ∧ ∀ v, walk s' v = walk s v := by
  have hd : Paging.dir s' = Paging.dir s := congrArg pagingMapQuick hdir
  have hpde := h.pde_congr hdir hphys
  refine ⟨⟨hsupplied, hd ▸ h.dir, fun i hi => ?_, fun i hi => ?_⟩, fun v => ?_⟩
  · rw [hpde]
    exact h.entry i hi
  · rw [hpde, hd]
    exact h.table i hi
  · rw [walk_eq, walk_eq, hpde]
    obtain ⟨-, hno⟩ | hO := h.entry _ (getDirectoryIndex_lt_pageEntrys v)
    · rw [hno]
      rfl
    · rw [hphys _ hO]

theorem Serves.view_other {us : List Taken} {k k' : Kernel} {i j : Nat} (h : Serves us k k' i ps)
    (hk : Separated us k) (hj : j ≠ i) (hdir : (k.process j).pageDir ≠ 0) :
    Owns (Held us j) (k'.view j) ∧ ∀ v, walk (k'.view j) v = walk (k.view j) v := by
  have hsupplied := hk.supplied j
  rw [h.supply] at hsupplied
  exact (hk.owns j hdir).congr hsupplied.later (congrArg Process.pageDir (h.process j hj)) fun f hf =>
    h.others hk hj hf

/-! ## Every run -/

theorem Serves.separated {us : List Taken} {t : Taken} (h : Serves us t.pre t.post t.act.process ps)
    (hk : Separated us t.pre) : Separated (us ++ [t]) t.post := by
  have hheld := held_snoc us h.supply
  have hself : Held (us ++ [t]) t.act.process = plusPages (Held us t.act.process) ps :=
    (hheld _).trans (if_pos rfl)
  have hother : ∀ j, j ≠ t.act.process → Held (us ++ [t]) j = Held us j :=
    fun j hj => (hheld j).trans (if_neg hj.symm)
  have hsupplied := hk.supplied
  rw [h.supply] at hsupplied
  have hapart : ∀ j f, j ≠ t.act.process → plusPages (Held us t.act.process) ps f → ¬ Held us j f := by
    rintro j f hj (hf | ⟨p, hp, rfl⟩)
    · exact hk.apart _ _ f hj.symm hf
    · exact (hsupplied j).unowned p (List.mem_append_left _ hp)
  refine ⟨fun i => ?_, fun i hdir => ?_, fun i j f hij => ?_⟩
  · by_cases hi : i = t.act.process
    · rw [hi, hself]
      exact (hsupplied _).rest
    · rw [hother i hi]
      exact (hsupplied i).later
  · by_cases hi : i = t.act.process
    · subst hi
      rw [hself]
      exact h.owns hdir
    · rw [hother i hi]
      rw [h.process i hi] at hdir
      exact (h.view_other hk hi hdir).1
  · by_cases hi : i = t.act.process
    · rw [hother j fun hj => hij (hi.trans hj.symm), hi, hself]
      exact hapart j f fun hj => hij (hi.trans hj.symm)
    · rw [hother i hi]
      by_cases hj : j = t.act.process
      · rw [hj, hself]
        exact fun hf hf' => hapart i f hi hf' hf
      · rw [hother j hj]
        exact hk.apart i j f hij

theorem separated_new {k : Kernel} (hnew : ∀ i, (k.process i).pageDir = 0) (hfresh : FreshPages k.supply) :
    Separated [] k := by
  have hnone : ∀ i f, ¬ Held [] i f := by
    rintro i f ⟨p, hp, -⟩
    cases hp
  exact ⟨fun i => ⟨hfresh, hnone i 0, fun p _ => hnone i _⟩, fun i hi => absurd (hnew i) hi,
    fun i _ f _ hf => absurd hf (hnone i f)⟩

/-- **Isolation.** Along every run of calls for any processes, each writes to pages of its own process only. -/
theorem process_isolation (fuel : Nat) (k : Kernel) (hnew : ∀ i, (k.process i).pageDir = 0)
    (hfresh : FreshPages k.supply) (calls : List Call)
    (hcalls : Along (fun k call => (callStep fuel k call).map Prod.fst) (fun k call => call.Allowed k)
    k calls)
    (ts : List Taken) (hts : trace (callStep fuel) k calls = some ts) :
    ∀ us t vs, ts = us ++ t :: vs → Isolated us t := by
  intro us t vs heq
  obtain ⟨hk, hcall, hstep⟩ := trace_history (I := Separated)
    (fun us k call k' r hk hcall hstep => by
      obtain ⟨ps, hps⟩ := callStep_serves hk hcall hstep
      exact Serves.separated (t := ⟨k, call, r, k'⟩) hps hk)
    calls [] k ts (separated_new hnew hfresh) hcalls hts us t vs heq
  obtain ⟨ps, hps⟩ := callStep_serves hk hcall hstep
  have hpost := hps.separated hk
  refine ⟨fun i hdir f hf => ?_, hpost.apart, fun f hf => ?_, fun j hj => ⟨hps.process j hj, fun hdir => ?_⟩⟩
  · have howns := hpost.owns i hdir
    obtain rfl | ⟨e, he, hpres, rfl⟩ := hf
    · exact howns.dir
    · refine (howns.entry e he).resolve_left fun hno => ?_
      rw [hno.2] at hpres
      cases hpres
  · rw [held_snoc us hps.supply, if_pos rfl]
    by_contra hout
    exact hf (hps.phys f hout)
  · exact (hps.view_other hk hj hdir).2

theorem Call.Ready.allowed {k : Kernel} {call : Call} (h : call.Ready k) : call.Allowed k := by
  cases call with
  | createDirectory p => trivial
  | setPageTableEntry p op =>
    obtain ⟨hdir, ⟨hva, hlt, -⟩, -⟩ := h
    refine ⟨hdir, ?_⟩
    rw [pageAlign_eq hva (lt_of_lt_selfMap hlt)]
    exact hlt

def newKernel : Kernel := ⟨fun _ _ => zeroEntry, [4096, 8192, 12288], fun _ => ⟨0, true⟩⟩

theorem createDirectory_ends {k : Kernel} {i : Nat} (fuel : Nat) (hp : k.supply = p :: ps) (h0 : p ≠ 0) :
    ∃ s, pagingCreateDirectory (k.view i) = some (s, SUCCESS) ∧ s.supply = ps ∧ s.pageDir = p ∧
      callStep fuel k (.createDirectory i) = some (k.put i s, SUCCESS) := by
  obtain ⟨s, hcreate, hs⟩ : ∃ s, pagingCreateDirectory (k.view i) = some (s, SUCCESS) ∧
    s.supply = ps ∧ s.pageDir = p := by
    have halloc : physicalPageAlloc (k.view i) = some ({ k.view i with supply := ps }, p) := by
      rw [physicalPageAlloc, show (k.view i).supply = p :: ps from hp]
    rw [pagingCreateDirectory, halloc, Option.map_some]
    dsimp only
    rw [if_neg h0]
    exact ⟨_, rfl, rfl, rfl⟩
  refine ⟨s, hcreate, hs.1, hs.2, ?_⟩
  rw [callStep, if_neg (by rw [hp]; exact List.cons_ne_nil p ps), hcreate]
  rfl

def twoProcesses : List Call :=
  [.createDirectory 1, .createDirectory 0, .setPageTableEntry 0 ⟨0x400000, 0x5000, true⟩]

theorem twoProcesses_run : (∃ ts, trace (callStep setFuel) newKernel twoProcesses = some ts) ∧
    Along (fun k call => (callStep setFuel k call).map Prod.fst) (fun k call =>
      call.Ready k) newKernel twoProcesses := by
  obtain ⟨s1, -, hs1, -, h1⟩ := createDirectory_ends (k := newKernel) (i := 1) setFuel rfl (by decide)
  obtain ⟨s2, hcreate, hs2, hdir, h2⟩ := createDirectory_ends (k := newKernel.put 1 s1) (i :=
    0) setFuel hs1 (by decide)
  have hfresh : FreshPages s1.supply := by
    rw [hs1]
    exact ⟨by decide, by decide⟩
  have hinv := (createDirectory_spec (s := (newKernel.put 1 s1).view 0) hfresh hcreate).1
  have hallowed : Allowed s2 ⟨0x400000, 0x5000, true⟩ :=
    ⟨by decide, by decide, by decide, by decide, by rw [hs2]; decide⟩
  have hready : RegionReady s2 ⟨0x400000, 0x5000, true⟩ := .inr (by decide)
  obtain ⟨s3, hset, -⟩ := set_spec hinv hallowed hready
  have h3 : callStep setFuel ((newKernel.put 1 s1).put 0 s2) (.setPageTableEntry 0 ⟨0x400000, 0x5000, true⟩) =
      some (((newKernel.put 1 s1).put 0 s2).put 0 s3, 0) := by
    rw [callStep, Kernel.view_put_self]
    exact congrArg (Option.map fun s => (((newKernel.put 1 s1).put 0 s2).put 0 s, 0)) hset
  constructor
  · rw [twoProcesses, trace_cons h1, trace_cons h2, trace_cons h3]
    exact ⟨_, rfl⟩
  · have hset : (Call.setPageTableEntry 0 ⟨0x400000, 0x5000, true⟩).Ready
      ((newKernel.put 1 s1).put 0 s2) := by
      rw [Call.Ready, Kernel.view_put_self]
      refine ⟨?_, hallowed, hready⟩
      rw [show (((newKernel.put 1 s1).put 0 s2).process 0).pageDir = s2.pageDir from rfl, hdir]
      decide
    exact .cons trivial (congrArg _ h1) (.cons trivial (congrArg _ h2) (.cons hset (congrArg _ h3) trivial))

theorem process_isolation_two : ∃ ts, trace (callStep setFuel) newKernel twoProcesses = some ts ∧
    ∀ us t vs, ts = us ++ t :: vs → Isolated us t := by
  obtain ⟨⟨ts, hts⟩, hcalls⟩ := twoProcesses_run
  exact ⟨ts, hts, process_isolation setFuel newKernel (fun _ => rfl) ⟨by decide, by decide⟩ twoProcesses
    (hcalls.imp (fun _ _ h => h.allowed) twoProcesses) ts hts⟩

/-! ## What the processes see -/

def Translates (ts : List Taken) (k : Kernel) : Prop :=
  ∀ i, (k.process i).pageDir ≠ 0 → Inv (k.view i) ∧ Refines (k.view i) (mapFor i ts)

theorem mapFor_snoc (i : Nat) (us : List Taken) (t : Taken) :
    mapFor i (us ++ [t]) = callMap i (mapFor i us) t.act := by
  simp [mapFor]

theorem mapFor_other {us : List Taken} {t : Taken} {i : Nat} (h : i ≠ t.act.process) :
    mapFor i (us ++ [t]) = mapFor i us := by
  rw [mapFor_snoc]
  cases hact : t.act with
  | createDirectory p => rw [hact] at h; exact if_neg h.symm
  | setPageTableEntry p op => rw [hact] at h; exact if_neg h.symm

theorem Inv.other (h : Inv s) (hsupply : s.supply = ps ++ s'.supply) (hdir : s'.pageDir = s.pageDir)
    (hpde : ∀ i, pde s' i = pde s i) : Inv s' := by
  have hsub : ∀ p ∈ s'.supply, p ∈ s.supply := fun p hp => by rw [hsupply]; exact List.mem_append_right _ hp
  have hfresh := h.fresh.nodup
  rw [hsupply] at hfresh
  have hd : dir s' = dir s := congrArg pagingMapQuick hdir
  refine ⟨⟨(List.nodup_append.mp hfresh).2.1, fun p hp => h.fresh.page p (hsub p hp)⟩, ?_, ?_, fun p hp => ?_⟩
  · simp only [hpde, hd]
    exact h.entry
  · simp only [hpde]
    exact h.distinct
  · simp only [hpde, hd]
    exact h.unused p (hsub p hp)

theorem Refines.other {M : Nat → Option (Frame × Bool)} (h : Refines s M)
    (hwalk : ∀ v, walk s' v = walk s v) :
    Refines s' M := by
  intro v hv hvp
  rw [hwalk]
  exact h v hv hvp

theorem callStep_translates {us : List Taken} {k : Kernel} {call : Call} (hk : Separated us k)
    (htr : Translates us k) (hcall : call.Ready k) :
    ∃ k' r, callStep setFuel k call = some (k', r) ∧ ((k'.process call.process).pageDir ≠ 0 →
      Inv (k'.view call.process) ∧ Refines (k'.view call.process)
        (callMap call.process (mapFor call.process us) call)) := by
  cases call with
  | createDirectory i =>
    cases hp : k.supply with
    | nil => exact ⟨_, _, by rw [callStep, if_pos hp], fun h => absurd (congrArg Process.pageDir (if_pos rfl)) h⟩
    | cons p ps =>
      have hpage := (hk.supplied i).fresh.page p (by rw [hp]; exact List.mem_cons_self)
      obtain ⟨s, hcreate, -, -, h⟩ := createDirectory_ends (i := i) setFuel hp (by omega)
      refine ⟨_, _, h, fun _ => ?_⟩
      rw [Call.process, Kernel.view_put_self, callMap, if_pos rfl]
      exact createDirectory_spec (hk.supplied i).fresh hcreate
  | setPageTableEntry i op =>
    obtain ⟨hdir, hok⟩ := hcall
    obtain ⟨s, hset, hs⟩ := refines_step (k.view i) (mapFor i us) op (htr i hdir) hok
    refine ⟨k.put i s, 0, congrArg (Option.map fun s => (k.put i s, 0)) hset, fun _ => ?_⟩
    rw [Call.process, Kernel.view_put_self, callMap, if_pos rfl]
    exact hs

theorem translates_step {us : List Taken} {k : Kernel} {call : Call} (hk : Separated us k ∧ Translates us k)
    (hcall : call.Ready k) : ∃ k' r, callStep setFuel k call = some (k', r) ∧
      Separated (us ++ [⟨k, call, r, k'⟩]) k' ∧ Translates (us ++ [⟨k, call, r, k'⟩]) k' := by
  obtain ⟨k', r, hstep, hown⟩ := callStep_translates hk.1 hk.2 hcall
  obtain ⟨ps, hps⟩ := callStep_serves hk.1 hcall.allowed hstep
  refine ⟨k', r, hstep, hps.separated (t := ⟨k, call, r, k'⟩) hk.1, fun i hdir => ?_⟩
  by_cases hi : i = call.process
  · subst hi
    rw [mapFor_snoc]
    exact hown hdir
  · rw [mapFor_other hi]
    rw [hps.process i hi] at hdir
    have hpageDir := congrArg Process.pageDir (hps.process i hi)
    have hpde : ∀ e, pde (k'.view i) e = pde (k.view i) e :=
      (hk.1.owns i hdir).pde_congr hpageDir fun f hf => hps.others hk.1 hi hf
    have hsupply : (k.view i).supply = ps ++ (k'.view i).supply := hps.supply
    obtain ⟨hinv, hrefines⟩ := hk.2 i hdir
    exact ⟨hinv.other hsupply hpageDir hpde, hrefines.other (hps.view_other hk.1 hi hdir).2⟩

/-- **Translation for several processes.** In any interleaving of calls that are ready, each process is translated by
its own. -/
theorem processes_translate (k : Kernel) (hnew : ∀ i, (k.process i).pageDir = 0)
    (hfresh : FreshPages k.supply) (calls : List Call)
    (hcalls : Along (fun k call => (callStep setFuel k call).map Prod.fst) (fun k call =>
    call.Ready k) k calls) :
    ∃ ts, trace (callStep setFuel) k calls = some ts ∧ ∀ us t vs, ts = us ++ t :: vs →
      ∀ i, (t.post.process i).pageDir ≠ 0 → Refines (t.post.view i) (mapFor i (us ++ [t])) := by
  have hstart : Separated [] k ∧ Translates [] k :=
    ⟨separated_new hnew hfresh, fun i hi => absurd (hnew i) hi⟩
  obtain ⟨ts, hts⟩ := trace_ends (I := fun us k => Separated us k ∧ Translates us k)
    (fun _ _ _ hk hcall => translates_step hk hcall) calls [] k hstart hcalls
  refine ⟨ts, hts, fun us t vs heq i hdir => ?_⟩
  obtain ⟨hk, hcall, hstep⟩ := trace_history (I := fun us k => Separated us k ∧ Translates us k)
    (fun us k call k' r hk hcall hstep => by
      obtain ⟨k1, r1, h1, hnext⟩ := translates_step hk hcall
      obtain ⟨rfl, rfl⟩ := Prod.mk.inj (Option.some.inj (h1.symm.trans hstep))
      exact hnext)
    calls [] k ts hstart hcalls hts us t vs heq
  obtain ⟨k1, r1, h1, -, hnext⟩ := translates_step hk hcall
  obtain ⟨rfl, rfl⟩ := Prod.mk.inj (Option.some.inj (h1.symm.trans hstep))
  exact (hnext i hdir).2

theorem processes_translate_two : ∃ ts, trace (callStep setFuel) newKernel twoProcesses = some ts ∧
    ∀ us t vs, ts = us ++ t :: vs → ∀ i, (t.post.process i).pageDir ≠ 0 →
      Refines (t.post.view i) (mapFor i (us ++ [t])) :=
  processes_translate newKernel (fun _ => rfl) ⟨by decide, by decide⟩ twoProcesses twoProcesses_run.2

end SystemProjects.Paging
