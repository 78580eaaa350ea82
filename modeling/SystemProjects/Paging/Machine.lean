import SystemProjects.Paging.Allocator

/-!
# The memory of the kernel

The processes take the pages for their tables from the allocator that everybody else takes pages from. Others also
free theirs, and write to them what they like.
-/

open SystemProjects.Run SystemProjects.Threads SystemProjects.Physical

namespace SystemProjects.Paging

/-! ## The machine -/

inductive Owner where
  | process (i : Nat)
  | other (j : Nat)
deriving DecidableEq

structure Machine where
  phys : Frame → Nat → PageEntry
  allocator : Physical.State
  histories : Histories PageCall Nat Owner
  process : Nat → Process

def setHistory (H : Histories PageCall Nat Owner) (o : Owner) (h : PageHistory) :
    Histories PageCall Nat Owner :=
  fun o' => if o' = o then h else H o'

def Machine.client (m : Machine) (o : Owner) : Client := ⟨m.allocator, m.histories o⟩

def Machine.load (m : Machine) (i : Nat) : Linked :=
  ⟨m.phys, m.client (.process i), (m.process i).pageDir, (m.process i).privilege⟩

def Machine.store (m : Machine) (i : Nat) (l : Linked) : Machine where
  phys := l.phys
  allocator := l.client.allocator
  histories := setHistory m.histories (.process i) l.client.history
  process j := if j = i then ⟨l.pageDir, l.privilege⟩ else m.process j

def Machine.view (m : Machine) (i : Nat) : State := (m.load i).seen []

inductive Act where
  | call (call : Call)
  | pageAlloc (j : Nat)
  | pageFree (j a : Nat)
  | write (j p : Nat) (e : Nat → PageEntry)

def Act.owner : Act → Owner
  | .call c => .process c.process
  | .pageAlloc j => .other j
  | .pageFree j _ => .other j
  | .write j _ _ => .other j

def machineStep (fuel : Nat) (m : Machine) : Act → Option (Machine × Int)
  | .call (.createDirectory i) => (Linked.pagingCreateDirectory (m.load i)).map fun (l, r) => (m.store i l, r)
  | .call (.setPageTableEntry i op) =>
    (Linked.pagingSetPageTableEntry fuel (m.load i) op.va op.pa op.present).map fun l => (m.store i l, 0)
  | .pageAlloc j => (m.client (.other j)).physicalPageAlloc.map fun (c, p) =>
    ({ m with allocator := c.allocator, histories := setHistory m.histories (.other j) c.history }, p)
  | .pageFree j a => (physicalPageFree m.allocator a).map fun s =>
    ({ m with allocator := s, histories := extend m.histories (.other j) (.pageFree a, 0) }, 0)
  | .write _ p e => some ({ m with phys := fun f => if f = pagingMapQuick p then e else m.phys f }, 0)

/-! ## What is claimed -/

/-- A table entry is set below the self map, and what others free or write to is theirs. -/
def Act.Allowed (m : Machine) : Act → Prop
  | .call (.createDirectory _) => True
  | .call (.setPageTableEntry i op) => (m.process i).pageDir ≠ 0 ∧ pageAlign op.va < selfMap
  | .pageAlloc _ => True
  | .pageFree j a => GoodPageCall m.histories (.other j) (.pageFree a)
  | .write j p _ => p ∈ held (m.histories (.other j))

def Has (h : PageHistory) (f : Frame) : Prop := ∃ p ∈ held h, f = pagingMapQuick p

structure Guarded (s0 : Physical.State) (t : Transition Machine Act Int) : Prop where
  whole : ∀ p, InMemory s0 p → (Free s0 p ↔ Free t.post.allocator p ∨ ∃ o, p ∈ held (t.post.histories o))
  pages : ∀ o, ∀ p ∈ held (t.post.histories o), InMemory s0 p ∧ Physical.Taken t.post.allocator p
  apart : ∀ o o' f, o ≠ o' → Has (t.post.histories o) f → ¬ Has (t.post.histories o') f
  tables : ∀ i, (t.post.process i).pageDir ≠ 0 → ∀ f, IsFrame (t.post.view i) f →
    Has (t.post.histories (.process i)) f
  writes : ∀ f, t.post.phys f ≠ t.pre.phys f → Has (t.post.histories t.act.owner) f
  others : ∀ i, t.act.owner ≠ .process i → t.post.process i = t.pre.process i ∧
    ((t.pre.process i).pageDir ≠ 0 → ∀ v, walk (t.post.view i) v = walk (t.pre.view i) v)

/-- `physical_init` is done, and no process has a directory yet. -/
def Machine.start (phys : Frame → Nat → PageEntry) (s0 : Physical.State) (privilege : Nat → Bool) : Machine :=
  ⟨phys, s0, fun _ => [], fun i => ⟨0, privilege i⟩⟩

/-! ## What the pages of an owner are -/

variable {s0 : Physical.State} {m m' : Machine} {c c' : Client} {l l' : Linked} {s s' : State}
    {H : Histories PageCall Nat Owner}
  {o : Owner} {h : PageHistory} {p : Nat} {ps : List Nat} {f : Frame}

theorem setHistory_self (H : Histories PageCall Nat Owner) (o : Owner) (h : PageHistory) :
    setHistory H o h o = h := if_pos rfl

theorem setHistory_same (H : Histories PageCall Nat Owner) (o : Owner) : setHistory H o (H o) = H := by
  funext o'
  rw [setHistory]
  split
  case isTrue heq => rw [heq]
  case isFalse => rfl

theorem extend_setHistory (H : Histories PageCall Nat Owner) (o : Owner) (h : PageHistory)
    (e : PageCall × Nat) :
    extend (setHistory H o h) o e = setHistory H o (h ++ [e]) := by
  funext o'
  unfold extend setHistory
  split
  · rfl
  · rfl

theorem heldApart_alloc (h : HeldApart s0 c.allocator (setHistory H o c.history))
    (halloc : c.physicalPageAlloc = some (c', p)) : HeldApart s0 c'.allocator (setHistory H o c'.history) ∧
      held c'.history = if p = 0 then held c.history else p :: held c.history := by
  have hhigh : ∀ a, PageCall.pageAllocHigh ≠ .pageFree a := nofun
  have hlow : ∀ a, PageCall.pageAllocLow ≠ .pageFree a := nofun
  obtain ⟨s1, p1, h1, ha1⟩ := pageAllocHigh_spec h.inv
  have hnext := h.alloc (t := o) hhigh ha1
  rw [extend_setHistory] at hnext
  rw [Client.physicalPageAlloc, h1, Option.bind_some] at halloc
  dsimp only at halloc
  split at halloc
  case isTrue h0 =>
    subst h0
    obtain ⟨s2, p2, h2, ha2⟩ := pageAllocLow_spec hnext.inv
    have hlast := hnext.alloc (t := o) hlow ha2
    rw [extend_setHistory] at hlast
    rw [h2] at halloc
    obtain ⟨rfl, rfl⟩ := Prod.mk.inj (Option.some.inj halloc)
    refine ⟨hlast, ?_⟩
    rw [held_alloc _ hlow, held_alloc _ hhigh, if_pos rfl]
  case isFalse h0 =>
    obtain ⟨rfl, rfl⟩ := Prod.mk.inj (Option.some.inj halloc)
    refine ⟨hnext, ?_⟩
    rw [held_alloc _ hhigh, if_neg h0]

theorem heldApart_gives (hgives : Gives c ps c') (h : HeldApart s0 c.allocator (setHistory H o c.history)) :
    HeldApart s0 c'.allocator (setHistory H o c'.history) ∧
      held c'.history = ps.reverse ++ held c.history := by
  induction hgives with
  | nil c => exact ⟨h, rfl⟩
  | cons alloc page rest ih =>
    obtain ⟨hnext, hheld⟩ := heldApart_alloc h alloc
    obtain ⟨hlast, hall⟩ := ih hnext
    refine ⟨hlast, ?_⟩
    rw [hall, hheld, if_neg page, List.reverse_cons, List.append_assoc]
    rfl

theorem page_of_held {a : Physical.State} (h : HeldApart s0 a H) (hp : p ∈ held (H o)) :
    p % pageSize = 0 ∧ 0 < p ∧ p < 2 ^ 32 := by
  obtain ⟨haligned, hlow, hhigh⟩ := h.memory o p hp
  have hlt := h.inv.lt
  rw [h.bounds.2] at hlt
  refine ⟨haligned, ?_, hhigh.trans hlt⟩
  exact Nat.lt_of_lt_of_le (by decide) hlow

theorem has_apart {a : Physical.State} (h : HeldApart s0 a H) {o' : Owner} (ho : o ≠ o') (hf : Has (H o) f) :
    ¬ Has (H o') f := by
  obtain ⟨p, hp, rfl⟩ := hf
  rintro ⟨q, hq, heq⟩
  have hpq := mapQuick_inj (page_of_held h hp) (page_of_held h hq) heq
  exact h.apart o o' ho p hp q hq (congrArg pageOf hpq)

theorem has_zero {a : Physical.State} (h : HeldApart s0 a H) : ¬ Has (H o) 0 := by
  rintro ⟨p, hp, h0⟩
  exact mapQuick_ne_zero (page_of_held h hp) h0.symm

theorem nodup_of_pages {ps : List Nat} (h : ps.Pairwise fun p q => pageOf p ≠ pageOf q) : ps.Nodup :=
  h.imp fun hne heq => hne (congrArg pageOf heq)

theorem supplied_of_drains (h : HeldApart s0 c.allocator (setHistory H o c.history)) (hd : Drains c ps) :
    Supplied (Has c.history) ps := by
  obtain ⟨c', hgives, -⟩ := hd
  obtain ⟨hend, hheld⟩ := heldApart_gives hgives h
  have hzero := has_zero (o := o) h
  have honce := hend.once o
  have hpage : ∀ p ∈ held c'.history, p % pageSize = 0 ∧ 0 < p ∧ p < 2 ^ 32 := by
    intro p hp
    apply page_of_held (o := o) hend
    rwa [setHistory_self]
  rw [setHistory_self] at hzero honce
  rw [hheld] at honce hpage
  obtain ⟨hnew, -, hapart⟩ := List.pairwise_append.mp honce
  refine ⟨⟨List.nodup_reverse.mp (nodup_of_pages hnew), fun p hp => ?_⟩, hzero, ?_⟩
  · exact hpage p (List.mem_append_left _ (List.mem_reverse.mpr hp))
  · rintro p hp ⟨q, hq, heq⟩
    have hp := List.mem_reverse.mpr hp
    have hpq := mapQuick_inj (hpage p (List.mem_append_left _ hp)) (hpage q (List.mem_append_right _ hq)) heq
    exact hapart p hp q hq (congrArg pageOf hpq)

theorem has_gives (h : HeldApart s0 c.allocator (setHistory H o c.history)) (hgives : Gives c ps c') :
    Has c'.history = plusPages (Has c.history) ps := by
  funext f
  rw [Has, (heldApart_gives hgives h).2]
  simp only [plusPages, Has, List.mem_append, List.mem_reverse, or_and_right, exists_or]
  exact propext or_comm

/-! ## One action -/

structure Sound (s0 : Physical.State) (m : Machine) : Prop where
  heldApart : HeldApart s0 m.allocator m.histories
  owns : ∀ i, (m.process i).pageDir ≠ 0 → Owns (Has (m.histories (.process i))) (m.view i)

/-- What an action of one owner does to the others. -/
structure Moves (s0 : Physical.State) (m m' : Machine) (o : Owner) : Prop where
  heldApart : HeldApart s0 m'.allocator m'.histories
  histories : ∀ o', o' ≠ o → m'.histories o' = m.histories o'
  process : ∀ i, o ≠ .process i → m'.process i = m.process i
  phys : ∀ f, ¬ Has (m'.histories o) f → m'.phys f = m.phys f
  owns : ∀ i, o = .process i → (m'.process i).pageDir ≠ 0 → Owns (Has (m'.histories o)) (m'.view i)

theorem Owns.seen {O : Frame → Prop} (h : Owns O (l.seen ps)) (hqs : Supplied O qs) : Owns O (l.seen qs) :=
  ⟨hqs, h.dir, h.entry, h.table⟩

theorem Moves.walk_other (h : Moves s0 m m' o) (hm : Sound s0 m) {i : Nat} (hi : o ≠ .process i)
    (hdir : (m.process i).pageDir ≠ 0) : Owns (Has (m.histories (.process i))) (m'.view i) ∧
      ∀ v, walk (m'.view i) v = walk (m.view i) v := by
  apply (hm.owns i hdir).congr
  · exact (hm.owns i hdir).supplied
  · exact congrArg Process.pageDir (h.process i hi)
  · intro f hf
    apply h.phys
    apply has_apart h.heldApart hi.symm
    rwa [h.histories _ hi.symm]

theorem Moves.sound (h : Moves s0 m m' o) (hm : Sound s0 m) : Sound s0 m' := by
  refine ⟨h.heldApart, fun i hdir => ?_⟩
  by_cases hi : o = .process i
  · rw [← hi]
    exact h.owns i hi hdir
  · rw [h.process i hi] at hdir
    rw [h.histories _ (Ne.symm hi)]
    exact (h.walk_other hm hi hdir).1

theorem store_view (m : Machine) (i : Nat) (l : Linked) : (m.store i l).view i = l.seen [] := by
  simp [Machine.view, Machine.load, Machine.store, Linked.seen]

theorem store_moves {i : Nat} (hheld : HeldApart s0 l.client.allocator
    (setHistory m.histories (.process i) l.client.history))
    (hphys : ∀ f, ¬ Has l.client.history f → l.phys f = m.phys f)
    (howns : l.pageDir ≠ 0 → Owns (Has l.client.history) (l.seen [])) :
    Moves s0 m (m.store i l) (.process i) := by
  have hself : (m.store i l).histories (.process i) = l.client.history := setHistory_self _ _ _
  refine ⟨hheld, fun o' ho' => if_neg ho', fun j hj => if_neg ?_, ?_, ?_⟩
  · rintro rfl
    exact hj rfl
  · rw [hself]
    exact hphys
  · rintro j hj hdir
    cases hj
    rw [hself, store_view]
    apply howns
    simpa [Machine.store] using hdir

theorem client_heldApart (hm : Sound s0 m) (o : Owner) :
    HeldApart s0 (m.client o).allocator (setHistory m.histories o (m.client o).history) := by
  rw [show (m.client o).history = m.histories o from rfl, setHistory_same]
  exact hm.heldApart

theorem follows_moves {i : Nat} {all qs : List Nat} (hm : Sound s0 m)
    (hfollows : Follows (m.client (.process i)) all l s)
    (hsupply : all = qs ++ s.supply) (hphys : ∀ f, ¬ plusPages (Has (m.histories (.process i))) qs f →
    s.phys f = m.phys f)
    (howns : Owns (plusPages (Has (m.histories (.process i))) qs) s) :
    Moves s0 m (m.store i l) (.process i) := by
  obtain ⟨hseen, -, qs', hall, hgives⟩ := hfollows
  obtain rfl := List.append_cancel_right (hall.symm.trans hsupply)
  have hload := client_heldApart hm (.process i)
  have hhas : Has l.client.history = plusPages (Has (m.histories (.process i))) qs' := has_gives hload hgives
  have hheld := (heldApart_gives hgives hload).1
  rw [← hhas] at hphys howns
  rw [hseen] at hphys howns
  refine store_moves hheld hphys fun _ => howns.seen ⟨⟨.nil, nofun⟩, howns.supplied.zero, nofun⟩

theorem set_moves {fuel i va pa : Nat} {b : Bool} (hm : Sound s0 m) (hdir : (m.process i).pageDir ≠ 0)
    (hlt : pageAlign va < selfMap) (h : Linked.pagingSetPageTableEntry fuel (m.load i) va pa b = some l) :
    Moves s0 m (m.store i l) (.process i) := by
  obtain ⟨all, hstart⟩ := follows_start (l := m.load i) hm.heldApart.inv
  have hrel := set_follows fuel _ _ va pa b hstart
  rw [h] at hrel
  obtain ⟨s, hs, hfollows⟩ := rel_some_left hrel
  have howns : Owns (Has (m.histories (.process i))) ((m.load i).seen all) :=
    (hm.owns i hdir).seen (supplied_of_drains (client_heldApart hm (.process i)) hstart.left)
  obtain ⟨qs, hwithin⟩ := set_within _ _ _ _ _ _ _ howns (.inl (getDirectoryIndex_lt hlt)) hs
  exact follows_moves hm hfollows hwithin.supply hwithin.others hwithin.owns

theorem createDirectory_moves {i : Nat} {r : Int} (hm : Sound s0 m)
    (h : Linked.pagingCreateDirectory (m.load i) = some (l, r)) :
    Moves s0 m (m.store i l) (.process i) := by
  obtain ⟨all, hstart⟩ := follows_start (l := m.load i) hm.heldApart.inv
  have hload := client_heldApart hm (.process i)
  obtain ⟨-, c, hnull, hl⟩ | ⟨l', s', hl, hs, hfollows⟩ := createDirectory_follows hstart
  · obtain ⟨rfl, -⟩ := Prod.mk.inj (Option.some.inj (hl.symm.trans h))
    exact store_moves (heldApart_alloc hload hnull).1 (fun _ _ => rfl) fun h0 => absurd rfl h0
  · obtain ⟨rfl, -⟩ := Prod.mk.inj (Option.some.inj (hl.symm.trans h))
    obtain ⟨p, hsupply, -, -, hphys, howns⟩ :=
      createDirectory_within (supplied_of_drains hload hstart.left) hs
    have hsupply : all = [p] ++ s'.supply := hsupply
    refine follows_moves hm hfollows hsupply (fun f hf => hphys f fun hfp => ?_) howns
    exact hf (.inr ⟨p, List.mem_singleton_self p, hfp⟩)

theorem step_moves {fuel : Nat} {a : Act} {r : Int} (hm : Sound s0 m) (ha : a.Allowed m)
    (h : machineStep fuel m a = some (m', r)) : Moves s0 m m' a.owner := by
  cases a with
  | call call =>
    cases call with
    | createDirectory i =>
      obtain ⟨⟨l, r'⟩, hl, heq⟩ := Option.map_eq_some_iff.mp h
      obtain ⟨rfl, -⟩ := Prod.mk.inj heq
      exact createDirectory_moves hm hl
    | setPageTableEntry i op =>
      obtain ⟨l, hl, heq⟩ := Option.map_eq_some_iff.mp h
      obtain ⟨rfl, -⟩ := Prod.mk.inj heq
      exact set_moves hm ha.1 ha.2 hl
  | pageAlloc j =>
    obtain ⟨⟨c, p⟩, hc, heq⟩ := Option.map_eq_some_iff.mp h
    obtain ⟨rfl, -⟩ := Prod.mk.inj heq
    refine ⟨(heldApart_alloc (client_heldApart hm _) hc).1, fun o' ho' => if_neg ho', fun _ _ => rfl,
      fun _ _ => rfl, nofun⟩
  | pageFree j a =>
    obtain ⟨s, hs, heq⟩ := Option.map_eq_some_iff.mp h
    obtain ⟨rfl, -⟩ := Prod.mk.inj heq
    exact ⟨hm.heldApart.free ha hs, fun o' ho' => extend_other _ ho' _, fun _ _ => rfl, fun _ _ => rfl, nofun⟩
  | write j p e =>
    obtain ⟨rfl, -⟩ := Prod.mk.inj (Option.some.inj h)
    refine ⟨hm.heldApart, fun _ _ => rfl, fun _ _ => rfl, fun f hf => if_neg ?_, nofun⟩
    rintro rfl
    exact hf ⟨p, ha, rfl⟩

theorem Moves.guarded {t : Transition Machine Act Int} (h : Moves s0 t.pre t.post t.act.owner)
    (hm : Sound s0 t.pre) :
    Guarded s0 t := by
  have hpost := h.sound hm
  refine ⟨hpost.heldApart.whole, fun o p hp => ⟨hpost.heldApart.memory o p hp, hpost.heldApart.taken o p hp⟩,
    fun o o' f ho hf => has_apart hpost.heldApart ho hf, fun i hdir f hf => ?_, fun f hf => ?_,
    fun i hi => ⟨h.process i hi, fun hdir => (h.walk_other hm hi hdir).2⟩⟩
  · have howns := hpost.owns i hdir
    obtain rfl | ⟨e, he, hpres, rfl⟩ := hf
    · exact howns.dir
    · refine (howns.entry e he).resolve_left fun hno => ?_
      rw [hno.2] at hpres
      cases hpres
  · by_contra hout
    exact hf (h.phys f hout)

theorem sound_start {image : Image} {info : MultibootInfo} {s00 : Physical.State}
    (hinit : physicalInit image info s00 = some (s0, SUCCESS)) (phys : Frame → Nat → PageEntry)
    (privilege : Nat → Bool) :
    Sound s0 (.start phys s0 privilege) :=
  ⟨heldApart_start hinit, fun _ hdir => absurd rfl hdir⟩

/-! ## What the processes see -/

structure Op.Valid (op : Op) : Prop where
  va : op.va % pageSize = 0
  below : op.va < selfMap
  pa : op.pa % pageSize = 0
  fits : op.pa < 2 ^ 32

/-- The region of the page has a table, or the page is the first of it. -/
def Act.Ready (m : Machine) : Act → Prop
  | .call (.setPageTableEntry i op) => (m.process i).pageDir ≠ 0 ∧ op.Valid ∧ RegionReady (m.view i) op
  | a => a.Allowed m

/-- The region of the page has a table, or there is a page for one. -/
def Act.HasRoom (m : Machine) : Act → Prop
  | .call (.setPageTableEntry i op) => (pde (m.view i) (getDirectoryIndex op.va)).address ≠ 0 ∨
    ∃ p, InMemory m.allocator p ∧ Free m.allocator p
  | _ => True

/-- What the calls for process `i` say since its directory was made. -/
def actMap (i : Nat) (M : Nat → Option (Frame × Bool)) : Act → Nat → Option (Frame × Bool)
  | .call call => callMap i M call
  | _ => M

def mapOf (i : Nat) (ts : List (Transition Machine Act Int)) : Nat → Option (Frame × Bool) :=
  ts.foldl (fun M t => actMap i M t.act) fun _ => none

def Sees (us : List (Transition Machine Act Int)) (m : Machine) : Prop :=
  ∀ i, (m.process i).pageDir ≠ 0 → Inv (m.view i) ∧ Refines (m.view i) (mapOf i us)

theorem Act.Ready.allowed {a : Act} (h : a.Ready m) : a.Allowed m := by
  cases a with
  | call call =>
    cases call with
    | createDirectory i => trivial
    | setPageTableEntry i op =>
      obtain ⟨hdir, hvalid, -⟩ := h
      refine ⟨hdir, ?_⟩
      rw [pageAlign_eq hvalid.va (lt_of_lt_selfMap hvalid.below)]
      exact hvalid.below
  | pageAlloc j => trivial
  | pageFree j a => exact h
  | write j p e => exact h

theorem exhausted_iff (hc : Physical.Inv c.allocator) : Exhausted c ↔ ¬ ∃ p, InMemory c.allocator p ∧
    Free c.allocator p := by
  have hnone : HeldApart c.allocator c.allocator fun _ : Owner => [] :=
    ⟨hc, ⟨rfl, rfl⟩, nofun, nofun, fun _ => .nil, nofun, fun _ _ => by simp [held]⟩
  obtain ⟨c', p, halloc, -⟩ := pageAlloc_spec hc
  have hnull := hnone.null_iff (pageAlloc_same halloc)
  have hp : Exhausted c ↔ p = 0 := by
    constructor
    · rintro ⟨-, c2, h2⟩
      exact (Prod.mk.inj (Option.some.inj (halloc.symm.trans h2))).2
    · rintro rfl
      exact ⟨hc, c', halloc⟩
  rw [hp, hnull]
  simp [held]

theorem Inv.seen (h : Inv (l.seen ps)) {qs : List Nat} {O : Frame → Prop} (ho : Owns O (l.seen qs)) :
    Inv (l.seen qs) := by
  refine ⟨ho.supplied.fresh, h.entry, h.distinct, fun p hp => ⟨fun hdir => ?_, fun i hi heq => ?_⟩⟩
  · exact ho.supplied.unowned p hp (hdir ▸ ho.dir)
  · rcases ho.entry i (by omega) with ⟨h0, -⟩ | howned
    · exact mapQuick_ne_zero (ho.supplied.fresh.page p hp) (heq.symm.trans h0)
    · exact ho.supplied.unowned p hp (heq ▸ howned)

theorem Inv.unsupplied (h : Inv (l.seen ps)) : Inv (l.seen []) :=
  ⟨⟨.nil, nofun⟩, h.entry, h.distinct, nofun⟩

theorem supplied_top (hm : Sound s0 m) {i : Nat} (hdir : (m.process i).pageDir ≠ 0) :
    Supplied (Has (m.histories (.process i))) [s0.physicalMaxAddress] := by
  have hinv := hm.heldApart.inv
  obtain ⟨q, hq, -⟩ := (hm.owns i hdir).dir
  have hmax := (hm.heldApart.memory _ q hq).high
  have htop : s0.physicalMaxAddress % pageSize = 0 ∧ 0 < s0.physicalMaxAddress ∧
    s0.physicalMaxAddress < 2 ^ 32 :=
    ⟨hm.heldApart.bounds.2 ▸ hinv.aligned, by omega, hm.heldApart.bounds.2 ▸ hinv.lt⟩
  refine ⟨⟨List.nodup_singleton _, ?_⟩, has_zero hm.heldApart, ?_⟩
  · simpa using htop
  · rintro p hp ⟨q, hq, heq⟩
    obtain rfl := List.mem_singleton.mp hp
    have hpq := mapQuick_inj htop (page_of_held hm.heldApart hq) heq
    have := (hm.heldApart.memory _ q hq).high
    omega

theorem set_sees_table {i : Nat} {op : Op} {M : Nat → Option (Frame × Bool)} (hm : Sound s0 m)
    (hready : (Act.call (.setPageTableEntry i op)).Ready m) (hs : Inv (m.view i) ∧ Refines (m.view i) M)
    (h0 : (pde (m.view i) (getDirectoryIndex op.va)).address ≠ 0) :
    ∃ l, Linked.pagingSetPageTableEntry setFuel (m.load i) op.va op.pa op.present = some l ∧
      Inv (l.seen []) ∧ Refines (l.seen []) (setMap M op) := by
  obtain ⟨hdir, ⟨hva, hlt, hpa, hpalt⟩, hregion⟩ := hready
  have howns := (hm.owns i hdir).seen (supplied_top hm hdir)
  obtain ⟨s, hstep, hinv, hrefines⟩ := refines_step ((m.load i).seen [s0.physicalMaxAddress]) M op
    ⟨hs.1.seen howns, hs.2⟩
    ⟨⟨hva, hlt, hpa, hpalt, List.cons_ne_nil _ _⟩, hregion⟩
  have hlinked : Linked.pagingSetPageTableEntry setFuel (m.load i) op.va op.pa op.present =
      some ((m.load i).writeEntry (pde (m.view i) (getDirectoryIndex op.va)).address (getTableIndex op.va)
        (tableEntry (m.view i) op.pa op.present)) := by
    rw [setFuel, Linked.pagingSetPageTableEntry, pageAlign_eq hva (lt_of_lt_selfMap hlt),
      getEntry_table rfl h0]
    rfl
  have hsupply := setEntry_of_table (s := (m.load i).seen [s0.physicalMaxAddress]) 1025 op.pa op.present hva
    (lt_of_lt_selfMap hlt) rfl h0
  obtain rfl := Option.some.inj (hstep.symm.trans hsupply)
  exact ⟨_, hlinked, hinv.unsupplied (l := (m.load i).writeEntry _ _ _), hrefines⟩

theorem set_sees_missing {i : Nat} {op : Op} {M : Nat → Option (Frame × Bool)} (hm : Sound s0 m)
    (hready : (Act.call (.setPageTableEntry i op)).Ready m) (hs : Inv (m.view i) ∧ Refines (m.view i) M)
    (hleft : ¬ Exhausted (m.client (.process i))) :
    ∃ l, Linked.pagingSetPageTableEntry setFuel (m.load i) op.va op.pa op.present = some l ∧
      Inv (l.seen []) ∧ Refines (l.seen []) (setMap M op) := by
  obtain ⟨hdir, ⟨hva, hlt, hpa, hpalt⟩, hregion⟩ := hready
  obtain ⟨all, hstart⟩ := follows_start (l := m.load i) hm.heldApart.inv
  have howns := (hm.owns i hdir).seen (supplied_of_drains (client_heldApart hm (.process i)) hstart.left)
  have hne : all ≠ [] := by
    rintro rfl
    obtain ⟨c', hgives, hend⟩ := hstart.left
    cases hgives
    exact hleft hend
  obtain ⟨s, hstep, hinv, hrefines⟩ := refines_step ((m.load i).seen all) M op ⟨hs.1.seen howns, hs.2⟩
    ⟨⟨hva, hlt, hpa, hpalt, hne⟩, hregion⟩
  have hrel := set_follows setFuel _ _ op.va op.pa op.present hstart
  rw [show pagingSetPageTableEntry setFuel ((m.load i).seen all) op.va op.pa op.present =
    some s from hstep] at hrel
  obtain ⟨l, hl, hfollows⟩ := rel_some_right hrel
  rw [hfollows.seen] at hinv hrefines
  exact ⟨l, hl, hinv.unsupplied, hrefines⟩

theorem set_sees {i : Nat} {op : Op} {M : Nat → Option (Frame × Bool)} (hm : Sound s0 m)
    (hready : (Act.call (.setPageTableEntry i op)).Ready m) (hs : Inv (m.view i) ∧ Refines (m.view i) M)
    (hroom : Act.HasRoom m (.call (.setPageTableEntry i op))) :
    ∃ l, Linked.pagingSetPageTableEntry setFuel (m.load i) op.va op.pa op.present = some l ∧
      Inv (l.seen []) ∧ Refines (l.seen []) (setMap M op) := by
  rcases hroom with h0 | hpage
  · exact set_sees_table hm hready hs h0
  · apply set_sees_missing hm hready hs
    intro hend
    exact (exhausted_iff (c := m.client (.process i)) hm.heldApart.inv).mp hend hpage

theorem set_none {i : Nat} {op : Op} (hva : op.va % pageSize = 0) (hlt : op.va < selfMap)
    (h0 : (pde (m.view i) (getDirectoryIndex op.va)).address = 0) (hend : Exhausted (m.client (.process i))) :
    Linked.pagingSetPageTableEntry setFuel (m.load i) op.va op.pa op.present = none := by
  rw [setFuel, Linked.pagingSetPageTableEntry, getEntry_exhausted]
  · rfl
  · exact hend
  · rw [Missing, pageAlign_eq hva (lt_of_lt_selfMap hlt)]
    exact h0

theorem step_ends {us : List (Transition Machine Act Int)} {a : Act} (hm : Sound s0 m ∧ Sees us m)
    (ha : a.Ready m) :
    (∃ m' r, machineStep setFuel m a = some (m', r)) ↔ a.HasRoom m := by
  cases a with
  | call call =>
    cases call with
    | createDirectory i =>
      refine iff_of_true ?_ trivial
      obtain ⟨c, p, hc, -⟩ := pageAlloc_spec (c := m.client (.process i)) hm.1.heldApart.inv
      rw [machineStep, Linked.pagingCreateDirectory, linked_alloc (l := m.load i) hc]
      exact ⟨_, _, rfl⟩
    | setPageTableEntry i op =>
      constructor
      · rintro ⟨m', r, hstep⟩
        by_contra hroom
        obtain ⟨h0, hnone⟩ := not_or.mp hroom
        have hend := (exhausted_iff (c := m.client (.process i)) hm.1.heldApart.inv).mpr hnone
        have hset := set_none ha.2.1.va ha.2.1.below (not_not.mp h0) hend
        rw [machineStep, hset] at hstep
        cases hstep
      · intro hroom
        obtain ⟨l, hl, -⟩ := set_sees hm.1 ha (hm.2 i ha.1) hroom
        rw [machineStep, hl]
        exact ⟨_, _, rfl⟩
  | pageAlloc j =>
    refine iff_of_true ?_ trivial
    obtain ⟨c, p, hc, -⟩ := pageAlloc_spec (c := m.client (.other j)) hm.1.heldApart.inv
    rw [machineStep, hc]
    exact ⟨_, _, rfl⟩
  | pageFree j a =>
    refine iff_of_true ?_ trivial
    obtain ⟨s, hs, -⟩ := pageFree_spec (a := a) hm.1.heldApart.inv.inBitmap
    rw [machineStep, hs]
    exact ⟨_, _, rfl⟩
  | write j p e => exact iff_of_true ⟨_, _, rfl⟩ trivial

theorem mapOf_snoc (i : Nat) (us : List (Transition Machine Act Int)) (t : Transition Machine Act Int) :
    mapOf i (us ++ [t]) = actMap i (mapOf i us) t.act := by
  simp [mapOf]

theorem actMap_other {i : Nat} {a : Act} (h : a.owner ≠ .process i)
    (M : Nat → Option (Frame × Bool)) : actMap i M a = M := by
  cases a with
  | call call =>
    have hi : call.process ≠ i := fun heq => h (congrArg Owner.process heq)
    cases call with
    | createDirectory j => exact if_neg hi
    | setPageTableEntry j op => exact if_neg hi
  | pageAlloc j => rfl
  | pageFree j a => rfl
  | write j p e => rfl

theorem call_sees {us : List (Transition Machine Act Int)} {call : Call} {r : Int}
    (hm : Sound s0 m ∧ Sees us m)
    (ha : (Act.call call).Ready m) (h : machineStep setFuel m (.call call) = some (m', r))
    (hdir : (m'.process call.process).pageDir ≠ 0) : Inv (m'.view call.process) ∧
      Refines (m'.view call.process) (callMap call.process (mapOf call.process us) call) := by
  cases call with
  | createDirectory i =>
    obtain ⟨⟨l, r'⟩, hl, heq⟩ := Option.map_eq_some_iff.mp h
    obtain ⟨rfl, -⟩ := Prod.mk.inj heq
    rw [Call.process, store_view, callMap, if_pos rfl]
    obtain ⟨all, hstart⟩ := follows_start (l := m.load i) hm.1.heldApart.inv
    have hfresh := (supplied_of_drains (client_heldApart hm.1 (.process i)) hstart.left).fresh
    obtain ⟨-, c, -, hl'⟩ | ⟨l', s', hl', hs, hfollows⟩ := createDirectory_follows hstart
    · obtain ⟨rfl, -⟩ := Prod.mk.inj (Option.some.inj (hl'.symm.trans hl))
      exact absurd (by simp [Machine.store, Call.process]) hdir
    · obtain ⟨rfl, -⟩ := Prod.mk.inj (Option.some.inj (hl'.symm.trans hl))
      obtain ⟨hinv, hrefines⟩ := createDirectory_spec hfresh hs
      rw [hfollows.seen] at hinv hrefines
      exact ⟨hinv.unsupplied, hrefines⟩
  | setPageTableEntry i op =>
    obtain ⟨l, hl, heq⟩ := Option.map_eq_some_iff.mp h
    obtain ⟨rfl, -⟩ := Prod.mk.inj heq
    rw [Call.process, store_view, callMap, if_pos rfl]
    have hroom := (step_ends hm ha).mp ⟨_, _, h⟩
    obtain ⟨l', hl', hs⟩ := set_sees hm.1 ha (hm.2 i ha.1) hroom
    obtain rfl := Option.some.inj (hl'.symm.trans hl)
    exact hs

theorem sees_step {us : List (Transition Machine Act Int)} {a : Act} {r : Int} (hm : Sound s0 m ∧ Sees us m)
    (ha : a.Ready m) (h : machineStep setFuel m a = some (m', r)) :
    Sound s0 m' ∧ Sees (us ++ [⟨m, a, r, m'⟩]) m' := by
  have hmoves := step_moves hm.1 ha.allowed h
  refine ⟨hmoves.sound hm.1, fun i hdir => ?_⟩
  rw [mapOf_snoc]
  by_cases hi : a.owner = .process i
  · cases a with
    | call call =>
      obtain rfl := Owner.process.inj hi
      exact call_sees hm ha h hdir
    | pageAlloc j => cases hi
    | pageFree j a => cases hi
    | write j p e => cases hi
  · rw [actMap_other hi]
    rw [hmoves.process i hi] at hdir
    obtain ⟨hinv, hrefines⟩ := hm.2 i hdir
    have hpageDir : (m'.view i).pageDir = (m.view i).pageDir := congrArg Process.pageDir (hmoves.process i hi)
    have hpde : ∀ e, pde (m'.view i) e = pde (m.view i) e := by
      apply (hm.1.owns i hdir).pde_congr hpageDir
      intro f hf
      apply hmoves.phys
      apply has_apart hmoves.heldApart (Ne.symm hi)
      rwa [hmoves.histories _ (Ne.symm hi)]
    have hsupply : (m.view i).supply = [] ++ (m'.view i).supply := rfl
    exact ⟨hinv.other hsupply hpageDir hpde, hrefines.other (hmoves.walk_other hm.1 hi hdir).2⟩

theorem sees_start {image : Image} {info : MultibootInfo} {s00 : Physical.State}
    (hinit : physicalInit image info s00 = some (s0, SUCCESS)) (phys : Frame → Nat → PageEntry)
    (privilege : Nat → Bool) :
    Sound s0 (.start phys s0 privilege) ∧ Sees [] (.start phys s0 privilege) :=
  ⟨sound_start hinit phys privilege, fun _ hdir => absurd rfl hdir⟩

/-! ## Every run -/

theorem machine_ends {acts : List Act} (hm : Sound s0 m ∧ Sees [] m)
    (hacts : Along (fun m a => (machineStep setFuel m a).map Prod.fst) (fun m a => a.Ready m) m acts) :
    (∃ ts, trace (machineStep setFuel) m acts = some ts) ↔
      Along (fun m a => (machineStep setFuel m a).map Prod.fst) (fun m a => a.HasRoom m) m acts := by
  refine trace_ends_iff (I := fun m => ∃ us, Sound s0 m ∧ Sees us m) ?_ ?_ acts _ ⟨[], hm⟩ hacts
  · rintro m a ⟨us, hm⟩ ha
    exact step_ends hm ha
  · rintro m a m' r ⟨us, hm⟩ ha hstep
    exact ⟨_, sees_step hm ha hstep⟩

/-- Another one takes the first page, writes to it and frees it. A process has a table by then. -/
def firstTable : List Act :=
  [.pageAlloc 0, .call (.createDirectory 1), .write 0 4096 fun _ => zeroEntry, .pageFree 0 4096,
    .call (.setPageTableEntry 1 ⟨0x400000, 0x5000, true⟩)]

theorem firstTable_ready : ∃ s0, physicalInit ⟨0xC0001000, 0xC0002000⟩ ⟨1, 1024, 0, 0, fun _ =>
    ⟨0, 0, 0, 0⟩⟩ ⟨fun _ => 0, 0, 0⟩ =
      some (s0, SUCCESS) ∧
    Along (fun m a => (machineStep setFuel m a).map Prod.fst) (fun m a => a.Ready m)
      (.start (fun _ _ => zeroEntry) s0 fun _ => true) firstTable ∧
    Along (fun m a => (machineStep setFuel m a).map Prod.fst) (fun m a => a.HasRoom m)
      (.start (fun _ _ => zeroEntry) s0 fun _ => true) firstTable := by
  refine ⟨_, rfl, .cons trivial rfl (.cons trivial rfl
    (.cons ?_ rfl (.cons ?_ rfl ⟨?_, fun _ _ => trivial⟩))),
    .cons trivial rfl (.cons trivial rfl (.cons trivial rfl
      (.cons trivial rfl ⟨.inr ⟨4096, ?_, rfl⟩, fun _ _ => trivial⟩)))⟩
  · exact List.mem_singleton_self 4096
  · exact .inr ⟨4096, List.mem_singleton_self 4096, rfl⟩
  · exact ⟨by decide, ⟨by decide, by decide, by decide, by decide⟩, .inr (by decide)⟩
  · exact ⟨by decide, by decide, by decide⟩

/-- **The page tables are guarded.** After a successful `physical_init`, whatever processes map below the self map and
others do with their pages, a table is only changed by a call for its process. -/
theorem page_tables_guarded (fuel : Nat) (image : Image) (info : MultibootInfo) (s00 s0 : Physical.State)
    (hinit : physicalInit image info s00 = some (s0, SUCCESS)) (phys : Frame → Nat → PageEntry)
    (privilege : Nat → Bool) (acts : List Act)
    (hacts : Along (fun m a => (machineStep fuel m a).map Prod.fst) (fun m a => a.Allowed m)
    (.start phys s0 privilege) acts)
    (ts : List (Transition Machine Act Int)) (hts :
    trace (machineStep fuel) (.start phys s0 privilege) acts = some ts) :
    ∀ t ∈ ts, Guarded s0 t := by
  refine trace_keeps (I := Sound s0) ?_ acts _ ts (sound_start hinit phys privilege) hacts hts
  intro m a m' r hm ha hstep
  have hmoves := step_moves hm ha hstep
  exact ⟨hmoves.sound hm, Moves.guarded (t := ⟨m, a, r, m'⟩) hmoves hm⟩

theorem page_tables_guarded_2mb : ∃ s0 ts, trace (machineStep setFuel)
    (.start (fun _ _ => zeroEntry) s0 fun _ => true) firstTable =
    some ts ∧ ∀ t ∈ ts, Guarded s0 t := by
  obtain ⟨s0, hinit, hready, hroom⟩ := firstTable_ready
  obtain ⟨ts, hts⟩ := (machine_ends (sees_start hinit _ _) hready).mpr hroom
  refine ⟨s0, ts, hts, ?_⟩
  exact page_tables_guarded setFuel _ _ _ s0 hinit _ _ firstTable
    (hready.imp (fun _ _ h => h.allowed) firstTable) ts hts

/-- **Translation on the allocator.** A run of actions that are ready ends unless a table is wanted and no page is
left. After each action, each process is translated by its own calls. -/
theorem machine_translates (image : Image) (info : MultibootInfo) (s00 s0 : Physical.State)
    (hinit : physicalInit image info s00 = some (s0, SUCCESS)) (phys : Frame → Nat → PageEntry)
    (privilege : Nat → Bool)
    (acts : List Act) (hacts : Along (fun m a => (machineStep setFuel m a).map Prod.fst) (fun m a =>
    a.Ready m)
      (.start phys s0 privilege) acts) :
    ((∃ ts, trace (machineStep setFuel) (.start phys s0 privilege) acts = some ts) ↔
      Along (fun m a => (machineStep setFuel m a).map Prod.fst) (fun m a => a.HasRoom m)
        (.start phys s0 privilege) acts) ∧
    ∀ ts, trace (machineStep setFuel) (.start phys s0 privilege) acts = some ts →
      ∀ us t vs, ts = us ++ t :: vs → ∀ i, (t.post.process i).pageDir ≠ 0 →
        Refines (t.post.view i) (mapOf i (us ++ [t])) := by
  have hstart := sees_start hinit phys privilege
  refine ⟨machine_ends hstart hacts, fun ts hts us t vs heq i hdir => ?_⟩
  obtain ⟨hm, ha, hstep⟩ := trace_history (I := fun us m => Sound s0 m ∧ Sees us m)
    (fun us m a m' r hm ha hstep => sees_step hm ha hstep) acts [] _ ts hstart hacts hts us t vs heq
  exact ((sees_step hm ha hstep).2 i hdir).2

theorem machine_translates_2mb : ∃ s0 ts, trace (machineStep setFuel)
    (.start (fun _ _ => zeroEntry) s0 fun _ => true) firstTable =
    some ts ∧ ∀ us t vs, ts = us ++ t :: vs → ∀ i, (t.post.process i).pageDir ≠ 0 →
      Refines (t.post.view i) (mapOf i (us ++ [t])) := by
  obtain ⟨s0, hinit, hready, hroom⟩ := firstTable_ready
  obtain ⟨hends, htranslates⟩ := machine_translates _ _ _ s0 hinit _ _ firstTable hready
  obtain ⟨ts, hts⟩ := hends.mpr hroom
  exact ⟨s0, ts, hts, htranslates ts hts⟩

end SystemProjects.Paging
