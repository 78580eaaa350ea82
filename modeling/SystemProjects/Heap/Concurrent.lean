import Mathlib.Data.List.Pairwise
import SystemProjects.Heap.Apart

/-!
# The heap shared by threads

Any number of threads call `mm_kmalloc` and `mm_kfree` and write into their blocks, and between any two
accesses to memory another one may move. `mutex.c` is not among the sources. The lock is any that one
thread holds at a time.
-/

open SystemProjects.Memory SystemProjects.Run SystemProjects.Threads

namespace SystemProjects.Heap

variable {L T : Type} [DecidableEq T]

/-! ## What is claimed -/

abbrev HeapHistory := List (HeapCall × Nat)

/-- The blocks that a thread was given and has not freed, with the sizes it asked for. -/
def own (history : HeapHistory) : List (Nat × Nat) :=
  history.foldl (fun blocks e =>
    match e.1 with
    | .kmalloc size => if e.2 = 0 then blocks else (e.2, size) :: blocks
    | .kfree p => blocks.filter (·.1 ≠ p)) []

/-- The thread frees what it was given. A request has a size that fits, and growing the heap for it wraps nothing. -/
def GoodCall (h : ProcessHeap) (H : Histories HeapCall Nat T) (t : T) : HeapCall → Prop
  | .kmalloc size => (0 < size ∧ size < 2 ^ 32) ∧ (HasFit h size ∨ GrowthFits h size)
  | .kfree p => ∃ n, (p, n) ∈ own (H t)

/-- The byte at `a` is in a block of the thread. -/
def MayWrite (history : HeapHistory) (a : Nat) : Prop := ∃ p n, (p, n) ∈ own history ∧ p ≤ a ∧ a < p + n

def KeepsByte (history : HeapHistory) (k : HeapCall) (a : Nat) : Prop :=
  ∃ p n, (p, n) ∈ own history ∧ k ≠ .kfree p ∧ p ≤ a ∧ a < p + n

abbrev HeapState (L T : Type) := State ProcessHeap HeapCall Nat L T

def OwnsByte (s : HeapState L T) (t : T) (a : Nat) : Prop :=
  match (s.threads t).inside with
  | none => MayWrite (s.histories t) a
  | some (k, _) => KeepsByte (s.histories t) k a

/-- The state of the heap matters to a call that gets the lock. -/
def Disciplined (mx : Mutex L T) (s : HeapState L T) : T × Move HeapCall (Nat × Byte) → Prop
  | (t, .call k) => heapMonitor.early k = none → mx.holder s.lock = none → GoodCall s.shared s.histories t k
  | (_, .go) => True
  | (t, .own u) => MayWrite (s.histories t) u.1

abbrev heapStep (mx : Mutex L T) : HeapState L T → T × Move HeapCall (Nat × Byte) → Option (HeapState L T) :=
  Threads.step mx heapMonitor

def heapStart (lock : L) (m : Mem) : HeapState L T := State.init lock { mem := m, top := 0 }

/-- Neither block reaches into the other one or into its header. -/
def BlocksApart (b c : Nat × Nat) : Prop := b.1 + b.2 + itemSizeof ≤ c.1 ∨ c.1 + c.2 + itemSizeof ≤ b.1

instance : Std.Symm BlocksApart := ⟨fun _ _ => Or.symm⟩

def serve (h : ProcessHeap) : HeapCall → Option (ProcessHeap × Nat)
  | .kmalloc size => mmKmalloc h size
  | .kfree p => (mmKfree h p).map fun h => (h, 0)

/-! ## The histories -/

theorem own_kmalloc (history : HeapHistory) (size r : Nat) : own (history ++ [(.kmalloc size, r)]) =
    if r = 0 then own history else (r, size) :: own history := by
  rw [own, List.foldl_append]
  rfl

theorem own_kfree (history : HeapHistory) (p r : Nat) :
    own (history ++ [(.kfree p, r)]) = (own history).filter (·.1 ≠ p) := by
  rw [own, List.foldl_append]
  rfl

/-! ## The rules of the heap -/

variable {h h' : ProcessHeap} {H : Histories HeapCall Nat T} {t : T}

/-- The heap is safe, what the threads own is live, and no two of them own one block. -/
structure Shared (h : ProcessHeap) (H : Histories HeapCall Nat T) (w : World) : Prop where
  heap : w.heap = h
  inv : Inv w
  live : ∀ t, ∀ b ∈ own (H t), b ∈ w.live
  apart : ∀ t t', t ≠ t' → ∀ b ∈ own (H t), ∀ c ∈ own (H t'), b.1 ≠ c.1

variable {w : World}

theorem Inv.pairwise (hi : Inv w) : w.live.Pairwise fun b c => b.1 ≠ c.1 := by
  apply hi.heapSafe.apart.imp
  intro b c hbc heq
  unfold itemSizeof at hbc
  omega

omit [DecidableEq T] in
theorem Shared.liveByte (hs : Shared h H w) {u : Nat × Byte} (hu : MayWrite (H t) u.1) : LiveByte w u := by
  obtain ⟨p, n, hp, h1, h2⟩ := hu
  exact ⟨p, n, hs.live t _ hp, h1, h2⟩

omit [DecidableEq T] in
theorem Shared.owned_live (hs : Shared h H w) {k : HeapCall} {u : Nat × Byte}
    (hu : (∃ t', t' ≠ t ∧ MayWrite (H t') u.1) ∨ KeepsByte (H t) k u.1) : LiveByte w u := by
  rcases hu with ⟨t', -, hu⟩ | ⟨p, n, hp, -, h1, h2⟩
  · exact hs.liveByte hu
  · exact ⟨p, n, hs.live t _ hp, h1, h2⟩

theorem Shared.idle (hs : Shared h H w) {k : HeapCall} {r : Nat}
    (hown : ∀ b ∈ own (H t ++ [(k, r)]), b ∈ own (H t)) : Shared h (extend H t (k, r)) w := by
  have hsub : ∀ t', ∀ b ∈ own (extend H t (k, r) t'), b ∈ own (H t') := by
    intro t' b hb
    by_cases ht : t' = t
    · subst ht
      rw [extend, if_pos rfl] at hb
      exact hown b hb
    · rwa [extend_other _ ht] at hb
  exact ⟨hs.heap, hs.inv, fun t' b hb => hs.live t' b (hsub t' b hb),
    fun t1 t2 hne b hb c hc => hs.apart t1 t2 hne b (hsub t1 b hb) c (hsub t2 c hc)⟩

theorem mem_own_kmalloc {t' : T} {size r : Nat} {b : Nat × Nat}
    (hb : b ∈ own (extend H t (.kmalloc size, r) t')) : b ∈ own (H t') ∨ t' = t ∧ r ≠ 0 ∧ b = (r, size) := by
  by_cases ht : t' = t
  · subst ht
    rw [extend, if_pos rfl, own_kmalloc] at hb
    split at hb
    · exact .inl hb
    case isFalse hr =>
      rcases List.mem_cons.mp hb with rfl | hb
      · exact .inr ⟨rfl, hr, rfl⟩
      · exact .inl hb
  · rw [extend_other _ ht] at hb
    exact .inl hb

theorem mem_own_kfree {t' : T} {p r : Nat} {b : Nat × Nat} (hb : b ∈ own (extend H t (.kfree p, r) t')) :
    b ∈ own (H t') ∧ (t' = t → b.1 ≠ p) := by
  by_cases ht : t' = t
  · subst ht
    rw [extend, if_pos rfl, own_kfree] at hb
    obtain ⟨hb, hne⟩ := List.mem_filter.mp hb
    exact ⟨hb, fun _ => of_decide_eq_true hne⟩
  · rw [extend_other _ ht] at hb
    exact ⟨hb, fun h => absurd h ht⟩

theorem early_cases {k : HeapCall} {r : Nat} (hr : heapMonitor.early k = some r) :
    r = 0 ∧ (k = .kmalloc 0 ∨ k = .kfree 0) := by
  cases k with
  | kmalloc size =>
    obtain ⟨rfl, hr⟩ := (ite_eq_iff.mp hr).resolve_right fun h => by cases h.2
    exact ⟨(Option.some.inj hr).symm, .inl rfl⟩
  | kfree p =>
    obtain ⟨rfl, hr⟩ := (ite_eq_iff.mp hr).resolve_right fun h => by cases h.2
    exact ⟨(Option.some.inj hr).symm, .inr rfl⟩

theorem early_own (history : HeapHistory) {k : HeapCall} {r : Nat} (hr : heapMonitor.early k = some r) :
    ∀ b ∈ own (history ++ [(k, r)]), b ∈ own history := by
  intro b hb
  obtain ⟨rfl, rfl | rfl⟩ := early_cases hr
  · rwa [own_kmalloc, if_pos rfl] at hb
  · rw [own_kfree] at hb
    exact (List.mem_filter.mp hb).1

theorem Shared.early (hs : Shared h H w) {k : HeapCall} {r : Nat} (hr : heapMonitor.early k = some r) :
    Shared h (extend H t (k, r)) w := hs.idle (early_own (H t) hr)

omit [DecidableEq T] in
theorem Shared.write (hs : Shared h H w) {u : Nat × Byte} (hu : MayWrite (H t) u.1) :
    ∃ w', Shared (heapMonitor.write u h) H w' := by
  obtain ⟨p, n, hp, h1, h2⟩ := hu
  obtain ⟨w', hw, hi⟩ := inv_write (v := u.2) hs.inv (hs.live t _ hp) h1 h2
  obtain rfl := Option.some.inj hw
  refine ⟨_, ?_, hi, hs.live, hs.apart⟩
  rw [← hs.heap]
  rfl

/-- A new block is nobody's yet, since the live blocks are apart. -/
theorem Shared.kmalloc (hs : Shared h H w) {size : Nat} (hok : GoodCall h H t (.kmalloc size)) :
    ∃ h' r, mmKmalloc h size = some (h', r) ∧ ∃ w', Shared h' (extend H t (.kmalloc size, r)) w' := by
  obtain ⟨⟨hpos, -⟩, hok⟩ := hok
  obtain ⟨w', hw, hi⟩ := inv_kmalloc hs.inv hpos (hs.heap.symm ▸ hok)
  obtain ⟨⟨h', r⟩, hk, rfl⟩ := Option.map_eq_some_iff.mp hw
  rw [hs.heap] at hk
  have hpair := hi.pairwise
  dsimp only at hpair
  have hnew : r ≠ 0 → ∀ c ∈ w.live, r ≠ c.1 := by
    intro hr
    rw [if_neg hr] at hpair
    exact (List.pairwise_cons.mp hpair).1
  refine ⟨h', r, hk, _, rfl, hi, ?_, ?_⟩
  · intro t' b hb
    show b ∈ if r = 0 then w.live else (r, size) :: w.live
    rcases mem_own_kmalloc hb with hb | ⟨-, hr, rfl⟩
    · split
      · exact hs.live t' b hb
      · exact List.mem_cons_of_mem _ (hs.live t' b hb)
    · rw [if_neg hr]
      exact List.mem_cons_self
  · intro t1 t2 hne b hb c hc
    rcases mem_own_kmalloc hb with hb' | ⟨ht1, hr, rfl⟩
    · rcases mem_own_kmalloc hc with hc' | ⟨-, hr, rfl⟩
      · exact hs.apart t1 t2 hne b hb' c hc'
      · exact (hnew hr b (hs.live t1 b hb')).symm
    · rcases mem_own_kmalloc hc with hc' | ⟨ht2, -⟩
      · exact hnew hr c (hs.live t2 c hc')
      · exact absurd (ht1.trans ht2.symm) hne

theorem Shared.kfree (hs : Shared h H w) {p : Nat} (hok : GoodCall h H t (.kfree p)) :
    ∃ h', mmKfree h p = some h' ∧ ∃ w', Shared h' (extend H t (.kfree p, 0)) w' := by
  obtain ⟨n, hp⟩ := hok
  obtain ⟨w', hw, hi⟩ := inv_kfree hs.inv (hs.live t _ hp)
  obtain ⟨h', hk, rfl⟩ := Option.map_eq_some_iff.mp hw
  rw [hs.heap] at hk
  refine ⟨h', hk, _, rfl, hi, ?_, ?_⟩
  · intro t' b hb
    obtain ⟨hb, hself⟩ := mem_own_kfree hb
    refine List.mem_filter.mpr ⟨hs.live t' b hb, decide_eq_true ?_⟩
    by_cases ht : t' = t
    · exact hself ht
    · exact hs.apart t' t ht b hb (p, n) hp
  · intro t1 t2 hne b hb c hc
    exact hs.apart t1 t2 hne b (mem_own_kfree hb).1 c (mem_own_kfree hc).1

theorem serve_early {h : ProcessHeap} {k : HeapCall} {r : Nat} (hr : heapMonitor.early k = some r) :
    serve h k = some (h, r) := by
  obtain ⟨rfl, rfl | rfl⟩ := early_cases hr
  · rfl
  · rfl

theorem serve_body {h : ProcessHeap} {k : HeapCall} (hr : heapMonitor.early k = none) :
    (heapMonitor.body k).run h = serve h k := by
  cases k with
  | kmalloc size =>
    apply kmallocBody_run
    rintro rfl
    cases hr
  | kfree p =>
    apply kfreeBody_run
    rintro rfl
    cases hr

def heapRules (T : Type) [DecidableEq T] : Rules heapMonitor T where
  J h H := ∃ w, Shared h H w
  ok := GoodCall
  may history u := MayWrite history u.1
  keep history k u := KeepsByte history k u.1
  early := fun ⟨w, hs⟩ hr => ⟨w, hs.early hr⟩
  early_may := fun hr ⟨p, n, hp, h⟩ => ⟨p, n, early_own _ hr _ hp, h⟩
  write := fun ⟨_, hs⟩ hu => hs.write hu
  call := by
    rintro h H t k ⟨w, hs⟩ hr hok
    rw [serve_body hr]
    cases k with
    | kmalloc size => exact hs.kmalloc hok
    | kfree p =>
      obtain ⟨h', hk, hs'⟩ := hs.kfree hok
      exact ⟨h', 0, by rw [serve, hk]; rfl, hs'⟩
  apart := by
    rintro h H t k ⟨w, hs⟩ hr hok
    obtain rfl := hs.heap
    cases k with
    | kmalloc size => exact kmallocBody_apart hs.inv (fun u hu => hs.owned_live hu) hok.2
    | kfree p => exact kfreeBody_apart_live hs.inv (fun u hu => hs.owned_live hu) p

/-! ## Every interleaving -/

variable {mx : Mutex L T} {lock : L} {s s' : HeapState L T}
    {ms : List (T × Move HeapCall (Nat × Byte))} {m : Mem}

omit [DecidableEq T] in
theorem shared_start (m : Mem) :
    Shared { mem := m, top := 0 } (fun _ : T => []) (emptyWorld m) where
  heap := rfl
  inv := inv_emptyWorld m
  live t b hb := by cases hb
  apart t t' _ b hb := by cases hb

def serialRules (m : Mem) (T : Type) [DecidableEq T] : Rules heapMonitor T :=
  (heapRules T).serial serve { mem := m, top := 0 } (fun _ _ _ hr => serve_early hr) fun _ _ hr =>
    serve_body hr

theorem permitted_of_disciplined (s : HeapState L T) (a : T × Move HeapCall (Nat × Byte))
    (h : Disciplined mx s a) : Permitted (serialRules m T) mx s a := by
  obtain ⟨t, move⟩ := a
  cases move with
  | call k => exact h
  | go => trivial
  | own u => exact h

theorem inv_reached (hl : mx.holder lock = none)
    (hms : Along (heapStep mx) (Disciplined mx) (heapStart lock m) ms)
    (hs : run (heapStep mx) (heapStart lock m) ms = some s) : Threads.Inv (serialRules m T) mx s :=
  inv_run ms (inv_init hl ⟨⟨_, shared_start m⟩, _, serial_nil _⟩) (hms.imp permitted_of_disciplined ms) hs

theorem Shared.disjoint {t' : T} {b c : Nat × Nat} (hs : Shared h H w) (hb : b ∈ own (H t))
    (hc : c ∈ own (H t'))
    (hne : (t, b) ≠ (t', c)) : BlocksApart b c := by
  have hbc : b ≠ c := by
    rintro rfl
    by_cases ht : t = t'
    · exact hne (by rw [ht])
    · exact hs.apart t t' ht b hb b hc rfl
  have hapart : w.live.Pairwise BlocksApart := hs.inv.heapSafe.apart
  exact hapart.forall (hs.live t b hb) (hs.live t' c hc) hbc

theorem owns_iff (u : Nat × Byte) : Owns (serialRules m T) s t u ↔ OwnsByte s t u.1 := by
  unfold Owns OwnsByte
  split
  case h_1 hin => simp only [hin]; exact Iff.rfl
  case h_2 hin => simp only [hin]; exact Iff.rfl

omit [DecidableEq T] in
theorem mayWrite_of_owns {a : Nat} (h : OwnsByte s t a) : MayWrite (s.histories t) a := by
  unfold OwnsByte at h
  split at h
  · exact h
  · obtain ⟨p, n, hp, -, h1, h2⟩ := h
    exact ⟨p, n, hp, h1, h2⟩

theorem Shared.bytes_ne {t' : T} {a b : Nat} (hs : Shared h H w) (ht : t ≠ t') (ha : MayWrite (H t) a)
    (hb : MayWrite (H t') b) : a ≠ b := by
  obtain ⟨p, n, hp, h1, h2⟩ := ha
  obtain ⟨q, k, hq, h3, h4⟩ := hb
  have := hs.disjoint hp hq fun heq => ht (Prod.mk.inj heq).1
  unfold BlocksApart at this
  dsimp only at this
  omega

theorem fill_comm {a b : Nat} (hab : a ≠ b) (v v' : Byte) (m : Mem) :
    fill (fill m b 1 v') a 1 v = fill (fill m a 1 v) b 1 v' := by
  funext x
  unfold fill
  by_cases hx : x = a
  · rw [if_pos (by omega), if_neg (by omega), if_pos (by omega)]
  · rw [if_neg (by omega)]
    split
    · rfl
    · rw [if_neg (by omega)]

theorem fill_same (m : Mem) (a : Nat) : fill m a 1 (m a) = m := by
  funext x
  unfold fill
  split
  · rw [show x = a by omega]
  · rfl

/-- **What a thread owns is its own.** In every state that disciplined threads reach, whoever is in the middle of a
call, no two of the blocks they own overlap, and the next move changes a byte of such a block only if it is its
owner's write to it. -/
theorem blocks_kept (mx : Mutex L T) (lock : L) (hl : mx.holder lock = none) (m : Mem)
    (ms : List (T × Move HeapCall (Nat × Byte)))
    (hms : Along (heapStep mx) (Disciplined mx) (heapStart lock m) ms) (s : HeapState L T)
    (hs : run (heapStep mx) (heapStart lock m) ms = some s) :
    (∀ t t' b c, b ∈ own (s.histories t) → c ∈ own (s.histories t') → (t, b) ≠ (t', c) → BlocksApart b c) ∧
    ∀ move s', Disciplined mx s move → heapStep mx s move = some s' →
      ∀ t a, OwnsByte s t a → (∀ v, move ≠ (t, .own (a, v))) → s'.shared.mem a = s.shared.mem a := by
  have hinv := inv_reached hl hms hs
  obtain ⟨h, ⟨w, hw⟩, -⟩ := hinv.exists_J
  refine ⟨fun t t' b c hb hc hne => hw.disjoint hb hc hne, ?_⟩
  intro move s' hmove hstep t a ha hother
  -- The write that puts back what is there changes nothing before the move, so it changes nothing after it.
  have hsame : heapMonitor.write (a, s.shared.mem a) s.shared = s.shared := by
    show { s.shared with mem := fill s.shared.mem a 1 (s.shared.mem a) } = s.shared
    rw [fill_same]
  have hcomm : ∀ t1 t2 (u u' : Nat × Byte), t1 ≠ t2 → MayWrite (s.histories t1) u.1 → OwnsByte s t2 u'.1 →
      ∀ x, heapMonitor.write u (heapMonitor.write u' x) = heapMonitor.write u' (heapMonitor.write u x) := by
    intro t1 t2 u u' hne hu hu' x
    have := fill_comm (hw.bytes_ne hne hu (mayWrite_of_owns hu')) u.2 u'.2 x.mem
    simp only [heapMonitor, this]
  by_cases hself : ∃ u, move = (t, .own u)
  · obtain ⟨⟨a', v⟩, rfl⟩ := hself
    obtain ⟨-, rfl⟩ := step_own hstep
    have hne : a' ≠ a := by
      rintro rfl
      exact hother v rfl
    exact fill_other (by omega)
  · have hkept := owned_kept hinv (fun t1 t2 u u' hne hu hu' =>
      hcomm t1 t2 u u' hne hu ((owns_iff u').mp hu'))
      (permitted_of_disciplined s move hmove) hstep ((owns_iff (a, s.shared.mem a)).mpr ha) hsame
      fun u' heq => hself ⟨u', heq⟩
    have hmem : fill s'.shared.mem a 1 (s.shared.mem a) = s'.shared.mem := congrArg ProcessHeap.mem hkept
    rw [← hmem, fill, if_pos (by omega)]

/-- Nobody is inside, and the threads have these blocks. -/
structure Idle (s : HeapState (Option T) T) (h : ProcessHeap) (blocks : T → List (Nat × Nat)) : Prop where
  lock : s.lock = none
  shared : s.shared = h
  outside : ∀ t, (s.threads t).inside = none
  has : ∀ t, own (s.histories t) = blocks t

theorem Idle.kmalloc {s : HeapState (Option T) T} {blocks : T → List (Nat × Nat)} {h' : ProcessHeap}
    {size p : Nat} (hs : Idle s h blocks) (hok : GoodCall h s.histories t (.kmalloc size))
    (hk : mmKmalloc h size = some (h', p)) (hp : p ≠ 0) :
    ∃ n s', Along (heapStep plainMutex) (Disciplined plainMutex) s (alone t (.kmalloc size) n) ∧
      run (heapStep plainMutex) s (alone t (.kmalloc size) n) = some s' ∧
      Idle s' h' fun t' => if t' = t then (p, size) :: blocks t else blocks t' := by
  have hsize : size ≠ 0 := Nat.pos_iff_ne_zero.mp hok.1.1
  have hbody : (heapMonitor.body (.kmalloc size)).run s.shared = some (h', p) := by
    rw [hs.shared]
    exact (kmallocBody_run hsize h).trans hk
  have hlock : plainMutex.lock s.lock t = some (some t) := by rw [hs.lock]; rfl
  obtain ⟨n, hn⟩ := alone_ends (hs.outside t) (if_neg hsize) hlock hbody
  refine ⟨n, _, ⟨fun _ _ => hs.shared ▸ hok, fun _ _ => along_of_forall _ fun a ha _ => ?_⟩, hn, rfl,
    rfl, fun t' => ?_, fun t' => ?_⟩
  · rw [List.eq_of_mem_replicate ha]
    trivial
  · by_cases ht : t' = t
    · rw [ht]
      exact inside_setThread_self _
    · exact (inside_setThread_other ht _).trans (hs.outside t')
  · show own (State.histories (State.answered _ t _) t') = _
    rw [histories_answered]
    split
    case isTrue ht => rw [ht, extend, if_pos rfl, own_kmalloc, if_neg hp]; exact congrArg _ (hs.has t)
    case isFalse ht => rw [extend_other _ ht]; exact hs.has t'

/-- Two threads are given a block, and the first one is about to free its own. -/
def twoCallers (n k : Nat) : List (Bool × Move HeapCall (Nat × Byte)) :=
  alone true (.kmalloc 8) n ++ (alone false (.kmalloc 8) k ++ [(true, .call (.kfree (heapBase + 12)))])

theorem twoCallers_run : ∃ n k s,
    Along (heapStep plainMutex) (Disciplined plainMutex) (heapStart none fun _ => 0) (twoCallers n k) ∧
    run (heapStep plainMutex) (heapStart none fun _ => 0) (twoCallers n k) = some s ∧ s.lock = some true ∧
    own (s.histories true) = [(heapBase + 12, 8)] ∧ own (s.histories false) = [(heapBase + 32, 8)] := by
  obtain ⟨h1, hk1, hfit, h2, hk2⟩ : ∃ h1, mmKmalloc ⟨fun _ => 0, 0⟩ 8 = some (h1, heapBase + 12) ∧
      HasFit h1 8 ∧ ∃ h2, mmKmalloc h1 8 = some (h2, heapBase + 32) :=
    ⟨_, rfl, ⟨by decide, heapBase + 20, .next (by decide) (.here (by decide)), by decide, by decide⟩, _, rfl⟩
  have hgrows : GrowthFits ⟨fun _ => 0, 0⟩ 8 := ⟨by decide, by decide⟩
  have hidle : Idle (heapStart none fun _ => 0) ⟨fun _ => 0, 0⟩ fun _ : Bool => [] :=
    ⟨rfl, rfl, fun _ => rfl, fun _ => rfl⟩
  obtain ⟨n, s1, ha1, hr1, hs1⟩ := hidle.kmalloc (t := true) ⟨⟨by decide, by decide⟩, .inr hgrows⟩ hk1
    (by decide)
  obtain ⟨k, s2, ha2, hr2, hs2⟩ := hs1.kmalloc (t := false) ⟨⟨by decide, by decide⟩, .inl hfit⟩ hk2
    (by decide)
  obtain ⟨s3, hstep, hlock, hsame⟩ : ∃ s3,
      heapStep plainMutex s2 (true, .call (.kfree (heapBase + 12))) = some s3 ∧
      s3.lock = some true ∧ s3.histories = s2.histories := by
    simp only [heapStep, Threads.step, hs2.outside, hs2.lock]
    exact ⟨_, rfl, rfl, histories_inside _⟩
  refine ⟨n, k, s3, ha1.append fun s hs => ?_, ?_, hlock, ?_, ?_⟩
  · obtain rfl := Option.some.inj (hr1.symm.trans hs)
    refine ha2.append fun s' hs' => ?_
    obtain rfl := Option.some.inj (hr2.symm.trans hs')
    exact .cons (fun _ _ => ⟨8, by rw [hs2.has]; exact List.mem_cons_self⟩) hstep trivial
  · rw [twoCallers, run_append, hr1, Option.bind_some, run_append, hr2, Option.bind_some, run_cons hstep]
    rfl
  · rw [hsame]
    exact hs2.has true
  · rw [hsame]
    exact hs2.has false

theorem blocks_kept_two_callers : ∃ n k s,
    run (heapStep plainMutex) (heapStart none fun _ => 0) (twoCallers n k) = some s ∧
    own (s.histories true) = [(heapBase + 12, 8)] ∧ own (s.histories false) = [(heapBase + 32, 8)] ∧
    ∀ t t' b c, b ∈ own (s.histories t) → c ∈ own (s.histories t') → (t, b) ≠ (t', c) → BlocksApart b c := by
  obtain ⟨n, k, s, hgood, hrun, -, htrue, hfalse⟩ := twoCallers_run
  exact ⟨n, k, s, hrun, htrue, hfalse, (blocks_kept plainMutex none rfl _ _ hgood s hrun).1⟩

/-- **The lock makes the calls serial.** In every state that disciplined threads reach, the answers are those of the
calls one after another, in an order that every thread agrees with, and so is the heap when nobody has the lock. A
thread that has the lock gives it back. -/
theorem calls_serial (mx : Mutex L T) (lock : L) (hl : mx.holder lock = none) (m : Mem)
    (ms : List (T × Move HeapCall (Nat × Byte)))
    (hms : Along (heapStep mx) (Disciplined mx) (heapStart lock m) ms) (s : HeapState L T)
    (hs : run (heapStep mx) (heapStart lock m) ms = some s) :
    (∃ h order, Serial serve heapMonitor.write { mem := m, top := 0 } h s.histories order ∧
      (mx.holder s.lock = none → s.shared = h)) ∧
    ∀ t, mx.holder s.lock = some t →
      ∃ n s', run (heapStep mx) s (List.replicate n (t, .go)) = some s' ∧ mx.holder s'.lock = none := by
  have hinv := inv_reached hl hms hs
  refine ⟨?_, fun t ht => hinv.release ht⟩
  obtain ⟨h, order, -, ho, hsame⟩ := hinv.serial
  exact ⟨h, order, ho, hsame⟩

theorem calls_serial_two_callers : ∃ n k s, run (heapStep plainMutex) (heapStart none fun _ => 0)
    (twoCallers n k) = some s ∧
    plainMutex.holder s.lock = some true ∧
    ∃ n s', run (heapStep plainMutex) s (List.replicate n (true, .go)) = some s' ∧
      plainMutex.holder s'.lock = none := by
  obtain ⟨n, k, s, hgood, hrun, hlock, -⟩ := twoCallers_run
  exact ⟨n, k, s, hrun, hlock, (calls_serial plainMutex none rfl _ _ hgood s hrun).2 true hlock⟩

end SystemProjects.Heap
