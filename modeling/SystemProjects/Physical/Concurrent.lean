import SystemProjects.Physical.Lowest
import SystemProjects.Physical.MemoryMap
import SystemProjects.Physical.Threads

/-!
# The page allocator shared by threads

Any number of threads take pages and give them back, and between any two accesses to the bitmap another
one may move. `mutex.c` is not among the sources. The lock is any that one thread holds at a time.
-/

open SystemProjects.Memory SystemProjects.Run SystemProjects.Bitmap SystemProjects.Threads

namespace SystemProjects.Physical

variable {L T : Type} [DecidableEq T]

/-! ## What is claimed -/

abbrev PageHistory := List (PageCall × Nat)

def held (history : PageHistory) : List Nat :=
  history.foldl (fun pages e =>
    match e.1 with
    | .pageFree a => pages.filter (pageOf · ≠ pageOf a)
    | _ => if e.2 = 0 then pages else e.2 :: pages) []

/-- A thread frees `NULL` or an address in a page that it has. -/
def GoodPageCall (H : Histories PageCall Nat T) (t : T) : PageCall → Prop
  | .pageFree a => a = 0 ∨ ∃ p ∈ held (H t), pageOf a = pageOf p
  | _ => True

abbrev PageState (L T : Type) := Threads.State State PageCall Nat L T

def PageDisciplined (mx : Mutex L T) (s : PageState L T) : T × Move PageCall Empty → Prop
  | (t, .call k) => mx.holder s.lock = none → GoodPageCall s.histories t k
  | _ => True

abbrev pageStep (mx : Mutex L T) : PageState L T → T × Move PageCall Empty → Option (PageState L T) :=
  Threads.step mx pageMonitor

def servePage (s : State) (k : PageCall) : Option (State × Nat) := step s k.op

/-- The page is one of those that `physical_init` counted. -/
structure InMemory (s0 : State) (p : Nat) : Prop where
  aligned : p % size4kb = 0
  low : size4kb ≤ p
  high : p < s0.physicalMaxAddress

/-! ## What the threads have -/

theorem held_pageFree (history : PageHistory) (a r : Nat) :
    held (history ++ [(.pageFree a, r)]) = (held history).filter (pageOf · ≠ pageOf a) := by
  rw [held, List.foldl_append]
  rfl

theorem held_alloc (history : PageHistory) {k : PageCall} (hk : ∀ a, k ≠ .pageFree a) (r : Nat) :
    held (history ++ [(k, r)]) = if r = 0 then held history else r :: held history := by
  rw [held, List.foldl_append]
  cases k with
  | pageFree a => exact absurd rfl (hk a)
  | pageAllocHigh => rfl
  | pageAllocLow => rfl

/-- What is held is taken, and by nobody else. -/
structure HeldApart (s0 s : State) (H : Histories PageCall Nat T) : Prop where
  inv : Inv s
  bounds : SameBounds s0 s
  memory : ∀ t, ∀ p ∈ held (H t), InMemory s0 p
  taken : ∀ t, ∀ p ∈ held (H t), Taken s p
  once : ∀ t, (held (H t)).Pairwise fun p q => pageOf p ≠ pageOf q
  apart : ∀ t t', t ≠ t' → ∀ p ∈ held (H t), ∀ q ∈ held (H t'), pageOf p ≠ pageOf q
  whole : ∀ b, InMemory s0 b → (Free s0 b ↔ Free s b ∨ ∃ t, b ∈ held (H t))

variable {s0 s s' : State} {H : Histories PageCall Nat T} {t : T} {k : PageCall} {a r : Nat}

theorem mem_held_alloc (hk : ∀ a, k ≠ .pageFree a) {t' : T} {p : Nat} (hp : p ∈ held (extend H t (k, r) t')) :
    p ∈ held (H t') ∨ t' = t ∧ r ≠ 0 ∧ p = r := by
  by_cases ht : t' = t
  · subst ht
    rw [extend, if_pos rfl, held_alloc _ hk] at hp
    split at hp
    · exact .inl hp
    case isFalse hr =>
      rcases List.mem_cons.mp hp with rfl | hp
      · exact .inr ⟨rfl, hr, rfl⟩
      · exact .inl hp
  · rw [extend_other _ ht] at hp
    exact .inl hp

theorem held_null (hk : ∀ a, k ≠ .pageFree a) (t' : T) : held (extend H t (k, 0) t') = held (H t') := by
  by_cases ht : t' = t
  · subst ht
    rw [extend, if_pos rfl, held_alloc _ hk, if_pos rfl]
  · rw [extend_other _ ht]

theorem held_page (hk : ∀ a, k ≠ .pageFree a) (hr : r ≠ 0) (p : Nat) :
    (∃ t', p ∈ held (extend H t (k, r) t')) ↔ p = r ∨ ∃ t', p ∈ held (H t') := by
  constructor
  · rintro ⟨t', hp⟩
    rcases mem_held_alloc hk hp with hp | ⟨-, -, rfl⟩
    · exact .inr ⟨t', hp⟩
    · exact .inl rfl
  · intro h
    by_cases hp : p ∈ held (extend H t (k, r) t)
    · exact ⟨t, hp⟩
    · rw [extend, if_pos rfl, held_alloc _ hk, if_neg hr] at hp
      obtain ⟨t', ht'⟩ := h.resolve_left fun heq => hp (heq ▸ List.mem_cons_self)
      have hne : t' ≠ t := by
        rintro rfl
        exact hp (List.mem_cons_of_mem _ ht')
      exact ⟨t', by rwa [extend_other _ hne]⟩

theorem mem_held_pageFree {t' : T} {p : Nat} (hp : p ∈ held (extend H t (.pageFree a, r) t')) :
    p ∈ held (H t') ∧ (t' = t → pageOf p ≠ pageOf a) := by
  by_cases ht : t' = t
  · subst ht
    rw [extend, if_pos rfl, held_pageFree] at hp
    obtain ⟨hp, hne⟩ := List.mem_filter.mp hp
    exact ⟨hp, fun _ => of_decide_eq_true hne⟩
  · rw [extend_other _ ht] at hp
    exact ⟨hp, fun h => absurd h ht⟩

theorem taken_congr {p : Nat} (hp : Taken s p)
    (h : physicalIsPageFree s' p = physicalIsPageFree s p) : Taken s' p :=
  h.trans hp

theorem page_ne_of_free {p : Nat} (hp : Taken s p) (ha : Free s a) : pageOf p ≠ pageOf a := by
  intro hpage
  rw [Taken, isPageFree_page hpage, ha] at hp
  cases hp

theorem InMemory.eq_of_page {p q : Nat} (hp : InMemory s0 p) (hq : InMemory s0 q) (h : pageOf p = pageOf q) :
    p = q := by
  have := hp.aligned
  have := hq.aligned
  unfold pageOf size4kb at *
  omega

theorem HeldApart.alloc (h : HeldApart s0 s H) (hk : ∀ a, k ≠ .pageFree a) (hr : Allocated s s' r) :
    HeldApart s0 s' (extend H t (k, r)) := by
  have hinv := hr.inv h.inv
  cases hr with
  | none =>
    have hsame := held_null (H := H) (t := t) hk
    have hsub : ∀ t', ∀ p ∈ held (extend H t (k, 0) t'), p ∈ held (H t') := fun t' p hp => hsame t' ▸ hp
    refine ⟨hinv, h.bounds, fun t' p hp => h.memory t' p (hsub t' p hp), fun t' p hp =>
      h.taken t' p (hsub t' p hp),
      fun t' => ?_, fun t1 t2 hne p hp q hq => h.apart t1 t2 hne p (hsub t1 p hp) q (hsub t2 q hq), ?_⟩
    · rw [hsame]
      exact h.once t'
    · simp only [hsame]
      exact h.whole
  | page aligned low high free took =>
    have hnew : ∀ t', ∀ p ∈ held (H t'), pageOf p ≠ pageOf r :=
      fun t' p hp => page_ne_of_free (h.taken t' p hp) free
    have hmem : InMemory s0 r := ⟨aligned, low, h.bounds.2 ▸ high⟩
    have hr : r ≠ 0 := by
      unfold size4kb at low
      omega
    refine ⟨hinv, ⟨took.bounds.1.trans h.bounds.1, took.bounds.2.trans h.bounds.2⟩, ?_, ?_, fun t' =>
      ?_, ?_, ?_⟩
    · intro t' p hp
      rcases mem_held_alloc hk hp with hp | ⟨-, -, rfl⟩
      · exact h.memory t' p hp
      · exact hmem
    · intro t' p hp
      rcases mem_held_alloc hk hp with hp | ⟨-, -, rfl⟩
      · exact taken_congr (h.taken t' p hp) (took.others p (hnew t' p hp))
      · exact took.taken
    · by_cases ht : t' = t
      · subst ht
        rw [extend, if_pos rfl, held_alloc _ hk]
        split
        · exact h.once t'
        · exact List.pairwise_cons.mpr ⟨fun p hp => (hnew t' p hp).symm, h.once t'⟩
      · rw [extend_other _ ht]
        exact h.once t'
    · intro t1 t2 hne p hp q hq
      rcases mem_held_alloc hk hp with hp' | ⟨ht1, -, rfl⟩
      · rcases mem_held_alloc hk hq with hq' | ⟨-, -, rfl⟩
        · exact h.apart t1 t2 hne p hp' q hq'
        · exact hnew t1 p hp'
      · rcases mem_held_alloc hk hq with hq' | ⟨ht2, -⟩
        · exact (hnew t2 q hq').symm
        · exact absurd (ht1.trans ht2.symm) hne
    · intro b hb
      rw [held_page hk hr, h.whole b hb]
      by_cases hbr : pageOf b = pageOf r
      · obtain rfl := hb.eq_of_page hmem hbr
        simp [free]
      · have hne : b ≠ r := fun heq => hbr (heq ▸ rfl)
        simp [Free, took.others b hbr, hne]

theorem mem_held_of_free {t' : T} {p : Nat} (hp : p ∈ held (H t')) (hne : t' = t → pageOf p ≠ pageOf a) :
    p ∈ held (extend H t (.pageFree a, r) t') := by
  by_cases ht : t' = t
  · subst ht
    rw [extend, if_pos rfl, held_pageFree]
    exact List.mem_filter.mpr ⟨hp, decide_eq_true (hne rfl)⟩
  · rwa [extend_other _ ht]

theorem free_of_page {q : Nat} (hs : Inv s) (hq : InMemory s q) (hpage : pageOf a = pageOf q)
    (hs' : physicalPageFree s a = some s') : Free s' q := by
  have hmax := hs.aligned
  obtain ⟨haligned, hlow, hhigh⟩ := hq
  have ha : a ≠ 0 ∧ a < s.physicalMaxAddress := by
    unfold pageOf size4kb at *
    omega
  rw [pageFree_eq ha (hs.inBitmap ha.2)] at hs'
  obtain rfl := Option.some.inj hs'
  refine (free_iff ?_).mpr ?_
  · exact hs.inBitmap hhigh
  · simp [hpage]

theorem InMemory.of_sameBounds {p : Nat} (hp : InMemory s0 p) (hs : SameBounds s0 s) : InMemory s p :=
  ⟨hp.aligned, hp.low, hs.2.symm ▸ hp.high⟩

theorem HeldApart.free (h : HeldApart s0 s H) (ha : GoodPageCall H t (.pageFree a))
    (hs' : physicalPageFree s a = some s') : HeldApart s0 s' (extend H t (.pageFree a, r)) := by
  obtain ⟨s1, hs1, hbounds, hothers⟩ := pageFree_spec (a := a) h.inv.inBitmap
  obtain rfl := Option.some.inj (hs1.symm.trans hs')
  have hother : ∀ t' p, p ∈ held (H t') → (t' = t → pageOf p ≠ pageOf a) → pageOf p ≠ pageOf a := by
    intro t' p hp hself
    rcases ha with rfl | ⟨q, hq, hpage⟩
    · have := (h.memory t' p hp).low
      unfold pageOf size4kb at *
      omega
    · by_cases ht : t' = t
      · exact hself ht
      · rw [hpage]
        exact h.apart t' t ht p hp q hq
  refine ⟨h.inv.of_sameBounds hbounds, ⟨hbounds.1.trans h.bounds.1, hbounds.2.trans h.bounds.2⟩,
    fun t' p hp => h.memory t' p (mem_held_pageFree hp).1, fun t' p hp => ?_, fun t' => ?_,
    fun t1 t2 hne p hp q hq => h.apart t1 t2 hne p (mem_held_pageFree hp).1 q (mem_held_pageFree hq).1, ?_⟩
  · obtain ⟨hp', hself⟩ := mem_held_pageFree hp
    exact taken_congr (h.taken t' p hp') (hothers p (hother t' p hp' hself))
  · by_cases ht : t' = t
    · subst ht
      rw [extend, if_pos rfl, held_pageFree]
      exact (h.once t').filter _
    · rw [extend_other _ ht]
      exact h.once t'
  · intro b hb
    by_cases hba : pageOf b = pageOf a
    · -- The page of the address. It was held, so it was free at first, and it is free now.
      obtain ⟨q, hq, hpage⟩ := ha.resolve_left fun h0 => by
        have := hb.low
        subst h0
        unfold pageOf size4kb at *
        omega
      obtain rfl := hb.eq_of_page (h.memory t q hq) (hba.trans hpage)
      have hfree := free_of_page h.inv (hb.of_sameBounds h.bounds) hpage hs'
      exact iff_of_true ((h.whole b hb).mpr (.inr ⟨t, hq⟩)) (.inl hfree)
    · rw [h.whole b hb, Free, Free, hothers b hba]
      apply or_congr Iff.rfl
      constructor
      · rintro ⟨t', hp⟩
        exact ⟨t', mem_held_of_free hp fun _ => hba⟩
      · rintro ⟨t', hp⟩
        exact ⟨t', (mem_held_pageFree hp).1⟩

theorem HeldApart.call (h : HeldApart s0 s H) (hk : GoodPageCall H t k) :
    ∃ s' r, step s k.op = some (s', r) ∧ HeldApart s0 s' (extend H t (k, r)) := by
  obtain ⟨s', r, hs', hm⟩ := step_spec h.inv k.op
  refine ⟨s', r, hs', ?_⟩
  cases k with
  | pageFree a =>
    obtain ⟨s1, hs1, heq⟩ := Option.map_eq_some_iff.mp hs'
    obtain ⟨rfl, -⟩ := Prod.mk.inj heq
    exact h.free hk hs1
  | pageAllocHigh => exact h.alloc nofun hm
  | pageAllocLow => exact h.alloc nofun hm

def pageRules (s0 : State) (T : Type) [DecidableEq T] : Rules pageMonitor T where
  J s H := HeldApart s0 s H
  ok _ H := GoodPageCall H
  may _ _ := False
  keep _ _ _ := False
  early _ hr := by cases hr
  early_may hr := by cases hr
  write _ hu := hu.elim
  call h _ hok := by
    rw [pageMonitor_run]
    exact h.call hok
  apart _ _ _ := Code.apart_of_isEmpty _ _

def pageSerialRules (s0 : State) (T : Type) [DecidableEq T] : Rules pageMonitor T :=
  (pageRules s0 T).serial servePage s0 (fun _ _ _ hr => by cases hr) fun s k _ => pageMonitor_run k s

/-! ## Every interleaving -/

section

variable {image : Image} {m : MultibootInfo} {s00 : State} {mx : Mutex L T} {lock : L}
    {ms : List (T × Move PageCall Empty)}
  {x : PageState L T}

omit [DecidableEq T] in
theorem heldApart_start (hinit : physicalInit image m s00 = some (s0, SUCCESS)) :
    HeldApart s0 s0 fun _ : T => [] where
  inv := physicalInit_inv hinit
  bounds := ⟨rfl, rfl⟩
  memory := nofun
  taken := nofun
  once _ := .nil
  apart := nofun
  whole _ _ := by simp [held]

theorem permitted_of_pageDisciplined (x : PageState L T) (a : T × Move PageCall Empty)
    (h : PageDisciplined mx x a) :
    Permitted (pageSerialRules s0 T) mx x a := by
  obtain ⟨t, move⟩ := a
  cases move with
  | call k => exact fun _ => h
  | go => trivial
  | own u => exact u.elim

theorem pages_reached (hinit : physicalInit image m s00 = some (s0, SUCCESS)) (hl : mx.holder lock = none)
    (hms : Along (pageStep mx) (PageDisciplined mx) (State.init lock s0) ms)
    (hx : run (pageStep mx) (State.init lock s0) ms = some x) : Threads.Inv (pageSerialRules s0 T) mx x :=
  inv_run ms (inv_init hl ⟨heldApart_start hinit, _, serial_nil _⟩)
    (hms.imp permitted_of_pageDisciplined ms) hx

end

/-- **Every page has one owner.** In every state that any number of threads reach after a successful `physical_init`,
whoever is in the middle of a call, no page is held twice, and what is held was free at first. The answers are those of
the calls one after another, in an order that every thread agrees with, and so is the bitmap when nobody has the lock.
A thread that has it gives it back. -/
theorem pages_held_once (image : Image) (m : MultibootInfo) (s00 s0 : State)
    (hinit : physicalInit image m s00 = some (s0, SUCCESS)) (mx : Mutex L T) (lock : L)
    (hl : mx.holder lock = none) (ms : List (T × Move PageCall Empty))
    (hms : Along (pageStep mx) (PageDisciplined mx) (State.init lock s0) ms) (x : PageState L T)
    (hx : run (pageStep mx) (State.init lock s0) ms = some x) :
    (∀ t, (held (x.histories t)).Pairwise fun p q => pageOf p ≠ pageOf q) ∧
    (∀ t t', t ≠ t' → ∀ p ∈ held (x.histories t), ∀ q ∈ held (x.histories t'), pageOf p ≠ pageOf q) ∧
    (∀ t, ∀ p ∈ held (x.histories t), InMemory s0 p ∧ Free s0 p) ∧
    (∃ s order, Serial servePage pageMonitor.write s0 s x.histories order ∧
      (mx.holder x.lock = none → x.shared = s)) ∧
    ∀ t, mx.holder x.lock = some t →
      ∃ n x', run (pageStep mx) x (List.replicate n (t, .go)) = some x' ∧ mx.holder x'.lock = none := by
  have hinv := pages_reached hinit hl hms hx
  obtain ⟨s, order, hJ, ho, hsame⟩ := hinv.serial
  refine ⟨hJ.once, hJ.apart, fun t p hp => ?_, ⟨s, order, ho, hsame⟩, fun t ht => hinv.release ht⟩
  have hmem := hJ.memory t p hp
  exact ⟨hmem, (hJ.whole p hmem).mpr (.inr ⟨t, hp⟩)⟩

def takePages : List (Bool × Move PageCall Empty) := alone true .pageAllocLow 6 ++ alone false .pageAllocLow 7

theorem takePages_disciplined (s0 : State) :
    Along (pageStep plainMutex) (PageDisciplined plainMutex) (State.init none s0) takePages := by
  apply along_of_forall
  simp [takePages, alone, PageDisciplined, GoodPageCall]

/-- Two threads have a page, and the first one is looking for another one. -/
def takeAndSearch : List (Bool × Move PageCall Empty) :=
  takePages ++ [(true, .call .pageAllocLow), (true, .go)]

theorem takeAndSearch_disciplined (s0 : State) :
    Along (pageStep plainMutex) (PageDisciplined plainMutex) (State.init none s0) takeAndSearch := by
  apply along_of_forall
  simp [takeAndSearch, takePages, alone, PageDisciplined, GoodPageCall]

/-- What `physical_init` returned on 2 MB of memory, who has the lock after the run, and what the two threads hold. -/
def report (ms : List (Bool × Move PageCall Empty)) : Option (Int × Option Bool × List Nat × List Nat) :=
  (physicalInit ⟨0xC0001000, 0xC0002000⟩ ⟨1, 1024, 0, 0, fun _ => ⟨0, 0, 0, 0⟩⟩ ⟨fun _ => 0, 0,
    0⟩).bind fun r =>
    (run (pageStep plainMutex) (State.init none r.1) ms).map fun s =>
      (r.2, s.lock, held (s.histories true), held (s.histories false))

theorem report_cases {ms : List (Bool × Move PageCall Empty)} {r : Int} {l : Option Bool} {ps qs : List Nat}
    (h : report ms = some (r, l, ps, qs)) : ∃ s0 s,
      physicalInit ⟨0xC0001000, 0xC0002000⟩ ⟨1, 1024, 0, 0, fun _ => ⟨0, 0, 0, 0⟩⟩ ⟨fun _ => 0, 0,
        0⟩ = some (s0, r) ∧
      run (pageStep plainMutex) (State.init none s0) ms = some s ∧ s.lock = l ∧ held (s.histories true) = ps ∧
      held (s.histories false) = qs := by
  obtain ⟨⟨s0, r0⟩, hinit, hrest⟩ := Option.bind_eq_some_iff.mp h
  obtain ⟨s, hrun, heq⟩ := Option.map_eq_some_iff.mp hrest
  simp only [Prod.mk.injEq] at heq
  obtain ⟨rfl, hl, hp, hq⟩ := heq
  exact ⟨s0, s, hinit, hrun, hl, hp, hq⟩

theorem pages_held_once_2mb : ∃ s0 s,
    physicalInit ⟨0xC0001000, 0xC0002000⟩ ⟨1, 1024, 0, 0, fun _ => ⟨0, 0, 0, 0⟩⟩ ⟨fun _ => 0, 0, 0⟩ =
      some (s0, SUCCESS) ∧
    run (pageStep plainMutex) (State.init none s0) takeAndSearch = some s ∧ held (s.histories true) = [4096] ∧
    held (s.histories false) = [8192] ∧
    ∀ t t', t ≠ t' → ∀ p ∈ held (s.histories t), ∀ q ∈ held (s.histories t'), pageOf p ≠ pageOf q := by
  have hreport : report takeAndSearch = some (SUCCESS, some true, [4096], [8192]) := by decide +kernel
  obtain ⟨s0, s, hinit, hrun, -, htrue, hfalse⟩ := report_cases hreport
  exact ⟨s0, s, hinit, hrun, htrue, hfalse,
    (pages_held_once _ _ _ s0 hinit plainMutex none rfl _ (takeAndSearch_disciplined s0) s hrun).2.1⟩

omit [DecidableEq T] in
theorem HeldApart.null_iff (h : HeldApart s0 s H) (hs' : physicalPageAlloc s = some (s', a)) :
    a = 0 ↔ ∀ p, InMemory s0 p → Free s0 p → ∃ t, p ∈ held (H t) := by
  have hempty : a = 0 ↔ freePages s physicalLowPaddress s.physicalMaxAddress = ∅ := by
    rw [freePages_split]
    rcases pageAlloc_found h.inv hs' with ⟨hleast, took⟩ | ⟨hhigh, hlow | ⟨hleast, took⟩⟩
    · exact iff_of_false (pos_of_mem_freePages hleast.1 (by decide))
        (Set.Nonempty.ne_empty ⟨a, .inr hleast.1⟩)
    · simp [hhigh, hlow]
    · exact iff_of_false (pos_of_mem_freePages hleast.1 (Nat.le_refl _))
        (Set.Nonempty.ne_empty ⟨a, .inl hleast.1⟩)
  rw [hempty, Set.eq_empty_iff_forall_notMem]
  constructor
  · intro hnone p hp hfree
    refine ((h.whole p hp).mp hfree).resolve_left fun hfree => hnone p ⟨hp.low, ?_, hp.aligned, hfree⟩
    exact h.bounds.2 ▸ hp.high
  · rintro hall p ⟨hlow, hhigh, haligned, hfree⟩
    have hp : InMemory s0 p := ⟨haligned, hlow, h.bounds.2 ▸ hhigh⟩
    obtain ⟨t, ht⟩ := hall p hp ((h.whole p hp).mpr (.inl hfree))
    exact page_ne_of_free (h.taken t p ht) hfree rfl

/-- **No page is lost.** Whenever nobody has the lock, the pages that were free after `physical_init` are those that are
free now and those that some thread holds, each of which is marked taken. If no other thread moves,
`physical_pageAlloc` panics only when the threads hold all of them. -/
theorem pages_never_lost (image : Image) (m : MultibootInfo) (s00 s0 : State)
    (hinit : physicalInit image m s00 = some (s0, SUCCESS)) (mx : Mutex L T) (lock : L)
    (hl : mx.holder lock = none) (ms : List (T × Move PageCall Empty))
    (hms : Along (pageStep mx) (PageDisciplined mx) (State.init lock s0) ms) (x : PageState L T)
    (hx : run (pageStep mx) (State.init lock s0) ms = some x) (hfree : mx.holder x.lock = none) :
    (∀ p, InMemory s0 p → (Free s0 p ↔ Free x.shared p ∨ ∃ t, p ∈ held (x.histories t))) ∧
    (∀ t, ∀ p ∈ held (x.histories t), Taken x.shared p) ∧
    ∃ s' a, physicalPageAlloc x.shared = some (s', a) ∧
      (a = 0 ↔ ∀ p, InMemory s0 p → Free s0 p → ∃ t, p ∈ held (x.histories t)) := by
  have hJ := ((pages_reached hinit hl hms hx).free hfree).now.1
  obtain ⟨s', a, hs', -⟩ := pageAlloc_spec hJ.inv
  exact ⟨hJ.whole, hJ.taken, s', a, hs', hJ.null_iff hs'⟩

theorem pages_never_lost_2mb : ∃ s0 s,
    physicalInit ⟨0xC0001000, 0xC0002000⟩ ⟨1, 1024, 0, 0, fun _ => ⟨0, 0, 0, 0⟩⟩ ⟨fun _ => 0, 0, 0⟩ =
      some (s0, SUCCESS) ∧
    run (pageStep plainMutex) (State.init none s0) takePages = some s ∧ held (s.histories true) = [4096] ∧
    held (s.histories false) = [8192] ∧ ∀ t, ∀ p ∈ held (s.histories t), Taken s.shared p := by
  have hreport : report takePages = some (SUCCESS, none, [4096], [8192]) := by decide +kernel
  obtain ⟨s0, s, hinit, hrun, hlock, htrue, hfalse⟩ := report_cases hreport
  exact ⟨s0, s, hinit, hrun, htrue, hfalse,
    (pages_never_lost _ _ _ s0 hinit plainMutex none rfl _ (takePages_disciplined s0) s hrun hlock).2.1⟩

end SystemProjects.Physical
