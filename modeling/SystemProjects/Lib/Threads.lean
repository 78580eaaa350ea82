import SystemProjects.Lib.Run

/-!
# Threads and a lock

Threads share a state. A call takes the lock, changes the state step by step and gives the lock back,
and between any two of its steps the other threads may move. What they own they write without the lock.
-/

open SystemProjects.Run

namespace SystemProjects.Threads

variable {σ κ ρ ω L T τ : Type*}

/-! ## Code in steps -/

/-- An answer, or a step on the shared state with how it goes on from what the state was. -/
inductive Code (σ ρ : Type*) where
  | ret (r : ρ)
  | act (upd : σ → σ) (next : σ → Code σ ρ)
  /-- A loop that does not end. -/
  | stuck

namespace Code

def run : Code σ ρ → σ → Option (σ × ρ)
  | ret r, s => some (s, r)
  | act upd next, s => (next s).run (upd s)
  | stuck, _ => none

def bind : Code σ ρ → (ρ → Code σ τ) → Code σ τ
  | ret r, f => f r
  | act upd next, f => act upd fun s => (next s).bind f
  | stuck, _ => stuck

def load (f : σ → ρ) : Code σ ρ := act id fun s => ret (f s)

def store (f : σ → σ) : Code σ Unit := act f fun _ => ret ()

@[simp] theorem run_ret (r : ρ) (s : σ) : (ret r : Code σ ρ).run s = some (s, r) := rfl

@[simp] theorem run_stuck (s : σ) : (stuck : Code σ ρ).run s = none := rfl

@[simp] theorem run_load (f : σ → ρ) (s : σ) : (load f).run s = some (s, f s) := rfl

@[simp] theorem run_store (f : σ → σ) (s : σ) : (store f).run s = some (f s, ()) := rfl

@[simp] theorem run_bind (c : Code σ ρ) (f : ρ → Code σ τ) (s : σ) :
    (c.bind f).run s = (c.run s).bind fun p => (f p.2).run p.1 := by
  induction c generalizing s with
  | ret r => rfl
  | act upd next ih => exact ih s (upd s)
  | stuck => rfl

/-! ## Code apart from the writes of others -/

/-- Every step that `c` takes from `s` reads and changes nothing that the writes `R` change. -/
def Apart (write : ω → σ → σ) (R : ω → Prop) : Code σ ρ → σ → Prop
  | ret _, _ => True
  | act upd next, s =>
    (∀ u, R u → ∀ x, upd (write u x) = write u (upd x) ∧ next (write u x) = next x) ∧
      Apart write R (next s) (upd s)
  | stuck, _ => True

variable {write : ω → σ → σ} {R : ω → Prop} {c : Code σ ρ} {s : σ} {u : ω}

theorem apart_load {f : σ → ρ} (h : ∀ u, R u → ∀ x, f (write u x) = f x) : (load f).Apart write R s :=
  ⟨fun u hu x => ⟨rfl, congrArg ret (h u hu x)⟩, trivial⟩

theorem apart_store {f : σ → σ} (h : ∀ u, R u → ∀ x, f (write u x) = write u (f x)) :
    (store f).Apart write R s :=
  ⟨fun u hu x => ⟨h u hu x, rfl⟩, trivial⟩

theorem Apart.bind {f : ρ → Code σ τ} (hc : c.Apart write R s)
    (hf : ∀ s' r, c.run s = some (s', r) → (f r).Apart write R s') : (c.bind f).Apart write R s := by
  induction c generalizing s with
  | ret r => exact hf s r rfl
  | act upd next ih =>
    obtain ⟨hstep, hrest⟩ := hc
    refine ⟨fun u hu x => ⟨(hstep u hu x).1, ?_⟩, ih s hrest hf⟩
    dsimp only
    rw [(hstep u hu x).2]
  | stuck => trivial

theorem Apart.own (hc : c.Apart write R s) (hu : R u) : c.Apart write R (write u s) := by
  induction c generalizing s with
  | ret r => trivial
  | act upd next ih =>
    obtain ⟨hstep, hrest⟩ := hc
    refine ⟨hstep, ?_⟩
    rw [(hstep u hu s).1, (hstep u hu s).2]
    exact ih s hrest
  | stuck => trivial

/-- A write before the code is as good as one after it. -/
theorem Apart.run_write (hc : c.Apart write R s) (hu : R u) :
    c.run (write u s) = (c.run s).map fun p => (write u p.1, p.2) := by
  induction c generalizing s with
  | ret r => rfl
  | act upd next ih =>
    obtain ⟨hstep, hrest⟩ := hc
    rw [run, run, (hstep u hu s).1, (hstep u hu s).2]
    exact ih s hrest
  | stuck => rfl

theorem Apart.mono {R' : ω → Prop} (hc : c.Apart write R s) (h : ∀ u, R' u → R u) : c.Apart write R' s := by
  induction c generalizing s with
  | ret r => trivial
  | act upd next ih => exact ⟨fun u hu => hc.1 u (h u hu), ih s hc.2⟩
  | stuck => trivial

theorem apart_of_isEmpty [IsEmpty ω] (c : Code σ ρ) : ∀ s, c.Apart write R s := by
  induction c with
  | ret r => exact fun _ => trivial
  | act upd next ih => exact fun s => ⟨fun u => isEmptyElim u, ih s (upd s)⟩
  | stuck => exact fun _ => trivial

end Code

/-! ## The system -/

/-- A lock. `lock` has no outcome where the caller has to wait. -/
structure Mutex (L T : Type*) where
  holder : L → Option T
  lock : L → T → Option L
  unlock : L → T → L
  holder_lock : ∀ {l t l'}, lock l t = some l' → holder l = none ∧ holder l' = some t
  holder_unlock : ∀ {l t}, holder l = some t → holder (unlock l t) = none

/-- The lock that says who has it. -/
def plainMutex : Mutex (Option T) T where
  holder l := l
  lock l t := if l.isNone then some (some t) else none
  unlock _ _ := none
  holder_lock := by
    intro l t l' h
    split at h
    case isTrue hl => exact ⟨Option.isNone_iff_eq_none.mp hl, (Option.some.inj h).symm⟩
    case isFalse => cases h
  holder_unlock _ := rfl

/-- What is called and what is written. A call that `early` answers does not take the lock. -/
structure Monitor (σ κ ρ ω : Type*) where
  early : κ → Option ρ
  body : κ → Code σ ρ
  write : ω → σ → σ

structure Thread (σ κ ρ : Type*) where
  /-- The calls that have returned, with their answers. -/
  history : List (κ × ρ)
  /-- The call that has the lock, and what is left of it. -/
  inside : Option (κ × Code σ ρ)

structure State (σ κ ρ L T : Type*) where
  lock : L
  shared : σ
  threads : T → Thread σ κ ρ

inductive Move (κ ω : Type*) where
  | call (k : κ)
  | go
  | own (u : ω)

variable [DecidableEq T]

def State.setThread (s : State σ κ ρ L T) (t : T) (th : Thread σ κ ρ) : State σ κ ρ L T :=
  { s with threads := fun x => if x = t then th else s.threads x }

/-- The thread starts a call, goes on with the one it is in, or writes what it owns. -/
def step (mx : Mutex L T) (mon : Monitor σ κ ρ ω) (s : State σ κ ρ L T) :
    T × Move κ ω → Option (State σ κ ρ L T)
  | (t, .call k) =>
    match (s.threads t).inside with
    | some _ => none
    | none =>
      match mon.early k with
      | some r => some (s.setThread t { history := (s.threads t).history ++ [(k, r)], inside := none })
      | none => (mx.lock s.lock t).map fun l =>
          { s.setThread t { history := (s.threads t).history, inside := some (k, mon.body k) } with lock := l }
  | (t, .go) =>
    match (s.threads t).inside with
    | some (k, .ret r) =>
      some { s.setThread t { history := (s.threads t).history ++ [(k, r)], inside := none } with
        lock := mx.unlock s.lock t }
    | some (k, .act upd next) =>
      some { s.setThread t { history := (s.threads t).history, inside := some (k, next s.shared) } with
        shared := upd s.shared }
    | _ => none
  | (t, .own u) =>
    match (s.threads t).inside with
    | some _ => none
    | none => some { s with shared := mon.write u s.shared }

/-! ## What a move does -/

variable {mx : Mutex L T} {mon : Monitor σ κ ρ ω} {s s' : State σ κ ρ L T} {t : T} {k : κ} {u : ω}

theorem step_call (h : step mx mon s (t, .call k) = some s') : (s.threads t).inside = none ∧
    ((∃ r, mon.early k = some r ∧
      s' = s.setThread t { history := (s.threads t).history ++ [(k, r)], inside := none }) ∨
    mon.early k = none ∧ ∃ l, mx.lock s.lock t = some l ∧
      s' = { s.setThread t { history := (s.threads t).history, inside := some (k, mon.body k) } with lock := l }) := by
  simp only [step] at h
  split at h
  · cases h
  case h_2 hin =>
    refine ⟨hin, ?_⟩
    split at h
    case h_1 r hr => exact .inl ⟨r, hr, (Option.some.inj h).symm⟩
    case h_2 hr =>
      obtain ⟨l, hl, rfl⟩ := Option.map_eq_some_iff.mp h
      exact .inr ⟨hr, l, hl, rfl⟩

theorem step_go (h : step mx mon s (t, .go) = some s') :
    (∃ k r, (s.threads t).inside = some (k, .ret r) ∧
      s' = { s.setThread t { history := (s.threads t).history ++ [(k, r)], inside := none } with
        lock := mx.unlock s.lock t }) ∨
    ∃ k upd next, (s.threads t).inside = some (k, .act upd next) ∧
      s' = { s.setThread t { history := (s.threads t).history, inside := some (k, next s.shared) } with
        shared := upd s.shared } := by
  simp only [step] at h
  split at h
  case h_1 k r hin => exact .inl ⟨k, r, hin, (Option.some.inj h).symm⟩
  case h_2 k upd next hin => exact .inr ⟨k, upd, next, hin, (Option.some.inj h).symm⟩
  case h_3 => cases h

theorem step_own (h : step mx mon s (t, .own u) = some s') :
    (s.threads t).inside = none ∧ s' = { s with shared := mon.write u s.shared } := by
  simp only [step] at h
  split at h
  · cases h
  case h_2 hin => exact ⟨hin, (Option.some.inj h).symm⟩

/-! ## The rule of the monitor -/

/-- What each thread has been answered. -/
abbrev Histories (κ ρ T : Type*) := T → List (κ × ρ)

def State.histories (s : State σ κ ρ L T) : Histories κ ρ T := fun t => (s.threads t).history

def extend (H : Histories κ ρ T) (t : T) (e : κ × ρ) : Histories κ ρ T :=
  fun x => if x = t then H x ++ [e] else H x

theorem extend_comm (H : Histories κ ρ T) {t t' : T} (h : t ≠ t') (e e' : κ × ρ) :
    extend (extend H t e) t' e' = extend (extend H t' e') t e := by
  funext x
  unfold extend
  by_cases hx : x = t
  · simp [hx, h]
  · simp [hx]

theorem extend_other (H : Histories κ ρ T) {t t' : T} (h : t' ≠ t) (e : κ × ρ) :
    extend H t e t' = H t' := if_neg h

/-- What the clients keep to: `ok` says which calls they make, `may` what each of them writes, and
`keep` what of it is still theirs while a call is under way. -/
structure Rules (mon : Monitor σ κ ρ ω) (T : Type*) [DecidableEq T] where
  /-- What holds of the shared state and the answers when nobody is inside. -/
  J : σ → Histories κ ρ T → Prop
  ok : σ → Histories κ ρ T → T → κ → Prop
  may : List (κ × ρ) → ω → Prop
  keep : List (κ × ρ) → κ → ω → Prop
  early : ∀ {b H t k r}, J b H → mon.early k = some r → J b (extend H t (k, r))
  early_may : ∀ {h k r u}, mon.early k = some r → may (h ++ [(k, r)]) u → may h u
  write : ∀ {b H t u}, J b H → may (H t) u → J (mon.write u b) H
  call : ∀ {b H t k}, J b H → mon.early k = none → ok b H t k →
    ∃ b' r, (mon.body k).run b = some (b', r) ∧ J b' (extend H t (k, r))
  apart : ∀ {b H t k}, J b H → mon.early k = none → ok b H t k →
    (mon.body k).Apart mon.write (fun u => (∃ t', t' ≠ t ∧ may (H t') u) ∨ keep (H t) k u) b

variable (R : Rules mon T)

/-- The moves that keep to the rules. -/
def Permitted (mx : Mutex L T) (s : State σ κ ρ L T) : T × Move κ ω → Prop
  | (t, .call k) => mon.early k = none → mx.holder s.lock = none → R.ok s.shared s.histories t k
  | (_, .go) => True
  | (t, .own u) => R.may (s.histories t) u

def Owns (s : State σ κ ρ L T) (t : T) (u : ω) : Prop :=
  match (s.threads t).inside with
  | none => R.may (s.histories t) u
  | some (k, _) => R.keep (s.histories t) k u

/-- A thread is inside. Its call will end, with a state and an answer that keep the invariant. -/
structure Held (s : State σ κ ρ L T) (t : T) : Prop where
  before : ∃ b, R.J b s.histories
  others : ∀ t', t' ≠ t → (s.threads t').inside = none
  call : ∃ k c b r, (s.threads t).inside = some (k, c) ∧ c.run s.shared = some (b, r) ∧
    R.J b (extend s.histories t (k, r)) ∧ c.Apart mon.write (fun u => ∃ t', Owns R s t' u) s.shared

structure Free (s : State σ κ ρ L T) : Prop where
  now : R.J s.shared s.histories
  nobody : ∀ t, (s.threads t).inside = none

def Inv (mx : Mutex L T) (s : State σ κ ρ L T) : Prop :=
  match mx.holder s.lock with
  | none => Free R s
  | some t => Held R s t

variable {R}

theorem Inv.free (h : Inv R mx s) (hl : mx.holder s.lock = none) : Free R s := by
  unfold Inv at h
  rwa [hl] at h

theorem Inv.held (h : Inv R mx s) (hl : mx.holder s.lock = some t) : Held R s t := by
  unfold Inv at h
  rwa [hl] at h

theorem Free.inv (h : Free R s) (hl : mx.holder s.lock = none) : Inv R mx s := by
  unfold Inv
  rwa [hl]

theorem Held.inv (h : Held R s t) (hl : mx.holder s.lock = some t) : Inv R mx s := by
  unfold Inv
  rwa [hl]

theorem Inv.exists_J (h : Inv R mx s) : ∃ b, R.J b s.histories := by
  cases hl : mx.holder s.lock with
  | none => exact ⟨_, (h.free hl).now⟩
  | some t => exact (h.held hl).before

theorem Inv.inside (h : Inv R mx s) (hin : (s.threads t).inside ≠ none) :
    mx.holder s.lock = some t ∧ Held R s t := by
  cases hl : mx.holder s.lock with
  | none => exact absurd ((h.free hl).nobody t) hin
  | some t' =>
    have hh := h.held hl
    have ht : t = t' := by
      by_contra hne
      exact hin (hh.others t hne)
    exact ⟨by rw [ht], ht ▸ hh⟩

theorem owns_of_outside (h : (s.threads t).inside = none) : Owns R s t u ↔ R.may (s.histories t) u := by
  unfold Owns
  rw [h]

theorem owns_of_inside {c : Code σ ρ} (h : (s.threads t).inside = some (k, c)) :
    Owns R s t u ↔ R.keep (s.histories t) k u := by
  unfold Owns
  rw [h]

/-! ## What a step keeps -/

/-- The state after a call that did not need the lock. -/
def State.answered (s : State σ κ ρ L T) (t : T) (e : κ × ρ) : State σ κ ρ L T :=
  s.setThread t { history := (s.threads t).history ++ [e], inside := none }

theorem histories_answered (e : κ × ρ) : (s.answered t e).histories = extend s.histories t e := by
  funext x
  simp only [State.histories, State.answered, State.setThread, extend]
  split
  case isTrue h => rw [h]
  case isFalse => rfl

theorem histories_inside (x : Option (κ × Code σ ρ)) :
    (s.setThread t { history := (s.threads t).history, inside := x }).histories = s.histories := by
  funext y
  simp only [State.histories, State.setThread]
  split
  case isTrue h => rw [h]
  case isFalse => rfl

theorem inside_setThread_other {t' : T} (h : t' ≠ t) (th : Thread σ κ ρ) :
    ((s.setThread t th).threads t').inside = (s.threads t').inside := by
  simp [State.setThread, h]

theorem inside_setThread_self (th : Thread σ κ ρ) : ((s.setThread t th).threads t).inside = th.inside := by
  simp [State.setThread]

theorem owns_answered {r : ρ} {t' : T} (hr : mon.early k = some r) (hin : (s.threads t).inside = none)
    (h : Owns R (s.answered t (k, r)) t' u) : Owns R s t' u := by
  by_cases ht : t' = t
  · subst ht
    rw [owns_of_outside (inside_setThread_self _), histories_answered, extend, if_pos rfl] at h
    exact (owns_of_outside hin).mpr (R.early_may hr h)
  · unfold Owns at h ⊢
    rw [State.answered, inside_setThread_other ht, ← State.answered, histories_answered,
      extend_other _ ht] at h
    exact h

theorem Free.answered {r : ρ} (h : Free R s) (hr : mon.early k = some r) : Free R (s.answered t (k, r)) where
  now := by
    rw [histories_answered]
    exact R.early h.now hr
  nobody t' := by
    by_cases ht : t' = t
    · subst ht; exact inside_setThread_self _
    · exact (inside_setThread_other ht _).trans (h.nobody t')

theorem Held.answered {r : ρ} {t' : T} (h : Held R s t') (hr : mon.early k = some r)
    (hin : (s.threads t).inside = none) : Held R (s.answered t (k, r)) t' := by
  obtain ⟨k', c, b, r', hin', hrun, hJ, hapart⟩ := h.call
  have hne : t' ≠ t := by
    rintro rfl
    rw [hin] at hin'
    cases hin'
  refine ⟨?_, ?_, k', c, b, r', (inside_setThread_other hne _).trans hin', hrun, ?_, ?_⟩
  · obtain ⟨b, hb⟩ := h.before
    exact ⟨b, by rw [histories_answered]; exact R.early hb hr⟩
  · intro x hx
    by_cases hxt : x = t
    · subst hxt; exact inside_setThread_self _
    · exact (inside_setThread_other hxt _).trans (h.others x hx)
  · rw [histories_answered, extend_comm _ (Ne.symm hne)]
    exact R.early hJ hr
  · apply hapart.mono
    rintro u ⟨x, hx⟩
    exact ⟨x, owns_answered hr hin hx⟩

theorem Free.enter {l : L} (h : Free R s) (hr : mon.early k = none) (hok : R.ok s.shared s.histories t k) :
    Held R { s.setThread t { history := (s.threads t).history, inside := some (k, mon.body k) } with
      lock := l } t := by
  obtain ⟨b, r, hrun, hJ⟩ := R.call h.now hr hok
  have hH := histories_inside (s := s) (t := t) (some (k, mon.body k))
  refine ⟨⟨s.shared, ?_⟩, ?_, k, mon.body k, b, r, inside_setThread_self _, hrun, ?_, ?_⟩
  · exact hH.symm ▸ h.now
  · intro x hx
    exact (inside_setThread_other hx _).trans (h.nobody x)
  · exact hH.symm ▸ hJ
  · apply (R.apart h.now hr hok).mono
    rintro u ⟨x, hx⟩
    by_cases hxt : x = t
    · subst hxt
      exact .inr (hH ▸ (owns_of_inside (inside_setThread_self _)).mp hx)
    · exact .inl ⟨x, hxt, hH ▸ (owns_of_outside ((inside_setThread_other hxt _).trans (h.nobody x))).mp hx⟩

theorem Held.act {upd : σ → σ} {next : σ → Code σ ρ} (h : Held R s t)
    (hin : (s.threads t).inside = some (k, .act upd next)) :
    Held R { s.setThread t { history := (s.threads t).history, inside := some (k, next s.shared) } with
      shared := upd s.shared } t := by
  obtain ⟨k', c, b, r, hin', hrun, hJ, hapart⟩ := h.call
  obtain ⟨rfl, rfl⟩ := Prod.mk.inj (Option.some.inj (hin'.symm.trans hin))
  have hH := histories_inside (s := s) (t := t) (some (k', next s.shared))
  refine ⟨?_, ?_, k', next s.shared, b, r, inside_setThread_self _, hrun, ?_, ?_⟩
  · obtain ⟨b, hb⟩ := h.before
    exact ⟨b, hH.symm ▸ hb⟩
  · intro x hx
    exact (inside_setThread_other hx _).trans (h.others x hx)
  · exact hH.symm ▸ hJ
  · apply hapart.2.mono
    rintro u ⟨x, hx⟩
    refine ⟨x, ?_⟩
    by_cases hxt : x = t
    · subst hxt
      exact (owns_of_inside hin).mpr (hH ▸ (owns_of_inside (inside_setThread_self _)).mp hx)
    · have hout := h.others x hxt
      exact (owns_of_outside hout).mpr (hH ▸ (owns_of_outside
        ((inside_setThread_other hxt _).trans hout)).mp hx)

theorem Held.leave {r : ρ} {l : L} (h : Held R s t) (hin : (s.threads t).inside = some (k, .ret r)) :
    Free R { s.answered t (k, r) with lock := l } := by
  obtain ⟨k', c, b, r', hin', hrun, hJ, -⟩ := h.call
  obtain ⟨rfl, rfl⟩ := Prod.mk.inj (Option.some.inj (hin'.symm.trans hin))
  obtain ⟨rfl, rfl⟩ := Prod.mk.inj (Option.some.inj hrun)
  refine ⟨(histories_answered (s := s) (t := t) (k', r)).symm ▸ hJ, fun x => ?_⟩
  by_cases hxt : x = t
  · subst hxt; exact inside_setThread_self _
  · exact (inside_setThread_other hxt _).trans (h.others x hxt)

theorem Free.own (h : Free R s) (hu : R.may (s.histories t) u) :
    Free R { s with shared := mon.write u s.shared } :=
  ⟨R.write h.now hu, h.nobody⟩

theorem Held.own {t' : T} (h : Held R s t') (hin : (s.threads t).inside = none)
    (hu : R.may (s.histories t) u) :
    Held R { s with shared := mon.write u s.shared } t' := by
  obtain ⟨k, c, b, r, hin', hrun, hJ, hapart⟩ := h.call
  have hne : t ≠ t' := by
    rintro rfl
    rw [hin] at hin'
    cases hin'
  have howns : Owns R s t u := (owns_of_outside hin).mpr hu
  refine ⟨?_, h.others, k, c, mon.write u b, r, hin', ?_, ?_, hapart.own ⟨t, howns⟩⟩
  · obtain ⟨b, hb⟩ := h.before
    exact ⟨mon.write u b, R.write hb hu⟩
  · show c.run (mon.write u s.shared) = some (mon.write u b, r)
    rw [hapart.run_write ⟨t, howns⟩, hrun]
    rfl
  · refine R.write (t := t) hJ ?_
    rw [extend_other _ hne]
    exact hu

/-- **The rule of the monitor.** What the rules say holds in every state that the threads reach. -/
theorem inv_step {m : T × Move κ ω} (h : Inv R mx s) (hm : Permitted R mx s m)
    (hs : step mx mon s m = some s') :
    Inv R mx s' := by
  obtain ⟨t, m⟩ := m
  cases m with
  | call k =>
    obtain ⟨hin, ⟨r, hr, rfl⟩ | ⟨hr, l, hl, rfl⟩⟩ := step_call hs
    · cases hlock : mx.holder s.lock with
      | none => exact ((h.free hlock).answered hr).inv hlock
      | some t' => exact ((h.held hlock).answered hr hin).inv hlock
    · obtain ⟨hbefore, hafter⟩ := mx.holder_lock hl
      exact ((h.free hbefore).enter hr (hm hr hbefore)).inv hafter
  | go =>
    obtain ⟨k, r, hin, rfl⟩ | ⟨k, upd, next, hin, rfl⟩ := step_go hs
    · obtain ⟨hlock, hheld⟩ := h.inside (t := t) (by rw [hin]; nofun)
      exact (hheld.leave hin).inv (mx.holder_unlock hlock)
    · obtain ⟨hlock, hheld⟩ := h.inside (t := t) (by rw [hin]; nofun)
      exact (hheld.act hin).inv hlock
  | own u =>
    obtain ⟨hin, rfl⟩ := step_own hs
    cases hlock : mx.holder s.lock with
    | none => exact ((h.free hlock).own hm).inv hlock
    | some t' => exact ((h.held hlock).own hin hm).inv hlock

theorem inv_run (ms : List (T × Move κ ω)) (h : Inv R mx s) (hms : Along (step mx mon) (Permitted R mx) s ms)
    (hs : run (step mx mon) s ms = some s') : Inv R mx s' :=
  run_keeps (fun _ _ _ hi hok hst => inv_step hi hok hst) ms s s' h hms hs

/-- The state after a call that returned and left `b`. -/
def State.returned (mx : Mutex L T) (s : State σ κ ρ L T) (t : T) (e : κ × ρ) (b : σ) : State σ κ ρ L T :=
  { s.answered t e with lock := mx.unlock s.lock t, shared := b }

/-- A thread that is inside comes to the end of its call when it goes on. -/
theorem go_ends {c : Code σ ρ} {b : σ} {r : ρ} (hin : (s.threads t).inside = some (k, c))
    (hrun : c.run s.shared = some (b, r)) :
    ∃ n, run (step mx mon) s (List.replicate n (t, .go)) = some (s.returned mx t (k, r) b) := by
  induction c generalizing s with
  | ret r' =>
    obtain ⟨rfl, rfl⟩ := Prod.mk.inj (Option.some.inj hrun)
    refine ⟨1, ?_⟩
    simp only [List.replicate_one, run, step, hin]
    rfl
  | act upd next ih =>
    have hstep : step mx mon s (t, .go) =
        some { s.setThread t { history := (s.threads t).history, inside := some (k, next s.shared) } with
          shared := upd s.shared } := by simp [step, hin]
    have hin' : ({ s.setThread t { history := (s.threads t).history, inside := some (k, next s.shared) } with
        shared := upd s.shared }.threads t).inside = some (k, next s.shared) := inside_setThread_self _
    obtain ⟨n, hn⟩ := ih s.shared hin' hrun
    refine ⟨n + 1, ?_⟩
    rw [List.replicate_succ, run_cons hstep, hn]
    congr 1
    simp only [State.returned, State.answered, State.setThread, State.mk.injEq, true_and, if_pos]
    funext x
    split <;> rfl
  | stuck => cases hrun

/-- The moves of a call that nobody disturbs. -/
def alone (t : T) (k : κ) (n : Nat) : List (T × Move κ ω) := (t, .call k) :: List.replicate n (t, .go)

theorem alone_ends {l : L} {b : σ} {r : ρ} (hin : (s.threads t).inside = none) (hearly : mon.early k = none)
    (hlock : mx.lock s.lock t = some l) (hrun : (mon.body k).run s.shared = some (b, r)) :
    ∃ n, run (step mx mon) s (alone t k n) = some ({ s with lock := l }.returned mx t (k, r) b) := by
  have hstep : step mx mon s (t, .call k) =
      some { s.setThread t { history := (s.threads t).history, inside := some (k, mon.body k) } with lock := l } := by
    simp [step, hin, hearly, hlock]
  have hin' : ({ s.setThread t { history := (s.threads t).history, inside := some (k, mon.body k) } with
      lock := l }.threads t).inside = some (k, mon.body k) := inside_setThread_self _
  obtain ⟨n, hn⟩ := go_ends hin' hrun
  refine ⟨n, ?_⟩
  rw [alone, run_cons hstep, hn]
  congr 1
  simp only [State.returned, State.answered, State.setThread, State.mk.injEq, true_and, if_pos]
  funext x
  split <;> rfl

/-- A thread that is inside gives the lock back when it goes on. -/
theorem Inv.release (h : Inv R mx s) (hl : mx.holder s.lock = some t) :
    ∃ n s', run (step mx mon) s (List.replicate n (t, .go)) = some s' ∧ mx.holder s'.lock = none := by
  obtain ⟨k, c, b, r, hin, hrun, -, -⟩ := (h.held hl).call
  obtain ⟨n, hn⟩ := go_ends hin hrun
  exact ⟨n, _, hn, mx.holder_unlock hl⟩

/-! ## What is owned -/

/-- No move changes what a thread owns, but a write of its own. Two threads' writes have to commute. -/
theorem owned_kept {m : T × Move κ ω} (h : Inv R mx s)
    (hcomm : ∀ t t' u u', t ≠ t' → R.may (s.histories t) u → Owns R s t' u' →
      ∀ x, mon.write u (mon.write u' x) = mon.write u' (mon.write u x))
    (hm : Permitted R mx s m) (hs : step mx mon s m = some s') {u : ω} (hu : Owns R s t u)
    (hsame : mon.write u s.shared = s.shared) (hother : ∀ u', m ≠ (t, .own u')) :
    mon.write u s'.shared = s'.shared := by
  obtain ⟨t', m⟩ := m
  cases m with
  | call k =>
    obtain ⟨-, ⟨r, -, rfl⟩ | ⟨-, l, -, rfl⟩⟩ := step_call hs
    · exact hsame
    · exact hsame
  | go =>
    obtain ⟨k, r, -, rfl⟩ | ⟨k, upd, next, hin, rfl⟩ := step_go hs
    · exact hsame
    · obtain ⟨-, hheld⟩ := h.inside (t := t') (by rw [hin]; nofun)
      obtain ⟨k', c, b, r, hin', -, -, hapart⟩ := hheld.call
      obtain ⟨rfl, rfl⟩ := Prod.mk.inj (Option.some.inj (hin'.symm.trans hin))
      have := (hapart.1 u ⟨t, hu⟩ s.shared).1
      rw [hsame] at this
      exact this.symm
  | own u' =>
    obtain ⟨-, rfl⟩ := step_own hs
    have hne : t' ≠ t := by
      rintro rfl
      exact hother u' rfl
    show mon.write u (mon.write u' s.shared) = mon.write u' s.shared
    rw [← hcomm t' t u' u hne hm hu, hsame]

/-! ## Serial orders -/

/-- A call with its answer, or a write. -/
inductive Event (κ ρ ω : Type*) where
  | call (k : κ) (r : ρ)
  | own (u : ω)

/-- What was done, and by whom. -/
abbrev Order (κ ρ ω T : Type*) := List (T × Event κ ρ ω)

section

variable {serve : σ → κ → Option (σ × ρ)} {write : ω → σ → σ} {s0 b b' : σ} {e : Event κ ρ ω}
    {H : Histories κ ρ T}
  {order : Order κ ρ ω T}

/-- The event alone, while nobody else moves. -/
def Event.Does (serve : σ → κ → Option (σ × ρ)) (write : ω → σ → σ) (b b' : σ) : Event κ ρ ω → Prop
  | call k r => serve b k = some (b', r)
  | own u => b' = write u b

/-- The events one after another. -/
def Leads (serve : σ → κ → Option (σ × ρ)) (write : ω → σ → σ) (b : σ) : Order κ ρ ω T → σ → Prop
  | [], b' => b' = b
  | (_, e) :: order, b' => ∃ b1, e.Does serve write b b1 ∧ Leads serve write b1 order b'

/-- The calls of a thread. -/
def callsOf (t : T) (order : Order κ ρ ω T) : List (κ × ρ) :=
  order.filterMap fun e =>
    match e.2 with
    | .call k r => if e.1 = t then some (k, r) else none
    | .own _ => none

/-- The state and every answer are those of one thing after another, in an order that each thread agrees with. -/
structure Serial (serve : σ → κ → Option (σ × ρ)) (write : ω → σ → σ) (s0 b : σ) (H : Histories κ ρ T)
    (order : Order κ ρ ω T) : Prop where
  leads : Leads serve write s0 order b
  agreed : ∀ t, callsOf t order = H t

omit [DecidableEq T] in
theorem leads_concat (t : T) (he : e.Does serve write b b') : ∀ {s0 : σ}, Leads serve write s0 order b →
    Leads serve write s0 (order ++ [(t, e)]) b' := by
  induction order with
  | nil =>
    rintro s0 rfl
    exact ⟨b', he, rfl⟩
  | cons f order ih =>
    rintro s0 ⟨b1, hf, hrest⟩
    exact ⟨b1, hf, ih hrest⟩

theorem callsOf_concat (t : T) (order : Order κ ρ ω T) (x : T × Event κ ρ ω) :
    callsOf t (order ++ [x]) = callsOf t order ++ callsOf t [x] := List.filterMap_append

theorem serial_nil (s0 : σ) : Serial serve write s0 s0 (fun _ : T => []) [] := ⟨rfl, fun _ => rfl⟩

theorem Serial.call (h : Serial serve write s0 b H order) {k : κ} {r : ρ}
    (hk : serve b k = some (b', r)) (t : T) :
    Serial serve write s0 b' (extend H t (k, r)) (order ++ [(t, .call k r)]) where
  leads := leads_concat (e := .call k r) t hk h.leads
  agreed x := by
    rw [callsOf_concat, h.agreed]
    by_cases hx : x = t
    · simp [callsOf, extend, hx]
    · simp [callsOf, extend, hx, Ne.symm hx]

theorem Serial.own (h : Serial serve write s0 b H order) (t : T) (u : ω) :
    Serial serve write s0 (write u b) H (order ++ [(t, .own u)]) where
  leads := leads_concat (e := .own u) t rfl h.leads
  agreed x := by
    rw [callsOf_concat, h.agreed]
    simp [callsOf]

end

/-- The rules, and a serial order beside what holds. `serve` is each call as one step. -/
def Rules.serial (R : Rules mon T) (serve : σ → κ → Option (σ × ρ)) (s0 : σ)
    (hearly : ∀ b k r, mon.early k = some r → serve b k = some (b, r))
    (hbody : ∀ b k, mon.early k = none → (mon.body k).run b = serve b k) : Rules mon T where
  J b H := R.J b H ∧ ∃ order, Serial serve mon.write s0 b H order
  ok := R.ok
  may := R.may
  keep := R.keep
  early := by
    rintro b H t k r ⟨hJ, order, ho⟩ hr
    exact ⟨R.early hJ hr, _, ho.call (hearly b k r hr) t⟩
  early_may := R.early_may
  write := by
    rintro b H t u ⟨hJ, order, ho⟩ hu
    exact ⟨R.write hJ hu, _, ho.own t u⟩
  call := by
    rintro b H t k ⟨hJ, order, ho⟩ hr hok
    obtain ⟨b', r, hrun, hJ'⟩ := R.call hJ hr hok
    exact ⟨b', r, hrun, hJ', _, ho.call ((hbody b k hr).symm.trans hrun) t⟩
  apart := fun hJ hr hok => R.apart hJ.1 hr hok

/-- What the threads were answered is serial, and so is the shared state when nobody has the lock. -/
theorem Inv.serial {serve : σ → κ → Option (σ × ρ)} {s0 : σ} {hearly} {hbody}
    (h : Inv (R.serial serve s0 hearly hbody) mx s) : ∃ b order, R.J b s.histories ∧
      Serial serve mon.write s0 b s.histories order ∧ (mx.holder s.lock = none → s.shared = b) := by
  cases hl : mx.holder s.lock with
  | none =>
    have hnow := (h.free hl).now
    obtain ⟨order, ho⟩ := hnow.2
    exact ⟨s.shared, order, hnow.1, ho, fun _ => rfl⟩
  | some t =>
    obtain ⟨b, hb⟩ := (h.held hl).before
    obtain ⟨order, ho⟩ := hb.2
    exact ⟨b, order, hb.1, ho, nofun⟩

/-! ## The start -/

def State.init (lock : L) (shared : σ) : State σ κ ρ L T :=
  { lock := lock, shared := shared, threads := fun _ => { history := [], inside := none } }

theorem inv_init {lock : L} {shared : σ} (hl : mx.holder lock = none) (h : R.J shared fun _ => []) :
    Inv R mx (State.init lock shared) :=
  Free.inv ⟨h, fun _ => rfl⟩ hl

end SystemProjects.Threads
