import Mathlib.Data.List.Basic

/-!
# Runs of a system

A system is a partial step function: `step s a` is the state after the action `a` in `s`, and
`none` when the step has no outcome (it faults or does not end).
-/

namespace SystemProjects.Run

variable {σ α ρ : Type*}

/-! ## Runs -/

/-- The state after the actions `as`, taken one after another from `s`. -/
def run (step : σ → α → Option σ) (s : σ) : List α → Option σ
  | [] => some s
  | a :: as => (step s a).bind fun s' => run step s' as

/-- Every action of the run of `as` from `s` meets `ok` in the state it is taken in. -/
def Along (step : σ → α → Option σ) (ok : σ → α → Prop) (s : σ) : List α → Prop
  | [] => True
  | a :: as => ok s a ∧ ∀ s', step s a = some s' → Along step ok s' as

theorem run_cons {step : σ → α → Option σ} {s s' : σ} {a : α} (h : step s a = some s')
    (as : List α) : run step s (a :: as) = run step s' as := by
  simp [run, h]

theorem Along.imp {step : σ → α → Option σ} {ok ok' : σ → α → Prop} (h : ∀ s a, ok s a → ok' s a)
    (as : List α) :
    ∀ {s : σ}, Along step ok s as → Along step ok' s as := by
  induction as with
  | nil => intro s _; trivial
  | cons a as ih => intro s hs; exact ⟨h s a hs.1, fun s' hs' => ih (hs.2 s' hs')⟩

theorem along_of_forall {step : σ → α → Option σ} {ok : σ → α → Prop} (as : List α) :
    ∀ {s : σ}, (∀ a ∈ as, ∀ s, ok s a) → Along step ok s as := by
  induction as with
  | nil => intro s _; trivial
  | cons a as ih =>
    intro s h
    exact ⟨h a List.mem_cons_self s, fun s' _ => ih fun b hb => h b (List.mem_cons_of_mem _ hb)⟩

theorem Along.cons {step : σ → α → Option σ} {ok : σ → α → Prop} {s s' : σ} {a : α} {as : List α}
    (hok : ok s a)
    (h : step s a = some s') (hs : Along step ok s' as) : Along step ok s (a :: as) :=
  ⟨hok, fun _ h1 => Option.some.inj (h.symm.trans h1) ▸ hs⟩

theorem run_append {step : σ → α → Option σ} (as bs : List α) (s : σ) :
    run step s (as ++ bs) = (run step s as).bind fun s' => run step s' bs := by
  induction as generalizing s with
  | nil => rfl
  | cons a as ih => simp only [List.cons_append, run, ih, Option.bind_assoc]

theorem Along.append {step : σ → α → Option σ} {ok : σ → α → Prop} {as bs : List α} :
    ∀ {s : σ}, Along step ok s as → (∀ s', run step s as = some s' → Along step ok s' bs) →
      Along step ok s (as ++ bs) := by
  induction as with
  | nil => intro s _ hbs; exact hbs s rfl
  | cons a as ih =>
    intro s has hbs
    exact ⟨has.1, fun s1 h1 => ih (has.2 s1 h1) fun s2 h2 => hbs s2 (by rw [run_cons h1, h2])⟩

/-- The run rule. A step that meets `ok` ends and keeps the invariant, so a whole run does. -/
theorem run_invariant {step : σ → α → Option σ} {ok : σ → α → Prop} {I : σ → Prop}
    (hstep : ∀ s a, I s → ok s a → ∃ s', step s a = some s' ∧ I s') (as : List α) :
    ∀ s, I s → Along step ok s as → ∃ s', run step s as = some s' ∧ I s' := by
  induction as with
  | nil => intro s hs _; exact ⟨s, rfl, hs⟩
  | cons a as ih =>
    intro s hs ⟨hok, hrest⟩
    obtain ⟨s1, h1, hs1⟩ := hstep s a hs hok
    obtain ⟨s2, h2, hs2⟩ := ih s1 hs1 (hrest s1 h1)
    exact ⟨s2, by rw [run_cons h1, h2], hs2⟩

theorem run_keeps {step : σ → α → Option σ} {ok : σ → α → Prop} {I : σ → Prop}
    (hstep : ∀ s a s', I s → ok s a → step s a = some s' → I s') (as : List α) :
    ∀ s s', I s → Along step ok s as → run step s as = some s' → I s' := by
  induction as with
  | nil => intro s s' hs _ hrun; exact Option.some.inj hrun ▸ hs
  | cons a as ih =>
    intro s s' hs ⟨hok, hrest⟩ hrun
    obtain ⟨s1, h1, hrun⟩ := Option.bind_eq_some_iff.mp hrun
    exact ih s1 s' (hstep s a s1 hs hok h1) (hrest s1 h1) hrun

/-- The simulation rule. Each step that meets `ok` is matched by a step of `astep`. -/
theorem run_refines {τ : Type*} {step : σ → α → Option σ} {astep : τ → α → τ} {ok : σ → α → Prop}
    {R : σ → τ → Prop}
    (hstep : ∀ s t a, R s t → ok s a → ∃ s', step s a = some s' ∧ R s' (astep t a)) (as : List α) :
    ∀ s t, R s t → Along step ok s as → ∃ s', run step s as = some s' ∧ R s' (as.foldl astep t) := by
  induction as with
  | nil => intro s t hr _; exact ⟨s, rfl, hr⟩
  | cons a as ih =>
    rintro s t hr ⟨hok, hrest⟩
    obtain ⟨s1, h1, hr1⟩ := hstep s t a hr hok
    obtain ⟨s2, h2, hr2⟩ := ih s1 (astep t a) hr1 (hrest s1 h1)
    exact ⟨s2, by rw [run_cons h1, h2], hr2⟩

/-! ## Runs that answer -/

/-- One step of a run, with what it answered. -/
structure Transition (σ α ρ : Type*) where
  pre : σ
  act : α
  out : ρ
  post : σ

/-- The last state of the run of `as` from `s`, and all the answers. -/
def answers (step : σ → α → Option (σ × ρ)) (s : σ) : List α → Option (σ × List ρ)
  | [] => some (s, [])
  | a :: as => (step s a).bind fun r => (answers step r.1 as).map fun rs => (rs.1, r.2 :: rs.2)

/-- The simulation rule for runs that answer: every answer is the one of the abstract step. -/
theorem answers_refines {τ : Type*} {step : σ → α → Option (σ × ρ)} {astep : τ → α → τ × ρ}
    {ok : σ → α → Prop} {R : σ → τ → Prop}
    (hstep : ∀ s t a, R s t → ok s a →
      ∃ s', step s a = some (s', (astep t a).2) ∧ R s' (astep t a).1) (as : List α) :
    ∀ s t, R s t → Along (fun s a => (step s a).map Prod.fst) ok s as →
      ∃ s' t' rs, answers step s as = some (s', rs) ∧
        answers (fun t a => some (astep t a)) t as = some (t', rs) ∧ R s' t' := by
  induction as with
  | nil => intro s t hr _; exact ⟨s, t, [], rfl, rfl, hr⟩
  | cons a as ih =>
    rintro s t hr ⟨hok, hrest⟩
    obtain ⟨s1, h1, hr1⟩ := hstep s t a hr hok
    obtain ⟨s2, t2, rs, h2, h3, hr2⟩ := ih s1 _ hr1 (hrest s1 (by simp [h1]))
    exact ⟨s2, t2, (astep t a).2 :: rs, by simp [answers, h1, h2], by simp [answers, h3], hr2⟩

/-! ## Two runs -/

theorem rel_bind {β γ δ : Type*} {R : α → β → Prop} {S : γ → δ → Prop} {x : Option α} {y : Option β}
    {f : α → Option γ} {g : β → Option δ} (h : Option.Rel R x y)
    (hfg : ∀ a b, R a b → Option.Rel S (f a) (g b)) :
    Option.Rel S (x.bind f) (y.bind g) := by
  cases h with
  | none => exact .none
  | some hr => exact hfg _ _ hr

theorem rel_bind_same {β γ δ : Type*} {S : γ → δ → Prop} {f : β → Option γ} {g : β → Option δ} (x : Option β)
    (hfg : ∀ b, Option.Rel S (f b) (g b)) : Option.Rel S (x.bind f) (x.bind g) := by
  cases x with
  | none => exact .none
  | some b => exact hfg b

theorem rel_map {β γ δ : Type*} {R : α → β → Prop} {S : γ → δ → Prop} {x : Option α} {y : Option β}
    {f : α → γ} {g : β → δ} (h : Option.Rel R x y) (hfg : ∀ a b, R a b → S (f a) (g b)) :
    Option.Rel S (x.map f) (y.map g) := by
  cases h with
  | none => exact .none
  | some hr => exact .some (hfg _ _ hr)

theorem rel_some_left {β : Type*} {R : α → β → Prop} {a : α} {y : Option β} (h : Option.Rel R (some a) y) :
    ∃ b, y = some b ∧ R a b := by
  cases h with
  | some hr => exact ⟨_, rfl, hr⟩

theorem rel_some_right {β : Type*} {R : α → β → Prop} {x : Option α} {b : β} (h : Option.Rel R x (some b)) :
    ∃ a, x = some a ∧ R a b := by
  cases h with
  | some hr => exact ⟨_, rfl, hr⟩

theorem map_snd_cons (r : ρ) (o : Option (σ × List ρ)) :
    (o.map fun rs => (rs.1, r :: rs.2)).map Prod.snd = (o.map Prod.snd).map (r :: ·) := by
  cases o <;> rfl

/-- The rule for two runs of the same actions. Steps in related states answer the same and lead to related states. -/
theorem answers_lockstep {τ : Type*} {step : σ → α → Option (σ × ρ)} {step' : τ → α → Option (τ × ρ)}
    {R : σ → τ → Prop} {ok : α → Prop}
    (hstep : ∀ s t a, R s t → ok a → Option.Rel (fun p q => R p.1 q.1 ∧ p.2 = q.2) (step s a) (step' t a))
    (as : List α) : ∀ s t, R s t → (∀ a ∈ as, ok a) →
      (answers step s as).map Prod.snd = (answers step' t as).map Prod.snd := by
  induction as with
  | nil => intro s t _ _; rfl
  | cons a as ih =>
    intro s t hr hok
    have hsame := hstep s t a hr (hok a List.mem_cons_self)
    rw [answers, answers]
    generalize step s a = x, step' t a = y at hsame ⊢
    cases hsame with
    | none => rfl
    | @some p q hpq =>
      have hrest := ih p.1 q.1 hpq.1 fun a ha => hok a (List.mem_cons_of_mem _ ha)
      rw [Option.bind_some, Option.bind_some, map_snd_cons, map_snd_cons, hrest, hpq.2]

/-- The transitions of the run of `as` from `s`. -/
def trace (step : σ → α → Option (σ × ρ)) (s : σ) : List α → Option (List (Transition σ α ρ))
  | [] => some []
  | a :: as => (step s a).bind fun r => (trace step r.1 as).map (⟨s, a, r.2, r.1⟩ :: ·)

theorem trace_cons {step : σ → α → Option (σ × ρ)} {s s' : σ} {a : α} {r : ρ}
    (h : step s a = some (s', r)) (as : List α) :
    trace step s (a :: as) = (trace step s' as).map (⟨s, a, r, s'⟩ :: ·) := by
  simp [trace, h]

/-- Consecutive transitions meet, each is a step, and the first one starts in `s`. -/
def Linked (step : σ → α → Option (σ × ρ)) : σ → List (Transition σ α ρ) → Prop
  | _, [] => True
  | s, t :: ts => t.pre = s ∧ step s t.act = some (t.post, t.out) ∧ Linked step t.post ts

theorem trace_invariant {step : σ → α → Option (σ × ρ)} {I : σ → Prop}
    (hstep : ∀ s a, I s → ∃ s' r, step s a = some (s', r) ∧ I s') (as : List α) :
    ∀ s, I s → ∃ ts, trace step s as = some ts ∧ Linked step s ts ∧ ∀ t ∈ ts, I t.pre := by
  induction as with
  | nil => intro s _; exact ⟨[], rfl, trivial, by simp⟩
  | cons a as ih =>
    intro s hs
    obtain ⟨s1, r, h1, hs1⟩ := hstep s a hs
    obtain ⟨ts, h2, hl, hpre⟩ := ih s1 hs1
    refine ⟨⟨s, a, r, s1⟩ :: ts, by rw [trace_cons h1, h2]; rfl, ⟨rfl, h1, hl⟩, ?_⟩
    intro t ht
    rcases List.mem_cons.mp ht with rfl | ht
    · exact hs
    · exact hpre t ht

theorem trace_keeps {step : σ → α → Option (σ × ρ)} {ok : σ → α → Prop} {I : σ → Prop}
    {P : Transition σ α ρ → Prop}
    (hstep : ∀ s a s' r, I s → ok s a → step s a = some (s', r) → I s' ∧ P ⟨s, a, r, s'⟩) (as : List α) :
    ∀ s ts, I s → Along (fun s a => (step s a).map Prod.fst) ok s as → trace step s as = some ts →
      ∀ t ∈ ts, P t := by
  induction as with
  | nil =>
    intro s ts _ _ h
    rw [← Option.some.inj h]
    simp
  | cons a as ih =>
    rintro s ts hs ⟨hok, hrest⟩ h
    obtain ⟨⟨s', r⟩, hs', h⟩ := Option.bind_eq_some_iff.mp h
    obtain ⟨us, hus, rfl⟩ := Option.map_eq_some_iff.mp h
    obtain ⟨hkept, hP⟩ := hstep s a s' r hs hok hs'
    intro t ht
    rcases List.mem_cons.mp ht with rfl | ht
    · exact hP
    · exact ih s' us hkept (hrest s' (by simp [hs'])) hus t ht

/-- The run rule for an invariant that speaks of the transitions taken before. -/
theorem trace_history {step : σ → α → Option (σ × ρ)} {ok : σ → α → Prop}
    {I : List (Transition σ α ρ) → σ → Prop}
    (hstep : ∀ us s a s' r, I us s → ok s a → step s a = some (s', r) → I (us ++ [⟨s, a, r, s'⟩]) s')
    (as : List α) :
    ∀ past s ts, I past s → Along (fun s a => (step s a).map Prod.fst) ok s as → trace step s as = some ts →
      ∀ us t vs, ts = us ++ t :: vs →
        I (past ++ us) t.pre ∧ ok t.pre t.act ∧ step t.pre t.act = some (t.post, t.out) := by
  induction as with
  | nil =>
    intro past s ts _ _ h us t vs heq
    rw [← Option.some.inj h] at heq
    simp at heq
  | cons a as ih =>
    rintro past s ts hs ⟨hok, hrest⟩ h us t vs heq
    obtain ⟨⟨s', r⟩, hs', h⟩ := Option.bind_eq_some_iff.mp h
    obtain ⟨ts', hts', rfl⟩ := Option.map_eq_some_iff.mp h
    cases us with
    | nil =>
      obtain ⟨rfl, rfl⟩ := List.cons.inj heq
      rw [List.append_nil]
      exact ⟨hs, hok, hs'⟩
    | cons u us =>
      obtain ⟨rfl, rfl⟩ := List.cons.inj heq
      have hnext := hstep past s a s' r hs hok hs'
      have hlater := ih _ s' _ hnext (hrest s' (by simp [hs'])) hts' us t vs rfl
      rwa [List.append_assoc] at hlater

theorem trace_ends {step : σ → α → Option (σ × ρ)} {ok : σ → α → Prop}
    {I : List (Transition σ α ρ) → σ → Prop}
    (hstep : ∀ us s a, I us s → ok s a → ∃ s' r, step s a = some (s', r) ∧
    I (us ++ [⟨s, a, r, s'⟩]) s') (as : List α) :
    ∀ past s, I past s → Along (fun s a => (step s a).map Prod.fst) ok s as → ∃ ts, trace step s as =
      some ts := by
  induction as with
  | nil => intro past s _ _; exact ⟨[], rfl⟩
  | cons a as ih =>
    rintro past s hs ⟨hok, hrest⟩
    obtain ⟨s', r, hs', hnext⟩ := hstep past s a hs hok
    obtain ⟨ts, hts⟩ := ih _ s' hnext (hrest s' (by simp [hs']))
    exact ⟨_, by rw [trace_cons hs', hts]; rfl⟩

/-- Under an invariant, where one condition on a step says whether it ends, it says so of whole runs. -/
theorem trace_ends_iff {step : σ → α → Option (σ × ρ)} {ok room : σ → α → Prop} {I : σ → Prop}
    (hends : ∀ s a, I s → ok s a → ((∃ s' r, step s a = some (s', r)) ↔ room s a))
    (hkeep : ∀ s a s' r, I s → ok s a → step s a = some (s', r) → I s') (as : List α) :
    ∀ s, I s → Along (fun s a => (step s a).map Prod.fst) ok s as →
      ((∃ ts, trace step s as = some ts) ↔ Along (fun s a => (step s a).map Prod.fst) room s as) := by
  induction as with
  | nil => intro s _ _; simp [trace, Along]
  | cons a as ih =>
    rintro s hs ⟨hok, hrest⟩
    constructor
    · rintro ⟨ts, hts⟩
      obtain ⟨⟨s', r⟩, h1, h2⟩ := Option.bind_eq_some_iff.mp hts
      obtain ⟨us, hus, -⟩ := Option.map_eq_some_iff.mp h2
      have hfst : (step s a).map Prod.fst = some s' := by rw [h1]; rfl
      refine .cons ((hends s a hs hok).mp ⟨s', r, h1⟩) hfst ?_
      exact (ih s' (hkeep s a s' r hs hok h1) (hrest s' hfst)).mp ⟨us, hus⟩
    · rintro ⟨hroom, hlater⟩
      obtain ⟨s', r, h1⟩ := (hends s a hs hok).mpr hroom
      have hfst : (step s a).map Prod.fst = some s' := by rw [h1]; rfl
      obtain ⟨us, hus⟩ := (ih s' (hkeep s a s' r hs hok h1) (hrest s' hfst)).mpr (hlater s' hfst)
      exact ⟨_, by rw [trace_cons h1, hus]; rfl⟩

/-- Where one condition on a step says whether it ends well, it says so of whole runs. -/
theorem trace_iff {step : σ → α → Option (σ × ρ)} {ok : σ → α → Prop} {P : Transition σ α ρ → Prop}
    (hstep : ∀ s a, (∃ s' r, step s a = some (s', r) ∧ P ⟨s, a, r, s'⟩) ↔ ok s a) (as : List α) :
    ∀ s, (∃ ts, trace step s as = some ts ∧ ∀ t ∈ ts, P t) ↔
      Along (fun s a => (step s a).map Prod.fst) ok s as := by
  induction as with
  | nil => intro s; simp [trace, Along]
  | cons a as ih =>
    intro s
    constructor
    · rintro ⟨ts, hts, hP⟩
      obtain ⟨⟨s', r⟩, h1, h2⟩ := Option.bind_eq_some_iff.mp hts
      obtain ⟨us, hus, rfl⟩ := Option.map_eq_some_iff.mp h2
      refine ⟨(hstep s a).mp ⟨s', r, h1, hP _ List.mem_cons_self⟩, fun s1 hs1 => ?_⟩
      obtain rfl : s' = s1 := by simpa [h1] using hs1
      exact (ih s').mp ⟨us, hus, fun t ht => hP t (List.mem_cons_of_mem _ ht)⟩
    · rintro ⟨hok, hrest⟩
      obtain ⟨s', r, h1, hP⟩ := (hstep s a).mpr hok
      obtain ⟨us, hus, hPs⟩ := (ih s').mpr (hrest s' (by simp [h1]))
      refine ⟨⟨s, a, r, s'⟩ :: us, by rw [trace_cons h1, hus]; rfl, ?_⟩
      intro t ht
      rcases List.mem_cons.mp ht with rfl | ht
      · exact hP
      · exact hPs t ht

theorem trace_act {step : σ → α → Option (σ × ρ)} (as : List α) :
    ∀ {s : σ} {ts : List (Transition σ α ρ)}, trace step s as = some ts → ts.map (·.act) = as := by
  induction as with
  | nil => rintro s ts h; rw [← Option.some.inj h]; rfl
  | cons a as ih =>
    intro s ts h
    obtain ⟨⟨s', r⟩, -, h⟩ := Option.bind_eq_some_iff.mp h
    obtain ⟨us, hus, rfl⟩ := Option.map_eq_some_iff.mp h
    rw [List.map_cons, ih hus]

theorem trace_linked {step : σ → α → Option (σ × ρ)} (as : List α) :
    ∀ {s : σ} {ts : List (Transition σ α ρ)}, trace step s as = some ts → Linked step s ts := by
  induction as with
  | nil => intro s ts h; rw [← Option.some.inj h]; trivial
  | cons a as ih =>
    intro s ts h
    obtain ⟨⟨s', r⟩, hs', h⟩ := Option.bind_eq_some_iff.mp h
    obtain ⟨us, hus, rfl⟩ := Option.map_eq_some_iff.mp h
    exact ⟨rfl, hs', ih hus⟩

/-- Each transition of a linked list is a step, and the list goes on where it ended. -/
theorem Linked.step_eq {step : σ → α → Option (σ × ρ)} {t : Transition σ α ρ}
    {us : List (Transition σ α ρ)} :
    ∀ {ts : List (Transition σ α ρ)} {s : σ}, Linked step s (ts ++ t :: us) →
      step t.pre t.act = some (t.post, t.out) ∧ Linked step t.post us := by
  intro ts
  induction ts with
  | nil => rintro s ⟨rfl, h⟩; exact h
  | cons u ts ih => intro s h; exact ih h.2.2

/-- What every action of a certain kind keeps holds up to the next transition. -/
theorem Linked.kept {step : σ → α → Option (σ × ρ)} {P : σ → Prop} {A : α → Prop}
    (hkeep : ∀ s a s' r, P s → A a → step s a = some (s', r) → P s') {t : Transition σ α ρ}
    {us : List (Transition σ α ρ)} :
    ∀ {ts : List (Transition σ α ρ)} {s : σ}, Linked step s (ts ++ t :: us) → P s →
      (∀ u ∈ ts, A u.act) → P t.pre := by
  intro ts
  induction ts with
  | nil => intro s h hs _; exact h.1 ▸ hs
  | cons u ts ih =>
    rintro s ⟨rfl, hstep, h⟩ hs hok
    apply ih h
    · exact hkeep _ _ _ _ hs (hok u List.mem_cons_self) hstep
    · exact fun v hv => hok v (List.mem_cons_of_mem _ hv)

end SystemProjects.Run
