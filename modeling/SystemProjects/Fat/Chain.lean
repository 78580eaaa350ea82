import Mathlib.Data.Nat.Init
import SystemProjects.Fat.Code
import SystemProjects.Lib.Links

/-!
# Chains of clusters
-/

open SystemProjects.Lists

namespace SystemProjects.Fat

variable {v : Volume} {fat fat' : Int → Int} {start cluster prev : Int} {pre post chain : List Int}

/-! ## Walking -/

/-- The clusters from `start` up to the end mark. Those that are linked to are not number 0, which
means free. -/
structure ChainFrom (fat : Int → Int) (start : Int) (chain : List Int) : Prop where
  links : Links fat FAIL start chain
  linked : ∀ c ∈ chain.tail, c ≠ 0

theorem ChainFrom.tail (h : ChainFrom fat start (cluster :: post)) : ChainFrom fat (fat cluster) post :=
  ⟨h.links.2.2, fun _ hc => h.linked _ (List.mem_of_mem_tail hc)⟩

theorem ChainFrom.suffix (h : ChainFrom fat start (pre ++ cluster :: post)) :
    ChainFrom fat cluster (cluster :: post) := by
  refine ⟨h.links.suffix, fun c hc => h.linked c ?_⟩
  cases pre with
  | nil => exact hc
  | cons x xs => exact List.mem_append_right xs (List.mem_cons_of_mem _ hc)

theorem ChainFrom.congr (h : ChainFrom fat start chain) (hn : ∀ c ∈ chain, fat' c = fat c) :
    ChainFrom fat' start chain :=
  ⟨h.links.congr hn, h.linked⟩

theorem ChainFrom.nextCluster {next : Int} (h : ChainFrom fat start (cluster :: next :: post)) :
    nextCluster fat cluster = some next := by
  obtain ⟨-, -, hnext, hfail, -⟩ := h.links
  rw [Fat.nextCluster, hnext, if_neg]
  rintro (hfree | heq)
  · exact h.linked next (by simp) hfree
  · exact hfail heq

theorem ChainFrom.nextCluster_last (h : ChainFrom fat start [cluster]) : Fat.nextCluster fat cluster = none :=
  if_pos (.inr h.links.2.2)

theorem ChainFrom.walk (h : ChainFrom fat start (pre ++ cluster :: post)) :
    walkChain fat pre.length start = some cluster := by
  induction pre generalizing start with
  | nil => exact congrArg some h.links.1
  | cons x xs ih =>
    obtain rfl := h.links.1
    have hstep : Fat.nextCluster fat start = some (fat start) := by
      cases xs with
      | nil =>
        obtain heq : fat start = cluster := h.links.2.2.1
        rw [heq]
        exact h.nextCluster
      | cons y ys =>
        obtain heq : fat start = y := h.links.2.2.1
        rw [heq]
        exact h.nextCluster
    rw [List.length_cons, walkChain, hstep, Option.bind_some]
    exact ih h.tail

theorem ChainFrom.walk_getElem (h : ChainFrom fat start chain) {i : Nat} (hi : i < chain.length) :
    walkChain fat i start = some chain[i] := by
  have hsplit : chain.take i ++ chain[i] :: chain.drop (i + 1) = chain := by
    rw [← List.drop_eq_getElem_cons hi, List.take_append_drop]
  have hlen : (chain.take i).length = i := by rw [List.length_take]; omega
  have hwalk := (hsplit ▸ h : ChainFrom fat start (chain.take i ++ chain[i] :: chain.drop (i + 1))).walk
  rwa [hlen] at hwalk

theorem ChainFrom.walk_past (h : ChainFrom fat start chain) (hne : chain ≠ []) {i : Nat}
    (hi : chain.length ≤ i) :
    walkChain fat i start = none := by
  induction chain generalizing start i with
  | nil => exact absurd rfl hne
  | cons c cs ih =>
    obtain ⟨i, rfl⟩ : ∃ j, i = j + 1 := ⟨i - 1, by simp at hi; omega⟩
    obtain rfl := h.links.1
    rw [walkChain]
    cases cs with
    | nil => rw [h.nextCluster_last, Option.bind_none]
    | cons d ds =>
      obtain heq : fat start = d := h.links.2.2.1
      rw [h.nextCluster, Option.bind_some]
      exact ih (heq ▸ h.tail) (by simp) (by simpa using hi)

theorem ChainFrom.mem_of_walk (h : ChainFrom fat start chain) (hne : chain ≠ []) {k : Nat} {c : Int}
    (hwalk : walkChain fat k start = some c) : c ∈ chain := by
  have hlt : k < chain.length := by
    refine Nat.lt_of_not_le fun hge => ?_
    rw [h.walk_past hne hge] at hwalk
    contradiction
  rw [h.walk_getElem hlt] at hwalk
  exact Option.some.inj hwalk ▸ List.getElem_mem hlt

theorem ChainFrom.fat_ne_free (h : ChainFrom fat start chain) {c : Int} (hc : c ∈ chain) :
    fat c ≠ fatFreecluster := by
  obtain ⟨xs, ys, rfl⟩ := List.append_of_mem hc
  have hsuf := h.suffix
  cases ys with
  | nil =>
    rw [hsuf.links.2.2]
    decide
  | cons d ds =>
    rw [hsuf.links.2.2.1]
    exact hsuf.linked d (by simp)

/-! ## Free clusters -/

/-- The free clusters in the order in which the code finds them. -/
def freeClusters (v : Volume) : List Int :=
  ((List.range v.totalClusters).filter fun (i : Nat) => v.fat i = fatFreecluster).map fun (i : Nat) =>
    (i : Int)

theorem mem_freeClusters {c : Int} :
    c ∈ freeClusters v ↔ (∃ i < v.totalClusters, c = (i : Nat)) ∧ v.fat c = fatFreecluster := by
  simp only [freeClusters, List.mem_map, List.mem_filter, List.mem_range, decide_eq_true_eq]
  constructor
  · rintro ⟨i, ⟨hi, hfree⟩, rfl⟩
    exact ⟨⟨i, hi, rfl⟩, hfree⟩
  · rintro ⟨⟨i, hi, rfl⟩, hfree⟩
    exact ⟨i, ⟨hi, hfree⟩, rfl⟩

theorem freeClusters_nodup (v : Volume) : (freeClusters v).Nodup :=
  (List.nodup_range.filter _).map fun _ _ h => Int.ofNat.inj h

theorem fatGetFreeCluster_eq (v : Volume) : fatGetFreeCluster v = (freeClusters v).head?.getD FAIL := by
  rw [fatGetFreeCluster, freeClusters, List.head?_map, List.head?_filter]
  cases List.find? _ _ <;> rfl

theorem freeClusters_set {c value : Int} (hvalue : value ≠ fatFreecluster) :
    freeClusters (fatSetFATCluster v c value) = (freeClusters v).filter (· ≠ c) := by
  rw [freeClusters, freeClusters, List.filter_map, List.filter_filter]
  congr 1
  apply List.filter_congr
  intro i _
  by_cases hi : (i : Int) = c
  · simp [fatSetFATCluster, hi, hvalue]
  · simp [fatSetFATCluster, hi]

theorem freeClusters_set_used {c value : Int} (hvalue : value ≠ fatFreecluster)
    (hc : v.fat c ≠ fatFreecluster) :
    freeClusters (fatSetFATCluster v c value) = freeClusters v := by
  rw [freeClusters_set hvalue, List.filter_eq_self]
  rintro d hd
  simp only [ne_eq, decide_not, Bool.not_eq_true', decide_eq_false_iff_not]
  rintro rfl
  exact hc (mem_freeClusters.mp hd).2

theorem freeClusters_set_head {c value : Int} {cs : List Int} (hvalue : value ≠ fatFreecluster)
    (h : freeClusters v = c :: cs) : freeClusters (fatSetFATCluster v c value) = cs := by
  have hnodup := freeClusters_nodup v
  rw [h] at hnodup
  rw [freeClusters_set hvalue, h, List.filter_cons_of_neg (by simp), List.filter_eq_self]
  intro d hd
  simp only [ne_eq, decide_not, Bool.not_eq_true', decide_eq_false_iff_not]
  rintro rfl
  exact (List.nodup_cons.mp hnodup).1 hd

theorem fatGetFreeCluster_cons {c : Int} {cs : List Int} (h : freeClusters v = c :: cs) :
    fatGetFreeCluster v = c ∧ c ≠ FAIL := by
  constructor
  · rw [fatGetFreeCluster_eq, h]
    rfl
  · obtain ⟨⟨i, -, rfl⟩, -⟩ := mem_freeClusters.mp (h ▸ List.mem_cons_self : c ∈ freeClusters v)
    unfold FAIL
    omega

theorem fatGetFreeCluster_nil (h : freeClusters v = []) : fatGetFreeCluster v = FAIL := by
  rw [fatGetFreeCluster_eq, h]
  rfl

/-! ## New clusters -/

/-- Only links have changed: `prev` is followed by `added`, and the links of other clusters are as before. -/
structure Grown (v v' : Volume) (prev : Int) (added : List Int) : Prop where
  same : v' = { v with fat := v'.fat }
  chain : ChainFrom v'.fat prev (prev :: added)
  others : ∀ c, c ≠ prev → c ∉ added → v'.fat c = v.fat c

theorem Grown.nil (hprev : prev ≠ FAIL) : Grown v (fatSetFATCluster v prev fatEndofcluster) prev [] := by
  refine ⟨rfl, ⟨⟨rfl, hprev, if_pos rfl⟩, by simp⟩, fun c hc _ => if_neg hc⟩

theorem Grown.cons {v0 v' : Volume} {f : Int} {added : List Int} (h : Grown v0 v' f added)
    (hsame : v0 = { v with fat := v0.fat }) (hprev : prev ≠ FAIL) (hf : f ≠ 0) (hne : prev ≠ f)
    (hnotin : prev ∉ added) (hlink : v0.fat prev = f)
    (hothers : ∀ c, c ≠ prev → c ≠ f → v0.fat c = v.fat c) : Grown v v' prev (f :: added) := by
  have hnext : v'.fat prev = f := (h.others prev hne hnotin).trans hlink
  refine ⟨?_, ⟨⟨rfl, hprev, ?_⟩, ?_⟩, ?_⟩
  · rw [h.same, hsame]
  · rw [hnext]
    exact h.chain.links
  · rintro c hc
    rcases List.mem_cons.mp hc with rfl | hc
    · exact hf
    · exact h.chain.linked c hc
  · intro c hc hcs
    rw [List.mem_cons, not_or] at hcs
    rw [h.others c hcs.1 hcs.2, hothers c hc hcs.1]

theorem addClusters_none {k : Nat} (h : freeClusters v = []) : addClusters (k + 1) v prev = (v, none) := by
  rw [addClusters, if_pos (fatGetFreeCluster_nil h)]

theorem addClusters_stops {k : Nat} (h : (addClusters k v prev).2 = none) :
    freeClusters (addClusters k v prev).1 = [] := by
  induction k generalizing v prev with
  | zero => contradiction
  | succ k ih =>
    rw [addClusters] at h ⊢
    split at h
    case isFalse hnext =>
      rw [if_neg hnext]
      exact ih h
    case isTrue hnext =>
      rw [if_pos hnext]
      cases hfree : freeClusters v with
      | nil => rfl
      | cons f fs =>
        obtain ⟨hget, hne⟩ := fatGetFreeCluster_cons hfree
        exact absurd (hget.symm.trans hnext) hne

theorem addClusters_succ {f : Int} {fs : List Int} (h : freeClusters v = f :: fs) (k : Nat) (prev : Int) :
    addClusters (k + 1) v prev = addClusters k (fatSetFATCluster v prev f) f := by
  obtain ⟨hget, hne⟩ := fatGetFreeCluster_cons h
  rw [addClusters, hget, if_neg hne]

theorem first_free {f : Int} {fs : List Int} (h : freeClusters v = f :: fs)
    (hused : v.fat prev ≠ fatFreecluster)
    (hzero : v.fat 0 ≠ fatFreecluster) : f ≠ 0 ∧ f ≠ FAIL ∧ prev ≠ f := by
  have hf := (mem_freeClusters.mp (h ▸ List.mem_cons_self : f ∈ freeClusters v)).2
  refine ⟨?_, (fatGetFreeCluster_cons h).2, ?_⟩
  · rintro rfl
    exact hzero hf
  · rintro rfl
    exact hused hf

/-- Two iterations. The second one finds the same cluster and links it to itself, and only then it is
marked as used. -/
theorem addClusters_two {f : Int} {fs : List Int} (h : freeClusters v = f :: fs)
    (hused : v.fat prev ≠ fatFreecluster) (hzero : v.fat 0 ≠ fatFreecluster) :
    ∃ v2, (∀ k, addClusters (k + 2) v prev = addClusters k v2 f) ∧ freeClusters v2 = fs ∧
      v2 = { v with fat := v2.fat } ∧ v2.fat f = f ∧ v2.fat prev = f ∧
      ∀ c, c ≠ prev → c ≠ f → v2.fat c = v.fat c := by
  obtain ⟨hf0, -, hne⟩ := first_free h hused hzero
  have hfree1 : freeClusters (fatSetFATCluster v prev f) = f :: fs :=
    (freeClusters_set_used hf0 hused).trans h
  refine ⟨fatSetFATCluster (fatSetFATCluster v prev f) f f, fun k => ?_,
    freeClusters_set_head hf0 hfree1, rfl,
    if_pos rfl, ?_, fun c hc hcf => ?_⟩
  · rw [addClusters_succ h, addClusters_succ hfree1]
  · simp [fatSetFATCluster, hne]
  · simp [fatSetFATCluster, hc, hcf]

theorem addClusters_spec (k : Nat) : ∀ (v : Volume) (prev : Int), v.fat prev ≠ fatFreecluster →
    v.fat 0 ≠ fatFreecluster → prev ≠ FAIL → (k + 1) / 2 ≤ (freeClusters v).length →
    ∃ v1 last, addClusters k v prev = (v1, some last) ∧
      Grown v (fatSetFATCluster v1 last fatEndofcluster) prev ((freeClusters v).take ((k + 1) / 2)) := by
  induction k using Nat.twoStepInduction with
  | zero =>
    intro v prev _ _ hprev _
    exact ⟨v, prev, rfl, Grown.nil hprev⟩
  | one =>
    intro v prev hused hzero hprev hlen
    obtain ⟨f, fs, hfree⟩ : ∃ f fs, freeClusters v = f :: fs := List.exists_cons_of_length_pos (by omega)
    obtain ⟨hf0, hfe, hne⟩ := first_free hfree hused hzero
    refine ⟨_, _, addClusters_succ hfree 0 prev, ?_⟩
    rw [hfree]
    exact (Grown.nil hfe).cons rfl hprev hf0 hne (by simp) (if_pos rfl) fun c hc _ => if_neg hc
  | more k ih _ =>
    intro v prev hused hzero hprev hlen
    obtain ⟨f, fs, hfree⟩ : ∃ f fs, freeClusters v = f :: fs := List.exists_cons_of_length_pos (by omega)
    obtain ⟨hf0, hfe, hne⟩ := first_free hfree hused hzero
    obtain ⟨v2, hadd2, hfree2, hsame, hself, hlink, hothers⟩ := addClusters_two hfree hused hzero
    have hzero2 : v2.fat 0 ≠ fatFreecluster := by
      by_cases h0 : 0 = prev
      · rw [h0, hlink]
        exact hf0
      · rw [hothers 0 h0 hf0.symm]
        exact hzero
    rw [hfree, List.length_cons] at hlen
    obtain ⟨v1, last, hadd, hgrown⟩ := ih v2 f (by rw [hself]; exact hf0) hzero2 hfe (by rw [hfree2]; omega)
    have hnotin : prev ∉ (freeClusters v2).take ((k + 1) / 2) := fun hin =>
      hused (mem_freeClusters.mp (hfree ▸ List.mem_cons_of_mem f (hfree2 ▸ List.mem_of_mem_take hin))).2
    refine ⟨v1, last, (hadd2 k).trans hadd, ?_⟩
    rw [hfree, show (k + 2 + 1) / 2 = (k + 1) / 2 + 1 by omega, List.take_succ_cons]
    rw [hfree2] at hgrown hnotin
    exact hgrown.cons hsame hprev hf0 hne hnotin hlink hothers

theorem addClusters_full (k : Nat) : ∀ (v : Volume) (prev : Int), v.fat prev ≠ fatFreecluster →
    v.fat 0 ≠ fatFreecluster → (freeClusters v).length < (k + 1) / 2 →
    ∃ v1, addClusters k v prev = (v1, none) ∧ (freeClusters v = [] → v1 = v) := by
  induction k using Nat.twoStepInduction with
  | zero =>
    intro v prev _ _ hlen
    omega
  | one =>
    intro v prev _ _ hlen
    have hfree : freeClusters v = [] := List.length_eq_zero_iff.mp (by omega)
    exact ⟨v, by rw [addClusters, fatGetFreeCluster_nil hfree, if_pos rfl], fun _ => rfl⟩
  | more k ih _ =>
    intro v prev hused hzero hlen
    cases hfree : freeClusters v with
    | nil => exact ⟨v, by rw [addClusters, fatGetFreeCluster_nil hfree, if_pos rfl], fun _ => rfl⟩
    | cons f fs =>
      obtain ⟨hf0, -, -⟩ := first_free hfree hused hzero
      obtain ⟨v2, hadd2, hfree2, -, hself, hlink, hothers⟩ := addClusters_two hfree hused hzero
      have hzero2 : v2.fat 0 ≠ fatFreecluster := by
        by_cases h0 : 0 = prev
        · rw [h0, hlink]
          exact hf0
        · rw [hothers 0 h0 hf0.symm]
          exact hzero
      rw [hfree, List.length_cons] at hlen
      obtain ⟨v1, hadd, -⟩ := ih v2 f (by rw [hself]; exact hf0) hzero2 (by rw [hfree2]; omega)
      exact ⟨v1, (hadd2 k).trans hadd, nofun⟩

end SystemProjects.Fat
