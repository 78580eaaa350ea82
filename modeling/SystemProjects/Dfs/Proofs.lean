import Mathlib.Data.List.Basic
import SystemProjects.Dfs.Code

/-!
# Runs of the device registry

`dfs_remove` takes out the newest device of a name and no other one.
-/

open SystemProjects.Run

namespace SystemProjects.Dfs

variable {τ : Type}

/-! ## What is claimed of a call -/

def Op.names : Op τ → List Name
  | .add name _ _ => [name]
  | .copy _ dst => [dst]
  | .rename src dst => [src, dst]
  | .delete name => [name]

/-- The devices that have none of the names, in the order of the list. -/
def others (names : List Name) (devices : List (DfsEntry τ)) : List (DfsEntry τ) :=
  devices.filter fun device => device.name ∉ names

structure Kept (t : Transition (List (DfsEntry τ)) (Op τ) Int) : Prop where
  deleted : ∀ name, t.act = .delete name → t.out = SUCCESS → dfsFind t.post name = none
  gone : ∀ src dst, t.act = .rename src dst → t.out = SUCCESS → src ≠ dst →
    dfsFind t.post src = none
  moved : ∀ src dst, t.act = .rename src dst → t.out = SUCCESS → src ≠ dst →
    ∃ device, dfsFind t.pre src = some device ∧ dfsFind t.post dst = some { device with name := dst }
  found : ∀ name, name ∉ t.act.names → dfsFind t.post name = dfsFind t.pre name
  order : others t.act.names t.post = others t.act.names t.pre

/-! ## When that holds -/

def times (devices : List (DfsEntry τ)) (name : Name) : Nat :=
  devices.countP fun device => device.name = name

def OpOk (devices : List (DfsEntry τ)) : Op τ → Prop
  | .add _ _ _ => True
  | .copy src dst => dfsFind devices src = none ∨ dst.length % 8 ≠ 0
  | .rename src dst =>
    dfsFind devices src = none ∨ dst.length % 8 ≠ 0 ∧ (src = dst ∨ times devices src ≤ 1)
  | .delete name => times devices name ≤ 1

/-! ## The list -/

theorem unlinkInner_eq {name : Name} {d : DfsEntry τ} (h : d.name ≠ name) (devices : List (DfsEntry τ)) :
    unlinkInner name (d :: devices) = (d :: devices).eraseP fun device => device.name = name := by
  induction devices generalizing d with
  | nil => simp [unlinkInner, h]
  | cons device prev ih =>
    rw [unlinkInner, List.eraseP_cons_of_neg (by simpa using h)]
    split
    · rename_i hd
      rw [List.eraseP_cons_of_pos (by simpa using hd)]
    · rename_i hd
      rw [ih hd]

theorem unlink_eq (name : Name) (devices : List (DfsEntry τ)) :
    unlink name devices = devices.eraseP fun device => device.name = name := by
  cases devices with
  | nil => rfl
  | cons device prev =>
    rw [unlink]
    split
    · rename_i hd
      rw [List.eraseP_cons_of_pos (by simpa using hd)]
    · rename_i hd
      exact unlinkInner_eq hd prev

theorem dfsFind_eq_none {devices : List (DfsEntry τ)} {name : Name} :
    dfsFind devices name = none ↔ times devices name = 0 := by
  simp [dfsFind, times]

theorem dfsFind_unlink {devices : List (DfsEntry τ)} {name : Name} :
    dfsFind (unlink name devices) name = none ↔ times devices name ≤ 1 := by
  rw [dfsFind_eq_none, unlink_eq]
  induction devices with
  | nil => simp [times]
  | cons device prev ih =>
    unfold times at *
    by_cases hd : device.name = name
    · rw [List.eraseP_cons_of_pos (by simpa using hd), List.countP_cons_of_pos (by simpa using hd)]
      omega
    · rw [List.eraseP_cons_of_neg (by simpa using hd), List.countP_cons_of_neg (by simpa using hd),
        List.countP_cons_of_neg (by simpa using hd)]
      exact ih

/-! ## Devices of other names -/

theorem others_add {names : List Name} {name : Name} (h : name ∈ names) (devices : List (DfsEntry τ))
    (calltable : τ) (type : Int) :
    others names (dfsAdd devices name calltable type) = others names devices := by
  simp [others, dfsAdd, h]

theorem others_unlink {names : List Name} {name : Name} (h : name ∈ names) (devices : List (DfsEntry τ)) :
    others names (unlink name devices) = others names devices := by
  rw [unlink_eq]
  induction devices with
  | nil => rfl
  | cons device prev ih =>
    unfold others at *
    by_cases hd : device.name = name
    · rw [List.eraseP_cons_of_pos (by simpa using hd), List.filter_cons_of_neg (by simpa [hd] using h)]
    · rw [List.eraseP_cons_of_neg (by simpa using hd), List.filter_cons, List.filter_cons, ih]

theorem dfsFind_others {names : List Name} {name : Name} (h : name ∉ names) (devices : List (DfsEntry τ)) :
    dfsFind (others names devices) name = dfsFind devices name := by
  unfold dfsFind others
  rw [List.find?_filter]
  apply congrArg (List.find? · devices)
  funext device
  by_cases hd : device.name = name
  · simp [hd, h]
  · simp [hd]

theorem found_of_order {names : List Name} {pre post : List (DfsEntry τ)}
    (h : others names post = others names pre) (name : Name) (hn : name ∉ names) :
    dfsFind post name = dfsFind pre name := by
  rw [← dfsFind_others hn post, h, dfsFind_others hn pre]

/-! ## One call -/

theorem dfsFind_add (devices : List (DfsEntry τ)) (name : Name) (calltable : τ) (type : Int) :
    dfsFind (dfsAdd devices name calltable type) name = some ⟨calltable, name, type⟩ := by
  simp [dfsFind, dfsAdd]

theorem name_fits_iff (name : Name) : name.length + 1 ≤ nameRoom name ↔ name.length % 8 ≠ 0 := by
  unfold nameRoom
  omega

theorem dfsRemove_found {devices : List (DfsEntry τ)} {name : Name} (h : dfsFind devices name ≠ none) :
    dfsRemove devices name = (unlink name devices, SUCCESS) := by
  rw [dfsRemove, if_neg (by simpa using h)]

theorem dfsRemove_missing {devices : List (DfsEntry τ)} {name : Name} (h : dfsFind devices name = none) :
    dfsRemove devices name = (devices, FAIL) := by
  rw [dfsRemove, if_pos (by simp [h])]

theorem dfsCopy_found {devices : List (DfsEntry τ)} {src : Name} {device : DfsEntry τ}
    (h : dfsFind devices src = some device) {dst : Name} (hfit : dst.length % 8 ≠ 0) :
    dfsCopy devices src dst = some (dfsAdd devices dst device.calltable device.type, SUCCESS) := by
  simp only [dfsCopy, h]
  rw [if_pos ((name_fits_iff dst).mpr hfit)]

theorem dfsCopy_overflow {devices : List (DfsEntry τ)} {src : Name} {device : DfsEntry τ}
    (h : dfsFind devices src = some device) {dst : Name} (hfit : dst.length % 8 = 0) :
    dfsCopy devices src dst = none := by
  simp only [dfsCopy, h]
  rw [if_neg (by rw [name_fits_iff]; omega)]

theorem dfsCopy_missing {devices : List (DfsEntry τ)} {src : Name} (h : dfsFind devices src = none)
    (dst : Name) : dfsCopy devices src dst = some (devices, FAIL) := by
  simp only [dfsCopy, h]

/-- A call that leaves its registry as it was fails, so only its names could tell. -/
theorem kept_of_fail {devices : List (DfsEntry τ)} {op : Op τ} :
    Kept ⟨devices, op, FAIL, devices⟩ where
  deleted := fun _ _ h => absurd h (by simp [FAIL, SUCCESS])
  gone := fun _ _ _ h => absurd h (by simp [FAIL, SUCCESS])
  moved := fun _ _ _ h => absurd h (by simp [FAIL, SUCCESS])
  found := fun _ _ => rfl
  order := rfl

theorem add_kept (devices : List (DfsEntry τ)) (name : Name) (calltable : τ) (type : Int) :
    Kept ⟨devices, .add name calltable type, SUCCESS, dfsAdd devices name calltable type⟩ := by
  have horder : others [name] (dfsAdd devices name calltable type) = others [name] devices :=
    others_add (by simp) devices calltable type
  exact ⟨by simp, by simp, by simp, found_of_order horder, horder⟩

theorem copy_kept_iff (devices : List (DfsEntry τ)) (src dst : Name) :
    (∃ s' r, dfsCopy devices src dst = some (s', r) ∧ Kept ⟨devices, .copy src dst, r, s'⟩) ↔
      OpOk devices (.copy src dst) := by
  simp only [OpOk]
  cases hsrc : dfsFind devices src with
  | none =>
    simp only [dfsCopy_missing hsrc, true_or, iff_true]
    exact ⟨_, _, rfl, kept_of_fail⟩
  | some device =>
    by_cases hfit : dst.length % 8 = 0
    · simp [dfsCopy_overflow hsrc hfit, hfit]
    · rw [dfsCopy_found hsrc hfit]
      have horder : others [dst] (dfsAdd devices dst device.calltable device.type) = others [dst] devices :=
        others_add (by simp) devices device.calltable device.type
      simp only [hfit, ne_eq, not_false_eq_true, or_true, iff_true]
      exact ⟨_, _, rfl, by simp, by simp, by simp, found_of_order horder, horder⟩

theorem delete_kept_iff (devices : List (DfsEntry τ)) (name : Name) :
    Kept ⟨devices, .delete name, (dfsDelete devices name).2, (dfsDelete devices name).1⟩ ↔
      OpOk devices (.delete name) := by
  simp only [OpOk, dfsDelete]
  by_cases h : dfsFind devices name = none
  · rw [dfsRemove_missing h]
    have h0 := dfsFind_eq_none.mp h
    exact ⟨fun _ => by omega, fun _ => kept_of_fail⟩
  · rw [dfsRemove_found h, ← dfsFind_unlink]
    have horder : others [name] (unlink name devices) = others [name] devices :=
      others_unlink (by simp) devices
    constructor
    · intro hk
      exact hk.deleted name rfl rfl
    · intro hnone
      refine ⟨?_, by simp, by simp, found_of_order horder, horder⟩
      rintro n hn -
      cases hn
      exact hnone

theorem dfsRename_found {devices : List (DfsEntry τ)} {src dst : Name} {device : DfsEntry τ}
    (h : dfsFind devices src = some device) (hfit : dst.length % 8 ≠ 0) :
    dfsRename devices src dst =
      some (unlink src (dfsAdd devices dst device.calltable device.type), SUCCESS) := by
  have hfound : dfsFind (dfsAdd devices dst device.calltable device.type) src ≠ none := by
    by_cases hd : dst = src
    · rw [← hd, dfsFind_add]
      simp
    · simp only [dfsFind, dfsAdd] at h ⊢
      rw [List.find?_cons_of_neg (by simpa using hd), h]
      simp
  simp only [dfsRename, dfsCopy_found h hfit, Option.map_some]
  rw [if_neg (by simp [SUCCESS, FAIL]), dfsDelete, dfsRemove_found hfound]

theorem unlink_add {devices : List (DfsEntry τ)} {src dst : Name} (h : src ≠ dst) (calltable : τ)
    (type : Int) : unlink src (dfsAdd devices dst calltable type) =
      dfsAdd (unlink src devices) dst calltable type := by
  rw [unlink_eq, unlink_eq]
  exact List.eraseP_cons_of_neg (by simpa using Ne.symm h)

theorem times_add {devices : List (DfsEntry τ)} {src dst : Name} (h : src ≠ dst) (calltable : τ)
    (type : Int) : times (dfsAdd devices dst calltable type) src = times devices src :=
  List.countP_cons_of_neg (by simpa using Ne.symm h)

theorem rename_kept_iff (devices : List (DfsEntry τ)) (src dst : Name) :
    (∃ s' r, dfsRename devices src dst = some (s', r) ∧ Kept ⟨devices, .rename src dst, r, s'⟩) ↔
      OpOk devices (.rename src dst) := by
  simp only [OpOk]
  cases hsrc : dfsFind devices src with
  | none =>
    simp only [dfsRename, dfsCopy_missing hsrc, Option.map_some, if_true, true_or, iff_true]
    exact ⟨_, _, rfl, kept_of_fail⟩
  | some device =>
    by_cases hfit : dst.length % 8 = 0
    · simp [dfsRename, dfsCopy_overflow hsrc hfit, hfit]
    rw [dfsRename_found hsrc hfit]
    have horder : others [src, dst] (unlink src (dfsAdd devices dst device.calltable device.type)) =
        others [src, dst] devices := by
      rw [others_unlink (by simp), others_add (by simp)]
    simp only [reduceCtorEq, false_or, hfit, ne_eq, not_false_eq_true, true_and]
    by_cases hsd : src = dst
    · simp only [hsd, true_or, iff_true]
      subst hsd
      refine ⟨_, _, rfl, by simp, ?_, ?_, found_of_order horder, horder⟩
      all_goals
        rintro a b hab - hne
        cases hab
        exact absurd rfl hne
    -- The copy is no device of the name `src`, so one of these is taken out.
    have hleft : dfsFind (unlink src (dfsAdd devices dst device.calltable device.type)) src = none ↔
        times devices src ≤ 1 := by
      rw [dfsFind_unlink, times_add hsd]
    rw [or_iff_right hsd, ← hleft]
    constructor
    · rintro ⟨s', r, heq, hk⟩
      obtain ⟨rfl, rfl⟩ := Prod.mk.inj (Option.some.inj heq)
      exact hk.gone src dst rfl rfl hsd
    · intro hnone
      refine ⟨_, _, rfl, by simp, ?_, ?_, found_of_order horder, horder⟩
      · rintro a b hab - -
        cases hab
        exact hnone
      · rintro a b hab - -
        cases hab
        refine ⟨device, hsrc, ?_⟩
        rw [unlink_add hsd]
        exact dfsFind_add _ dst device.calltable device.type

theorem step_kept_iff (devices : List (DfsEntry τ)) (op : Op τ) :
    (∃ s' r, step devices op = some (s', r) ∧ Kept ⟨devices, op, r, s'⟩) ↔ OpOk devices op := by
  cases op with
  | add name calltable type =>
    simp only [OpOk, iff_true]
    exact ⟨_, _, rfl, add_kept devices name calltable type⟩
  | copy src dst => exact copy_kept_iff devices src dst
  | rename src dst => exact rename_kept_iff devices src dst
  | delete name =>
    rw [← delete_kept_iff]
    constructor
    · rintro ⟨s', r, heq, hk⟩
      have hdel : dfsDelete devices name = (s', r) := Option.some.inj heq
      rw [hdel]
      exact hk
    · intro hk
      exact ⟨_, _, rfl, hk⟩

/-! ## Runs -/

/-- **The registry.** A run does what its calls say exactly when each copied name leaves room for the
`NUL`, and no device is deleted or renamed while another one has its name. -/
theorem registry_kept_iff (devices : List (DfsEntry τ)) (ops : List (Op τ)) :
    (∃ ts, trace step devices ops = some ts ∧ ∀ t ∈ ts, Kept t) ↔
      Along (fun s op => (step s op).map Prod.fst) OpOk devices ops :=
  trace_iff step_kept_iff ops devices

/-- Two devices of one name. Deleting the newer one uncovers the older one. -/
theorem added_twice_found : ∃ t1 t2 t, trace step ([] : List (DfsEntry Unit))
      [.add [65] () 0, .add [65] () 1, .delete [65]] = some [t1, t2, t] ∧
    t.act = .delete [65] ∧ t.out = SUCCESS ∧ dfsFind t.post [65] ≠ none :=
  ⟨_, _, _, rfl, rfl, rfl, by decide⟩

end SystemProjects.Dfs
