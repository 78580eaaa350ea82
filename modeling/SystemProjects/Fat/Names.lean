import SystemProjects.Fat.Lookup

/-!
# 8.3 names

What `fat_compareName` accepts, against the name that an entry stands for.
-/

open SystemProjects.Memory

namespace SystemProjects.Fat

variable {e : FatEntry} {s rest f l : List Byte} {field : Nat → Byte} {name : List Byte}
    {offset n i : Nat} {b c : Byte}

/-! ## What is claimed -/

/-- The bytes of a field of `n` bytes from `i` on, up to the padding. -/
def unpadded (field : Nat → Byte) (n i : Nat) : List Byte :=
  ((List.range' i n).map field).takeWhile (· ≠ fatPadbyte)

namespace FatEntry

def base (e : FatEntry) : List Byte := unpadded e fatNamesize 0

def ext (e : FatEntry) : List Byte := unpadded (fun x => e (8 + x)) fatExtensionsize 0

def rendering (e : FatEntry) : List Byte := e.base ++ if e.ext = [] then [] else dot :: e.ext

end FatEntry

/-- After the first padding byte of each field come only padding bytes. -/
def FatEntry.Padded (e : FatEntry) : Prop :=
  (∀ j < fatNamesize, ∀ i ≤ j, e i = fatPadbyte → e j = fatPadbyte) ∧
    ∀ j < fatExtensionsize, ∀ i ≤ j, e (8 + i) = fatPadbyte → e (8 + j) = fatPadbyte

/-- `rest` is what comes after the string in memory. -/
def CompareExact (e : FatEntry) (s rest : List Byte) : Prop :=
  fatCompareName e (s ++ 0 :: rest) = some (decide (s.map toupper = e.rendering))

/-- No byte of `l` differs from the one of `f`, as far as both go. A byte above `0x7F` differs from all. -/
def StartsLike (f l : List Byte) : Prop :=
  ∀ (x : Nat) (b c : Byte), f[x]? = some b → l[x]? = some c → sameChar c b = true

/-- The rendering is ASCII, and no other string goes with the base, and after one more byte with the extension. -/
def CompareOk (e : FatEntry) (s rest : List Byte) : Prop :=
  if s.map toupper = e.rendering then ∀ b ∈ e.rendering, b < 0x80
  else ¬ (StartsLike e.base (s.map toupper ++ 0 :: rest) ∧
    StartsLike e.ext ((s.map toupper ++ 0 :: rest).drop (e.base.length + 1)))

/-! ## Fields -/

theorem unpadded_succ : unpadded field (n + 1) i =
    if field i = fatPadbyte then [] else field i :: unpadded field n (i + 1) := by
  unfold unpadded
  rw [List.range'_succ, List.map_cons]
  by_cases h : field i = fatPadbyte
  · rw [if_pos h, List.takeWhile_cons_of_neg (by simp [h])]
  · rw [if_neg h, List.takeWhile_cons_of_pos (by simp [h])]

def matchField : List Byte → List Byte → Option Bool
  | [], _ => some true
  | _ :: _, [] => none
  | b :: f, c :: l => if sameChar c b then matchField f l else some false

theorem compareField_eq (field : Nat → Byte) (name : List Byte) (offset n i : Nat) :
    compareField field name offset n i = (matchField (unpadded field n i) (name.drop (offset + i))).map
      fun same => if same then some (i + (unpadded field n i).length) else none := by
  induction n generalizing i with
  | zero => rfl
  | succ n ih =>
    rw [compareField, unpadded_succ]
    by_cases hpad : field i = fatPadbyte
    · simp [hpad, matchField]
    · rw [if_neg hpad, if_neg hpad]
      cases hname : name[offset + i]? with
      | none =>
        rw [List.drop_eq_nil_of_le (List.getElem?_eq_none_iff.mp hname)]
        rfl
      | some c =>
        obtain ⟨hlt, rfl⟩ := List.getElem?_eq_some_iff.mp hname
        rw [List.drop_eq_getElem_cons hlt, Option.bind_some, matchField]
        by_cases hsame : sameChar name[offset + i] (field i) = true
        · rw [if_pos hsame, if_pos hsame, ih, List.length_cons, Nat.add_assoc offset, Nat.add_assoc i,
            Nat.add_comm 1]
        · rw [if_neg hsame, if_neg hsame]
          rfl

theorem compareField_isSome (field : Nat → Byte) (name : List Byte) (offset n : Nat) :
    (compareField field name offset n 0).map Option.isSome = matchField (unpadded field n 0)
      (name.drop offset) := by
  rw [compareField_eq]
  cases matchField (unpadded field n 0) (name.drop (offset + 0)) with
  | none => rfl
  | some same => cases same <;> rfl

theorem matchField_true : matchField f l = some true ↔ f <+: l ∧ ∀ b ∈ f, b < 0x80 := by
  induction f generalizing l with
  | nil => simp [matchField]
  | cons b f ih =>
    cases l with
    | nil => simp [matchField]
    | cons c l =>
      rw [matchField]
      by_cases hsame : sameChar c b = true
      · obtain ⟨rfl, hlt⟩ := of_decide_eq_true hsame
        rw [if_pos hsame, ih, List.prefix_cons_inj, List.forall_mem_cons]
        exact and_congr_right fun _ => (and_iff_right hlt).symm
      · rw [if_neg hsame, List.forall_mem_cons]
        refine iff_of_false (by simp) fun h => ?_
        obtain ⟨rfl, -⟩ := List.cons_prefix_cons.mp h.1
        exact hsame (decide_eq_true ⟨rfl, h.2.1⟩)

theorem matchField_false : matchField f l = some false ↔ ¬ StartsLike f l := by
  induction f generalizing l with
  | nil => simp [matchField, StartsLike]
  | cons b f ih =>
    cases l with
    | nil => simp [matchField, StartsLike]
    | cons c l =>
      rw [matchField]
      by_cases hsame : sameChar c b = true
      · rw [if_pos hsame, ih]
        refine not_congr ⟨fun h x b' c' hb hc => ?_, fun h x b' c' hb hc => h (x + 1) b' c' hb hc⟩
        cases x with
        | zero =>
          obtain rfl : b = b' := by simpa using hb
          obtain rfl : c = c' := by simpa using hc
          exact hsame
        | succ x => exact h x b' c' hb hc
      · rw [if_neg hsame]
        simp only [true_iff]
        exact fun h => hsame (h 0 b c rfl rfl)

theorem matchField_none (h : matchField f l = none) : l.length < f.length := by
  induction f generalizing l with
  | nil => simp [matchField] at h
  | cons b f ih =>
    cases l with
    | nil => simp
    | cons c l =>
      rw [matchField] at h
      split at h
      case isTrue => simpa using ih h
      case isFalse => contradiction

theorem FatEntry.ext_eq_nil : e.ext = [] ↔ e 8 = fatPadbyte := by
  unfold ext fatExtensionsize
  rw [unpadded_succ]
  split <;> simp_all

/-! ## Comparing -/

theorem toupper_toupper (b : Byte) : toupper (toupper b) = toupper b := by
  revert b
  decide

theorem cstr_append (hs : 0 ∉ s) : cstr (s ++ 0 :: rest) = s := by
  unfold cstr
  rw [List.takeWhile_append_of_pos, List.takeWhile_cons_of_neg (by simp), List.append_nil]
  exact fun b hb => decide_eq_true fun heq => hs (heq ▸ hb)

theorem upperString_append (hs : 0 ∉ s) : upperString (s ++ 0 :: rest) = s.map toupper ++ 0 :: rest := by
  rw [upperString, cstr_append hs, List.drop_left]

theorem fatCompareName_eq (e : FatEntry) (name : List Byte) : fatCompareName e name =
    (matchField e.base (upperString name)).bind fun same =>
      if same then
        if e.base.length < (upperString name).length then
          matchField e.ext ((upperString name).drop (e.base.length + 1))
        else none
      else some false := by
  unfold fatCompareName
  dsimp only
  rw [compareField_eq, Nat.add_zero, List.drop_zero]
  generalize upperString name = u
  change ((matchField e.base u).map _).bind _ = _
  cases matchField e.base u with
  | none => rfl
  | some same =>
    cases same with
    | false => rfl
    | true =>
      simp only [Option.map_some, Option.bind_some, if_true, Nat.zero_add, compareField_isSome]
      by_cases hlt : e.base.length < u.length
      · have hget : u[(unpadded e fatNamesize 0).length]? = some u[e.base.length] :=
          List.getElem?_eq_getElem hlt
        rw [hget, Option.bind_some, if_pos hlt]
        split
        case isTrue => rfl
        case isFalse h =>
          have hext : e.ext = [] := FatEntry.ext_eq_nil.mpr (Decidable.not_not.mp fun hne => h (.inr hne))
          rw [hext]
          rfl
      · have hget : u[(unpadded e fatNamesize 0).length]? = none :=
          List.getElem?_eq_none (Nat.le_of_not_lt hlt)
        rw [hget, if_neg hlt]
        rfl

theorem fatCompareName_true : fatCompareName e name = some true ↔
    matchField e.base (upperString name) = some true ∧ e.base.length < (upperString name).length ∧
      matchField e.ext ((upperString name).drop (e.base.length + 1)) = some true := by
  rw [fatCompareName_eq]
  cases matchField e.base (upperString name) with
  | none => simp
  | some same => cases same <;> simp

theorem startsLike_nil (f : List Byte) : StartsLike f [] := fun x b c _ hc => by simp at hc

theorem startsLike_of_some {r : Option Bool} (h : matchField f l = r) (hr : r ≠ some false) :
    StartsLike f l :=
  Classical.not_not.mp fun hnot => hr (h ▸ matchField_false.mpr hnot)

theorem fatCompareName_false : fatCompareName e name = some false ↔
    ¬ (StartsLike e.base (upperString name) ∧
      StartsLike e.ext ((upperString name).drop (e.base.length + 1))) := by
  rw [fatCompareName_eq]
  generalize upperString name = u
  -- Past the end of the string's memory nothing differs.
  have hover : u.length ≤ e.base.length → StartsLike e.ext (u.drop (e.base.length + 1)) := fun hle => by
    rw [List.drop_eq_nil_of_le (by omega)]
    exact startsLike_nil e.ext
  cases hbase : matchField e.base u with
  | none =>
    have hle := hover (Nat.le_of_lt (matchField_none hbase))
    simpa using ⟨startsLike_of_some hbase (by simp), hle⟩
  | some same =>
    cases same with
    | false => simpa using fun h => absurd h (matchField_false.mp hbase)
    | true =>
      have hlike := startsLike_of_some hbase (by simp)
      by_cases hlt : e.base.length < u.length
      · simp [hlt, hlike, matchField_false]
      · simpa [hlt, hlike] using hover (Nat.le_of_not_lt hlt)

/-- **Name matches.** Exact on the rendering when it is ASCII, and on each string that differs in a byte that is
compared. -/
theorem fatCompareName_exact_iff (e : FatEntry) (s rest : List Byte) (hs : 0 ∉ s) :
    CompareExact e s rest ↔ CompareOk e s rest := by
  unfold CompareExact CompareOk
  by_cases heq : s.map toupper = e.rendering
  · rw [if_pos heq, decide_eq_true heq, fatCompareName_true, upperString_append hs, heq, matchField_true]
    unfold FatEntry.rendering
    by_cases hext : e.ext = []
    · simp [hext, matchField]
    · rw [if_neg hext, matchField_true, List.append_assoc, List.forall_mem_append]
      have hdrop : (e.base ++ (dot :: e.ext ++ 0 :: rest)).drop (e.base.length + 1) = e.ext ++ 0 :: rest := by
        rw [List.drop_length_add_append]
        rfl
      rw [hdrop]
      simp [dot]
  · rw [if_neg heq, decide_eq_false heq, fatCompareName_false, upperString_append hs]

/-- An entry called `ABC`. -/
def abcEntry : FatEntry := newEntry [0x41, 0x42, 0x43] 0x20 2 5

theorem abcEntry_exact : CompareExact abcEntry [0x61, 0x62, 0x63] [] :=
  (fatCompareName_exact_iff abcEntry [0x61, 0x62, 0x63] [] (by decide)).mpr
    (by rw [CompareOk, if_pos] <;> decide)

/-- It also answers to `ABCD`. -/
theorem abcEntry_longer :
    ¬ ∀ (e : FatEntry) (s rest : List Byte), e.Padded → 0 ∉ s → CompareExact e s rest := by
  intro h
  have hexact := h abcEntry [0x41, 0x42, 0x43, 0x44] [] (by unfold FatEntry.Padded; decide) (by decide)
  revert hexact
  unfold CompareExact
  decide

end SystemProjects.Fat
