import SystemProjects.Physical.MemoryMap

/-!
# The pages of the kernel

`physical_init` ends by taking every page from the start of the kernel up to the end of the bitmap behind it.
-/

open SystemProjects.Memory SystemProjects.Run SystemProjects.Bitmap

namespace SystemProjects.Physical

variable {image : Image} {m : MultibootInfo} {s0 s : State} {r : Int}

def InKernel (image : Image) (s : State) (x : Nat) : Prop :=
  v2p image.start ≤ x ∧ x < v2p image.stop + s.physicalBitmapSize

theorem v2p_aligned {a : Nat} (ha : a % size4kb = 0) : v2p a % size4kb = 0 := by
  unfold v2p dword size4kb at *
  omega

theorem physicalInit_cases (h : physicalInit image m s0 = some (s, r)) : r = SUCCESS ∨ s = s0 := by
  unfold physicalInit at h
  split at h
  case isTrue =>
    obtain ⟨rfl, -⟩ := Prod.mk.inj (Option.some.inj h)
    exact .inr rfl
  case isFalse =>
    obtain ⟨s2, -, h⟩ := Option.bind_eq_some_iff.mp h
    obtain ⟨s3, -, heq⟩ := Option.map_eq_some_iff.mp h
    exact .inl (Prod.mk.inj heq).2.symm

theorem physicalInit_kernel (h : physicalInit image m s0 = some (s, SUCCESS))
    (hstart : image.start % size4kb = 0)
    (hfits : v2p image.stop + s.physicalBitmapSize ≤ s.physicalMaxAddress) {a x : Nat}
    (hx : InKernel image s x)
    (hpage : pageOf x = pageOf a) : ¬ Free s a := by
  obtain ⟨t, -, hloop⟩ := physicalInit_success h
  rw [← (physicalInit_bounds h).1] at hloop
  have hmax := (physicalInit_inv h).lt
  have haligned := v2p_aligned hstart
  obtain ⟨hlow, hhigh⟩ := hx
  have hstop : dword (v2p image.stop + s.physicalBitmapSize) = v2p image.stop + s.physicalBitmapSize :=
    Nat.mod_eq_of_lt (by omega)
  rw [hstop] at hloop
  -- The step of the loop that meets the page of `x`.
  have htaken : isSet s.physicalBitmap (pageOf a) = true := by
    refine (reserve_isSet (by omega) hloop _).mpr
      (.inr ⟨v2p image.start + size4kb * ((x - v2p image.start) / size4kb),
      ⟨_, rfl, ?_⟩, ?_⟩)
    · unfold size4kb
      omega
    · rw [← hpage]
      unfold pageOf size4kb at *
      omega
  intro hfree
  have hin : InBitmap s a := by
    by_contra hin
    rw [Free, physicalIsPageFree, if_neg hin] at hfree
    cases hfree
  rw [free_iff hin, htaken] at hfree
  cases hfree

/-- **Kernel memory.** No allocation returns a page of the kernel or of the bitmap, in any run that frees only pages
that it was given. -/
theorem kernel_not_given (image : Image) (m : MultibootInfo) (mem : Mem) (s : State) (r : Int)
    (hinit : physicalInit image m ⟨mem, 0, 0⟩ = some (s, r)) (hstart : image.start % size4kb = 0)
    (hfits : v2p image.stop + s.physicalBitmapSize ≤ s.physicalMaxAddress) (ops : List Op) :
    ∃ ts, trace step s ops = some ts ∧ (FreesGiven (fun _ => False) ts →
      ∀ t ∈ ts, t.out ≠ 0 → ∀ x, InKernel image s x → pageOf x ≠ pageOf t.out) := by
  have hcases : Inv s ∧ ∀ a, Free s a → ∀ x, InKernel image s x → pageOf x ≠ pageOf a := by
    rcases physicalInit_cases hinit with rfl | rfl
    · refine ⟨physicalInit_inv hinit, fun a hfree x hx hpage => ?_⟩
      exact physicalInit_kernel hinit hstart hfits hx hpage hfree
    · refine ⟨⟨Nat.zero_le _, rfl, (by decide : 0 < 2 ^ 32)⟩, fun a _ x hx => ?_⟩
      have hhigh := hx.2
      dsimp only at hfits hhigh
      omega
  obtain ⟨hinv, hgood⟩ := hcases
  obtain ⟨ts, hts, -⟩ := trace_invariant step_inv ops s hinv
  refine ⟨ts, hts, fun hfrees t ht hout x hx => ?_⟩
  exact given_good (fun page => ∀ x, InKernel image s x → pageOf x ≠ page) ops s _ ts hinv hgood
    (fun _ h => h.elim) hts hfrees t ht hout x hx

theorem freesGiven_of_none {ts : List (Transition State Op Nat)} (h : ∀ t ∈ ts, ∀ a, t.act ≠ .pageFree a) :
    ∀ given, FreesGiven given ts := by
  induction ts with
  | nil => exact fun _ => trivial
  | cons t ts ih =>
    refine fun given => ⟨fun a ha => absurd ha (h t List.mem_cons_self a), ?_⟩
    exact ih (fun u hu => h u (List.mem_cons_of_mem _ hu)) _

/-- Two megabytes of memory, with a kernel of one page at 1 MB and 4 KB. -/
theorem kernel_not_given_2mb :
    ∃ s ts, physicalInit ⟨0xC0001000, 0xC0002000⟩ ⟨1, 1024, 0, 0, fun _ => ⟨0, 0, 0, 0⟩⟩ ⟨fun _ => 0, 0, 0⟩ =
        some (s, SUCCESS) ∧ trace step s [.pageAllocLow, .pageAlloc] = some ts ∧
      ∀ t ∈ ts, t.out ≠ 0 → ∀ x, InKernel ⟨0xC0001000, 0xC0002000⟩ s x → pageOf x ≠ pageOf t.out := by
  obtain ⟨ts, hts, hkept⟩ := kernel_not_given ⟨0xC0001000, 0xC0002000⟩ ⟨1, 1024, 0, 0, fun _ => ⟨0, 0, 0, 0⟩⟩
    (fun _ => 0) _ _ rfl (by decide) (by decide) [.pageAllocLow, .pageAlloc]
  refine ⟨_, ts, rfl, hts, hkept (freesGiven_of_none (fun t ht a hact => ?_) _)⟩
  have hmem : t.act ∈ [Op.pageAllocLow, .pageAlloc] := trace_act _ hts ▸ List.mem_map_of_mem ht
  rw [hact] at hmem
  simp at hmem

end SystemProjects.Physical
