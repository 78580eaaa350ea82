/-!
# The pieces of a list between separators
-/

namespace SystemProjects.Lists

variable {α : Type} [BEq α] [LawfulBEq α]

theorem not_mem_of_mem_splitOn {a : α} {l : List α} : ∀ c ∈ l.splitOn a, a ∉ c := by
  induction l with
  | nil => simp
  | cons x xs ih =>
    obtain ⟨y, ys, hsplit⟩ := List.exists_cons_of_ne_nil (List.splitOn_ne_nil a xs)
    rw [hsplit] at ih
    intro c hc
    rw [List.splitOn_cons_eq_if_modifyHead, hsplit] at hc
    by_cases hx : x = a
    · rw [if_pos (by simpa using hx)] at hc
      rcases List.mem_cons.mp hc with rfl | hmem
      · simp
      · exact ih c hmem
    · rw [if_neg (by simpa using hx)] at hc
      rcases List.mem_cons.mp hc with rfl | hmem
      · intro hmem
        rcases List.mem_cons.mp hmem with heq | hmem
        · exact hx heq.symm
        · exact ih y List.mem_cons_self hmem
      · exact ih c (List.mem_cons_of_mem y hmem)

theorem mem_of_mem_splitOn {a x : α} {l : List α} : ∀ c ∈ l.splitOn a, x ∈ c → x ∈ l := by
  induction l with
  | nil => simp
  | cons y l ih =>
    obtain ⟨z, zs, hsplit⟩ := List.exists_cons_of_ne_nil (List.splitOn_ne_nil a l)
    rw [List.splitOn_cons_eq_if_modifyHead, hsplit]
    rw [hsplit] at ih
    intro c hc hx
    by_cases hy : y = a
    · rw [if_pos (by simpa using hy)] at hc
      rcases List.mem_cons.mp hc with rfl | hmem
      · simp at hx
      · exact List.mem_cons_of_mem y (ih c hmem hx)
    · rw [if_neg (by simpa using hy)] at hc
      rcases List.mem_cons.mp hc with rfl | hmem
      · rcases List.mem_cons.mp hx with rfl | hmem
        · exact List.mem_cons_self
        · exact List.mem_cons_of_mem y (ih z List.mem_cons_self hmem)
      · exact List.mem_cons_of_mem y (ih c (List.mem_cons_of_mem z hmem) hx)

theorem getLast?_of_splitOn {a : α} {l : List α} (h : (l.splitOn a).getLast? = some []) :
    l = [] ∨ l.getLast? = some a := by
  induction l with
  | nil => exact .inl rfl
  | cons x xs ih =>
    right
    obtain ⟨y, ys, hsplit⟩ := List.exists_cons_of_ne_nil (List.splitOn_ne_nil a xs)
    rw [List.splitOn_cons_eq_if_modifyHead, hsplit] at h
    rw [hsplit] at ih
    by_cases hx : x = a
    · rw [if_pos (by simpa using hx), List.getLast?_cons_cons] at h
      rcases ih h with rfl | hlast
      · simp [hx]
      · simp [List.getLast?_cons, hlast]
    · rw [if_neg (by simpa using hx)] at h
      cases ys with
      | nil => simp at h
      | cons z zs =>
        rw [List.modifyHead_cons, List.getLast?_cons_cons, ← List.getLast?_cons_cons (a := y)] at h
        rcases ih h with rfl | hlast
        · simp at hsplit
        · simp [List.getLast?_cons, hlast]

omit [BEq α] [LawfulBEq α] in
/-- Joined pieces as pieces with the separator at their end, and the last one. -/
theorem intercalate_concat (a : α) (l : List (List α)) (x : List α) :
    [a].intercalate (l ++ [x]) = l.flatMap (· ++ [a]) ++ x := by
  induction l with
  | nil => simp
  | cons y l ih =>
    rw [List.cons_append, List.intercalate_cons_of_ne_nil (by simp), ih, List.flatMap_cons]
    simp only [List.append_assoc]

end SystemProjects.Lists
