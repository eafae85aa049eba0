/-!
# Parts of a text

A separator divides a text into parts.  There is one part more than there are separators, parts may
be empty, and no part holds the separator.  The parts with separators between them are the text.
-/

namespace ResourceSafety.Text

/-- The parts of a text between the separators `c`. -/
def parts (c : Char) (s : String) : List String := (s.toList.splitOn c).map String.ofList

variable {c : Char} {s e : String} {es : List String}

theorem parts_ne_nil : parts c s ≠ [] := by
  simp [parts, List.splitOn_ne_nil]

theorem notMem_of_mem_splitOn {cs p : List Char} (mem : p ∈ cs.splitOn c) : c ∉ p := by
  induction cs generalizing p with
  | nil =>
    rw [List.splitOn_nil, List.mem_singleton] at mem
    exact mem ▸ List.not_mem_nil
  | cons d cs ih =>
    rw [List.splitOn_cons_eq_if_modifyHead] at mem
    split at mem
    next =>
      obtain rfl | mem := List.mem_cons.mp mem
      · exact List.not_mem_nil
      · exact ih mem
    next other =>
      obtain ⟨q, qs, found⟩ := List.exists_cons_of_ne_nil (List.splitOn_ne_nil c cs)
      rw [found] at mem ih
      obtain rfl | mem := List.mem_cons.mp mem
      · rw [List.mem_cons, not_or]
        exact ⟨fun same => other (beq_iff_eq.mpr same.symm), ih List.mem_cons_self⟩
      · exact ih (List.mem_cons_of_mem q mem)

theorem notMem_of_mem_parts (mem : e ∈ parts c s) : c ∉ e.toList := by
  obtain ⟨p, part, rfl⟩ := List.mem_map.mp mem
  rw [String.toList_ofList]
  exact notMem_of_mem_splitOn part

theorem parts_append (s t : String) :
    parts c (s ++ String.singleton c ++ t) = parts c s ++ parts c t := by
  simp [parts, List.splitOn_append_cons_self]

/-- Texts that do not hold the separator are the parts of what they make. -/
theorem parts_intercalate (free : ∀ e ∈ es, c ∉ e.toList) (some : es ≠ []) :
    parts c ((String.singleton c).intercalate es) = es := by
  have texts : ∀ p ∈ es.map String.toList, c ∉ p := List.forall_mem_map.mpr free
  rw [parts, String.toList_intercalate, String.toList_singleton,
    List.splitOn_intercalate c texts (by simpa using some), List.map_map]
  simp

theorem intercalate_parts (c : Char) (s : String) :
    (String.singleton c).intercalate (parts c s) = s := by
  apply String.toList_injective
  rw [parts, String.toList_intercalate, String.toList_singleton, List.map_map]
  simp [Function.comp_def, List.intercalate_splitOn]

end ResourceSafety.Text
