import MdtDialoutCollector.Text.Bytes

/-! Where a byte stands in a string. A string that holds the byte is cut in two at its first
or at its last occurrence, and the searches find exactly these places. -/

namespace MdtDialoutCollector.Text

variable {s t : Bytes} {c : UInt8} {pos : ℕ}

theorem find_eq_none_iff : find s c = none ↔ c ∉ s := by
  rw [find, List.findIdx?_eq_none_iff]
  simp only [beq_eq_false_iff_ne]
  exact ⟨fun h hc => h c hc rfl, fun h x hx e => h (e ▸ hx)⟩

theorem find_append (h : c ∉ s) (t : Bytes) : find (s ++ c :: t) c = some s.length := by
  have hnone : List.findIdx? (· == c) s = none := find_eq_none_iff.mpr h
  rw [find, List.findIdx?_append, hnone]
  simp [List.findIdx?_cons]

theorem append_cons_inj {u v : Bytes} (hs : c ∉ s) (ht : c ∉ t) (h : s ++ c :: u = t ++ c :: v) :
    s = t ∧ u = v := by
  have hlength : s.length = t.length := by
    rw [← Option.some_inj, ← find_append hs u, h, find_append ht]
  obtain ⟨hst, huv⟩ := List.append_inj h hlength
  exact ⟨hst, (List.cons.inj huv).2⟩

/-- The two sides of the first occurrence. -/
theorem eq_append_of_find (h : find s c = some pos) :
    s = s.take pos ++ c :: s.drop (pos + 1) ∧ c ∉ s.take pos ∧ pos < s.length := by
  obtain ⟨hlt, heq, hbefore⟩ := List.findIdx?_eq_some_iff_getElem.mp h
  refine ⟨?_, fun hmem => ?_, hlt⟩
  · have hc : s[pos] = c := by simpa using heq
    rw [← hc, ← List.drop_eq_getElem_cons hlt, List.take_append_drop]
  · obtain ⟨j, hj, hjc⟩ := List.getElem_of_mem hmem
    rw [List.length_take, Nat.lt_min] at hj
    rw [List.getElem_take] at hjc
    exact hbefore j hj.1 (by simpa using hjc)

/-- A string is read from the front, one piece up to a separator after the other. -/
theorem pieces_induction {P : Bytes → Prop} (c : UInt8) (plain : ∀ s, c ∉ s → P s)
    (piece : ∀ token rest, c ∉ token → P rest → P (token ++ c :: rest)) (s : Bytes) : P s := by
  cases h : find s c with
  | none => exact plain s (find_eq_none_iff.mp h)
  | some pos =>
    obtain ⟨hs, hplain, hlt⟩ := eq_append_of_find h
    have hshort : (s.drop (pos + 1)).length < s.length := by
      rw [List.length_drop]
      omega
    rw [hs]
    exact piece _ _ hplain (pieces_induction c plain piece (s.drop (pos + 1)))
termination_by s.length

theorem rfind_append (h : c ∉ t) (s : Bytes) : rfind (s ++ c :: t) c = some s.length := by
  have hrev : (s ++ c :: t).reverse = t.reverse ++ c :: s.reverse := by simp
  have hfind : List.findIdx? (· == c) (t.reverse ++ c :: s.reverse) = some t.reverse.length :=
    find_append (by simpa using h) s.reverse
  rw [rfind, hrev, hfind, Option.map_some, List.length_reverse, List.length_append,
    List.length_cons]
  congr 1
  omega

/-- The two sides of the last occurrence. -/
theorem eq_append_of_rfind (h : rfind s c = some pos) :
    ∃ t u, s = t ++ c :: u ∧ c ∉ u ∧ t.length = pos := by
  rw [rfind, Option.map_eq_some_iff] at h
  obtain ⟨i, hi, rfl⟩ := h
  obtain ⟨hrev, hplain, hlt⟩ := eq_append_of_find (s := s.reverse) hi
  rw [List.length_reverse] at hlt
  refine ⟨(s.reverse.drop (i + 1)).reverse, (s.reverse.take i).reverse, ?_, ?_, ?_⟩
  · have h := congrArg List.reverse hrev
    rwa [List.reverse_reverse, List.reverse_append, List.reverse_cons, List.append_assoc] at h
  · rwa [List.mem_reverse]
  · rw [List.length_reverse, List.length_drop, List.length_reverse]
    omega

/-- A string behind its first part and the separator. -/
theorem drop_append_cons (s : Bytes) (c : UInt8) (t : Bytes) :
    (s ++ c :: t).drop (s.length + 1) = t := by
  rw [← List.drop_drop, List.drop_left, List.drop_one, List.tail_cons]

/-- The piece behind a separator, cut out by its place and its length. -/
theorem substr_append_cons (s : Bytes) (c : UInt8) (t u : Bytes) :
    substr (s ++ c :: (t ++ u)) (s.length + 1) t.length = t := by
  rw [substr, drop_append_cons, List.take_left]

end MdtDialoutCollector.Text
