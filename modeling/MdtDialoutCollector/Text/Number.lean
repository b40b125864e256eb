import MdtDialoutCollector.Text.Bytes

/-! The texts `std::stoi` takes, as a grammar: white space, a sign, a run of digits as long as
possible, and anything after it. -/

namespace MdtDialoutCollector.Text

/-- The text begins with a run of digits, all of them together this number. -/
inductive Digits : Bytes → ℕ → Prop
  | run {ds rest : Bytes} (hne : ds ≠ []) (hds : ∀ c ∈ ds, isDigit c = true)
      (hrest : ∀ c, rest.head? = some c → isDigit c = false) : Digits (ds ++ rest) (digitsValue ds)

/-- The text begins with this number, behind white space. -/
inductive Number : Bytes → ℤ → Prop
  | plain {spaces t : Bytes} {n : ℕ} (hspaces : ∀ c ∈ spaces, isSpace c = true)
      (ht : Digits t n) : Number (spaces ++ t) n
  | plus {spaces t : Bytes} {n : ℕ} (hspaces : ∀ c ∈ spaces, isSpace c = true)
      (ht : Digits t n) : Number (spaces ++ 43 :: t) n
  | minus {spaces t : Bytes} {n : ℕ} (hspaces : ∀ c ∈ spaces, isSpace c = true)
      (ht : Digits t n) : Number (spaces ++ 45 :: t) (-n)

/-- A run of bytes of one kind ends before the first byte that is not of it. -/
theorem run_append {p : UInt8 → Bool} {s t : Bytes} (hs : ∀ c ∈ s, p c = true)
    (ht : ∀ c, t.head? = some c → p c = false) :
    (s ++ t).takeWhile p = s ∧ (s ++ t).dropWhile p = t := by
  have hstop : t.takeWhile p = [] ∧ t.dropWhile p = t := by
    cases t with
    | nil => exact ⟨rfl, rfl⟩
    | cons c t =>
      have hc := ht c rfl
      simp [hc]
  rw [List.takeWhile_append_of_pos hs, List.dropWhile_append_of_pos hs, hstop.1, hstop.2,
    List.append_nil]
  exact ⟨rfl, rfl⟩

theorem digits_iff {t : Bytes} {n : ℕ} :
    Digits t n ↔ t.takeWhile isDigit ≠ [] ∧ digitsValue (t.takeWhile isDigit) = n := by
  constructor
  · rintro ⟨hne, hds, hrest⟩
    rw [(run_append hds hrest).1]
    exact ⟨hne, rfl⟩
  · rintro ⟨hne, rfl⟩
    have hstop : ∀ c, (t.dropWhile isDigit).head? = some c → isDigit c = false := by
      intro c hc
      have hnot := List.head?_dropWhile_not isDigit t
      rw [hc] at hnot
      simpa using hnot
    have hrun := Digits.run hne (fun c hc => List.mem_takeWhile_imp hc) hstop
    rwa [List.takeWhile_append_dropWhile] at hrun

/-- A run of digits has a first one, which is neither white space nor a sign. -/
theorem Digits.head {t : Bytes} {n : ℕ} (h : Digits t n) :
    ∃ c r, t = c :: r ∧ isSpace c = false ∧ c ≠ 45 ∧ c ≠ 43 := by
  obtain ⟨hne, hds, -⟩ := h
  obtain ⟨c, r, rfl⟩ := List.exists_cons_of_ne_nil hne
  exact ⟨c, _, List.cons_append, plain_of_isDigit (hds c List.mem_cons_self)⟩

/-- What `stoi` makes of a text behind white space and sign. -/
def readDigits (neg : Bool) (t : Bytes) : Except StdException ℤ :=
  let ds := t.takeWhile isDigit
  let n : ℤ := if neg then -(digitsValue ds : ℤ) else digitsValue ds
  if ds = [] then .error .invalidArgument
  else if n < -2 ^ 31 ∨ 2 ^ 31 ≤ n then .error .outOfRange
  else .ok n

theorem readDigits_ok_iff {neg : Bool} {t : Bytes} {n : ℤ} :
    readDigits neg t = .ok n ↔
      (∃ m, Digits t m ∧ n = if neg then -(m : ℤ) else m) ∧ -2 ^ 31 ≤ n ∧ n < 2 ^ 31 := by
  simp only [readDigits, digits_iff, and_assoc, exists_and_left, exists_eq_left']
  generalize (if neg = true then _ else _ : ℤ) = v
  split_ifs with hds hv
  · simp [hds]
  · simp only [false_iff]
    omega
  · rw [Except.ok.injEq]
    constructor
    · rintro rfl
      exact ⟨hds, rfl, by omega, by omega⟩
    · exact fun h => h.2.1.symm

theorem stoi_eq {s t : Bytes} (h : s.dropWhile isSpace = t) :
    stoi s =
      if t.head? = some 45 then readDigits true t.tail
      else if t.head? = some 43 then readDigits false t.tail
      else readDigits false t := by
  rw [stoi, h]
  by_cases hminus : t.head? = some 45
  · simp [hminus, readDigits]
  · by_cases hplus : t.head? = some 43
    · simp [hplus, readDigits]
    · have hm : (t.head? == some 45) = false := by simpa using hminus
      have hp : (t.head? == some 43) = false := by simpa using hplus
      simp [hm, hp, hminus, hplus, readDigits]

/-- The texts that `stoi` takes, and the number it takes from each. -/
theorem stoi_ok_iff {s : Bytes} {n : ℤ} :
    stoi s = .ok n ↔ Number s n ∧ -2 ^ 31 ≤ n ∧ n < 2 ^ 31 := by
  constructor
  · intro h
    have hspaces : ∀ c ∈ s.takeWhile isSpace, isSpace c = true :=
      fun c hc => List.mem_takeWhile_imp hc
    have hs : s.takeWhile isSpace ++ s.dropWhile isSpace = s := List.takeWhile_append_dropWhile
    rw [stoi_eq rfl] at h
    rw [← hs]
    split_ifs at h with hminus hplus
    · obtain ⟨t, ht⟩ := List.head?_eq_some_iff.mp hminus
      rw [ht] at h ⊢
      obtain ⟨⟨m, hm, rfl⟩, hrange⟩ := readDigits_ok_iff.mp h
      exact ⟨.minus hspaces hm, hrange⟩
    · obtain ⟨t, ht⟩ := List.head?_eq_some_iff.mp hplus
      rw [ht] at h ⊢
      obtain ⟨⟨m, hm, rfl⟩, hrange⟩ := readDigits_ok_iff.mp h
      exact ⟨.plus hspaces hm, hrange⟩
    · obtain ⟨⟨m, hm, rfl⟩, hrange⟩ := readDigits_ok_iff.mp h
      exact ⟨.plain hspaces hm, hrange⟩
  · rintro ⟨hnumber, hrange⟩
    cases hnumber with
    | plain hspaces ht =>
      obtain ⟨c, r, rfl, hc, hminus, hplus⟩ := ht.head
      rw [stoi_eq (run_append hspaces (by simpa using hc)).2, if_neg (by simpa using hminus),
        if_neg (by simpa using hplus)]
      exact readDigits_ok_iff.mpr ⟨⟨_, ht, rfl⟩, hrange⟩
    | plus hspaces ht =>
      rw [stoi_eq (run_append hspaces (by simp; decide)).2]
      exact readDigits_ok_iff.mpr ⟨⟨_, ht, rfl⟩, hrange⟩
    | minus hspaces ht =>
      rw [stoi_eq (run_append hspaces (by simp; decide)).2]
      exact readDigits_ok_iff.mpr ⟨⟨_, ht, rfl⟩, hrange⟩

end MdtDialoutCollector.Text
