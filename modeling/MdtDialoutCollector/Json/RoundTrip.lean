import MdtDialoutCollector.Json.Read
import Mathlib.Data.List.TakeDrop

/-! Reading what was written. A canonical value is read back from its text, with any
delimiter following, exactly when its strings are among the texts the reader
accepts; otherwise the text is refused. -/

namespace MdtDialoutCollector.Json

open Data Text

/-! ### Decimal texts -/

theorem natText_eq (n : ℕ) :
    natText n = if n < 10 then [(48 + n).toUInt8] else natText (n / 10) ++ [(48 + n % 10).toUInt8] := by
  have hd : ∀ d < 10, (Nat.digitChar d).toNat.toUInt8 = (48 + d).toUInt8 := by decide
  unfold natText
  rw [Nat.toDigits_eq_if (by decide)]
  split_ifs with h
  · simp [hd n h]
  · simp [hd (n % 10) (Nat.mod_lt _ (by decide))]

theorem isDigit_digit {d : ℕ} (h : d < 10) : isDigit (48 + d).toUInt8 = true := by
  have hd : ∀ d < 10, isDigit (48 + d).toUInt8 = true := by decide
  exact hd d h

theorem toNat_digit {d : ℕ} (h : d < 10) : (48 + d).toUInt8.toNat - 48 = d := by
  have hd : ∀ d < 10, (48 + d).toUInt8.toNat - 48 = d := by decide
  exact hd d h

theorem isDigit_of_mem_natText (n : ℕ) : ∀ c ∈ natText n, isDigit c = true := by
  induction n using Nat.strong_induction_on with
  | _ n ih =>
    intro c hc
    rw [natText_eq] at hc
    split_ifs at hc with h
    · rw [List.mem_singleton.mp hc]
      exact isDigit_digit h
    · rcases List.mem_append.mp hc with hc | hc
      · exact ih (n / 10) (by omega) c hc
      · rw [List.mem_singleton.mp hc]
        exact isDigit_digit (Nat.mod_lt _ (by decide))

theorem natText_ne_nil (n : ℕ) : natText n ≠ [] := by
  simp [natText]

theorem digitsValue_natText (n : ℕ) : digitsValue (natText n) = n := by
  induction n using Nat.strong_induction_on with
  | _ n ih =>
    rw [natText_eq]
    split_ifs with h
    · simp only [digitsValue, List.foldl_cons, List.foldl_nil]
      rw [toNat_digit h]
      omega
    · have hrec := ih (n / 10) (by omega)
      simp only [digitsValue, List.foldl_append, List.foldl_cons, List.foldl_nil] at hrec ⊢
      rw [hrec, toNat_digit (Nat.mod_lt _ (by decide))]
      exact Nat.div_add_mod' n 10

/-- No leading zero, except in `0` itself. -/
theorem natText_head (n : ℕ) : (natText n).head? = some 48 → n = 0 := by
  induction n using Nat.strong_induction_on with
  | _ n ih =>
    intro h
    rw [natText_eq] at h
    split_ifs at h with hn
    · have hd : ∀ d < 10, (48 + d).toUInt8 = 48 → d = 0 := by decide
      simp only [List.head?_cons, Option.some.injEq] at h
      exact hd n hn h
    · rw [List.head?_append_of_ne_nil _ (natText_ne_nil _)] at h
      have := ih (n / 10) (by omega) h
      omega

/-! ### Delimiters -/

/-- What may follow a value in a compact text. -/
def Delim (r : Bytes) : Prop := ∀ c, r.head? = some c → c = 44 ∨ c = 93 ∨ c = 125

theorem delim_nil : Delim [] := by
  intro c hc
  simp at hc

theorem delim_cons {c : UInt8} (h : c = 44 ∨ c = 93 ∨ c = 125) (r : Bytes) : Delim (c :: r) := by
  intro d hd
  simp only [List.head?_cons, Option.some.injEq] at hd
  exact hd ▸ h

theorem span_digits {ds r : Bytes} (hd : ∀ c ∈ ds, isDigit c = true)
    (hr : ∀ c, r.head? = some c → isDigit c = false) :
    (ds ++ r).span isDigit = (ds, r) := by
  rw [List.span_eq_takeWhile_dropWhile]
  have hr' : r.takeWhile isDigit = [] ∧ r.dropWhile isDigit = r := by
    cases r with
    | nil => simp
    | cons c r => simp [hr c rfl]
  rw [List.takeWhile_append_of_pos hd, List.dropWhile_append_of_pos hd, hr'.1, hr'.2]
  simp

theorem Delim.not_digit {r : Bytes} (h : Delim r) : ∀ c, r.head? = some c → isDigit c = false := by
  intro c hc
  rcases h c hc with rfl | rfl | rfl <;> decide

theorem Delim.readFraction {r : Bytes} (h : Delim r) : readFraction r = some ([], r) := by
  cases r with
  | nil => rfl
  | cons c r =>
    have : c ≠ 46 := by rcases h c rfl with rfl | rfl | rfl <;> decide
    simp [Json.readFraction, this]

theorem Delim.readExponent {r : Bytes} (h : Delim r) : readExponent r = some ([], r) := by
  cases r with
  | nil => rfl
  | cons c r =>
    have : ¬(c = 101 ∨ c = 69) := by rcases h c rfl with rfl | rfl | rfl <;> decide
    simp [Json.readExponent, this]

/-! ### Integers -/

theorem natText_head_ne_minus (n : ℕ) (r : Bytes) : (natText n ++ r).head? ≠ some 45 := by
  rw [List.head?_append_of_ne_nil _ (natText_ne_nil n)]
  intro h
  have := isDigit_of_mem_natText n 45 (List.mem_of_mem_head? h)
  exact absurd this (by decide)

theorem readInteger_natText (n : ℕ) {r : Bytes} (hr : ∀ c, r.head? = some c → isDigit c = false) :
    readInteger (natText n ++ r) = some (natText n, r) := by
  have hlen : ¬(natText n = [] ∨ ((natText n).head? = some 48 ∧ (natText n).length ≠ 1)) := by
    rintro (h | ⟨h, hl⟩)
    · exact natText_ne_nil n h
    · have h0 := natText_head n h
      subst h0
      exact hl (by decide)
  have hspan := span_digits (isDigit_of_mem_natText n) hr
  simp only [readInteger, if_neg (natText_head_ne_minus n r), List.length_nil, List.drop_zero, hspan,
    if_neg hlen, List.nil_append]

theorem readInteger_intText (n : ℤ) {r : Bytes} (hr : ∀ c, r.head? = some c → isDigit c = false) :
    readInteger (intText n ++ r) = some (intText n, r) := by
  unfold intText
  split_ifs with h
  · have hpos := readInteger_natText n.natAbs hr
    simp only [readInteger, if_neg (natText_head_ne_minus _ _), List.length_nil, List.drop_zero,
      List.nil_append] at hpos
    simp only [readInteger, List.cons_append, List.head?_cons, if_true, List.length_singleton,
      List.drop_one, List.tail_cons]
    have hspan := span_digits (isDigit_of_mem_natText n.natAbs) hr
    rw [hspan] at hpos ⊢
    simp only at hpos ⊢
    split_ifs at hpos ⊢
    rfl
  · exact readInteger_natText n.natAbs hr

theorem readNumber_intText (n : ℤ) {r : Bytes} (hr : Delim r) :
    readNumber (intText n ++ r) = some (intText n, r) := by
  simp [readNumber, readInteger_intText n hr.not_digit, hr.readFraction, hr.readExponent]

theorem intValue_intText (n : ℤ) : intValue (intText n) = n := by
  unfold intText intValue
  split_ifs with h h' h'
  · simp only [List.tail_cons, digitsValue_natText]
    omega
  · simp at h'
  · have := natText_head_ne_minus n.natAbs []
    rw [List.append_nil] at this
    exact absurd h' this
  · rw [digitsValue_natText]
    omega

theorem intText_plain (n : ℤ) :
    (intText n).any (fun c => c == 46 || c == 101 || c == 69) = false := by
  have hdig : ∀ c : UInt8, isDigit c = true → (c == 46 || c == 101 || c == 69) = false := by
    intro c hc
    simp only [isDigit, Bool.and_eq_true, decide_eq_true_eq, UInt8.le_iff_toNat_le] at hc
    simp only [Bool.or_eq_false_iff, beq_eq_false_iff_ne, ne_eq, ← UInt8.toNat_inj]
    simp only [UInt8.reduceToNat] at hc ⊢
    omega
  rw [List.any_eq_false]
  intro c hc
  have hc' : c = 45 ∨ isDigit c = true := by
    unfold intText at hc
    split_ifs at hc
    · rcases List.mem_cons.mp hc with h | h
      · exact .inl h
      · exact .inr (isDigit_of_mem_natText _ c h)
    · exact .inr (isDigit_of_mem_natText _ c hc)
  rcases hc' with rfl | h
  · decide
  · rw [hdig c h]
    decide

theorem decodeNumber_intText (F : FloatText) {n : ℤ} (h : -2 ^ 63 ≤ n ∧ n < 2 ^ 64) :
    decodeNumber F (intText n) = .int n := by
  have hb : ¬((intText n).any (fun c => c == 46 || c == 101 || c == 69) = true) := by
    rw [intText_plain]; decide
  rw [decodeNumber, if_neg hb, intValue_intText, if_pos h]

/-! ### Strings -/

theorem readString_escapeByte (n : ℕ) (c : UInt8) (r : Bytes) :
    readString (n + 1) (escapeByte c ++ r) = (readString n r).map fun p => (c :: p.1, p.2) := by
  have hhex : ∀ c : UInt8, c < 32 →
      readHex (48 :: 48 :: hexDigit (c.toNat / 16) :: hexDigit (c.toNat % 16) :: r) =
        some (c.toNat, r) := by
    intro c hc
    have hd : ∀ d < 16, hexValue (hexDigit d) = some d := by decide
    have hlt : c.toNat < 32 := UInt8.lt_iff_toNat_lt.mp hc
    have h0 : hexValue 48 = some 0 := by decide
    simp only [readHex, h0, hd (c.toNat / 16) (by omega), hd (c.toNat % 16) (by omega),
      Option.bind_eq_bind, Option.bind_some, Option.some.injEq, Prod.mk.injEq, and_true]
    omega
  have hbind : ((readString n r).map fun p => (c :: p.1, p.2)) =
      (readString n r).bind fun p => some (c :: p.1, p.2) := Option.map_eq_bind
  rw [hbind]
  unfold escapeByte
  split_ifs with h₁ h₂ h₃
  · subst h₁
    simp [readString, readEscape]
  · subst h₂
    simp [readString, readEscape]
  · have hlt : c.toNat < 32 := UInt8.lt_iff_toNat_lt.mp h₃
    have hpt : encodePoint c.toNat = [c] := by
      rw [encodePoint, if_pos (by omega)]
      simp
    simp [readString, readEscape, hhex c h₃, hpt, show c.toNat < 55296 by omega]
  · simp [readString, h₁, h₂, h₃]

theorem readString_quote (s : Bytes) {n : ℕ} (hn : s.length < n) (r : Bytes) :
    readString n (s.flatMap escapeByte ++ 34 :: r) = some (s, r) := by
  induction s generalizing n with
  | nil =>
    obtain ⟨n, rfl⟩ := Nat.exists_eq_add_one_of_ne_zero (by omega : n ≠ 0)
    simp [readString]
  | cons c s ih =>
    obtain ⟨n, rfl⟩ := Nat.exists_eq_add_one_of_ne_zero (by omega : n ≠ 0)
    rw [List.flatMap_cons, List.append_assoc, readString_escapeByte,
      ih (by simpa using hn)]
    rfl

theorem length_le_quote (s : Bytes) : s.length + 2 ≤ (quote s).length := by
  have hesc : ∀ c, 1 ≤ (escapeByte c).length := by
    intro c
    unfold escapeByte
    split_ifs <;> simp
  have : s.length ≤ (s.flatMap escapeByte).length := by
    induction s with
    | nil => simp
    | cons c s ih =>
      have := hesc c
      simp only [List.flatMap_cons, List.length_append, List.length_cons]
      omega
  simp only [quote, List.length_cons, List.length_append]
  omega

/-! ### Doubles -/

/-- What a printer and a scanner of doubles have to satisfy for texts to be read back. -/
structure FloatText.Lawful (F : FloatText) : Prop where
  token : ∀ d, d.isNaN = false → ∀ r, Delim r → readNumber (F.print d ++ r) = some (F.print d, r)
  marked : ∀ d, d.isNaN = false →
    (F.print d).any (fun c => c == 46 || c == 101 || c == 69) = true
  scan_print : ∀ d, d.isNaN = false → F.scan (F.print d) = d
  scan_finite : ∀ t, (F.scan t).isNaN = false
  no_nul : ∀ d, 0 ∉ F.print d

theorem readInteger_head {s t r : Bytes} (h : readInteger s = some (t, r)) :
    ∃ c u, s = c :: u ∧ (c = 45 ∨ isDigit c = true) := by
  cases s with
  | nil => simp [readInteger] at h
  | cons c u =>
    refine ⟨c, u, rfl, ?_⟩
    by_cases hc : c = 45
    · exact .inl hc
    · right
      by_contra hd
      simp [readInteger, hc, List.span_eq_takeWhile_dropWhile, hd] at h

theorem readNumber_head {s t r : Bytes} (h : readNumber s = some (t, r)) :
    ∃ c u, s = c :: u ∧ (c = 45 ∨ isDigit c = true) := by
  simp only [readNumber, Option.bind_eq_bind, Option.bind_eq_some_iff] at h
  obtain ⟨⟨i, u⟩, hi, -⟩ := h
  exact readInteger_head hi

/-! ### Heads of written texts -/

/-- The first byte of a text that starts with a value. -/
def Opens (s : Bytes) : Prop :=
  ∃ c u, s = c :: u ∧ isWs c = false ∧ c ≠ 93 ∧ c ≠ 125 ∧ c ≠ 44

theorem Opens.append {s : Bytes} (h : Opens s) (r : Bytes) : Opens (s ++ r) := by
  obtain ⟨c, u, rfl, h⟩ := h
  exact ⟨c, u ++ r, rfl, h⟩

theorem Opens.skipWs {s : Bytes} (h : Opens s) : skipWs s = s := by
  obtain ⟨c, u, rfl, hc, -⟩ := h
  simp [Json.skipWs, hc]

theorem Opens.eat_eq_none {s : Bytes} (h : Opens s) {c : UInt8} (hc : c = 93 ∨ c = 125 ∨ c = 44) :
    eat c s = none := by
  have hs := h.skipWs
  obtain ⟨d, u, rfl, -, h₁, h₂, h₃⟩ := h
  have hd : d ≠ c := by rcases hc with rfl | rfl | rfl <;> assumption
  simp [eat, hs, hd]

theorem eat_cons {c : UInt8} (h : isWs c = false) (r : Bytes) : eat c (c :: r) = some r := by
  simp [eat, skipWs, h]

theorem eat_cons_of_ne {c d : UInt8} (h : isWs d = false) (hd : d ≠ c) (r : Bytes) :
    eat c (d :: r) = none := by
  simp [eat, skipWs, h, hd]

theorem opens_number {s t r : Bytes} (h : readNumber s = some (t, r)) : Opens s := by
  obtain ⟨c, u, rfl, hc⟩ := readNumber_head h
  refine ⟨c, u, rfl, ?_⟩
  have hc' : c.toNat = 45 ∨ 48 ≤ c.toNat ∧ c.toNat ≤ 57 := by
    rcases hc with rfl | hc
    · exact .inl rfl
    · right
      simpa [isDigit, UInt8.le_iff_toNat_le] using hc
  simp only [isWs, Bool.or_eq_false_iff, beq_eq_false_iff_ne, ne_eq, ← UInt8.toNat_inj]
  simp only [UInt8.reduceToNat]
  omega

theorem opens_quote (s : Bytes) : Opens (quote s) :=
  ⟨34, _, rfl, by decide⟩

theorem opens_write {F : FloatText} (hF : F.Lawful) (v : Value) : Opens (write F v) := by
  cases v with
  | null => exact ⟨110, _, by rw [write]; rfl, by decide⟩
  | bool b =>
    cases b with
    | false => exact ⟨102, _, by rw [write]; rfl, by decide⟩
    | true => exact ⟨116, _, by rw [write]; rfl, by decide⟩
  | int n =>
    have h := opens_number (readNumber_intText n delim_nil)
    rwa [List.append_nil] at h
  | real d =>
    rw [write]
    split_ifs with hd
    · exact ⟨110, _, rfl, by decide⟩
    · have h := opens_number (hF.token d (Bool.eq_false_iff.mpr hd) [] delim_nil)
      rwa [List.append_nil] at h
  | str s => exact opens_quote s
  | arr xs => exact ⟨91, _, by rw [write], by decide⟩
  | obj ms => exact ⟨123, _, by rw [write], by decide⟩

/-! ### Reading a written text -/

section Fuel

variable {F : FloatText} {ok : Bytes → Bool}

theorem readValue_quote {n : ℕ} (s : Bytes) (hn : (quote s).length < n) (r : Bytes) :
    readValue F ok n (quote s ++ r) = if ok s then some (.str s, r) else none := by
  obtain ⟨n, rfl⟩ := Nat.exists_eq_add_one_of_ne_zero (by omega : n ≠ 0)
  have hlen := length_le_quote s
  have hq : quote s ++ r = 34 :: (s.flatMap escapeByte ++ 34 :: r) := by simp [quote]
  have hs : readString n (s.flatMap escapeByte ++ 34 :: r) = some (s, r) :=
    readString_quote s (by omega) r
  rw [readValue, ((opens_quote s).append r).skipWs, hq]
  simp [hs]

theorem readValue_number {n : ℕ} {t r : Bytes} (hn : 0 < n)
    (ht : readNumber (t ++ r) = some (t, r)) :
    readValue F ok n (t ++ r) = some (decodeNumber F t, r) := by
  obtain ⟨n, rfl⟩ := Nat.exists_eq_add_one_of_ne_zero (by omega : n ≠ 0)
  obtain ⟨c, u, hs, hc⟩ := readNumber_head ht
  have hc' : c.toNat = 45 ∨ 48 ≤ c.toNat ∧ c.toNat ≤ 57 := by
    rcases hc with rfl | hc
    · exact .inl rfl
    · right
      simpa [isDigit, UInt8.le_iff_toNat_le] using hc
  have hne : c ≠ 34 ∧ c ≠ 91 ∧ c ≠ 123 ∧ c ≠ 110 ∧ c ≠ 116 ∧ c ≠ 102 := by
    simp only [ne_eq, ← UInt8.toNat_inj, UInt8.reduceToNat]
    omega
  obtain ⟨h₁, h₂, h₃, h₄, h₅, h₆⟩ := hne
  rw [readValue, (opens_number ht).skipWs]
  rw [hs] at ht ⊢
  simp [h₁, h₂, h₃, h₄, h₅, h₆, ht]

theorem readElems_cons {n : ℕ} {x : Value} {s r : Bytes}
    (hx : readValue F ok n s = some (x, 44 :: r)) :
    readElems F ok (n + 1) s = (readElems F ok n r).map fun p => (x :: p.1, p.2) := by
  rw [readElems, hx]
  simp [eat_cons (c := 44) (by decide)]

theorem readElems_last {n : ℕ} {x : Value} {s r : Bytes}
    (hx : readValue F ok n s = some (x, 93 :: r)) :
    readElems F ok (n + 1) s = some ([x], r) := by
  rw [readElems, hx]
  simp [eat_cons (c := 93) (by decide), eat_cons_of_ne (c := 44) (d := 93) (by decide) (by decide)]

theorem readElems_none {n : ℕ} {s : Bytes} (hx : readValue F ok n s = none) :
    readElems F ok (n + 1) s = none := by
  rw [readElems, hx]
  rfl

end Fuel

namespace Value

theorem strings_arr_cons {q : Bytes → Bool} (x : Value) (xs : List Value) :
    (Value.arr (x :: xs)).Strings q ↔ x.Strings q ∧ (Value.arr xs).Strings q := by
  simp [strings_arr]

theorem strings_obj_cons {q : Bytes → Bool} (k : Bytes) (v : Value) (ms : Members) :
    (Value.obj ((k, v) :: ms)).Strings q ↔
      (q k = true ∧ v.Strings q) ∧ (Value.obj ms).Strings q := by
  simp [strings_obj]

end Value

section Containers

open scoped Classical

variable {F : FloatText} {ok : Bytes → Bool}

/-- What reading the text of `v` gives, with any delimiter after it. -/
def ReadsBack (F : FloatText) (ok : Bytes → Bool) (v : Value) : Prop :=
  ∀ n r, Delim r → (write F v).length < n →
    readValue F ok n (write F v ++ r) = if v.Strings ok then some (v.printed, r) else none

theorem readElems_writeElems {xs : List Value} (hne : xs ≠ []) (hread : ∀ x ∈ xs, ReadsBack F ok x)
    {n : ℕ} (hn : (writeElems F xs).length + 1 < n) (r : Bytes) :
    readElems F ok n (writeElems F xs ++ 93 :: r) =
      if (Value.arr xs).Strings ok then some (printedArr xs, r) else none := by
  induction xs generalizing n with
  | nil => exact absurd rfl hne
  | cons x xs ih =>
    obtain ⟨n, rfl⟩ := Nat.exists_eq_add_one_of_ne_zero (by omega : n ≠ 0)
    obtain ⟨hx, hread⟩ := List.forall_mem_cons.mp hread
    rw [Value.strings_arr_cons]
    cases xs with
    | nil =>
      rw [writeElems] at hn ⊢
      have h := hx n (93 :: r) (delim_cons (.inr (.inl rfl)) r) (by omega)
      have hnil : (Value.arr []).Strings ok := (Value.strings_arr []).mpr (by simp)
      by_cases hs : x.Strings ok
      · rw [if_pos hs] at h
        rw [readElems_last h, if_pos ⟨hs, hnil⟩, printedArr, printedArr]
      · rw [if_neg hs] at h
        rw [readElems_none h, if_neg fun hall => hs hall.1]
    | cons y xs =>
      rw [writeElems, List.length_append, List.length_cons] at hn
      rw [writeElems, List.append_assoc, List.cons_append]
      have h := hx n _ (delim_cons (.inl rfl) (writeElems F (y :: xs) ++ 93 :: r)) (by omega)
      by_cases hs : x.Strings ok
      · rw [if_pos hs] at h
        rw [readElems_cons h, ih (by simp) hread (by omega)]
        by_cases hss : (Value.arr (y :: xs)).Strings ok
        · rw [if_pos hss, if_pos ⟨hs, hss⟩, Option.map_some]
          rfl
        · rw [if_neg hss, if_neg fun hall => hss hall.2, Option.map_none]
      · rw [if_neg hs] at h
        rw [readElems_none h, if_neg fun hall => hs hall.1]

/-- A member whose name is accepted is read up to the text after its value. -/
theorem readMembers_name {n : ℕ} {k : Bytes} (hk : ok k = true) (s : Bytes) (hn : k.length < n) :
    readMembers F ok (n + 1) (quote k ++ 58 :: s) =
      (readValue F ok n s).bind fun p =>
        (eat 44 p.2).elim ((eat 125 p.2).map fun r => ([(k, p.1)], r)) fun r =>
          (readMembers F ok n r).map fun q => ((k, p.1) :: q.1, q.2) := by
  have hq : quote k ++ 58 :: s = 34 :: (k.flatMap escapeByte ++ 34 :: 58 :: s) := by simp [quote]
  rw [readMembers, hq, eat_cons (by decide)]
  simp only [Option.bind_eq_bind, Option.bind_some, readString_quote k hn, if_pos hk,
    eat_cons (c := 58) (by decide)]
  congr 1
  funext p
  cases eat 44 p.2 <;> rfl

theorem readMembers_name_none {n : ℕ} {k : Bytes} (hk : ¬ok k = true) (s : Bytes)
    (hn : k.length < n) : readMembers F ok (n + 1) (quote k ++ 58 :: s) = none := by
  have hq : quote k ++ 58 :: s = 34 :: (k.flatMap escapeByte ++ 34 :: 58 :: s) := by simp [quote]
  rw [readMembers, hq, eat_cons (by decide)]
  simp only [Option.bind_eq_bind, Option.bind_some, readString_quote k hn, if_neg hk]

theorem readMembers_writeMembers {ms : Members} (hne : ms ≠ [])
    (hread : ∀ m ∈ ms, ReadsBack F ok m.2) {n : ℕ} (hn : (writeMembers F ms).length + 1 < n)
    (r : Bytes) :
    readMembers F ok n (writeMembers F ms ++ 125 :: r) =
      if (Value.obj ms).Strings ok then some (printedObj ms, r) else none := by
  induction ms generalizing n with
  | nil => exact absurd rfl hne
  | cons m ms ih =>
    obtain ⟨k, v⟩ := m
    obtain ⟨n, rfl⟩ := Nat.exists_eq_add_one_of_ne_zero (by omega : n ≠ 0)
    obtain ⟨hv, hread⟩ := List.forall_mem_cons.mp hread
    have hk := length_le_quote k
    rw [Value.strings_obj_cons]
    by_cases hok : ok k = true
    · cases ms with
      | nil =>
        rw [writeMembers, List.length_append, List.length_cons] at hn
        have h : readValue F ok n (write F v ++ 125 :: r) = _ :=
          hv n (125 :: r) (delim_cons (.inr (.inr rfl)) r) (by simp only; omega)
        have hnil : (Value.obj []).Strings ok := (Value.strings_obj []).mpr (by simp)
        rw [writeMembers, List.append_assoc, List.cons_append, readMembers_name hok _ (by omega), h]
        by_cases hs : v.Strings ok
        · rw [if_pos hs, if_pos ⟨⟨hok, hs⟩, hnil⟩]
          simp [eat_cons (c := 125) (by decide), printedObj,
            eat_cons_of_ne (c := 44) (d := 125) (by decide) (by decide)]
        · rw [if_neg hs, if_neg fun hall => hs hall.1.2, Option.bind_none]
      | cons m ms =>
        rw [writeMembers, List.length_append, List.length_cons, List.length_append,
          List.length_cons] at hn
        have h : readValue F ok n (write F v ++ 44 :: (writeMembers F (m :: ms) ++ 125 :: r)) = _ :=
          hv n _ (delim_cons (.inl rfl) (writeMembers F (m :: ms) ++ 125 :: r)) (by simp only; omega)
        rw [writeMembers, List.append_assoc, List.cons_append, List.append_assoc, List.cons_append,
          readMembers_name hok _ (by omega), h]
        by_cases hs : v.Strings ok
        · rw [if_pos hs, Option.bind_some]
          simp only [eat_cons (c := 44) (by decide), Option.elim_some,
            ih (by simp) hread (n := n) (by omega)]
          by_cases hss : (Value.obj (m :: ms)).Strings ok
          · rw [if_pos hss, if_pos ⟨⟨hok, hs⟩, hss⟩, Option.map_some]
            rfl
          · rw [if_neg hss, if_neg fun hall => hss hall.2, Option.map_none]
        · rw [if_neg hs, if_neg fun hall => hs hall.1.2, Option.bind_none]
    · rw [if_neg fun hall => hok hall.1.1]
      cases ms with
      | nil =>
        rw [writeMembers, List.length_append, List.length_cons] at hn
        rw [writeMembers, List.append_assoc, List.cons_append, readMembers_name_none hok _ (by omega)]
      | cons m ms =>
        rw [writeMembers, List.length_append, List.length_cons] at hn
        rw [writeMembers, List.append_assoc, List.cons_append, readMembers_name_none hok _ (by omega)]

theorem opens_writeElems (hF : F.Lawful) (x : Value) (xs : List Value) :
    Opens (writeElems F (x :: xs)) := by
  cases xs with
  | nil => exact opens_write hF x
  | cons y xs => exact (opens_write hF x).append _

theorem opens_writeMembers (m : Bytes × Value) (ms : Members) : Opens (writeMembers F (m :: ms)) := by
  obtain ⟨k, v⟩ := m
  cases ms with
  | nil => exact (opens_quote k).append _
  | cons m ms => exact (opens_quote k).append _

theorem readsBack_arr (hF : F.Lawful) {xs : List Value} (hxs : ∀ x ∈ xs, ReadsBack F ok x) :
    ReadsBack F ok (.arr xs) := by
  intro n r _ hn
  obtain ⟨n, rfl⟩ := Nat.exists_eq_add_one_of_ne_zero (by omega : n ≠ 0)
  have hopen := (opens_write hF (.arr xs)).append r
  simp only [write, List.length_cons, List.length_append, List.length_nil] at hn
  rw [readValue, hopen.skipWs, write, List.cons_append, List.append_assoc, List.singleton_append]
  cases xs with
  | nil =>
    rw [if_pos ((Value.strings_arr []).mpr (by simp))]
    simp [writeElems, eat_cons (c := 93) (by decide), Value.printed, printedArr]
  | cons x xs =>
    have heat : eat 93 (writeElems F (x :: xs) ++ 93 :: r) = none :=
      ((opens_writeElems hF x xs).append _).eat_eq_none (.inl rfl)
    have hread : readElems F ok n (writeElems F (x :: xs) ++ 93 :: r) = _ :=
      readElems_writeElems (by simp) hxs (by omega) r
    simp only [heat, hread]
    by_cases hs : (Value.arr (x :: xs)).Strings ok
    · simp [hs, Value.printed]
    · simp [hs]

theorem readsBack_obj (hF : F.Lawful) {ms : Members} (hms : ∀ m ∈ ms, ReadsBack F ok m.2) :
    ReadsBack F ok (.obj ms) := by
  intro n r _ hn
  obtain ⟨n, rfl⟩ := Nat.exists_eq_add_one_of_ne_zero (by omega : n ≠ 0)
  have hopen := (opens_write hF (.obj ms)).append r
  simp only [write, List.length_cons, List.length_append, List.length_nil] at hn
  rw [readValue, hopen.skipWs, write, List.cons_append, List.append_assoc, List.singleton_append]
  cases ms with
  | nil =>
    rw [if_pos ((Value.strings_obj []).mpr (by simp))]
    simp [writeMembers, eat_cons (c := 125) (by decide), Value.printed, printedObj]
  | cons m ms =>
    have heat : eat 125 (writeMembers F (m :: ms) ++ 125 :: r) = none :=
      ((opens_writeMembers m ms).append _).eat_eq_none (.inr (.inl rfl))
    have hread : readMembers F ok n (writeMembers F (m :: ms) ++ 125 :: r) = _ :=
      readMembers_writeMembers (by simp) hms (by omega) r
    simp only [heat, hread]
    by_cases hs : (Value.obj (m :: ms)).Strings ok
    · simp [hs, Value.printed]
    · simp [hs]

/-- Reading is the inverse of writing, on the values whose strings the reader accepts. -/
theorem readsBack (hF : F.Lawful) (ok : Bytes → Bool) {v : Value} (hv : v.Canonical) :
    ReadsBack F ok v := by
  induction v with
  | null =>
    intro n r _ hn
    obtain ⟨n, rfl⟩ := Nat.exists_eq_add_one_of_ne_zero (by omega : n ≠ 0)
    rw [if_pos (by simp [Value.Strings, Value.Every, Value.ownStrings])]
    rfl
  | bool b =>
    intro n r _ hn
    obtain ⟨n, rfl⟩ := Nat.exists_eq_add_one_of_ne_zero (by omega : n ≠ 0)
    rw [if_pos (by simp [Value.Strings, Value.Every, Value.ownStrings])]
    cases b <;> rfl
  | int i =>
    intro n r hr hn
    have h : -2 ^ 63 ≤ i ∧ i < 2 ^ 64 := hv.2
    rw [write, readValue_number (by omega) (readNumber_intText i hr), decodeNumber_intText F h]
    simp [Value.Strings, Value.Every, Value.ownStrings, Value.printed]
  | real d =>
    intro n r hr hn
    rw [if_pos (by simp [Value.Strings, Value.Every, Value.ownStrings])]
    by_cases hd : d.isNaN = true
    · obtain ⟨n, rfl⟩ := Nat.exists_eq_add_one_of_ne_zero (by omega : n ≠ 0)
      rw [write, if_pos hd, Value.printed, if_pos hd]
      rfl
    · have hd' := Bool.eq_false_iff.mpr hd
      have hdec : decodeNumber F (F.print d) = .real d := by
        rw [decodeNumber, if_pos (hF.marked d hd'), hF.scan_print d hd']
      rw [write, if_neg hd, readValue_number (by omega) (hF.token d hd' r hr), hdec,
        Value.printed, if_neg hd]
  | str s =>
    intro n r _ hn
    rw [write] at hn ⊢
    rw [readValue_quote s hn r]
    simp [Value.Strings, Value.Every, Value.ownStrings, Value.printed]
  | arr xs ih =>
    have hxs := ((Value.every_arr xs).mp hv).2
    exact readsBack_arr hF fun x hx => ih x hx (hxs x hx)
  | obj ms ih =>
    have hms := ((Value.every_obj ms).mp hv).2
    exact readsBack_obj hF fun m hm => ih m hm (hms m hm)

end Containers

theorem readFirst_write {F : FloatText} (hF : F.Lawful) {ok : Bytes → Bool} {v : Value}
    (hv : v.Canonical) (hs : v.Strings ok) :
    readFirst F ok (write F v) = some (v.printed, []) := by
  have h := readsBack hF ok hv ((write F v).length + 1) [] delim_nil (by omega)
  rwa [List.append_nil, if_pos hs] at h

theorem strictTree_write {F : FloatText} (hF : F.Lawful) {v : Value} (hv : v.Canonical)
    (hs : v.Strings validUtf8) : strictTree F (write F v) = some v.printed := by
  simp [strictTree, readDocument, readFirst_write hF hv hs, skipWs]

/-- A value with a string that is not UTF-8 has no JSON text in the strict sense. -/
theorem strictTree_write_eq_none {F : FloatText} (hF : F.Lawful) {v : Value} (hv : v.Canonical)
    (hs : ¬v.Strings validUtf8) : strictTree F (write F v) = none := by
  have h := readsBack hF validUtf8 hv ((write F v).length + 1) [] delim_nil (by omega)
  rw [List.append_nil, if_neg hs] at h
  simp [strictTree, readDocument, readFirst, h]

/-! ### No NUL byte in a written text -/

theorem nul_not_mem_natText (n : ℕ) : 0 ∉ natText n := fun h =>
  absurd (isDigit_of_mem_natText n 0 h) (by decide)

theorem nul_not_mem_quote (s : Bytes) : 0 ∉ quote s := by
  have hhex : ∀ d < 16, hexDigit d ≠ 0 := by decide
  have hesc : ∀ c, 0 ∉ escapeByte c := by
    intro c h
    unfold escapeByte at h
    split_ifs at h with h₁ h₂ h₃
    · simp at h
    · simp at h
    · have hlt : c.toNat < 32 := UInt8.lt_iff_toNat_lt.mp h₃
      have hhi := hhex (c.toNat / 16) (by omega)
      have hlo := hhex (c.toNat % 16) (by omega)
      simp [hhi.symm, hlo.symm] at h
    · simp only [List.mem_singleton] at h
      exact h₃ (h ▸ by decide)
  simp [quote, hesc]

theorem nul_not_mem_write {F : FloatText} (hF : F.Lawful) (v : Value) : 0 ∉ write F v := by
  induction v with
  | null => exact (by decide : (0 : UInt8) ∉ lit "null")
  | bool b =>
    cases b with
    | false => exact (by decide : (0 : UInt8) ∉ lit "false")
    | true => exact (by decide : (0 : UInt8) ∉ lit "true")
  | int n =>
    rw [write, intText]
    split_ifs
    · simp [nul_not_mem_natText]
    · exact nul_not_mem_natText _
  | real d =>
    rw [write]
    split_ifs
    · decide
    · exact hF.no_nul d
  | str s => exact nul_not_mem_quote s
  | arr xs ih =>
    have helems : 0 ∉ writeElems F xs := by
      induction xs with
      | nil => simp [writeElems]
      | cons x xs ihx =>
        obtain ⟨hx, hxs⟩ := List.forall_mem_cons.mp ih
        cases xs with
        | nil => exact hx
        | cons y xs => simp [writeElems, hx, ihx hxs]
    simp [write, helems]
  | obj ms ih =>
    have hmembers : 0 ∉ writeMembers F ms := by
      induction ms with
      | nil => simp [writeMembers]
      | cons m ms ihm =>
        obtain ⟨k, v⟩ := m
        obtain ⟨hv, hms⟩ := List.forall_mem_cons.mp ih
        have hv : 0 ∉ write F v := hv
        have hk := nul_not_mem_quote k
        cases ms with
        | nil => simp [writeMembers, hk, hv]
        | cons m ms => simp [writeMembers, hk, hv, ihm hms]
    simp [write, hmembers]

end MdtDialoutCollector.Json
