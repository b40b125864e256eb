import MdtDialoutCollector.Json.RoundTrip

/-! What the reader accepts is well formed: the values it denotes are canonical, a string is
shorter than its text, and a reader that accepts more texts as strings reads every
document the stricter one reads, to the same value. -/

namespace MdtDialoutCollector.Json

open Data Text

/-! ### Strings are shorter than their texts -/

theorem readHex_length {s r : Bytes} {u : ℕ} (h : readHex s = some (u, r)) :
    s.length = r.length + 4 := by
  match s with
  | [] | [_] | [_, _] | [_, _, _] => simp [readHex] at h
  | a :: b :: c :: d :: s =>
    simp only [readHex, Option.bind_eq_bind, Option.bind_eq_some_iff, Option.some.injEq,
      Prod.mk.injEq] at h
    obtain ⟨_, _, _, _, _, _, _, _, _, rfl⟩ := h
    simp

theorem encodePoint_length (u : ℕ) : (encodePoint u).length ≤ 4 := by
  unfold encodePoint
  split_ifs <;> simp

/-- A `\u` escape of four digits, or of two surrogates of four digits each. -/
theorem readUnicode_length {s d r : Bytes} (h : readEscape (117 :: s) = some (d, r)) :
    d.length + r.length ≤ s.length := by
  rw [readEscape, if_neg (by decide), if_neg (by decide), if_neg (by decide), if_neg (by decide),
    if_neg (by decide), if_neg (by decide), if_pos rfl] at h
  simp only [Option.bind_eq_bind, Option.bind_eq_some_iff, Prod.exists] at h
  obtain ⟨u, t, hu, h⟩ := h
  have hlen := readHex_length hu
  have henc := encodePoint_length u
  split_ifs at h with h₈ h₉
  · simp only [Option.some.injEq, Prod.mk.injEq] at h
    obtain ⟨rfl, rfl⟩ := h
    omega
  · simp only [Option.bind_eq_some_iff, Prod.exists] at h
    obtain ⟨w, t', hw, h⟩ := h
    have hlen' := readHex_length hw
    have henc' := encodePoint_length (0x10000 + (u - 0xD800) * 0x400 + (w - 0xDC00))
    split_ifs at h with h₁₀
    simp only [Option.some.injEq, Prod.mk.injEq] at h
    obtain ⟨rfl, rfl⟩ := h
    rw [List.length_drop] at hlen'
    omega

theorem readEscape_length {s d r : Bytes} (h : readEscape s = some (d, r)) :
    d.length + r.length ≤ s.length := by
  cases s with
  | nil => cases h
  | cons c s =>
    by_cases hu : c = 117
    · subst hu
      exact (readUnicode_length h).trans (Nat.le_succ _)
    · have hone : ∃ b, (d, r) = ([b], s) := by
        rw [readEscape] at h
        repeat' split at h
        all_goals first | exact absurd ‹_› hu | cases h
        all_goals exact ⟨_, rfl⟩
      obtain ⟨b, hdr⟩ := hone
      cases hdr
      rw [List.length_singleton, List.length_cons, Nat.add_comm]

theorem readString_length {n : ℕ} {s t r : Bytes} (h : readString n s = some (t, r)) :
    t.length + r.length < s.length := by
  induction n generalizing s t r with
  | zero => simp [readString] at h
  | succ n ih =>
    cases s with
    | nil => simp [readString] at h
    | cons c s =>
      rw [readString] at h
      split_ifs at h with h₁ h₂ h₃
      · simp only [Option.some.injEq, Prod.mk.injEq] at h
        obtain ⟨rfl, rfl⟩ := h
        simp
      · simp only [Option.bind_eq_bind, Option.bind_eq_some_iff, Prod.exists, Option.some.injEq,
          Prod.mk.injEq] at h
        obtain ⟨d, u, hd, t', r', ht, rfl, rfl⟩ := h
        have hd := readEscape_length hd
        have ht := ih ht
        simp only [List.length_append, List.length_cons]
        omega
      · simp only [Option.bind_eq_bind, Option.bind_eq_some_iff, Prod.exists, Option.some.injEq,
          Prod.mk.injEq] at h
        obtain ⟨t', r', ht, rfl, rfl⟩ := h
        have ht := ih ht
        simp only [List.length_cons]
        omega

section Reader

variable {F : FloatText} {ok : Bytes → Bool}

/-! ### What a reading step can do -/

/-- The forms a value can have been read from. -/
theorem readValue_cases {n : ℕ} {s r : Bytes} {v : Value}
    (h : readValue F ok (n + 1) s = some (v, r)) :
    (∃ u t, skipWs s = 34 :: u ∧ readString n u = some (t, r) ∧ ok t = true ∧ v = .str t) ∨
    (v = .arr []) ∨ (∃ u xs, readElems F ok n u = some (xs, r) ∧ v = .arr xs) ∨
    (v = .obj []) ∨ (∃ u ms, readMembers F ok n u = some (ms, r) ∧ v = .obj ms) ∨
    (v = .null) ∨ (∃ b, v = .bool b) ∨ (∃ t, v = decodeNumber F t) := by
  rw [readValue] at h
  cases hs : skipWs s with
  | nil => simp [hs] at h
  | cons c u =>
    simp only [hs] at h
    split_ifs at h with h₁ h₂ h₃ h₄ h₅ h₆
    · simp only [Option.bind_eq_bind, Option.bind_eq_some_iff, Prod.exists] at h
      obtain ⟨t, r', ht, h⟩ := h
      split_ifs at h with hok
      simp only [Option.some.injEq, Prod.mk.injEq] at h
      obtain ⟨rfl, rfl⟩ := h
      exact .inl ⟨u, t, by rw [h₁], ht, hok, rfl⟩
    · cases he : eat 93 u with
      | some r' =>
        simp only [he, Option.some.injEq, Prod.mk.injEq] at h
        exact .inr (.inl h.1.symm)
      | none =>
        simp only [he, Option.map_eq_some_iff, Prod.exists, Prod.mk.injEq] at h
        obtain ⟨xs, r', hx, rfl, rfl⟩ := h
        exact .inr (.inr (.inl ⟨u, xs, hx, rfl⟩))
    · cases he : eat 125 u with
      | some r' =>
        simp only [he, Option.some.injEq, Prod.mk.injEq] at h
        exact .inr (.inr (.inr (.inl h.1.symm)))
      | none =>
        simp only [he, Option.map_eq_some_iff, Prod.exists, Prod.mk.injEq] at h
        obtain ⟨ms, r', hm, rfl, rfl⟩ := h
        exact .inr (.inr (.inr (.inr (.inl ⟨u, ms, hm, rfl⟩))))
    · rw [readLiteral] at h
      split_ifs at h
      simp only [Option.some.injEq, Prod.mk.injEq] at h
      exact .inr (.inr (.inr (.inr (.inr (.inl h.1.symm)))))
    · rw [readLiteral] at h
      split_ifs at h
      simp only [Option.some.injEq, Prod.mk.injEq] at h
      exact .inr (.inr (.inr (.inr (.inr (.inr (.inl ⟨true, h.1.symm⟩))))))
    · rw [readLiteral] at h
      split_ifs at h
      simp only [Option.some.injEq, Prod.mk.injEq] at h
      exact .inr (.inr (.inr (.inr (.inr (.inr (.inl ⟨false, h.1.symm⟩))))))
    · simp only [Option.map_eq_some_iff, Prod.exists, Prod.mk.injEq] at h
      obtain ⟨t, r', -, rfl, -⟩ := h
      exact .inr (.inr (.inr (.inr (.inr (.inr (.inr ⟨t, rfl⟩))))))

theorem readElems_cases {n : ℕ} {s r : Bytes} {xs : List Value}
    (h : readElems F ok (n + 1) s = some (xs, r)) :
    ∃ x u, readValue F ok n s = some (x, u) ∧
      ((∃ u' ys, readElems F ok n u' = some (ys, r) ∧ xs = x :: ys) ∨ xs = [x]) := by
  rw [readElems] at h
  simp only [Option.bind_eq_bind, Option.bind_eq_some_iff, Prod.exists] at h
  obtain ⟨x, u, hx, h⟩ := h
  refine ⟨x, u, hx, ?_⟩
  cases he : eat 44 u with
  | some u' =>
    simp only [he, Option.map_eq_some_iff, Prod.exists, Prod.mk.injEq] at h
    obtain ⟨ys, r', hy, rfl, rfl⟩ := h
    exact .inl ⟨u', ys, hy, rfl⟩
  | none =>
    simp only [he, Option.map_eq_some_iff, Prod.mk.injEq] at h
    obtain ⟨r', -, rfl, -⟩ := h
    exact .inr rfl

theorem readMembers_cases {n : ℕ} {s r : Bytes} {ms : Members}
    (h : readMembers F ok (n + 1) s = some (ms, r)) :
    ∃ k v u u', ok k = true ∧ readValue F ok n u = some (v, u') ∧
      ((∃ u'' ms', readMembers F ok n u'' = some (ms', r) ∧ ms = (k, v) :: ms') ∨
        ms = [(k, v)]) := by
  rw [readMembers] at h
  simp only [Option.bind_eq_bind, Option.bind_eq_some_iff, Prod.exists] at h
  obtain ⟨_, _, k, _, _, h⟩ := h
  split_ifs at h with hok
  simp only [Option.bind_eq_some_iff, Prod.exists] at h
  obtain ⟨u, _, v, u', hv, h⟩ := h
  refine ⟨k, v, u, u', hok, hv, ?_⟩
  cases he : eat 44 u' with
  | some u'' =>
    simp only [he, Option.map_eq_some_iff, Prod.exists, Prod.mk.injEq] at h
    obtain ⟨ms', r', hm, rfl, rfl⟩ := h
    exact .inl ⟨u'', ms', hm, rfl⟩
  | none =>
    simp only [he, Option.map_eq_some_iff, Prod.mk.injEq] at h
    obtain ⟨r', -, rfl, -⟩ := h
    exact .inr rfl

theorem decodeNumber_cases (t : Bytes) :
    decodeNumber F t = .real (F.scan t) ∨
      (-2 ^ 63 ≤ intValue t ∧ intValue t < 2 ^ 64) ∧ decodeNumber F t = .int (intValue t) := by
  unfold decodeNumber
  split_ifs with h₁ h₂
  · exact .inl rfl
  · exact .inr ⟨h₂, rfl⟩
  · exact .inl rfl

/-! ### Accepted values -/

/-- A top-level string is shorter than the text it was read from. -/
theorem length_lt_of_readFirst {s t r : Bytes} (h : readFirst F ok s = some (.str t, r)) :
    t.length < s.length := by
  rcases readValue_cases h with ⟨u, t', hs, ht, -, hv⟩ | hv | ⟨_, _, _, hv⟩ | hv | ⟨_, _, _, hv⟩ |
    hv | ⟨_, hv⟩ | ⟨t', hv⟩
  · cases hv
    have hlen := readString_length ht
    have hle : (skipWs s).length ≤ s.length := List.length_dropWhile_le _ _
    rw [hs, List.length_cons] at hle
    omega
  iterate 6 exact absurd hv (by simp)
  rcases decodeNumber_cases (F := F) t' with h | ⟨-, h⟩
  · simp [h] at hv
  · simp [h] at hv

theorem numbers_read (hF : F.Lawful) (n : ℕ) :
    (∀ s v r, readValue F ok n s = some (v, r) → v.Every fun u => u.InRange ∧ u.NotNaN) ∧
    (∀ s xs r, readElems F ok n s = some (xs, r) →
      ∀ x ∈ xs, x.Every fun u => u.InRange ∧ u.NotNaN) ∧
    (∀ s ms r, readMembers F ok n s = some (ms, r) →
      ∀ m ∈ ms, m.2.Every fun u => u.InRange ∧ u.NotNaN) := by
  induction n with
  | zero =>
    refine ⟨?_, ?_, ?_⟩ <;> intro s v r h <;> simp [readValue, readElems, readMembers] at h
  | succ n ih =>
    obtain ⟨ihv, ihe, ihm⟩ := ih
    refine ⟨?_, ?_, ?_⟩
    · intro s v r h
      rcases readValue_cases h with ⟨_, t, _, _, _, rfl⟩ | rfl | ⟨u, xs, hx, rfl⟩ | rfl |
        ⟨u, ms, hm, rfl⟩ | rfl | ⟨b, rfl⟩ | ⟨t, rfl⟩
      · exact ⟨trivial, trivial⟩
      · exact (Value.every_arr _).mpr ⟨⟨trivial, trivial⟩, by simp⟩
      · exact (Value.every_arr _).mpr ⟨⟨trivial, trivial⟩, ihe u xs r hx⟩
      · exact (Value.every_obj _).mpr ⟨⟨trivial, trivial⟩, by simp⟩
      · exact (Value.every_obj _).mpr ⟨⟨trivial, trivial⟩, ihm u ms r hm⟩
      · exact ⟨trivial, trivial⟩
      · exact ⟨trivial, trivial⟩
      · rcases decodeNumber_cases (F := F) t with h | ⟨hb, h⟩
        · exact h ▸ ⟨trivial, hF.scan_finite t⟩
        · exact h ▸ ⟨hb, trivial⟩
    · intro s xs r h
      obtain ⟨x, u, hx, ⟨u', ys, hy, rfl⟩ | rfl⟩ := readElems_cases h
      · exact List.forall_mem_cons.mpr ⟨ihv s x u hx, ihe u' ys r hy⟩
      · exact List.forall_mem_singleton.mpr (ihv s x u hx)
    · intro s ms r h
      obtain ⟨k, v, u, u', -, hv, ⟨u'', ms', hm, rfl⟩ | rfl⟩ := readMembers_cases h
      · exact List.forall_mem_cons.mpr ⟨ihv u v u' hv, ihm u'' ms' r hm⟩
      · exact List.forall_mem_singleton.mpr (ihv u v u' hv)

theorem canonical_of_readFirst (hF : F.Lawful) {s r : Bytes} {t : Value}
    (h : readFirst F ok s = some (t, r)) : t.resolve.Canonical ∧ t.resolve.Every Value.NotNaN :=
  Value.canonical_resolve ((numbers_read hF _).1 s t r h)

/-- The strings of a value that was read are among the accepted ones. -/
theorem strings_read (n : ℕ) :
    (∀ s v r, readValue F ok n s = some (v, r) → v.Strings ok) ∧
    (∀ s xs r, readElems F ok n s = some (xs, r) → ∀ x ∈ xs, x.Strings ok) ∧
    (∀ s ms r, readMembers F ok n s = some (ms, r) →
      ∀ m ∈ ms, ok m.1 = true ∧ m.2.Strings ok) := by
  induction n with
  | zero =>
    refine ⟨?_, ?_, ?_⟩ <;> intro s v r h <;> simp [readValue, readElems, readMembers] at h
  | succ n ih =>
    obtain ⟨ihv, ihe, ihm⟩ := ih
    refine ⟨?_, ?_, ?_⟩
    · intro s v r h
      rcases readValue_cases h with ⟨_, t, _, _, hok, rfl⟩ | rfl | ⟨u, xs, hx, rfl⟩ | rfl |
        ⟨u, ms, hm, rfl⟩ | rfl | ⟨b, rfl⟩ | ⟨t, rfl⟩
      · simpa [Value.Strings, Value.Every, Value.ownStrings] using hok
      · exact (Value.strings_arr _).mpr (by simp)
      · exact (Value.strings_arr _).mpr (ihe u xs r hx)
      · exact (Value.strings_obj _).mpr (by simp)
      · exact (Value.strings_obj _).mpr (ihm u ms r hm)
      · simp [Value.Strings, Value.Every, Value.ownStrings]
      · simp [Value.Strings, Value.Every, Value.ownStrings]
      · rcases decodeNumber_cases (F := F) t with h | ⟨-, h⟩
        · simp [h, Value.Strings, Value.Every, Value.ownStrings]
        · simp [h, Value.Strings, Value.Every, Value.ownStrings]
    · intro s xs r h
      obtain ⟨x, u, hx, ⟨u', ys, hy, rfl⟩ | rfl⟩ := readElems_cases h
      · exact List.forall_mem_cons.mpr ⟨ihv s x u hx, ihe u' ys r hy⟩
      · exact List.forall_mem_singleton.mpr (ihv s x u hx)
    · intro s ms r h
      obtain ⟨k, v, u, u', hk, hv, ⟨u'', ms', hm, rfl⟩ | rfl⟩ := readMembers_cases h
      · exact List.forall_mem_cons.mpr ⟨⟨hk, ihv u v u' hv⟩, ihm u'' ms' r hm⟩
      · exact List.forall_mem_singleton.mpr ⟨hk, ihv u v u' hv⟩

/-- A strictly read value has UTF-8 strings only. -/
theorem strings_of_strictRead {s : Bytes} {v : Value} (h : strictRead F s = some v) :
    v.Strings validUtf8 := by
  simp only [strictRead, strictTree, readDocument, Option.map_eq_some_iff] at h
  obtain ⟨t, ht, rfl⟩ := h
  cases hr : readFirst F validUtf8 s with
  | none => simp [hr] at ht
  | some p =>
    simp only [hr] at ht
    split_ifs at ht
    rw [← Option.some.inj ht]
    exact Value.strings_resolve ((strings_read _).1 s p.1 p.2 hr)

end Reader

/-! ### Accepting more strings -/

section Accepting

variable {F : FloatText} {ok ok' : Bytes → Bool} (hle : ∀ t, ok t = true → ok' t = true) {n : ℕ}

theorem readElems_mono
    (hvalue : ∀ s p, readValue F ok n s = some p → readValue F ok' n s = some p)
    (helems : ∀ s p, readElems F ok n s = some p → readElems F ok' n s = some p) (s : Bytes)
    (p : List Value × Bytes) (h : readElems F ok (n + 1) s = some p) :
    readElems F ok' (n + 1) s = some p := by
  rw [readElems] at h ⊢
  simp only [Option.bind_eq_bind, Option.bind_eq_some_iff, Prod.exists] at h ⊢
  obtain ⟨x, u, hx, h⟩ := h
  refine ⟨x, u, hvalue s _ hx, ?_⟩
  cases he : eat 44 u with
  | some u' =>
    simp only [he, Option.map_eq_some_iff] at h ⊢
    obtain ⟨q, hq, h⟩ := h
    exact ⟨q, helems u' q hq, h⟩
  | none => simpa [he] using h

include hle

theorem readMembers_mono
    (hvalue : ∀ s p, readValue F ok n s = some p → readValue F ok' n s = some p)
    (hmembers : ∀ s p, readMembers F ok n s = some p → readMembers F ok' n s = some p) (s : Bytes)
    (p : Members × Bytes) (h : readMembers F ok (n + 1) s = some p) :
    readMembers F ok' (n + 1) s = some p := by
  rw [readMembers] at h ⊢
  simp only [Option.bind_eq_bind, Option.bind_eq_some_iff, Prod.exists] at h ⊢
  obtain ⟨a, ha, k, b, hk, h⟩ := h
  refine ⟨a, ha, k, b, hk, ?_⟩
  split_ifs at h with hok
  rw [if_pos (hle k hok)]
  simp only [Option.bind_eq_some_iff, Prod.exists] at h ⊢
  obtain ⟨u, hu, v, u', hv, h⟩ := h
  refine ⟨u, hu, v, u', hvalue u _ hv, ?_⟩
  cases he : eat 44 u' with
  | some u'' =>
    simp only [he, Option.map_eq_some_iff] at h ⊢
    obtain ⟨q, hq, h⟩ := h
    exact ⟨q, hmembers u'' q hq, h⟩
  | none => simpa [he] using h

theorem readValue_mono
    (helems : ∀ s p, readElems F ok n s = some p → readElems F ok' n s = some p)
    (hmembers : ∀ s p, readMembers F ok n s = some p → readMembers F ok' n s = some p) (s : Bytes)
    (p : Value × Bytes) (h : readValue F ok (n + 1) s = some p) :
    readValue F ok' (n + 1) s = some p := by
  rw [readValue] at h ⊢
  cases hs : skipWs s with
  | nil => simp [hs] at h
  | cons c u =>
    simp only [hs] at h ⊢
    split_ifs at h ⊢ with h₁ h₂ h₃ h₄ h₅ h₆
    · simp only [Option.bind_eq_bind, Option.bind_eq_some_iff, Prod.exists] at h ⊢
      obtain ⟨t, r, ht, h⟩ := h
      split_ifs at h with hok
      exact ⟨t, r, ht, by rw [if_pos (hle t hok)]; exact h⟩
    · cases he : eat 93 u with
      | some r => simpa [he] using h
      | none =>
        simp only [he, Option.map_eq_some_iff] at h ⊢
        obtain ⟨q, hq, h⟩ := h
        exact ⟨q, helems u q hq, h⟩
    · cases he : eat 125 u with
      | some r => simpa [he] using h
      | none =>
        simp only [he, Option.map_eq_some_iff] at h ⊢
        obtain ⟨q, hq, h⟩ := h
        exact ⟨q, hmembers u q hq, h⟩
    iterate 4 exact h

/-- What one reader takes, a reader that accepts more strings takes as well. -/
theorem read_mono (n : ℕ) :
    (∀ s p, readValue F ok n s = some p → readValue F ok' n s = some p) ∧
    (∀ s p, readElems F ok n s = some p → readElems F ok' n s = some p) ∧
    (∀ s p, readMembers F ok n s = some p → readMembers F ok' n s = some p) := by
  induction n with
  | zero =>
    refine ⟨?_, ?_, ?_⟩ <;> intro s p h <;> simp [readValue, readElems, readMembers] at h
  | succ n ih =>
    obtain ⟨ihv, ihe, ihm⟩ := ih
    exact ⟨readValue_mono hle ihe ihm, readElems_mono ihv ihe, readMembers_mono hle ihv ihm⟩

end Accepting

/-- A document in the strict sense is also the first value for a reader of raw bytes. -/
theorem readFirst_of_strictTree {F : FloatText} {s : Bytes} {v : Value}
    (h : strictTree F s = some v) : ∃ r, readFirst F (fun _ => true) s = some (v, r) := by
  rw [strictTree, readDocument] at h
  cases hr : readFirst F validUtf8 s with
  | none => simp [hr] at h
  | some p =>
    simp only [hr] at h
    split_ifs at h
    simp only [Option.some.injEq] at h
    exact ⟨p.2, h ▸ (read_mono (fun _ _ => rfl) _).1 s p hr⟩

end MdtDialoutCollector.Json
