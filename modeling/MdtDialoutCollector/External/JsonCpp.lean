import MdtDialoutCollector.Json.Accepted

/-! The JSON library the collector is linked with, as a parameter: its reader and its
writer, with the behaviour its documentation gives. The reader answers with a value,
an error or an exception, the last once a text nests deeper than the stack limit; it
stops after the first complete value and accepts more than the grammar, so its laws
only speak of documents, of what the writer wrote and of what a result can be. -/

namespace MdtDialoutCollector.External

open Json Text

inductive ParseResult where
  | ok (v : Value)
  | error
  | throws
  deriving Inhabited

/-- `Json::CharReader::parse` and `Json::writeString`, both with the builders' defaults
and the settings the collector gives them. -/
structure JsonCpp where
  floats : FloatText
  parse : Bytes → ParseResult
  writeString : Value → Bytes

/-- The reader's default limit on nesting. -/
def stackLimit : ℕ := 1000

structure JsonCpp.Lawful (J : JsonCpp) : Prop where
  parse_nil : J.parse [] = .error
  parse_document : ∀ b t, strictTree J.floats b = some t →
    J.parse b = if t.depth ≤ stackLimit then .ok t.resolve else .throws
  parse_written : ∀ v, v.Canonical →
    J.parse (J.writeString v) = if v.depth ≤ stackLimit then .ok v.printed else .throws
  parse_brackets : ∀ n r, stackLimit < n → J.parse (List.replicate n 91 ++ r) = .throws
  parse_canonical : ∀ b v, J.parse b = .ok v → v.Canonical ∧ v.Every Value.NotNaN
  parse_str : ∀ b s, J.parse b = .ok (.str s) → s.length < b.length
  written_tree : ∀ v, v.Canonical → v.Strings validUtf8 →
    strictTree J.floats (J.writeString v) = some v.printed
  written_not_utf8 : ∀ v, v.Canonical → ¬v.Strings validUtf8 →
    strictTree J.floats (J.writeString v) = none
  written_no_nul : ∀ v, 0 ∉ J.writeString v

namespace JsonCpp.Lawful

variable {J : JsonCpp} (hJ : J.Lawful)

include hJ

theorem parse_written_throws {v : Value} (hv : v.Canonical) :
    J.parse (J.writeString v) = .throws ↔ stackLimit < v.depth := by
  rw [hJ.parse_written v hv]
  split_ifs with h
  · simp [h]
  · simpa using h

theorem writeString_ne_nil {v : Value} (hv : v.Canonical) : J.writeString v ≠ [] := by
  intro h
  have hp := hJ.parse_written v hv
  rw [h, hJ.parse_nil] at hp
  split_ifs at hp

/-- A value free of NaN and of strings that are not UTF-8 is what its text denotes. -/
theorem strictRead_written {v : Value} (hv : v.Canonical) (hnan : v.Every Value.NotNaN)
    (hs : v.Strings validUtf8) : strictRead J.floats (J.writeString v) = some v := by
  rw [strictRead, hJ.written_tree v hv hs, Value.printed_eq_self hnan, Option.map_some,
    Value.resolve_eq_self hv]

theorem strictRead_written_none {v : Value} (hv : v.Canonical) (hs : ¬v.Strings validUtf8) :
    strictRead J.floats (J.writeString v) = none := by
  rw [strictRead, hJ.written_not_utf8 v hv hs, Option.map_none]

/-- On a document the reader gives the value it denotes or throws. -/
theorem parse_of_strictRead {b : Bytes} {v : Value} (h : strictRead J.floats b = some v) :
    J.parse b = .ok v ∨ J.parse b = .throws := by
  simp only [strictRead, Option.map_eq_some_iff] at h
  obtain ⟨t, ht, rfl⟩ := h
  rw [hJ.parse_document b t ht]
  split_ifs
  · exact .inl rfl
  · exact .inr rfl

end JsonCpp.Lawful

/-! ### An implementation

A reader and a writer that satisfy the laws, so that they are satisfiable. Doubles are
printed by their bit pattern. -/

namespace Reference

def floats : FloatText where
  print d := natText d.bits.toNat ++ [46, 48]
  scan t :=
    let d : Double := ⟨(digitsValue (t.takeWhile isDigit)).toUInt64⟩
    if d.isNaN then ⟨0⟩ else d

theorem takeWhile_print (d : Double) : (floats.print d).takeWhile isDigit = natText d.bits.toNat := by
  have h : ∀ c ∈ natText d.bits.toNat, isDigit c = true := isDigit_of_mem_natText _
  rw [floats, List.takeWhile_append_of_pos h]
  simp [show isDigit 46 = false by decide]

theorem floats_lawful : floats.Lawful where
  token d _ r hr := by
    have hdot : ∀ c, (46 :: 48 :: r : Bytes).head? = some c → isDigit c = false := by
      intro c hc
      simp only [List.head?_cons, Option.some.injEq] at hc
      exact hc ▸ by decide
    have hint := readInteger_natText d.bits.toNat hdot
    have hspan : ([48] ++ r).span isDigit = ([48], r) :=
      span_digits (List.forall_mem_singleton.mpr rfl) hr.not_digit
    have hfrac : readFraction (46 :: 48 :: r) = some ([46, 48], r) := by
      rw [List.singleton_append] at hspan
      rw [readFraction, if_pos rfl, hspan]
      rfl
    simp [readNumber, floats, hint, hfrac, hr.readExponent]
  marked d _ := by simp [floats]
  scan_print d hd := by
    have hbits : (digitsValue ((floats.print d).takeWhile isDigit)).toUInt64 = d.bits := by
      rw [takeWhile_print, digitsValue_natText]
      simp
    simp only [floats] at hbits ⊢
    rw [hbits, if_neg (by simp [hd])]
  scan_finite t := by
    simp only [floats]
    split_ifs with h
    · decide
    · exact Bool.eq_false_iff.mpr h
  no_nul d := by simp [floats, nul_not_mem_natText]

def parse (b : Bytes) : ParseResult :=
  match readFirst floats (fun _ => true) b with
  | some (t, _) => if t.depth ≤ stackLimit then .ok t.resolve else .throws
  | none => if (b.takeWhile (· == 91)).length ≤ stackLimit then .error else .throws

def jsonCpp : JsonCpp where
  floats := floats
  parse := parse
  writeString := write floats

theorem strings_true (v : Value) : v.Strings fun _ => true := by
  induction v with
  | arr xs ih => exact (Value.strings_arr xs).mpr ih
  | obj ms ih => exact (Value.strings_obj ms).mpr fun m hm => ⟨rfl, ih m hm⟩
  | _ => simp [Value.Strings, Value.Every, Value.ownStrings]

/-- A value read behind `n` opening brackets is nested at least that deep. -/
theorem le_depth_of_brackets {F : FloatText} {ok : Bytes → Bool} {n k : ℕ} {r r' : Bytes}
    {t : Value} (h : readValue F ok k (List.replicate n 91 ++ r) = some (t, r')) : n ≤ t.depth := by
  induction n generalizing k t r' with
  | zero => exact Nat.zero_le _
  | succ n ih =>
    obtain ⟨k, rfl⟩ : ∃ j, k = j + 1 := by
      cases k with
      | zero => simp [readValue] at h
      | succ k => exact ⟨k, rfl⟩
    cases n with
    | zero => exact t.depth_pos
    | succ n =>
      have hws : ∀ s : Bytes, skipWs (91 :: s) = 91 :: s := fun s => by
        simp [skipWs, show isWs 91 = false by decide]
      have heat : eat 93 (List.replicate (n + 1) 91 ++ r) = none := by
        rw [List.replicate_succ, List.cons_append]
        exact eat_cons_of_ne (by decide) (by decide) _
      rw [List.replicate_succ, List.cons_append, readValue, hws] at h
      simp only [heat, show (91 : UInt8) ≠ 34 by decide, if_false, if_true,
        Option.map_eq_some_iff, Prod.exists, Prod.mk.injEq] at h
      obtain ⟨xs, u, hx, rfl, -⟩ := h
      obtain ⟨k, rfl⟩ : ∃ j, k = j + 1 := by
        cases k with
        | zero => simp [readElems] at hx
        | succ k => exact ⟨k, rfl⟩
      obtain ⟨x, u', hv, hxs⟩ := readElems_cases hx
      have hmem : x ∈ xs := by
        rcases hxs with ⟨_, _, _, rfl⟩ | rfl <;> exact List.mem_cons_self
      have hx : x.depth ≤ depthArr xs := (depthArr_le xs).mp (Nat.le_refl _) x hmem
      have hn := ih hv
      rw [Value.depth]
      omega

theorem jsonCpp_lawful : jsonCpp.Lawful where
  parse_nil := rfl
  parse_document b t h := by
    obtain ⟨r, hr⟩ := readFirst_of_strictTree h
    have hr : readFirst floats (fun _ => true) b = some (t, r) := hr
    simp only [jsonCpp, parse, hr]
  parse_written v hv := by
    have h := readFirst_write floats_lawful hv (strings_true v)
    simp only [jsonCpp, parse, h, Value.depth_printed,
      Value.resolve_eq_self (Value.canonical_printed hv)]
  parse_brackets n r hn := by
    simp only [jsonCpp, parse]
    cases hr : readFirst floats (fun _ => true) (List.replicate n 91 ++ r) with
    | some p =>
      have := le_depth_of_brackets hr
      exact if_neg (by omega)
    | none =>
      have hlen : n ≤ ((List.replicate n 91 ++ r).takeWhile (· == 91)).length := by
        rw [List.takeWhile_append_of_pos (by simp)]
        simp
      exact if_neg (by omega)
  parse_canonical b v h := by
    simp only [jsonCpp, parse] at h
    cases hr : readFirst floats (fun _ => true) b with
    | some p =>
      simp only [hr] at h
      split_ifs at h
      exact ParseResult.ok.inj h ▸ canonical_of_readFirst floats_lawful hr
    | none =>
      simp only [hr] at h
      split_ifs at h
  parse_str b s h := by
    simp only [jsonCpp, parse] at h
    cases hr : readFirst floats (fun _ => true) b with
    | some p =>
      obtain ⟨t, r⟩ := p
      simp only [hr] at h
      split_ifs at h
      have ht : t = .str s := by
        have h := ParseResult.ok.inj h
        cases t <;> simp_all [Value.resolve]
      exact length_lt_of_readFirst (ht ▸ hr)
    | none =>
      simp only [hr] at h
      split_ifs at h
  written_tree v hv hs := strictTree_write floats_lawful hv hs
  written_not_utf8 v hv hs := strictTree_write_eq_none floats_lawful hv hs
  written_no_nul v := nul_not_mem_write floats_lawful v

end Reference

end MdtDialoutCollector.External
