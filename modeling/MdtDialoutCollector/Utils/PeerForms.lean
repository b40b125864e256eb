import MdtDialoutCollector.Text.Search
import MdtDialoutCollector.Utils.PeerParser

/-! The two forms of a peer string, and `ParsePeer` as their inverse. A string of neither
form has no address and no port. -/

namespace MdtDialoutCollector.Utils

open Text

/-- `family:ip:port`. -/
def plainPeer (family ip port : Bytes) : Bytes := family ++ 58 :: (ip ++ 58 :: port)

/-- `family:[ip]:port`. -/
def bracketedPeer (family ip port : Bytes) : Bytes := family ++ 58 :: 91 :: (ip ++ 93 :: 58 :: port)

/-- The string is one of the two forms of this address and this port. -/
inductive Prints : Bytes → PeerEndpoint → Prop
  | plain {family ip port : Bytes} (hfamily : 58 ∉ family) (hip : ip.head? ≠ some 91)
      (hport : 58 ∉ port) : Prints (plainPeer family ip port) ⟨ip, port⟩
  | bracketed {family ip port : Bytes} (hfamily : 58 ∉ family) (hip : 93 ∉ ip) :
      Prints (bracketedPeer family ip port) ⟨ip, port⟩

/-! ### Parsing undoes printing -/

section

variable {family ip port : Bytes}

theorem parsePeer_plain (hfamily : 58 ∉ family) (hip : ip.head? ≠ some 91) (hport : 58 ∉ port) :
    parsePeer (plainPeer family ip port) = ⟨ip, port⟩ := by
  have hhead : (ip ++ 58 :: port).head? ≠ some 91 := by
    cases ip with
    | nil => simp
    | cons c ip => simpa using hip
  rw [plainPeer, parsePeer, find_append hfamily]
  simp only [drop_append_cons]
  rw [if_neg (by simp), if_neg hhead, rfind_append hport]
  simp only [List.take_left, drop_append_cons]

theorem parsePeer_bracketed (hfamily : 58 ∉ family) (hip : 93 ∉ ip) :
    parsePeer (bracketedPeer family ip port) = ⟨ip, port⟩ := by
  have hfind : find (91 :: (ip ++ 93 :: 58 :: port)) 93 = some (ip.length + 1) :=
    find_append (s := 91 :: ip) (by simpa using hip) (58 :: port)
  have hcolon : (91 :: (ip ++ 93 :: 58 :: port))[ip.length + 1 + 1]? = some 58 := by
    rw [List.getElem?_cons_succ, List.getElem?_append_right (by omega)]
    simp
  have hlength : ¬(91 :: (ip ++ 93 :: 58 :: port)).length < ip.length + 1 + 2 := by
    simp only [List.length_cons, List.length_append]
    omega
  have hdrop : (91 :: (ip ++ 93 :: 58 :: port)).drop (ip.length + 1 + 2) = port := by
    rw [List.drop_succ_cons, ← List.drop_drop, List.drop_left]
    rfl
  rw [bracketedPeer, parsePeer, find_append hfamily]
  simp only [drop_append_cons]
  rw [if_neg (by simp), if_pos (by simp), hfind]
  simp only [hcolon, hlength, hdrop]
  simp [substr]

theorem parsePeer_of_prints {peer : Bytes} {e : PeerEndpoint} (h : Prints peer e) :
    parsePeer peer = e := by
  cases h with
  | plain hfamily hip hport => exact parsePeer_plain hfamily hip hport
  | bracketed hfamily hip => exact parsePeer_bracketed hfamily hip

end

/-! ### Printing undoes parsing -/

/-- An opening bracket, and the closing one with the colon that has to follow it. -/
theorem eq_bracketed {addrPort : Bytes} {rb : ℕ} (hhead : addrPort.head? = some 91)
    (hrb : find addrPort 93 = some rb) (hcolon : addrPort[rb + 1]? = some 58) :
    ∃ ip port, 93 ∉ ip ∧ addrPort = 91 :: (ip ++ 93 :: 58 :: port) := by
  obtain ⟨rest, rfl⟩ := List.head?_eq_some_iff.mp hhead
  obtain ⟨happ, hplain, hlt⟩ := eq_append_of_find hrb
  cases rb with
  | zero => simp at happ
  | succ n =>
    rw [List.take_succ_cons, List.drop_succ_cons, List.cons_append, List.cons_inj_right] at happ
    rw [List.getElem?_cons_succ] at hcolon
    obtain ⟨hn, hc⟩ := List.getElem?_eq_some_iff.mp hcolon
    refine ⟨rest.take n, rest.drop (n + 2), fun h => hplain (List.mem_cons_of_mem _ h), ?_⟩
    rw [← hc, ← List.drop_eq_getElem_cons hn, ← happ]

theorem refused_or_prints (peer : Bytes) : parsePeer peer = {} ∨ ∃ e, Prints peer e := by
  cases hsep : find peer 58 with
  | none =>
    left
    rw [parsePeer, hsep]
  | some familySep =>
    obtain ⟨hpeer, hfamily, -⟩ := eq_append_of_find hsep
    generalize peer.take familySep = family at hpeer hfamily
    generalize peer.drop (familySep + 1) = addrPort at hpeer
    subst hpeer
    rw [parsePeer, find_append hfamily]
    simp only [drop_append_cons]
    split_ifs with hempty hhead
    · exact .inl rfl
    · cases hrb : find addrPort 93 with
      | none => exact .inl rfl
      | some rb =>
        simp only
        split_ifs with hrefused
        · exact .inl rfl
        · rw [not_or, not_not] at hrefused
          obtain ⟨ip, port, hip, rfl⟩ := eq_bracketed hhead hrb hrefused.2
          exact .inr ⟨⟨ip, port⟩, .bracketed hfamily hip⟩
    · cases hport : rfind addrPort 58 with
      | none => exact .inl rfl
      | some portSep =>
        obtain ⟨ip, port, rfl, hplain, -⟩ := eq_append_of_rfind hport
        have hip : ip.head? ≠ some 91 := by
          cases ip with
          | nil => simp
          | cons c ip => simpa using hhead
        exact .inr ⟨⟨ip, port⟩, .plain hfamily hip hplain⟩

/-- A string that is not refused is printed again from its parts. -/
theorem prints_parsePeer (peer : Bytes) : parsePeer peer = {} ∨ Prints peer (parsePeer peer) := by
  refine (refused_or_prints peer).imp_right ?_
  rintro ⟨e, he⟩
  rwa [parsePeer_of_prints he]

/-! ### Every position is in range -/

/-- `s.substr(pos, n)`, which throws on a position past the end. -/
def substrChecked (s : Bytes) (pos n : ℕ) : Option Bytes :=
  if pos ≤ s.length then some (substr s pos n) else none

/-- `s.substr(pos)`. -/
def suffixChecked (s : Bytes) (pos : ℕ) : Option Bytes :=
  if pos ≤ s.length then some (s.drop pos) else none

/-- `ParsePeer` with a check before every access; `none` where a position is out of range or a
`size_t` would fall below zero. -/
def parsePeerChecked (peer : Bytes) : Option PeerEndpoint :=
  match find peer 58 with
  | none => some {}
  | some familySep =>
    (suffixChecked peer (familySep + 1)).bind fun addrPort =>
      if addrPort.isEmpty then some {}
      else
        -- `front()` of a string that is not empty
        addrPort[0]?.bind fun front =>
          if front = 91 then
            match find addrPort 93 with
            | none => some {}
            | some rb =>
              if addrPort.length < rb + 2 then some {}
              else
                addrPort[rb + 1]?.bind fun c =>
                  if c ≠ 58 then some {}
                  else if rb = 0 then none
                  else
                    (substrChecked addrPort 1 (rb - 1)).bind fun ip =>
                      (suffixChecked addrPort (rb + 2)).map fun port => ⟨ip, port⟩
          else
            match rfind addrPort 58 with
            | none => some {}
            | some portSep =>
              (substrChecked addrPort 0 portSep).bind fun ip =>
                (suffixChecked addrPort (portSep + 1)).map fun port => ⟨ip, port⟩

theorem suffixChecked_of_le {s : Bytes} {pos : ℕ} (h : pos ≤ s.length) :
    suffixChecked s pos = some (s.drop pos) := if_pos h

theorem substrChecked_of_le {s : Bytes} {pos : ℕ} (h : pos ≤ s.length) (n : ℕ) :
    substrChecked s pos n = some (substr s pos n) := if_pos h

theorem lt_length_of_rfind {s : Bytes} {c : UInt8} {pos : ℕ} (h : rfind s c = some pos) :
    pos < s.length := by
  obtain ⟨t, u, rfl, -, rfl⟩ := eq_append_of_rfind h
  rw [List.length_append, List.length_cons]
  omega

/-- Behind an opening bracket the closing one is not at the front. -/
theorem ne_zero_of_find {rest : Bytes} {rb : ℕ} (h : find (91 :: rest) 93 = some rb) : rb ≠ 0 := by
  rintro rfl
  obtain ⟨happ, -, -⟩ := eq_append_of_find h
  rw [List.take_zero, List.nil_append] at happ
  exact absurd (List.cons.inj happ).1 (by decide)

theorem parsePeerChecked_eq (peer : Bytes) : parsePeerChecked peer = some (parsePeer peer) := by
  rw [parsePeerChecked, parsePeer]
  cases hsep : find peer 58 with
  | none => rfl
  | some familySep =>
    obtain ⟨-, -, hlt⟩ := eq_append_of_find hsep
    simp only
    rw [suffixChecked_of_le (Nat.succ_le_of_lt hlt), Option.bind_some]
    cases peer.drop (familySep + 1) with
    | nil => rfl
    | cons front rest =>
      simp only [List.isEmpty_cons, Bool.false_eq_true, if_false, List.getElem?_cons_zero,
        Option.bind_some, List.head?_cons, Option.some_inj]
      by_cases hfront : front = 91
      · subst hfront
        rw [if_pos rfl, if_pos rfl]
        cases hrb : find (91 :: rest) 93 with
        | none => rfl
        | some rb =>
          simp only
          by_cases hlength : (91 :: rest).length < rb + 2
          · rw [if_pos hlength, if_pos (.inl hlength)]
          · have hrange : rb + 1 < (91 :: rest).length := by omega
            rw [if_neg hlength, List.getElem?_eq_getElem hrange, Option.bind_some]
            by_cases hc : (91 :: rest)[rb + 1] = 58
            · rw [if_neg (not_not.mpr hc), if_neg (ne_zero_of_find hrb), substrChecked_of_le (by simp),
                Option.bind_some, suffixChecked_of_le (by omega),
                if_neg (not_or.mpr ⟨hlength, not_not.mpr (congrArg some hc)⟩)]
              rfl
            · rw [if_pos hc, if_pos (.inr (by simpa using hc))]
      · rw [if_neg hfront, if_neg hfront]
        cases hport : rfind (front :: rest) 58 with
        | none => rfl
        | some portSep =>
          have hlt := lt_length_of_rfind hport
          simp only
          rw [substrChecked_of_le (Nat.zero_le _), Option.bind_some, suffixChecked_of_le hlt]
          rfl

/-- `ParsePeer` and the two forms are inverse, and every string is cut within its bounds. -/
theorem parsePeer_inverse :
    (∀ family ip port, 58 ∉ family → ip.head? ≠ some 91 → 58 ∉ port →
      parsePeer (plainPeer family ip port) = ⟨ip, port⟩) ∧
    (∀ family ip port, 58 ∉ family → 93 ∉ ip →
      parsePeer (bracketedPeer family ip port) = ⟨ip, port⟩) ∧
    ∀ peer, (parsePeer peer = {} ∨ ∃ family, 58 ∉ family ∧
        (peer = plainPeer family (parsePeer peer).ip (parsePeer peer).port ∨
          peer = bracketedPeer family (parsePeer peer).ip (parsePeer peer).port)) ∧
      parsePeerChecked peer = some (parsePeer peer) := by
  refine ⟨fun _ _ _ => parsePeer_plain, fun _ _ _ => parsePeer_bracketed, fun peer =>
    ⟨(prints_parsePeer peer).imp_right fun h => ?_, parsePeerChecked_eq peer⟩⟩
  generalize parsePeer peer = e at h
  cases h with
  | plain hfamily => exact ⟨_, hfamily, .inl rfl⟩
  | bracketed hfamily => exact ⟨_, hfamily, .inr rfl⟩

theorem parsePeer_inverse_loopback :
    parsePeer (lit "ipv6:[::1]:5678") = ⟨lit "::1", lit "5678"⟩ :=
  parsePeer_inverse.2.1 (lit "ipv6") (lit "::1") (lit "5678") (by decide) (by decide)

/-! ### How gRPC renders an IPv6 peer -/

/-- Hexadecimal digits, colons and dots. -/
def IsAddressText (s : Bytes) : Prop :=
  ∀ c ∈ s, isDigit c ∨ (65 ≤ c ∧ c ≤ 70) ∨ (97 ≤ c ∧ c ≤ 102) ∨ c = 58 ∨ c = 46

def IsDecimal (s : Bytes) : Prop := s ≠ [] ∧ ∀ c ∈ s, isDigit c = true

instance (s : Bytes) : Decidable (IsAddressText s) := s.decidableBAll _

instance (s : Bytes) : Decidable (IsDecimal s) := @instDecidableAnd _ _ _ (s.decidableBAll _)

/-- The brackets as they are, or percent-encoded in a URI path. -/
inductive PeerRendering where
  | brackets
  | encoded
  deriving DecidableEq

def PeerRendering.peer (r : PeerRendering) (address port : Bytes) : Bytes :=
  match r with
  | .brackets => lit "ipv6:[" ++ address ++ lit "]:" ++ port
  | .encoded => lit "ipv6:%5B" ++ address ++ lit "%5D:" ++ port

theorem PeerRendering.peer_brackets (address port : Bytes) :
    brackets.peer address port = bracketedPeer (lit "ipv6") address port := by
  simp [peer, bracketedPeer, lit]

theorem PeerRendering.peer_encoded (address port : Bytes) :
    encoded.peer address port =
      plainPeer (lit "ipv6") (lit "%5B" ++ address ++ lit "%5D") port := by
  simp [peer, plainPeer, lit]

theorem IsAddressText.not_mem {s : Bytes} (h : IsAddressText s) : 93 ∉ s := by
  intro hmem
  have h93 := h 93 hmem
  revert h93
  decide

theorem IsDecimal.not_mem {s : Bytes} (h : IsDecimal s) : 58 ∉ s := by
  intro hmem
  have h58 := h.2 58 hmem
  revert h58
  decide

section Rendering

variable {address port : Bytes}

theorem parsePeer_encoded (hport : IsDecimal port) :
    parsePeer (PeerRendering.encoded.peer address port) =
      ⟨lit "%5B" ++ address ++ lit "%5D", port⟩ := by
  rw [PeerRendering.peer_encoded]
  exact parsePeer_plain (by decide) (by simp [lit]) hport.not_mem

/-- The address comes out bare where its brackets were not encoded. -/
theorem bare_address_iff (r : PeerRendering) (haddress : IsAddressText address)
    (hport : IsDecimal port) : parsePeer (r.peer address port) = ⟨address, port⟩ ↔ r = .brackets := by
  cases r with
  | brackets =>
    rw [PeerRendering.peer_brackets]
    exact iff_of_true (parsePeer_bracketed (by decide) haddress.not_mem) rfl
  | encoded =>
    refine iff_of_false (fun h => ?_) (by decide)
    rw [parsePeer_encoded hport, PeerEndpoint.mk.injEq] at h
    have hlength := congrArg List.length h.1
    rw [List.length_append, List.length_append] at hlength
    have h6 : (lit "%5B").length + (lit "%5D").length = 6 := by decide
    omega

end Rendering

theorem bare_address_documentation :
    parsePeer (PeerRendering.brackets.peer (lit "2001:db8::1") (lit "5678")) =
      ⟨lit "2001:db8::1", lit "5678"⟩ :=
  (bare_address_iff .brackets (by decide) (by decide)).mpr rfl

theorem encoded_address_kept : ¬∀ (r : PeerRendering) (address port : Bytes),
    IsAddressText address → IsDecimal port →
      parsePeer (r.peer address port) = ⟨address, port⟩ := by
  intro h
  have hparsed := h .encoded (lit "2001:db8::1") (lit "5678") (by decide) (by decide)
  revert hparsed
  decide

end MdtDialoutCollector.Utils
