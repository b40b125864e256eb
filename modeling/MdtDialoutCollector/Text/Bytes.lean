import Mathlib.Algebra.Group.Int.Defs
import Mathlib.Algebra.Group.Nat.Defs
import Mathlib.Data.List.Lex
import Mathlib.Data.List.TakeWhile

/-! Byte strings, the values of `std::string`, with the operations of the C and
C++ string libraries that the collector calls. -/

namespace MdtDialoutCollector.Text

instance linearOrderUInt8 : LinearOrder UInt8 where
  le_refl := UInt8.le_refl
  le_trans _ _ _ := UInt8.le_trans
  lt_iff_le_not_ge a b := by simp only [UInt8.le_iff_toNat_le, UInt8.lt_iff_toNat_lt]; omega
  le_antisymm _ _ := UInt8.le_antisymm
  le_total := UInt8.le_total
  toDecidableLE := inferInstance
  toDecidableLT := inferInstance

abbrev Bytes := List UInt8

instance lawfulBEqBytes : LawfulBEq Bytes := inferInstance

/-- The bytes of an ASCII literal. -/
def lit (s : String) : Bytes := s.toList.map fun c => c.toNat.toUInt8

/-- `s.find(c)`, with `none` for `npos`. -/
def find (s : Bytes) (c : UInt8) : Option ℕ := s.findIdx? (· == c)

/-- `s.rfind(c)`, with `none` for `npos`. -/
def rfind (s : Bytes) (c : UInt8) : Option ℕ :=
  (s.reverse.findIdx? (· == c)).map (s.length - 1 - ·)

/-- `s.substr(pos, n)` for `pos` within the string. -/
def substr (s : Bytes) (pos n : ℕ) : Bytes := (s.drop pos).take n

/-- A NUL-terminated string, without its terminator. -/
structure CString where
  bytes : Bytes
  noNul : 0 ∉ bytes
  deriving DecidableEq

/-- The string a reader of `s.c_str()` sees. -/
def cStr (s : Bytes) : CString where
  bytes := s.takeWhile (· != 0)
  noNul h := by simpa using List.mem_takeWhile_imp h

/-- The C++ exceptions the modelled code can raise. -/
inductive StdException where
  | invalidArgument
  | outOfRange
  | runtimeError
  | logicError
  deriving DecidableEq, Repr

def isSpace (c : UInt8) : Bool := c == 32 || (9 ≤ c && c ≤ 13)

def isDigit (c : UInt8) : Bool := 48 ≤ c && c ≤ 57

/-- The number a run of decimal digits denotes. -/
def digitsValue (ds : Bytes) : ℕ := ds.foldl (fun n c => n * 10 + (c.toNat - 48)) 0

/-- `std::stoi(s)`: white space, a sign, then the longest run of digits. -/
def stoi (s : Bytes) : Except StdException ℤ :=
  let t := s.dropWhile isSpace
  let neg := t.head? == some 45
  let ds := (if neg || t.head? == some 43 then t.tail else t).takeWhile isDigit
  let n : ℤ := if neg then -(digitsValue ds : ℤ) else digitsValue ds
  if ds = [] then .error .invalidArgument
  else if n < -2 ^ 31 ∨ 2 ^ 31 ≤ n then .error .outOfRange
  else .ok n

example : stoi (lit " 57400x") = .ok 57400 := by decide

theorem plain_of_isDigit {c : UInt8} (h : isDigit c = true) :
    isSpace c = false ∧ c ≠ 45 ∧ c ≠ 43 := by
  simp only [isDigit, Bool.and_eq_true, decide_eq_true_eq, UInt8.le_iff_toNat_le] at h
  have h48 : (48 : UInt8).toNat = 48 := rfl
  refine ⟨?_, ?_, ?_⟩
  · have h13 : (13 : UInt8).toNat = 13 := rfl
    have h32 : (32 : UInt8).toNat = 32 := rfl
    simp only [isSpace, Bool.or_eq_false_iff, beq_eq_false_iff_ne, Bool.and_eq_false_iff,
      decide_eq_false_iff_not, UInt8.le_iff_toNat_le, ne_eq, ← UInt8.toNat_inj]
    omega
  · rintro rfl
    exact absurd h (by decide)
  · rintro rfl
    exact absurd h (by decide)

/-- Of the decimal numbers `stoi` takes those of the `int` type. -/
theorem stoi_decimal {s : Bytes} (hne : s ≠ []) (hs : ∀ c ∈ s, isDigit c = true) :
    stoi s = if digitsValue s < 2 ^ 31 then .ok (digitsValue s : ℤ) else .error .outOfRange := by
  obtain ⟨c, r, rfl⟩ := List.exists_cons_of_ne_nil hne
  obtain ⟨hspace, hminus, hplus⟩ := plain_of_isDigit (hs c List.mem_cons_self)
  have htake : (c :: r).takeWhile isDigit = c :: r := List.takeWhile_eq_self_iff.mpr hs
  simp only [stoi, List.dropWhile_cons, hspace, Bool.false_eq_true, if_false, List.head?_cons]
  have hm : (some c == some (45 : UInt8)) = false := by simpa using hminus
  have hp : (some c == some (43 : UInt8)) = false := by simpa using hplus
  simp only [hm, hp, Bool.or_self, Bool.false_eq_true, if_false, htake, reduceCtorEq]
  split_ifs with h1 h2 h2
  · omega
  · rfl
  · rfl
  · omega

/-- `v.at(i)`. -/
def at' {α : Type*} (v : List α) (i : ℕ) : Except StdException α :=
  match v[i]? with
  | some x => .ok x
  | none => .error .outOfRange

end MdtDialoutCollector.Text
