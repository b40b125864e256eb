import MdtDialoutCollector.Json.Value

/-! The grammar of RFC 8259 as a reader and a compact writer. Numbers keep what a
reader with 64-bit integers and doubles keeps of them: an integer text that fits is
that integer, every other number is the double its text scans to. Reading gives the
tree of the text, its members in the order they were read; resolving equal names in
it gives the value. The reader is given the texts a string may have, so that the same
function reads UTF-8 documents and raw bytes. Fuel bounds the recursion; the length of
the text is enough. -/

namespace MdtDialoutCollector.Json

open Data Text

/-- How doubles are printed and scanned. -/
structure FloatText where
  print : Double → Bytes
  scan : Bytes → Double

/-! ### The writer -/

def natText (n : ℕ) : Bytes := (Nat.toDigits 10 n).map fun c => c.toNat.toUInt8

def intText (n : ℤ) : Bytes :=
  if n < 0 then 45 :: natText n.natAbs else natText n.natAbs

def hexDigit (n : ℕ) : UInt8 := if n < 10 then (48 + n).toUInt8 else (87 + n).toUInt8

/-- Quotes, backslashes and control characters are escaped, all else is copied. -/
def escapeByte (c : UInt8) : Bytes :=
  if c = 34 then [92, 34]
  else if c = 92 then [92, 92]
  else if c < 32 then [92, 117, 48, 48, hexDigit (c.toNat / 16), hexDigit (c.toNat % 16)]
  else [c]

def quote (s : Bytes) : Bytes := 34 :: (s.flatMap escapeByte ++ [34])

mutual

def write (F : FloatText) : Value → Bytes
  | .null => lit "null"
  | .bool true => lit "true"
  | .bool false => lit "false"
  | .int n => intText n
  | .real d => if d.isNaN then lit "null" else F.print d
  | .str s => quote s
  | .arr xs => 91 :: (writeElems F xs ++ [93])
  | .obj ms => 123 :: (writeMembers F ms ++ [125])

def writeElems (F : FloatText) : List Value → Bytes
  | [] => []
  | [x] => write F x
  | x :: y :: xs => write F x ++ 44 :: writeElems F (y :: xs)

def writeMembers (F : FloatText) : Members → Bytes
  | [] => []
  | [(k, v)] => quote k ++ 58 :: write F v
  | (k, v) :: m :: ms => quote k ++ 58 :: (write F v ++ 44 :: writeMembers F (m :: ms))

end

/-! ### The reader -/

def isWs (c : UInt8) : Bool := c == 32 || c == 9 || c == 10 || c == 13

def skipWs (s : Bytes) : Bytes := s.dropWhile isWs

/-- The structural character `c`, with the white space before it. -/
def eat (c : UInt8) (s : Bytes) : Option Bytes :=
  match skipWs s with
  | d :: r => if d = c then some r else none
  | [] => none

def readInteger (s : Bytes) : Option (Bytes × Bytes) :=
  let sign := if s.head? = some 45 then [45] else []
  let (ds, r) := (s.drop sign.length).span isDigit
  if ds = [] ∨ (ds.head? = some 48 ∧ ds.length ≠ 1) then none else some (sign ++ ds, r)

def readFraction : Bytes → Option (Bytes × Bytes)
  | [] => some ([], [])
  | c :: r =>
    if c = 46 then
      let (ds, r') := r.span isDigit
      if ds = [] then none else some (46 :: ds, r')
    else some ([], c :: r)

def readExponent : Bytes → Option (Bytes × Bytes)
  | [] => some ([], [])
  | c :: r =>
    if c = 101 ∨ c = 69 then
      let sign := r.take (if r.head? = some 45 ∨ r.head? = some 43 then 1 else 0)
      let (ds, r') := (r.drop sign.length).span isDigit
      if ds = [] then none else some (c :: sign ++ ds, r')
    else some ([], c :: r)

def readNumber (s : Bytes) : Option (Bytes × Bytes) := do
  let (i, r) ← readInteger s
  let (f, r) ← readFraction r
  let (e, r) ← readExponent r
  some (i ++ f ++ e, r)

def intValue (t : Bytes) : ℤ :=
  if t.head? = some 45 then -(digitsValue t.tail : ℤ) else digitsValue t

def decodeNumber (F : FloatText) (t : Bytes) : Value :=
  if t.any (fun c => c == 46 || c == 101 || c == 69) then .real (F.scan t)
  else if -2 ^ 63 ≤ intValue t ∧ intValue t < 2 ^ 64 then .int (intValue t)
  else .real (F.scan t)

def hexValue (c : UInt8) : Option ℕ :=
  if isDigit c then some (c.toNat - 48)
  else if 97 ≤ c ∧ c ≤ 102 then some (c.toNat - 87)
  else if 65 ≤ c ∧ c ≤ 70 then some (c.toNat - 55)
  else none

def readHex : Bytes → Option (ℕ × Bytes)
  | a :: b :: c :: d :: r => do
    let w ← hexValue a
    let x ← hexValue b
    let y ← hexValue c
    let z ← hexValue d
    some (((w * 16 + x) * 16 + y) * 16 + z, r)
  | _ => none

/-- The UTF-8 bytes of a code point. -/
def encodePoint (u : ℕ) : Bytes :=
  if u < 0x80 then [u.toUInt8]
  else if u < 0x800 then [(0xC0 + u / 64).toUInt8, (0x80 + u % 64).toUInt8]
  else if u < 0x10000 then
    [(0xE0 + u / 4096).toUInt8, (0x80 + u / 64 % 64).toUInt8, (0x80 + u % 64).toUInt8]
  else [(0xF0 + u / 262144).toUInt8, (0x80 + u / 4096 % 64).toUInt8,
    (0x80 + u / 64 % 64).toUInt8, (0x80 + u % 64).toUInt8]

/-- The escape after a backslash. Surrogates come in pairs or not at all. -/
def readEscape : Bytes → Option (Bytes × Bytes)
  | [] => none
  | c :: r =>
    if c = 34 ∨ c = 92 ∨ c = 47 then some ([c], r)
    else if c = 98 then some ([8], r)
    else if c = 102 then some ([12], r)
    else if c = 110 then some ([10], r)
    else if c = 114 then some ([13], r)
    else if c = 116 then some ([9], r)
    else if c = 117 then do
      let (u, r) ← readHex r
      if u < 0xD800 ∨ 0xE000 ≤ u then some (encodePoint u, r)
      else if u < 0xDC00 ∧ r.take 2 = [92, 117] then do
        let (w, r) ← readHex (r.drop 2)
        if 0xDC00 ≤ w ∧ w < 0xE000 then
          some (encodePoint (0x10000 + (u - 0xD800) * 0x400 + (w - 0xDC00)), r)
        else none
      else none
    else none

/-- The rest of a string after its opening quote. -/
def readString : ℕ → Bytes → Option (Bytes × Bytes)
  | 0, _ => none
  | _, [] => none
  | n + 1, c :: r =>
    if c = 34 then some ([], r)
    else if c = 92 then do
      let (d, r) ← readEscape r
      let (t, r) ← readString n r
      some (d ++ t, r)
    else if c < 32 then none
    else do
      let (t, r) ← readString n r
      some (c :: t, r)

def readLiteral (t : Bytes) (v : Value) (s : Bytes) : Option (Value × Bytes) :=
  if t.isPrefixOf s then some (v, s.drop t.length) else none

section Reader

variable (F : FloatText) (ok : Bytes → Bool)

mutual

def readValue : ℕ → Bytes → Option (Value × Bytes)
  | 0, _ => none
  | n + 1, s =>
    match skipWs s with
    | [] => none
    | c :: r =>
      if c = 34 then do
        let (t, r) ← readString n r
        if ok t then some (.str t, r) else none
      else if c = 91 then
        match eat 93 r with
        | some r' => some (.arr [], r')
        | none => (readElems n r).map fun p => (.arr p.1, p.2)
      else if c = 123 then
        match eat 125 r with
        | some r' => some (.obj [], r')
        | none => (readMembers n r).map fun p => (.obj p.1, p.2)
      else if c = 110 then readLiteral (lit "null") .null (c :: r)
      else if c = 116 then readLiteral (lit "true") (.bool true) (c :: r)
      else if c = 102 then readLiteral (lit "false") (.bool false) (c :: r)
      else (readNumber (c :: r)).map fun p => (decodeNumber F p.1, p.2)

def readElems : ℕ → Bytes → Option (List Value × Bytes)
  | 0, _ => none
  | n + 1, s => do
    let (v, r) ← readValue n s
    match eat 44 r with
    | some r' => (readElems n r').map fun p => (v :: p.1, p.2)
    | none => (eat 93 r).map fun r' => ([v], r')

def readMembers : ℕ → Bytes → Option (Members × Bytes)
  | 0, _ => none
  | n + 1, s => do
    let r ← eat 34 s
    let (k, r) ← readString n r
    if ok k then do
      let r ← eat 58 r
      let (v, r) ← readValue n r
      match eat 44 r with
      | some r' => (readMembers n r').map fun p => ((k, v) :: p.1, p.2)
      | none => (eat 125 r).map fun r' => ([(k, v)], r')
    else none

end

/-- The first complete value of a text, whatever follows it. -/
def readFirst (s : Bytes) : Option (Value × Bytes) := readValue F ok (s.length + 1) s

/-- The tree of a text that is one JSON document. -/
def readDocument (s : Bytes) : Option Value :=
  match readFirst F ok s with
  | some (v, r) => if skipWs r = [] then some v else none
  | none => none

end Reader

/-! ### UTF-8 -/

def isTail (c : UInt8) : Bool := 0x80 ≤ c && c ≤ 0xBF

/-- The well-formed byte sequences of RFC 3629. -/
def validUtf8 : Bytes → Bool
  | [] => true
  | a :: r =>
    if a < 0x80 then validUtf8 r
    else match r with
    | [] => false
    | b :: r =>
      if 0xC2 ≤ a && a ≤ 0xDF then isTail b && validUtf8 r
      else match r with
      | [] => false
      | c :: r =>
        if 0xE0 ≤ a && a ≤ 0xEF then
          isTail b && isTail c && (a != 0xE0 || 0xA0 ≤ b) && (a != 0xED || b ≤ 0x9F) && validUtf8 r
        else match r with
        | [] => false
        | d :: r =>
          0xF0 ≤ a && a ≤ 0xF4 && isTail b && isTail c && isTail d &&
            (a != 0xF0 || 0x90 ≤ b) && (a != 0xF4 || b ≤ 0x8F) && validUtf8 r

theorem validUtf8_ascii {s : Bytes} (h : (s.all fun c => c < 0x80) = true) : validUtf8 s = true := by
  induction s with
  | nil => rfl
  | cons c s ih =>
    rw [List.all_cons, Bool.and_eq_true, decide_eq_true_eq] at h
    rw [validUtf8.eq_def]
    simp only [if_pos h.1]
    exact ih h.2

/-- The tree of a text that is, as a whole, one UTF-8 JSON document. -/
def strictTree (F : FloatText) (s : Bytes) : Option Value := readDocument F validUtf8 s

/-- The value such a text denotes. -/
def strictRead (F : FloatText) (s : Bytes) : Option Value := (strictTree F s).map Value.resolve

end MdtDialoutCollector.Json
