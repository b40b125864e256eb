import MdtDialoutCollector.Text.Bytes

/-! The part of the bundled CSV reader the label loaders use: a document read from a file
with no column or row labels, with quoting on, trimming and quoted line breaks off. -/

namespace MdtDialoutCollector.Csv

open Text

abbrev Cells := List Bytes

/-- `ReplaceString(str, "\"\"", "\"")`. -/
def unescapeQuotes : Bytes → Bytes
  | [] => []
  | 34 :: 34 :: s => 34 :: unescapeQuotes s
  | c :: s => c :: unescapeQuotes s

def unquote (s : Bytes) : Bytes :=
  if 2 ≤ s.length ∧ s.head? = some 34 ∧ s.getLast? = some 34 then
    unescapeQuotes (substr s 1 (s.length - 2))
  else s

/-- What `ParseCsv` carries from one byte to the next. -/
structure Parser where
  data : List Cells := []
  row : Cells := []
  cell : Bytes := []
  quoted : Bool := false

def Parser.byte (separator : UInt8) (p : Parser) (c : UInt8) : Parser :=
  if c = 34 then
    { p with
      quoted := if p.cell = [] ∨ p.cell.head? = some 34 then !p.quoted else p.quoted
      cell := p.cell ++ [c] }
  else if c = separator then
    if !p.quoted then { p with row := p.row ++ [unquote p.cell], cell := [] }
    else { p with cell := p.cell ++ [c] }
  else if c = 13 then p
  else if c = 10 then { data := p.data ++ [p.row ++ [unquote p.cell]] }
  else { p with cell := p.cell ++ [c] }

/-- The last line need not end in a line break. -/
def Parser.finish (p : Parser) : List Cells :=
  if p.cell ≠ [] ∨ p.row ≠ [] then p.data ++ [p.row ++ [unquote p.cell]] else p.data

def parseCsv (separator : UInt8) (text : Bytes) : List Cells :=
  (text.foldl (Parser.byte separator) {}).finish

/-- A UTF-8 byte order mark is skipped. -/
def skipMark : Bytes → Bytes
  | 0xef :: 0xbb :: 0xbf :: s => s
  | s => s

structure Document where
  data : List Cells

namespace Document

/-- `Document(path, LabelParams(-1, -1), SeparatorParams(separator))`, with the contents of
the file; the constructor throws where the file cannot be read. -/
def read (separator : UInt8) (file : Option Bytes) : Option Document :=
  file.map fun text => ⟨parseCsv separator (skipMark text)⟩

def getRowCount (d : Document) : ℕ := d.data.length

/-- `mData.erase(mData.begin() + i)`, undefined unless row `i` exists. -/
def removeRow (d : Document) (i : ℕ) : Option Document :=
  if i < d.data.length then some ⟨d.data.eraseIdx i⟩ else none

/-- `GetColumn<std::string>(i)`, which throws at a row that is too short. -/
def getColumn (d : Document) (i : ℕ) : Option Cells := d.data.mapM (·[i]?)

theorem removeRow_getRowCount (d : Document) : d.removeRow d.getRowCount = none :=
  if_neg (Nat.lt_irrefl _)

end Document

example : parseCsv 44 (lit "1.1.1.1,\"a,\"\"b\"\"\",c\r\n2,") =
    [[lit "1.1.1.1", lit "a,\"b\"", lit "c"], [lit "2", []]] := by decide

end MdtDialoutCollector.Csv
