import MdtDialoutCollector.Csv.Document

/-! CSV files as they are written. A cell stands in a file as it is or between quotes, and
holds no line break either way: the reader ends a line inside quotes too. The lines end in LF
or CR LF, and the last may have no line break. The reader gives back the table that was
written, and reads no others than the tables that can be written. -/

namespace MdtDialoutCollector.Csv

open Text

/-- A separator is neither the quote nor a byte of a line break. -/
structure Separator where
  byte : UInt8
  plain : byte ≠ 34 ∧ byte ≠ 10 ∧ byte ≠ 13 := by decide

def comma : Separator := { byte := 44 }

/-- No cell spans two lines, between quotes or not. -/
def OneLine (s : Bytes) : Prop := 10 ∉ s ∧ 13 ∉ s

instance (s : Bytes) : Decidable (OneLine s) := inferInstanceAs (Decidable (_ ∧ _))

/-- The quotes of a cell are doubled inside quotes. -/
def escapeQuotes : Bytes → Bytes
  | [] => []
  | c :: s => if c = 34 then 34 :: 34 :: escapeQuotes s else c :: escapeQuotes s

theorem unescapeQuotes_escapeQuotes (s : Bytes) : unescapeQuotes (escapeQuotes s) = s := by
  induction s with
  | nil => rfl
  | cons c s ih =>
    rw [escapeQuotes]
    by_cases hc : c = 34
    · rw [if_pos hc, unescapeQuotes, ih, hc]
    · rw [if_neg hc, unescapeQuotes.eq_3 c (escapeQuotes s) (fun _ h => absurd h hc), ih]

/-! ### Cells, lines and files -/

/-- A cell as it stands in a file. -/
inductive Written (sep : Separator) where
  | plain (value : Bytes) (line : OneLine value) (whole : sep.byte ∉ value)
      (bare : value.head? ≠ some 34)
  | quoted (value : Bytes) (line : OneLine value)

namespace Written

variable {sep : Separator}

def value : Written sep → Bytes
  | plain value _ _ _ | quoted value _ => value

def text : Written sep → Bytes
  | plain value _ _ _ => value
  | quoted value _ => 34 :: escapeQuotes value ++ [34]

theorem unquote_text (c : Written sep) : unquote c.text = c.value := by
  cases c with
  | plain value line whole bare => exact if_neg fun h => bare h.2.1
  | quoted value line =>
    have hlen : (34 :: escapeQuotes value ++ [34]).length - 2 = (escapeQuotes value).length := by
      simp
    rw [text, unquote, if_pos ⟨by simp, rfl, List.getLast?_concat⟩, hlen]
    simp only [substr, List.cons_append, List.drop_succ_cons, List.drop_zero, List.take_left]
    exact unescapeQuotes_escapeQuotes value

end Written

/-- The cells of a line with the separators between them. -/
def joinCells (sep : Separator) : List (Written sep) → Bytes
  | [] => []
  | [c] => c.text
  | c :: cs => c.text ++ sep.byte :: joinCells sep cs

structure Line (sep : Separator) where
  cells : List (Written sep)
  nonempty : cells ≠ []
  /-- The line ends in CR LF. -/
  cr : Bool := false

namespace Line

variable {sep : Separator}

def row (l : Line sep) : Cells := l.cells.map Written.value

def text (l : Line sep) : Bytes := joinCells sep l.cells ++ if l.cr then [13, 10] else [10]

end Line

structure File (sep : Separator) where
  lines : List (Line sep)
  /-- A last line with no line break, which must not be empty. -/
  last : List (Written sep) := []
  visible : last = [] ∨ joinCells sep last ≠ []
  /-- The file starts with a byte order mark. -/
  mark : Bool := false
  unmarked : mark = false → ∀ s,
    lines.flatMap Line.text ++ joinCells sep last ≠ 0xef :: 0xbb :: 0xbf :: s

namespace File

variable {sep : Separator}

def body (f : File sep) : Bytes := f.lines.flatMap Line.text ++ joinCells sep f.last

def text (f : File sep) : Bytes := if f.mark then 0xef :: 0xbb :: 0xbf :: f.body else f.body

def rows (f : File sep) : List Cells :=
  f.lines.map Line.row ++ if f.last = [] then [] else [f.last.map Written.value]

end File

/-! ### Reading a file -/

namespace Parser

variable {sep : Separator}

/-- More of the cell has been read. -/
def more (p : Parser) (s : Bytes) : Parser := { p with cell := p.cell ++ s }

@[simp] theorem more_cell (p : Parser) (s : Bytes) : (p.more s).cell = p.cell ++ s := rfl

@[simp] theorem more_row (p : Parser) (s : Bytes) : (p.more s).row = p.row := rfl

@[simp] theorem more_quoted (p : Parser) (s : Bytes) : (p.more s).quoted = p.quoted := rfl

@[simp] theorem more_nil (p : Parser) : p.more [] = p := by simp [more]

@[simp] theorem more_more (p : Parser) (s t : Bytes) : (p.more s).more t = p.more (s ++ t) := by
  simp [more]

theorem byte_plain {p : Parser} {c : UInt8} (hc : c ≠ sep.byte) (hline : c ≠ 10 ∧ c ≠ 13)
    (hbare : (p.cell ++ [c]).head? ≠ some 34) : p.byte sep.byte c = p.more [c] := by
  rw [byte]
  by_cases hq : c = 34
  · have hstart : ¬(p.cell = [] ∨ p.cell.head? = some 34) := by
      cases hcell : p.cell with
      | nil => simp [hcell, hq] at hbare
      | cons d ds => simpa [hcell] using hbare
    rw [if_pos hq, if_neg hstart]
    rfl
  · rw [if_neg hq, if_neg hc, if_neg hline.2, if_neg hline.1]
    rfl

theorem byte_inQuotes {p : Parser} {c : UInt8} (hc : c ≠ 34) (hline : c ≠ 10 ∧ c ≠ 13)
    (hquoted : p.quoted = true) : p.byte sep.byte c = p.more [c] := by
  rw [byte, if_neg hc, if_neg hline.2, if_neg hline.1, hquoted]
  simp [more, hquoted]

theorem byte_quote {p : Parser} (h : p.cell = [] ∨ p.cell.head? = some 34) :
    p.byte sep.byte 34 = { p with cell := p.cell ++ [34], quoted := !p.quoted } := by
  rw [byte, if_pos rfl, if_pos h]

theorem byte_separator {p : Parser} (hquoted : p.quoted = false) :
    p.byte sep.byte sep.byte = { p with row := p.row ++ [unquote p.cell], cell := [] } := by
  rw [byte, if_neg sep.plain.1, if_pos rfl, hquoted]
  rfl

theorem byte_lf (p : Parser) :
    p.byte sep.byte 10 = { data := p.data ++ [p.row ++ [unquote p.cell]] } := by
  rw [byte, if_neg (by decide), if_neg sep.plain.2.1.symm, if_neg (by decide), if_pos rfl]

theorem byte_cr (p : Parser) : p.byte sep.byte 13 = p := by
  rw [byte, if_neg (by decide), if_neg sep.plain.2.2.symm, if_pos rfl]

/-- A cell that does not start with a quote is read as it stands. -/
theorem foldl_plain (s : Bytes) {p : Parser} (hline : OneLine s) (hwhole : sep.byte ∉ s)
    (hbare : (p.cell ++ s).head? ≠ some 34) : s.foldl (byte sep.byte) p = p.more s := by
  induction s generalizing p with
  | nil => simp
  | cons c s ih =>
    simp only [OneLine, List.mem_cons, not_or] at hline hwhole
    rw [List.append_cons] at hbare
    have hfirst : (p.cell ++ [c]).head? ≠ some 34 := by
      intro h
      rw [List.head?_append, h, Option.some_or] at hbare
      exact hbare rfl
    rw [List.foldl_cons, byte_plain (Ne.symm hwhole.1) ⟨Ne.symm hline.1.1, Ne.symm hline.2.1⟩ hfirst,
      ih ⟨hline.1.2, hline.2.2⟩ hwhole.2 hbare, more_more, List.singleton_append]

/-- Between quotes every byte is read, and two quotes at a time leave the reader there. -/
theorem foldl_escapeQuotes (s : Bytes) {p : Parser} (hquoted : p.quoted = true)
    (hopen : p.cell.head? = some 34) (hline : OneLine s) :
    (escapeQuotes s).foldl (byte sep.byte) p = p.more (escapeQuotes s) := by
  induction s generalizing p with
  | nil => simp [escapeQuotes]
  | cons c s ih =>
    simp only [OneLine, List.mem_cons, not_or] at hline
    have hmore : ∀ t, (p.more t).cell.head? = some 34 := by
      intro t
      rw [more_cell, List.head?_append, hopen, Option.some_or]
    rw [escapeQuotes]
    by_cases hc : c = 34
    · have htwice : (p.byte sep.byte 34).byte sep.byte 34 = p.more [34, 34] := by
        rw [byte_quote (.inr hopen), byte_quote]
        · simp [more]
        · exact .inr (hmore [34])
      rw [if_pos hc, List.foldl_cons, List.foldl_cons, htwice,
        ih (p := p.more _) hquoted (hmore _) ⟨hline.1.2, hline.2.2⟩, more_more]
      rfl
    · rw [if_neg hc, List.foldl_cons,
        byte_inQuotes hc ⟨Ne.symm hline.1.1, Ne.symm hline.2.1⟩ hquoted,
        ih (p := p.more _) hquoted (hmore _) ⟨hline.1.2, hline.2.2⟩, more_more]
      rfl

/-- The text of a cell is read into the cell, and leaves no quote open. -/
theorem foldl_cell (c : Written sep) {p : Parser} (hcell : p.cell = []) (hquoted : p.quoted = false) :
    c.text.foldl (byte sep.byte) p = p.more c.text := by
  cases c with
  | plain value line whole bare =>
    exact foldl_plain value line whole (by rwa [hcell, List.nil_append])
  | quoted value line =>
    have hopen : p.byte sep.byte 34 = { p with cell := [34], quoted := true } := by
      rw [byte_quote (.inl hcell), hquoted, hcell]
      rfl
    rw [Written.text, List.cons_append, List.foldl_cons, hopen, List.foldl_append,
      foldl_escapeQuotes value rfl rfl line, List.foldl_cons, List.foldl_nil,
      byte_quote (.inr (by simp))]
    simp [more, hquoted, hcell]

/-- At the end of a line all its cells but the last are in the row. -/
theorem foldl_joinCells {cells : List (Written sep)} (hne : cells ≠ []) {p : Parser}
    (hcell : p.cell = []) (hquoted : p.quoted = false) :
    ∃ row cell, (joinCells sep cells).foldl (byte sep.byte) p = { p with row := row, cell := cell } ∧
      row ++ [unquote cell] = p.row ++ cells.map Written.value ∧
      (row = [] → cell = joinCells sep cells) := by
  induction cells generalizing p with
  | nil => exact absurd rfl hne
  | cons c cs ih =>
    have hcellRead := foldl_cell c hcell hquoted
    cases cs with
    | nil =>
      refine ⟨p.row, c.text, ?_, ?_, fun _ => rfl⟩
      · rw [joinCells, hcellRead, more, hcell, List.nil_append]
      · rw [Written.unquote_text, List.map_singleton]
    | cons d ds =>
      have hnext : (p.more c.text).byte sep.byte sep.byte =
          { p with row := p.row ++ [c.value], cell := [] } := by
        rw [byte_separator (p := p.more c.text) hquoted, more_cell, hcell, List.nil_append,
          Written.unquote_text]
        rfl
      obtain ⟨row, cell, hfold, hrow, -⟩ := ih (List.cons_ne_nil d ds)
        (p := { p with row := p.row ++ [c.value], cell := [] }) rfl hquoted
      refine ⟨row, cell, ?_, ?_, ?_⟩
      · rw [joinCells, List.foldl_append, hcellRead, List.foldl_cons, hnext, hfold]
        simp
      · rw [hrow]
        simp
      · intro hnil
        have hlen := congrArg List.length hrow
        rw [hnil] at hlen
        simp only [List.nil_append, List.length_append, List.length_map, List.length_cons,
          List.length_nil] at hlen
        omega

/-- What has been read when a line is complete. -/
theorem foldl_line (l : Line sep) (data : List Cells) :
    l.text.foldl (byte sep.byte) { data := data } = { data := data ++ [l.row] } := by
  obtain ⟨row, cell, hfold, hrow, -⟩ := foldl_joinCells l.nonempty (p := { data := data }) rfl rfl
  have hend : ∀ p : Parser, (if l.cr then [13, 10] else [10]).foldl (byte sep.byte) p =
      { data := p.data ++ [p.row ++ [unquote p.cell]] } := by
    intro p
    cases l.cr
    · exact byte_lf p
    · show (p.byte sep.byte 13).byte sep.byte 10 = _
      rw [byte_cr, byte_lf]
  rw [Line.text, List.foldl_append, hfold, hend]
  simp only [hrow, List.nil_append, Line.row]

theorem foldl_lines (ls : List (Line sep)) (data : List Cells) :
    (ls.flatMap Line.text).foldl (byte sep.byte) { data := data } =
      { data := data ++ ls.map Line.row } := by
  induction ls generalizing data with
  | nil => simp
  | cons l ls ih =>
    rw [List.flatMap_cons, List.foldl_append, foldl_line, ih]
    simp

end Parser

theorem parseCsv_body {sep : Separator} (f : File sep) : parseCsv sep.byte f.body = f.rows := by
  rw [parseCsv, File.body, List.foldl_append, Parser.foldl_lines, List.nil_append, File.rows]
  by_cases hlast : f.last = []
  · rw [hlast, if_pos rfl]
    simp [joinCells, Parser.finish]
  · obtain ⟨row, cell, hfold, hrow, hempty⟩ := Parser.foldl_joinCells hlast
      (p := { data := f.lines.map Line.row }) rfl rfl
    have hvisible : cell ≠ [] ∨ row ≠ [] := by
      by_contra h
      rw [not_or, not_not, not_not] at h
      exact f.visible.resolve_left hlast ((hempty h.2).symm.trans h.1)
    rw [hfold, if_neg hlast, Parser.finish, if_pos hvisible, hrow]
    rfl

theorem skipMark_text {sep : Separator} (f : File sep) : skipMark f.text = f.body := by
  rw [File.text]
  cases hmark : f.mark with
  | true => rfl
  | false => exact skipMark.eq_2 f.body (f.unmarked hmark)

/-- A file is read as the table it was written from, however its cells and lines were
written. -/
theorem read_text (sep : Separator) (f : File sep) :
    Document.read sep.byte (some f.text) = some ⟨f.rows⟩ := by
  rw [Document.read, Option.map_some, skipMark_text, parseCsv_body]

/-! ### The tables that files are read as -/

/-- A line has at least one cell, and a cell no line break. -/
def Readable (rows : List Cells) : Prop := ∀ row ∈ rows, row ≠ [] ∧ ∀ cell ∈ row, OneLine cell

theorem OneLine.nil : OneLine [] := by decide

theorem OneLine.append {s t : Bytes} (hs : OneLine s) (ht : OneLine t) : OneLine (s ++ t) := by
  simp only [OneLine, List.mem_append, not_or] at hs ht ⊢
  exact ⟨⟨hs.1, ht.1⟩, hs.2, ht.2⟩

theorem OneLine.mono {s t : Bytes} (ht : OneLine t) (h : ∀ c ∈ s, c ∈ t) : OneLine s :=
  ⟨fun hs => ht.1 (h _ hs), fun hs => ht.2 (h _ hs)⟩

theorem mem_of_mem_unescapeQuotes {s : Bytes} {c : UInt8} (h : c ∈ unescapeQuotes s) : c ∈ s := by
  induction s using unescapeQuotes.induct with
  | case1 => exact h
  | case2 s ih =>
    rw [unescapeQuotes, List.mem_cons] at h
    rcases h with rfl | h
    · exact List.mem_cons_self
    · exact List.mem_cons_of_mem _ (List.mem_cons_of_mem _ (ih h))
  | case3 d s hd ih =>
    rw [unescapeQuotes.eq_3 d s hd, List.mem_cons] at h
    rcases h with rfl | h
    · exact List.mem_cons_self
    · exact List.mem_cons_of_mem _ (ih h)

theorem OneLine.unquote {s : Bytes} (h : OneLine s) : OneLine (unquote s) := by
  rw [Csv.unquote]
  split
  · refine h.mono fun c hc => ?_
    exact List.mem_of_mem_drop (List.mem_of_mem_take (mem_of_mem_unescapeQuotes hc))
  · exact h

/-- What has been read so far can stand in a table. -/
structure Parser.Sound (p : Parser) : Prop where
  data : Readable p.data
  row : ∀ cell ∈ p.row, OneLine cell
  cell : OneLine p.cell

namespace Parser

variable {sep : Separator} {p : Parser}

/-- The line that has been read. -/
theorem Sound.readable_line (h : p.Sound) : Readable (p.data ++ [p.row ++ [unquote p.cell]]) := by
  intro row hrow
  rw [List.mem_append, List.mem_singleton] at hrow
  rcases hrow with hrow | rfl
  · exact h.data row hrow
  · refine ⟨by simp, fun cell hcell => ?_⟩
    rw [List.mem_append, List.mem_singleton] at hcell
    rcases hcell with hcell | rfl
    · exact h.row cell hcell
    · exact h.cell.unquote

/-- A byte that is added to the cell. -/
theorem Sound.more (h : p.Sound) {c : UInt8} (hlf : c ≠ 10) (hcr : c ≠ 13) : (p.more [c]).Sound where
  data := h.data
  row := h.row
  cell := h.cell.append ⟨by simpa using Ne.symm hlf, by simpa using Ne.symm hcr⟩

theorem Sound.byte (h : p.Sound) (c : UInt8) : (p.byte sep.byte c).Sound := by
  rw [Parser.byte]
  by_cases hquote : c = 34
  · have hmore := h.more (c := c) (by rw [hquote]; decide) (by rw [hquote]; decide)
    rw [if_pos hquote]
    exact ⟨hmore.data, hmore.row, hmore.cell⟩
  rw [if_neg hquote]
  by_cases hsep : c = sep.byte
  · rw [if_pos hsep]
    split
    · exact ⟨h.data, (h.readable_line _ List.mem_concat_self).2, .nil⟩
    · exact h.more (hsep ▸ sep.plain.2.1) (hsep ▸ sep.plain.2.2)
  rw [if_neg hsep]
  by_cases hcr : c = 13
  · rw [if_pos hcr]
    exact h
  rw [if_neg hcr]
  by_cases hlf : c = 10
  · rw [if_pos hlf]
    exact ⟨h.readable_line, by simp, .nil⟩
  · rw [if_neg hlf]
    exact h.more hlf hcr

theorem Sound.foldl (h : p.Sound) (text : Bytes) : (text.foldl (Parser.byte sep.byte) p).Sound := by
  induction text generalizing p with
  | nil => exact h
  | cons c text ih => exact ih (h.byte c)

end Parser

theorem readable_parseCsv (sep : Separator) (text : Bytes) : Readable (parseCsv sep.byte text) := by
  have hsound : (text.foldl (Parser.byte sep.byte) {}).Sound :=
    Parser.Sound.foldl ⟨by simp [Readable], by simp, .nil⟩ text
  rw [parseCsv, Parser.finish]
  split
  · exact hsound.readable_line
  · exact hsound.data

def quotedLine (sep : Separator) (row : Cells) (h : row ≠ [] ∧ ∀ cell ∈ row, OneLine cell) :
    Line sep where
  cells := row.pmap .quoted h.2
  nonempty hnil := h.1 (List.pmap_eq_nil_iff.mp hnil)

theorem row_quotedLine {sep : Separator} {row : Cells}
    (h : row ≠ [] ∧ ∀ cell ∈ row, OneLine cell) : (quotedLine sep row h).row = row := by
  simp [quotedLine, Line.row, List.map_pmap, Written.value]

/-- A file with this table: every cell between quotes, a mark in front. -/
def quotedFile (sep : Separator) (rows : List Cells) (h : Readable rows) : File sep where
  lines := rows.pmap (quotedLine sep) fun row hrow => h row hrow
  visible := .inl rfl
  mark := true
  unmarked h := by cases h

theorem rows_quotedFile (sep : Separator) (rows : List Cells) (h : Readable rows) :
    (quotedFile sep rows h).rows = rows := by
  simp [quotedFile, File.rows, List.map_pmap, row_quotedLine]

/-- The tables that a file can be read as: every line has a cell, and no cell a line break. -/
theorem read_iff_readable (sep : Separator) (rows : List Cells) :
    (∃ file, Document.read sep.byte file = some ⟨rows⟩) ↔ Readable rows := by
  constructor
  · rintro ⟨file, hfile⟩
    cases file with
    | none => cases hfile
    | some text =>
      cases hfile
      exact readable_parseCsv sep (skipMark text)
  · intro h
    refine ⟨some (quotedFile sep rows h).text, ?_⟩
    rw [Document.read, Option.map_some, skipMark_text, parseCsv_body, rows_quotedFile]

end MdtDialoutCollector.Csv
