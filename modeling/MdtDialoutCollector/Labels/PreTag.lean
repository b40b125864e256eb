import MdtDialoutCollector.Labels.Reload
import MdtDialoutCollector.Text.Search

/-! The loops of `LoadLabelMapPreTagStyle`. Every row adds one address and one platform to
its columns, but a node only where its label has two `%`: the columns stay aligned exactly
on tables whose labels all have them, and a table printed in the documented format is read
back. The row that the loader drops before that is one past the last. -/

namespace MdtDialoutCollector.Labels

open Csv Text

/-- The two loops, on the columns that the reader has returned. -/
def preTagLoops (m : LabelMap) (labels ipaddrs : Cells) : Outcome LabelMap := do
  let c ← preTagColumns labels ipaddrs
  storeLabels m c (intSize ipaddrs.length)

/-- The row that the loader passes to `RemoveRow`. -/
def sentinelRow (doc : Document) : ℕ := doc.getRowCount

theorem loadLabelMapPreTagStyle_eq (m : LabelMap) (file : Option Bytes) :
    loadLabelMapPreTagStyle m file = match Document.read 32 file with
      | none => .exited
      | some doc =>
        match doc.removeRow (sentinelRow doc) with
        | none => .undefined
        | some doc =>
          match doc.getColumn 0, doc.getColumn 1 with
          | some labels, some ipaddrs => preTagLoops m.clear labels ipaddrs
          | _, _ => .exited := rfl

/-! ### The two cuts -/

/-- Where the part of a string after its first `=` starts, as an `unsigned`. -/
def startDelim (s : Bytes) : UInt32 := UInt32.ofNat ((find s 61).getD npos + 1)

/-- The address of an `ip` field: what is between its first `=` and its last `/`. -/
def address (ipaddr : Bytes) : Bytes :=
  substr ipaddr (startDelim ipaddr).toNat
    (UInt32.ofNat ((rfind ipaddr 47).getD npos) - startDelim ipaddr).toNat

/-- The tokens of a label: what follows its first `=`. -/
def labelField (label : Bytes) : Bytes :=
  substr label (startDelim label).toNat (UInt32.ofNat label.length - startDelim label).toNat

/-- Without a `=` the position wraps around to the start of the string. -/
theorem startDelim_le (s : Bytes) : (startDelim s).toNat ≤ s.length := by
  rw [startDelim, UInt32.toNat_ofNat']
  cases h : find s 61 with
  | none =>
    rw [Option.getD_none, npos]
    exact Nat.zero_le _
  | some pos =>
    obtain ⟨-, -, hlt⟩ := eq_append_of_find h
    exact (Nat.mod_le _ _).trans hlt

theorem addressOf_eq (ipaddr : Bytes) : addressOf ipaddr = .running (address ipaddr) :=
  if_neg (Nat.not_lt.mpr (startDelim_le ipaddr))

theorem labelText_eq (label : Bytes) : labelText label = .running (labelField label) :=
  if_neg (Nat.not_lt.mpr (startDelim_le label))

/-! ### The token loop -/

theorem tokenLoop_of_not_mem {text : Bytes} (h : 37 ∉ text) (counter : ℕ) (nid : Cells) :
    tokenLoop text counter nid = (nid, text) := by
  rw [tokenLoop]
  split
  · rfl
  · next hfind =>
    rw [find_eq_none_iff.mpr h] at hfind
    cases hfind

theorem tokenLoop_append {token : Bytes} (h : 37 ∉ token) (text : Bytes) (counter : ℕ)
    (nid : Cells) : tokenLoop (token ++ 37 :: text) counter nid =
      tokenLoop text (counter + 1) (if counter = 1 then nid ++ [token] else nid) := by
  rw [tokenLoop]
  split
  · next hfind =>
    rw [find_append h] at hfind
    cases hfind
  · next pos hfind =>
    rw [find_append h, Option.some.injEq] at hfind
    subst hfind
    simp [substr]

/-- The tokens are added behind those of the rows before, and do not depend on them. -/
theorem tokenLoop_nid (text : Bytes) (counter : ℕ) (nid : Cells) :
    tokenLoop text counter nid =
      (nid ++ (tokenLoop text counter []).1, (tokenLoop text counter []).2) := by
  induction text using pieces_induction 37 generalizing counter nid with
  | plain text h => rw [tokenLoop_of_not_mem h, tokenLoop_of_not_mem h, List.append_nil]
  | piece token text h ih =>
    rw [tokenLoop_append h, tokenLoop_append h]
    by_cases hcounter : counter = 1
    · rw [if_pos hcounter, if_pos hcounter, ih _ (nid ++ [token]), ih _ ([] ++ [token])]
      simp only [List.nil_append, List.append_assoc]
    · rw [if_neg hcounter, if_neg hcounter]
      exact ih (counter + 1) nid

/-- A token is taken when the second `%` is met. -/
theorem length_tokenLoop (text : Bytes) (counter : ℕ) :
    (tokenLoop text counter []).1.length =
      if counter ≤ 1 ∧ 2 ≤ counter + text.count 37 then 1 else 0 := by
  induction text using pieces_induction 37 generalizing counter with
  | plain text h =>
    rw [tokenLoop_of_not_mem h, List.count_eq_zero.mpr h, if_neg (by omega)]
    rfl
  | piece token text h ih =>
    rw [tokenLoop_append h, tokenLoop_nid, List.length_append, ih, List.count_append,
      List.count_cons_self, List.count_eq_zero.mpr h]
    by_cases hcounter : counter = 1
    · rw [if_pos hcounter, if_neg (by omega), if_pos (by omega)]
      rfl
    · rw [if_neg hcounter, List.length_nil, Nat.zero_add]
      exact if_congr (by omega) rfl rfl

/-! ### The columns -/

/-- A row of the two columns that the reader returns. -/
structure PtmRow where
  label : Bytes
  ipaddr : Bytes
  deriving DecidableEq

/-- The nodes of a label: one, or none where it has fewer than two `%`. -/
def nodes (label : Bytes) : Cells := (tokenLoop (labelField label) 0 []).1

def platform (label : Bytes) : Bytes := (tokenLoop (labelField label) 0 []).2

theorem length_nodes (label : Bytes) :
    (nodes label).length = if 2 ≤ (labelField label).count 37 then 1 else 0 := by
  rw [nodes, length_tokenLoop]
  exact if_congr (by omega) rfl rfl

theorem preTagRow_eq (c : Columns) (label ipaddr : Bytes) :
    preTagRow c label ipaddr =
      .running ⟨c.ipaddrs ++ [address ipaddr], c.nid ++ nodes label, c.pid ++ [platform label]⟩ := by
  rw [preTagRow, addressOf_eq, Outcome.running_bind, labelText_eq, Outcome.running_bind,
    tokenLoop_nid]
  rfl

def columnsRead (rows : List PtmRow) : Columns where
  ipaddrs := rows.map fun r => address r.ipaddr
  nid := rows.flatMap fun r => nodes r.label
  pid := rows.map fun r => platform r.label

theorem preTagColumns_eq (rows : List PtmRow) :
    preTagColumns (rows.map PtmRow.label) (rows.map PtmRow.ipaddr) =
      .running (columnsRead (rows.take (intSize rows.length))) := by
  rw [preTagColumns, List.length_map]
  generalize hsize : intSize rows.length = size
  have hle : size ≤ rows.length := hsize ▸ intSize_le _
  clear hsize
  induction size with
  | zero => rfl
  | succ n ih =>
    have hn : n < rows.length := hle
    rw [List.range_succ, List.foldlM_append, ih hn.le, Outcome.running_bind, List.foldlM_cons,
      List.getElem?_map, List.getElem?_map, List.getElem?_eq_getElem hn]
    simp only [Option.map_some, preTagRow_eq, columnsRead, Outcome.running_bind, List.foldlM_nil,
      List.take_succ_eq_append_getElem hn, List.map_append, List.flatMap_append,
      List.map_singleton, List.flatMap_singleton]
    rfl

/-- The labels that a row gives its own address. -/
def PtmRow.labelRow (r : PtmRow) : LabelRow :=
  ⟨address r.ipaddr, (nodes r.label).headD [], platform r.label⟩

theorem columnsRead_eq {rows : List PtmRow} (h : ∀ r ∈ rows, (nodes r.label).length = 1) :
    columnsRead rows = columnsOf (rows.map PtmRow.labelRow) := by
  have hnid : rows.flatMap (fun r => nodes r.label) =
      rows.map fun r => (nodes r.label).headD [] := by
    rw [List.map_eq_flatMap]
    refine List.flatMap_congr fun r hr => ?_
    obtain ⟨node, hnode⟩ := List.length_eq_one_iff.mp (h r hr)
    rw [hnode]
    rfl
  rw [columnsRead, columnsOf, hnid, List.map_map, List.map_map, List.map_map]
  rfl

/-- What the loops store, from rows whose labels all name a node. -/
theorem preTagLoops_eq {rows : List PtmRow} (h : ∀ r ∈ rows, (nodes r.label).length = 1)
    (m : LabelMap) :
    preTagLoops m (rows.map PtmRow.label) (rows.map PtmRow.ipaddr) =
      .running (storeRows m ((rows.map PtmRow.labelRow).take (intSize rows.length))) := by
  have hsize := intSize_le rows.length
  rw [preTagLoops, preTagColumns_eq, Outcome.running_bind, List.length_map,
    columnsRead_eq fun r hr => h r (List.mem_of_mem_take hr),
    storeLabels_columnsOf _ _ _ (by simp [hsize]), List.map_take, List.take_take, Nat.min_self]

/-! ### Aligned columns -/

/-- After the first loop the columns have one entry a row, the second stays within them, and
each address gets the labels of its own last row. -/
def ColumnsAligned (rows : List PtmRow) : Prop :=
  ∃ c m, preTagColumns (rows.map PtmRow.label) (rows.map PtmRow.ipaddr) = .running c ∧
    c.ipaddrs.length = rows.length ∧ c.nid.length = rows.length ∧ c.pid.length = rows.length ∧
    storeLabels .empty c (intSize rows.length) = .running m ∧
    Tabulates m (rows.map PtmRow.labelRow)

theorem length_nid (rows : List PtmRow) :
    (columnsRead rows).nid.length =
      rows.countP fun r => decide (2 ≤ (labelField r.label).count 37) := by
  induction rows with
  | nil => rfl
  | cons r rows ih =>
    have hcons : (columnsRead (r :: rows)).nid = nodes r.label ++ (columnsRead rows).nid := rfl
    rw [hcons, List.length_append, ih, length_nodes, List.countP_cons, Nat.add_comm]
    simp only [decide_eq_true_eq]

theorem lt_of_toNat_bmod_eq {n m : ℕ} (hm : 0 < m) (h : (Int.bmod n m).toNat = n) :
    n < (m + 1) / 2 := by
  have hbound := Int.bmod_lt (x := (n : ℤ)) hm
  omega

theorem intSize_eq_iff (n : ℕ) : intSize n = n ↔ n < 2 ^ 31 := by
  constructor
  · intro h
    have hbound := lt_of_toNat_bmod_eq (Nat.two_pow_pos 32) h
    omega
  · exact intSize_of_lt

theorem ColumnsAligned.namesNodes {rows : List PtmRow} (h : ColumnsAligned rows) :
    rows.length < 2 ^ 31 ∧ ∀ r ∈ rows, 2 ≤ (labelField r.label).count 37 := by
  obtain ⟨c, m, hcolumns, hipaddrs, hnid, -, -, -⟩ := h
  rw [preTagColumns_eq, Outcome.running.injEq] at hcolumns
  subst hcolumns
  have hsize : intSize rows.length = rows.length := by
    have hle := intSize_le rows.length
    generalize intSize rows.length = size at hipaddrs hle ⊢
    rwa [columnsRead, List.length_map, List.length_take, Nat.min_eq_left hle] at hipaddrs
  rw [length_nid, hsize, List.take_length, List.countP_eq_length] at hnid
  exact ⟨(intSize_eq_iff _).mp hsize, fun r hr => by simpa using hnid r hr⟩

/-- A label with fewer than two `%` moves the nodes of all later rows up by one. -/
theorem columns_aligned_iff (rows : List PtmRow) :
    ColumnsAligned rows ↔
      rows.length < 2 ^ 31 ∧ ∀ r ∈ rows, 2 ≤ (labelField r.label).count 37 := by
  refine ⟨ColumnsAligned.namesNodes, fun ⟨hlength, hlabels⟩ => ?_⟩
  have hsize := intSize_of_lt hlength
  have htable : (rows.map PtmRow.labelRow).length = rows.length := List.length_map _
  have hnodes : ∀ r ∈ rows, (nodes r.label).length = 1 := fun r hr => by
    rw [length_nodes, if_pos (hlabels r hr)]
  have hloops := preTagLoops_eq hnodes .empty
  rw [preTagLoops, preTagColumns_eq, Outcome.running_bind, List.length_map, hsize,
    List.take_length, ← htable, List.take_length] at hloops
  refine ⟨columnsRead rows, storeRows .empty (rows.map PtmRow.labelRow), ?_, ?_, ?_, ?_, ?_, ?_⟩
  · rw [preTagColumns_eq, hsize, List.take_length]
  · exact List.length_map _
  · rw [length_nid, List.countP_eq_length]
    exact fun r hr => by simpa using hlabels r hr
  · exact List.length_map _
  · rwa [hsize, ← htable]
  · have hcounted : Counted (rows.map PtmRow.labelRow) := counted_of_lt (by rwa [htable])
    have htabulates := (tabulates_storeRows_iff _).mpr hcounted
    rwa [htable, hsize, ← htable, List.take_length] at htabulates

/-- The platform of the first row has not been entered yet. -/
def shortLabel : List PtmRow :=
  [⟨lit "set_label=nkey%daisy-router-01", lit "ip=1.1.1.1/32"⟩,
    ⟨lit "set_label=nkey%daisy-router-02%pkey%Cisco-XE", lit "ip=2.2.2.2/32"⟩]

theorem shortLabel_misaligned : ¬∀ rows, ColumnsAligned rows := by
  intro h
  have hlabels := (h shortLabel).namesNodes.2
  exact absurd (hlabels _ List.mem_cons_self) (by decide)

/-! ### The documented format -/

section Fields

variable {name rest : Bytes}

/-- Behind a name without a `=` the cut starts right after the first one. -/
theorem startDelim_append (hname : 61 ∉ name) (h : (name ++ 61 :: rest).length < 2 ^ 32) :
    (startDelim (name ++ 61 :: rest)).toNat = name.length + 1 := by
  rw [List.length_append, List.length_cons] at h
  rw [startDelim, find_append hname, Option.getD_some, UInt32.toNat_ofNat']
  omega

theorem labelField_append (hname : 61 ∉ name) (h : (name ++ 61 :: rest).length < 2 ^ 32) :
    labelField (name ++ 61 :: rest) = rest := by
  have hdelim := startDelim_append hname h
  have hlength : (name ++ 61 :: rest).length = name.length + 1 + rest.length := by
    rw [List.length_append, List.length_cons]
    omega
  have hspan : (UInt32.ofNat (name ++ 61 :: rest).length -
      startDelim (name ++ 61 :: rest)).toNat = rest.length := by
    rw [UInt32.toNat_sub, hdelim, UInt32.toNat_ofNat']
    omega
  rw [labelField, hspan, hdelim]
  have hcut := substr_append_cons name 61 rest []
  rwa [List.append_nil] at hcut

theorem address_append {ip len : Bytes} (hname : 61 ∉ name) (hlen : 47 ∉ len)
    (h : (name ++ 61 :: (ip ++ 47 :: len)).length < 2 ^ 32) :
    address (name ++ 61 :: (ip ++ 47 :: len)) = ip := by
  have hdelim := startDelim_append hname h
  have hsplit : name ++ 61 :: (ip ++ 47 :: len) = (name ++ 61 :: ip) ++ 47 :: len := by simp
  have hstop : rfind (name ++ 61 :: (ip ++ 47 :: len)) 47 = some (name.length + 1 + ip.length) := by
    rw [hsplit, rfind_append hlen, List.length_append, List.length_cons]
    exact congrArg some (by omega)
  have hlength : (name ++ 61 :: (ip ++ 47 :: len)).length =
      name.length + 1 + ip.length + 1 + len.length := by
    rw [hsplit, List.length_append, List.length_append, List.length_cons, List.length_cons]
    omega
  have hspan : (UInt32.ofNat ((rfind (name ++ 61 :: (ip ++ 47 :: len)) 47).getD npos) -
      startDelim (name ++ 61 :: (ip ++ 47 :: len))).toNat = ip.length := by
    rw [UInt32.toNat_sub, hdelim, hstop, Option.getD_some, UInt32.toNat_ofNat']
    omega
  rw [address, hspan, hdelim]
  exact substr_append_cons name 61 ip (47 :: len)

end Fields

/-- A row of the documented format: `set_label=nkey%N%pkey%P ip=A/L`. -/
structure PtmLine where
  row : LabelRow
  prefixLength : Bytes
  nid_plain : 37 ∉ row.nid
  pid_plain : 37 ∉ row.pid
  prefixLength_plain : 47 ∉ prefixLength

namespace PtmLine

variable (l : PtmLine)

def setLabel : Bytes := lit "set_label=nkey%" ++ (l.row.nid ++ (lit "%pkey%" ++ l.row.pid))

def ip : Bytes := lit "ip=" ++ (l.row.ip ++ 47 :: l.prefixLength)

def printed : PtmRow := ⟨l.setLabel, l.ip⟩

variable {l}

theorem address_ip (h : l.ip.length < 2 ^ 32) : address l.ip = l.row.ip := by
  have hsplit : l.ip = lit "ip" ++ 61 :: (l.row.ip ++ 47 :: l.prefixLength) := rfl
  rw [hsplit] at h ⊢
  exact address_append (by decide) l.prefixLength_plain h

theorem labelField_setLabel (h : l.setLabel.length < 2 ^ 32) :
    labelField l.setLabel = lit "nkey%" ++ (l.row.nid ++ (lit "%pkey%" ++ l.row.pid)) := by
  have hsplit : l.setLabel =
      lit "set_label" ++ 61 :: (lit "nkey%" ++ (l.row.nid ++ (lit "%pkey%" ++ l.row.pid))) := rfl
  rw [hsplit] at h ⊢
  exact labelField_append (by decide) h

/-- The three `%` of the format are the only ones, so the tokens are `nkey`, `N` and `pkey`. -/
theorem tokenLoop_setLabel (h : l.setLabel.length < 2 ^ 32) :
    tokenLoop (labelField l.setLabel) 0 [] = ([l.row.nid], l.row.pid) := by
  have hnkey : 37 ∉ lit "nkey" := by decide
  have hpkey : 37 ∉ lit "pkey" := by decide
  calc tokenLoop (labelField l.setLabel) 0 []
      = tokenLoop (lit "nkey" ++ 37 :: (l.row.nid ++ 37 :: (lit "pkey" ++ 37 :: l.row.pid))) 0
          [] := by
        rw [labelField_setLabel h]
        rfl
    _ = tokenLoop (l.row.nid ++ 37 :: (lit "pkey" ++ 37 :: l.row.pid)) 1 [] :=
        tokenLoop_append hnkey _ 0 []
    _ = tokenLoop (lit "pkey" ++ 37 :: l.row.pid) 2 [l.row.nid] :=
        tokenLoop_append l.nid_plain _ 1 []
    _ = tokenLoop l.row.pid 3 [l.row.nid] := tokenLoop_append hpkey _ 2 [l.row.nid]
    _ = ([l.row.nid], l.row.pid) := tokenLoop_of_not_mem l.pid_plain 3 [l.row.nid]

theorem labelRow_printed (hlabel : l.setLabel.length < 2 ^ 32) (hip : l.ip.length < 2 ^ 32) :
    l.printed.labelRow = l.row := by
  rw [PtmRow.labelRow, nodes, platform, printed, tokenLoop_setLabel hlabel, address_ip hip]
  rfl

/-- The strings of a line are shorter than 2^32 bytes. -/
structure Short (l : PtmLine) : Prop where
  setLabel : l.setLabel.length < 2 ^ 32
  ip : l.ip.length < 2 ^ 32

end PtmLine

theorem preTagLoops_lines {lines : List PtmLine} (hshort : ∀ l ∈ lines, l.Short) :
    preTagLoops .empty (lines.map PtmLine.setLabel) (lines.map PtmLine.ip) = .running
      (storeRows .empty ((lines.map PtmLine.row).take (intSize (lines.map PtmLine.row).length))) := by
  have hnodes : ∀ r ∈ lines.map PtmLine.printed, (nodes r.label).length = 1 := by
    rintro r hr
    obtain ⟨l, hl, rfl⟩ := List.mem_map.mp hr
    rw [nodes, PtmLine.printed, PtmLine.tokenLoop_setLabel (hshort l hl).setLabel]
    rfl
  have hrows : (lines.map PtmLine.printed).map PtmRow.labelRow = lines.map PtmLine.row := by
    rw [List.map_map]
    exact List.map_congr_left fun l hl =>
      PtmLine.labelRow_printed (hshort l hl).setLabel (hshort l hl).ip
  have hloops := preTagLoops_eq hnodes .empty
  rw [hrows, List.map_map, List.map_map, List.length_map] at hloops
  rw [List.length_map]
  exact hloops

/-- The loops give back the printed table, and no cut starts past the end of its string. -/
def ReadsBack (lines : List PtmLine) : Prop :=
  (∃ m, preTagLoops .empty (lines.map PtmLine.setLabel) (lines.map PtmLine.ip) = .running m ∧
    Tabulates m (lines.map PtmLine.row)) ∧
  ∀ s, addressOf s ≠ .terminated ∧ labelText s ≠ .terminated

theorem ReadsBack.counted {lines : List PtmLine} (hshort : ∀ l ∈ lines, l.Short)
    (h : ReadsBack lines) : Counted (lines.map PtmLine.row) := by
  obtain ⟨⟨m, hm, htable⟩, -⟩ := h
  rw [preTagLoops_lines hshort, Outcome.running.injEq] at hm
  subst hm
  exact (tabulates_storeRows_iff _).mp htable

theorem reads_back_iff (lines : List PtmLine) (hshort : ∀ l ∈ lines, l.Short) :
    ReadsBack lines ↔ Counted (lines.map PtmLine.row) := by
  refine ⟨ReadsBack.counted hshort, fun h => ⟨⟨_, preTagLoops_lines hshort, ?_⟩, fun s => ⟨?_, ?_⟩⟩⟩
  · exact (tabulates_storeRows_iff _).mpr h
  · rw [addressOf_eq]
    exact nofun
  · rw [labelText_eq]
    exact nofun

def readmeLine : PtmLine where
  row := ⟨lit "1.1.1.1", lit "daisy-router-01", lit "Cisco-XR"⟩
  prefixLength := lit "32"
  nid_plain := by decide
  pid_plain := by decide
  prefixLength_plain := by decide

theorem readmeLine_short : readmeLine.Short where
  setLabel := by decide
  ip := by decide

theorem readmeLine_reads_back :
    (∀ l ∈ [readmeLine], l.Short) ∧ (ReadsBack [readmeLine] ↔ Counted [readmeLine.row]) := by
  have hshort : ∀ l ∈ [readmeLine], l.Short := by
    rintro l hl
    rw [List.mem_singleton.mp hl]
    exact readmeLine_short
  exact ⟨hshort, reads_back_iff [readmeLine] hshort⟩

/-- An `int` holds no count of 2^31 rows: the loops do not run at all. -/
theorem many_rows_not_read_back :
    ¬∀ lines : List PtmLine, (∀ l ∈ lines, l.Short) → ReadsBack lines := by
  intro h
  have hshort : ∀ l ∈ List.replicate (2 ^ 31) readmeLine, l.Short := by
    intro l hl
    rw [List.eq_of_mem_replicate hl]
    exact readmeLine_short
  have hcounted := (h _ hshort).counted hshort readmeLine.row.ip
  have hsize : intSize (2 ^ 31) = 0 := by decide
  rw [List.map_replicate, List.length_replicate, hsize, List.take_zero, lastRow, lastRow,
    List.reverse_replicate, List.find?_replicate_of_length_pos (Nat.two_pow_pos 31)] at hcounted
  simp at hcounted

/-! ### The sentinel row -/

def sentinelLabel : Bytes := lit "set_label=nkey%unknown%pkey%unknown"

/-- The rows of a document without the sentinel, where the last row is one. -/
def realRows (rows : List Cells) : List Cells :=
  if (rows.getLast?.bind List.head?) = some sentinelLabel then rows.dropLast else rows

/-- The loader removes a row that exists, no other than the sentinel, and the address of
every real row is in the map that it builds. -/
def KeepsRealRows (m : LabelMap) (text : Bytes) : Prop :=
  ∀ doc, Document.read 32 (some text) = some doc →
    sentinelRow doc < doc.getRowCount ∧
    (doc.removeRow (sentinelRow doc)).map Document.data = some (realRows doc.data) ∧
    ∃ m', loadLabelMapPreTagStyle m (some text) = .running m' ∧
      ∀ row ∈ realRows doc.data, ∀ ipaddr, row[1]? = some ipaddr →
        ∃ labels, m'.find (address ipaddr) = some labels

/-- The row that the loader removes is one past the last in every document. -/
theorem never_keeps_real_rows (m : LabelMap) (text : Bytes) : ¬KeepsRealRows m text := by
  intro h
  obtain ⟨-, -, m', hload, -⟩ := h _ rfl
  exact loadLabelMapPreTagStyle_stops m (some text) m' hload

/-- The first two lines of the documented file. -/
def readmePtm : Bytes :=
  lit "set_label=nkey%daisy-router-01%pkey%Cisco-XR ip=1.1.1.1/32\n" ++
  lit "set_label=nkey%daisy-router-02%pkey%Cisco-XE ip=2.2.2.2/32\n"

theorem readmePtm_not_loaded : ¬∀ m text, KeepsRealRows m text := by
  intro h
  exact Nat.lt_irrefl _ (h .empty readmePtm _ rfl).1

end MdtDialoutCollector.Labels
