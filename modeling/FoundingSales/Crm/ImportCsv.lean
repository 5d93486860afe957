import FoundingSales.Crm.ImportedRoutes

/-!
The text of a file: its records, its header and its rows; and how a spreadsheet writes one.

Proved here:

* `scan_cell`, `scan_record`: a written cell and a written record are read back;
* `recordsOf_writeRecords`: so is every table;
* `csv_round_trip`: a written file is read as its header and its rows, and whatever is read is as
  wide as its header.
-/

namespace FoundingSales.Crm.Import

open Rules

/-! ## Columns -/

/-- `IMPORT_COLUMNS` -/
def importColumns : List ImportColumn :=
  [.firmName, .website, .addressLine, .locality, .regionCode, .postalCode, .externalId, .ownerUserId,
    .contactName, .contactTitle, .contactEmail, .contactPhone, .timeZone]

def columnText : ImportColumn → JsString
  | .firmName => js "firm_name"
  | .website => js "website"
  | .addressLine => js "address_line"
  | .locality => js "locality"
  | .regionCode => js "region_code"
  | .postalCode => js "postal_code"
  | .externalId => js "external_id"
  | .ownerUserId => js "owner_user_id"
  | .contactName => js "contact_name"
  | .contactTitle => js "contact_title"
  | .contactEmail => js "contact_email"
  | .contactPhone => js "contact_phone"
  | .timeZone => js "time_zone"

def maxImportRows : Nat := 2000

inductive ImportFileRefusal
  | csvEmpty | csvColumnUnknown | csvColumnRepeated | csvRowWidth | csvTooManyRows
  deriving DecidableEq

/-- Why a whole file was refused, and where. -/
structure FileRefused where
  reason : ImportFileRefusal
  column : Option JsString
  rowNumber : Option Nat
  deriving DecidableEq

structure CsvRow where
  number : Nat
  fields : List JsString
  deriving DecidableEq

structure ParsedCsv where
  header : List JsString
  rows : List CsvRow
  deriving DecidableEq

/-! ## Reading -/

def comma : UInt16 := 44
def quote : UInt16 := 34
def carriageReturn : UInt16 := 13
def byteOrderMark : UInt16 := 0xFEFF

/-- What the reader has at a character. -/
structure Scan where
  records : List (List JsString)
  record : List JsString
  field : JsString
  quoted : Bool
  deriving DecidableEq

def Scan.endField (s : Scan) : Scan := { s with record := s.record ++ [s.field], field := [] }

def Scan.endRecord (s : Scan) : Scan :=
  { s.endField with records := s.records ++ [s.endField.record], record := [] }

def Scan.add (s : Scan) (c : UInt16) : Scan := { s with field := s.field ++ [c] }

/-- A character outside quotes. -/
def Scan.plain (s : Scan) (c : UInt16) : Scan :=
  if c = quote && s.field.length = 0 then { s with quoted := true }
  else if c = comma then s.endField
  else if c = newline then s.endRecord
  else if c ≠ carriageReturn then s.add c
  else s

/-- One character at a time; in quotes, a quote looks at the character after it. -/
def scan : Scan → JsString → Scan
  | s, [] => s
  | s, [c] => if s.quoted then if c ≠ quote then s.add c else { s with quoted := false } else s.plain c
  | s, c :: c' :: text =>
    if s.quoted then
      if c ≠ quote then scan (s.add c) (c' :: text)
      else if c' = quote then scan (s.add quote) text
      else scan { s with quoted := false } (c' :: text)
    else scan (s.plain c) (c' :: text)

/-- The records of a text. -/
def recordsOf (text : JsString) : List (List JsString) :=
  let s := scan ⟨[], [], [], false⟩ text
  if 0 < s.field.length || 0 < s.record.length then s.endRecord.records else s.records

/-- `cell.trim().toLowerCase().replaceAll(/[\s-]+/gu, '_')` -/
def underscored : JsString → JsString
  | [] => []
  | c :: text =>
    if isSpace c || c = 45 then
      if text.head?.any fun c => isSpace c || c = 45 then underscored text else 95 :: underscored text
    else c :: underscored text

def headerColumn (r : ImportRuntime) (cell : JsString) : JsString :=
  underscored (r.toLowerCase (trim cell))

/-- The first name that stands before. -/
def repeatedName : List JsString → List JsString → Option JsString
  | _, [] => none
  | seen, name :: names => if name ∈ seen then some name else repeatedName (seen ++ [name]) names

def isBlank (fields : List JsString) : Bool := !fields.any fun value => 0 < (trim value).length

def parseCsv (r : ImportRuntime) (source : JsString) : Except FileRefused ParsedCsv :=
  let text := if source.head? = some byteOrderMark then source.tail else source
  match recordsOf text with
  | [] => .error ⟨.csvEmpty, none, none⟩
  | first :: records =>
    let header := first.map (headerColumn r)
    if header.all fun name => name.length = 0 then .error ⟨.csvEmpty, none, none⟩
    else
      match (first.zip header).find? fun cell => cell.2 ∉ importColumns.map columnText with
      | some unknown => .error ⟨.csvColumnUnknown, some (trim unknown.1), none⟩
      | none =>
        match repeatedName [] header with
        | some name => .error ⟨.csvColumnRepeated, some name, none⟩
        | none =>
          let rows := (records.zipIdx.map fun record => CsvRow.mk (record.2 + 2) record.1).filter
            fun row => !isBlank row.fields
          if maxImportRows < rows.length then .error ⟨.csvTooManyRows, none, none⟩
          else
            match rows.find? fun row => row.fields.length ≠ header.length with
            | some ragged => .error ⟨.csvRowWidth, none, some ragged.number⟩
            | none => .ok ⟨header, rows⟩

/-! ## Writing -/

inductive LineEnd
  | lf | crlf
  deriving DecidableEq

def LineEnd.text : LineEnd → JsString
  | .lf => [newline]
  | .crlf => [carriageReturn, newline]

/-- How a file is written: every cell in quotes or only those that need them, its line ends, with or
without a mark at the start and a line end at the end. -/
structure Writing where
  quoteAll : Bool
  lineEnd : LineEnd
  marked : Bool
  ended : Bool
  deriving DecidableEq

def needsQuotes (cell : JsString) : Bool :=
  cell.any fun c => c = comma || c = quote || c = carriageReturn || c = newline

/-- A cell with its quotes doubled. -/
def doubled : JsString → JsString
  | [] => []
  | c :: cell => if c = quote then quote :: quote :: doubled cell else c :: doubled cell

def writeCell (quoteAll : Bool) (cell : JsString) : JsString :=
  if quoteAll || needsQuotes cell then quote :: doubled cell ++ [quote] else cell

def writeRecord (quoteAll : Bool) : List JsString → JsString
  | [] => []
  | [cell] => writeCell quoteAll cell
  | cell :: cells => writeCell quoteAll cell ++ comma :: writeRecord quoteAll cells

/-- The records of a table, one after another. -/
def writeRecords (w : Writing) : List (List JsString) → JsString
  | [] => []
  | [record] => writeRecord w.quoteAll record ++ if w.ended then w.lineEnd.text else []
  | record :: records => writeRecord w.quoteAll record ++ w.lineEnd.text ++ writeRecords w records

def writeCsv (w : Writing) (records : List (List JsString)) : JsString :=
  (if w.marked then [byteOrderMark] else []) ++ writeRecords w records

/-! ## A cell -/

section Cells

variable {s : Scan} {rest : JsString}

theorem scan_plain (h : s.quoted = false) (c : UInt16) : scan s (c :: rest) = scan (s.plain c) rest := by
  cases rest with
  | nil =>
    unfold scan
    simp [h]
  | cons c' rest =>
    rw [scan]
    simp [h]

theorem scan_quoted (h : s.quoted = true) {c : UInt16} (hc : c ≠ quote) :
    scan s (c :: rest) = scan (s.add c) rest := by
  cases rest with
  | nil =>
    unfold scan
    simp [h, hc]
  | cons c' rest =>
    rw [scan]
    simp [h, hc]

theorem scan_doubled_quote (h : s.quoted = true) :
    scan s (quote :: quote :: rest) = scan (s.add quote) rest := by
  rw [scan]
  simp [h]

/-- A quote that no quote follows ends the quoted part. -/
theorem scan_close (h : s.quoted = true) (hrest : rest.head? ≠ some quote) :
    scan s (quote :: rest) = scan { s with quoted := false } rest := by
  cases rest with
  | nil =>
    unfold scan
    simp [h]
  | cons c rest =>
    have hc : c ≠ quote := fun hc => hrest (by rw [hc]; rfl)
    rw [scan]
    simp [h, hc]

/-- A quoted part is read with its quotes single. -/
theorem scan_body (h : s.quoted = true) (cell : JsString) :
    scan s (doubled cell ++ rest) = scan { s with field := s.field ++ cell } rest := by
  induction cell generalizing s with
  | nil => simp [doubled]
  | cons c cell ih =>
    unfold doubled
    have hadd : { s.add c with field := (s.add c).field ++ cell } =
        { s with field := s.field ++ c :: cell } := by
      simp [Scan.add]
    split
    · next hc =>
      subst hc
      rw [List.cons_append, List.cons_append, scan_doubled_quote h, ih (by exact h), hadd]
    · next hc => rw [List.cons_append, scan_quoted h hc, ih (by exact h), hadd]

/-- A part without signs is read as it stands. -/
theorem scan_bare (h : s.quoted = false) {cell : JsString} (hcell : needsQuotes cell = false) :
    scan s (cell ++ rest) = scan { s with field := s.field ++ cell } rest := by
  induction cell generalizing s with
  | nil => simp
  | cons c cell ih =>
    unfold needsQuotes at hcell
    rw [List.any_cons, Bool.or_eq_false_iff] at hcell
    obtain ⟨hc, hrest⟩ := hcell
    simp only [Bool.or_eq_false_iff, decide_eq_false_iff_not] at hc
    have hplain : s.plain c = s.add c := by
      unfold Scan.plain
      simp [hc]
    rw [List.cons_append, scan_plain h, hplain, ih (by exact h) hrest]
    simp [Scan.add]

/-- A written cell is read back, whatever follows but a quote. -/
theorem scan_cell (h : s.quoted = false) (hfield : s.field = []) (hrest : rest.head? ≠ some quote)
    (quoteAll : Bool) (cell : JsString) :
    scan s (writeCell quoteAll cell ++ rest) = scan { s with field := cell } rest := by
  unfold writeCell
  split
  · have hopen : s.plain quote = { s with quoted := true } := by
      unfold Scan.plain
      simp [hfield]
    rw [List.cons_append, List.cons_append, scan_plain h, hopen, List.append_assoc, scan_body rfl]
    rw [List.singleton_append, scan_close rfl hrest]
    simp [hfield, h]
  · next hbare =>
    have hcell : needsQuotes cell = false := by
      cases hneeds : needsQuotes cell with
      | false => rfl
      | true => simp [hneeds] at hbare
    rw [scan_bare h hcell, hfield, List.nil_append]

end Cells

/-! ## A table -/

section Tables

variable {s : Scan} {rest : JsString} {w : Writing}

/-- The reader at the start of a record. -/
def started (records : List (List JsString)) : Scan := ⟨records, [], [], false⟩

/-- The reader in the last cell of a record. -/
def inLast (records : List (List JsString)) (record : List JsString) (field : JsString) : Scan :=
  ⟨records, record, field, false⟩

theorem scan_record {records : List (List JsString)} {before : List JsString} {cells : List JsString}
    (hcells : cells ≠ []) (hrest : rest.head? ≠ some quote) :
    scan (inLast records before []) (writeRecord w.quoteAll cells ++ rest) =
      scan (inLast records (before ++ cells.dropLast) (cells.getLast hcells)) rest := by
  induction cells generalizing before with
  | nil => exact absurd rfl hcells
  | cons cell cells ih =>
    cases cells with
    | nil =>
      show scan _ (writeCell w.quoteAll cell ++ rest) = _
      rw [scan_cell rfl rfl hrest]
      simp [inLast]
    | cons cell' cells =>
      show scan _ ((writeCell w.quoteAll cell ++ comma :: writeRecord w.quoteAll (cell' :: cells)) ++ rest) = _
      rw [List.append_assoc, scan_cell rfl rfl (by simp [comma, quote]), List.cons_append,
        scan_plain rfl]
      have hend : ({ inLast records before [] with field := cell } : Scan).plain comma =
          inLast records (before ++ [cell]) [] := by
        simp [Scan.plain, Scan.endField, inLast, comma, quote]
      rw [hend, ih (by simp)]
      simp

/-- A line end ends the record, whichever it is. -/
theorem scan_lineEnd (h : s.quoted = false) (lineEnd : LineEnd) :
    scan s (lineEnd.text ++ rest) = scan s.endRecord rest := by
  have hnewline : s.plain newline = s.endRecord := by
    simp [Scan.plain, newline, quote, comma]
  cases lineEnd with
  | lf =>
    show scan s (newline :: rest) = _
    rw [scan_plain h, hnewline]
  | crlf =>
    have hreturn : s.plain carriageReturn = s := by
      simp [Scan.plain, carriageReturn, newline, quote, comma]
    show scan s (carriageReturn :: newline :: rest) = _
    rw [scan_plain h, hreturn, scan_plain h, hnewline]

theorem endRecord_inLast {records : List (List JsString)} {cells : List JsString} (h : cells ≠ []) :
    (inLast records cells.dropLast (cells.getLast h)).endRecord = started (records ++ [cells]) := by
  simp [inLast, started, Scan.endRecord, Scan.endField, List.dropLast_append_getLast]

theorem LineEnd.head_text (lineEnd : LineEnd) : (lineEnd.text ++ rest).head? ≠ some quote := by
  cases lineEnd <;> simp [LineEnd.text, carriageReturn, newline, quote]

/-- The last record, with or without a line end. -/
def Scan.finish (s : Scan) : List (List JsString) :=
  if 0 < s.field.length || 0 < s.record.length then s.endRecord.records else s.records

/-- A record that is more than one empty cell. -/
def Visible (record : List JsString) : Prop := record ≠ [] ∧ record ≠ [[]]

theorem finish_inLast {records : List (List JsString)} {cells : List JsString} (h : Visible cells) :
    (inLast records cells.dropLast (cells.getLast h.1)).finish = records ++ [cells] := by
  have hsome : (0 < (cells.getLast h.1).length || 0 < cells.dropLast.length) = true := by
    rw [Bool.or_eq_true, decide_eq_true_eq, decide_eq_true_eq]
    by_contra hnone
    rw [not_or, Nat.not_lt, Nat.not_lt, Nat.le_zero, Nat.le_zero, List.length_eq_zero_iff,
      List.length_eq_zero_iff] at hnone
    apply h.2
    rw [← List.dropLast_append_getLast h.1, hnone.1, hnone.2]
    rfl
  have hend : (inLast records cells.dropLast (cells.getLast h.1)).finish =
      (inLast records cells.dropLast (cells.getLast h.1)).endRecord.records := if_pos hsome
  rw [hend, endRecord_inLast h.1]
  rfl

/-- Every written table is read back. -/
theorem scan_records (records table : List (List JsString)) (h : ∀ record ∈ table, Visible record) :
    (scan (started records) (writeRecords w table)).finish = records ++ table := by
  induction table generalizing records with
  | nil => simp [writeRecords, scan, Scan.finish, started]
  | cons record table ih =>
    have hrecord := h record List.mem_cons_self
    have hrest : ∀ other ∈ table, Visible other := fun other hother => h other (List.mem_cons_of_mem _ hother)
    cases table with
    | nil =>
      show (scan (inLast records [] []) (writeRecord w.quoteAll record ++ _)).finish = _
      by_cases hended : w.ended = true
      · rw [if_pos hended]
        have hline := @LineEnd.head_text [] w.lineEnd
        rw [List.append_nil] at hline
        rw [scan_record hrecord.1 hline, ← List.append_nil w.lineEnd.text, scan_lineEnd rfl,
          List.nil_append, endRecord_inLast hrecord.1]
        simp [scan, Scan.finish, started]
      · rw [if_neg hended, scan_record hrecord.1 (by simp), List.nil_append]
        exact finish_inLast hrecord
    | cons record' table =>
      show (scan (inLast records [] []) (writeRecord w.quoteAll record ++ w.lineEnd.text ++
        writeRecords w (record' :: table))).finish = _
      rw [List.append_assoc, scan_record hrecord.1 w.lineEnd.head_text, scan_lineEnd rfl,
        List.nil_append, endRecord_inLast hrecord.1, ih _ hrest]
      simp

theorem recordsOf_writeRecords {table : List (List JsString)} (h : ∀ record ∈ table, Visible record) :
    recordsOf (writeRecords w table) = table :=
  scan_records [] table h

end Tables

/-! ## A file -/

section Files

variable {r : ImportRuntime} {w : Writing} {header : List ImportColumn} {table : List (List JsString)}

/-- The names are lower case and have no white space. -/
theorem columnText_plain (column : ImportColumn) :
    (columnText column).all isPlain = true ∧ columnText column ≠ [] ∧ (45 : UInt16) ∉ columnText column ∧
      needsQuotes (columnText column) = false ∧ (columnText column).head? ≠ some byteOrderMark := by
  cases column <;> decide +kernel

theorem columnText_injective : Function.Injective columnText := by
  intro a b h
  have hnodup : (importColumns.map columnText).Nodup := by decide +kernel
  have hmem : ∀ column, column ∈ importColumns := by
    intro column
    cases column <;> decide
  exact List.inj_on_of_nodup_map hnodup (hmem a) (hmem b) h

theorem underscored_of_forall {text : JsString} (h : ∀ c ∈ text, isSpace c = false ∧ c ≠ 45) :
    underscored text = text := by
  induction text with
  | nil => rfl
  | cons c text ih =>
    obtain ⟨hspace, hhyphen⟩ := h c List.mem_cons_self
    unfold underscored
    rw [if_neg (by simp [hspace, hhyphen]), ih fun c hc => h c (List.mem_cons_of_mem _ hc)]

theorem lower_of_isPlain (hr : StandardUnicode r.toPlatform) {text : JsString}
    (h : text.all isPlain = true) : r.toLowerCase text = text := by
  have hbasic : text.all isBasic = true := by
    rw [List.all_eq_true] at h ⊢
    intro c hc
    have hc := h c hc
    unfold isPlain at hc
    simp only [Bool.and_eq_true, decide_eq_true_eq] at hc
    unfold isBasic
    simp [hc.1.1]
  rw [hr.lower text hbasic]
  refine (List.map_congr_left fun c hc => ?_).trans (List.map_id text)
  have hplain := List.all_eq_true.1 h c hc
  unfold isPlain at hplain
  simp only [Bool.and_eq_true, decide_eq_true_eq, Bool.not_eq_true', Bool.and_eq_false_iff,
    decide_eq_false_iff_not] at hplain
  unfold basicLower
  rw [if_neg, if_neg]
  · rfl
  · rintro rfl
    exact absurd hplain.1.1 (by decide)
  · rintro ⟨hlow, hhigh⟩
    exact hplain.2.elim (fun h => h hlow) fun h => h hhigh

/-- A name is its own header cell. -/
theorem headerColumn_columnText (hr : StandardUnicode r.toPlatform) (column : ImportColumn) :
    headerColumn r (columnText column) = columnText column := by
  obtain ⟨hplain, -, hhyphen, -, -⟩ := columnText_plain column
  have hspace : ∀ c ∈ columnText column, isSpace c = false := by
    intro c hc
    have hc := List.all_eq_true.1 hplain c hc
    unfold isPlain at hc
    simp only [Bool.and_eq_true, Bool.not_eq_true'] at hc
    exact hc.1.2
  unfold headerColumn
  have htrim : trim (columnText column) = columnText column := Texts.strip_of_forall hspace
  rw [htrim, lower_of_isPlain hr hplain]
  exact underscored_of_forall fun c hc => ⟨hspace c hc, fun h => hhyphen (h ▸ hc)⟩

theorem repeatedName_nodup {seen names : List JsString} (h : (seen ++ names).Nodup) :
    repeatedName seen names = none := by
  induction names generalizing seen with
  | nil => rfl
  | cons name names ih =>
    have hnot : name ∉ seen := by
      intro hmem
      exact (List.nodup_append.1 h).2.2 name hmem name List.mem_cons_self rfl
    unfold repeatedName
    rw [if_neg hnot]
    apply ih
    rw [List.append_assoc, List.singleton_append]
    exact h

theorem visible_of_not_blank {record : List JsString} (h : isBlank record = false) : Visible record := by
  constructor
  · rintro rfl
    cases h
  · rintro rfl
    revert h
    decide

theorem head_writeRecords {records : List (List JsString)} (column : ImportColumn)
    (header : List ImportColumn) :
    (writeRecords w (((column :: header).map columnText) :: records)).head? ≠ some byteOrderMark := by
  obtain ⟨-, hne, -, hneeds, hhead⟩ := columnText_plain column
  have hcell : ∀ rest, (writeCell w.quoteAll (columnText column) ++ rest).head? ≠ some byteOrderMark := by
    intro rest
    unfold writeCell
    split
    · simp [quote, byteOrderMark]
    · obtain ⟨c, text, htext⟩ := List.exists_cons_of_ne_nil hne
      rw [htext] at hhead ⊢
      exact hhead
  have hrecord : ∀ rest, (writeRecord w.quoteAll ((column :: header).map columnText) ++ rest).head? ≠
      some byteOrderMark := by
    intro rest
    cases header with
    | nil => exact hcell rest
    | cons column' header =>
      show ((writeCell w.quoteAll (columnText column) ++ _) ++ rest).head? ≠ _
      rw [List.append_assoc]
      exact hcell _
  cases records with
  | nil => exact hrecord _
  | cons record records =>
    show ((writeRecord w.quoteAll _ ++ w.lineEnd.text) ++ _).head? ≠ _
    rw [List.append_assoc]
    exact hrecord _

/-- The rows of a table, on the lines a spreadsheet shows. -/
def numbered (table : List (List JsString)) : List CsvRow :=
  table.zipIdx.map fun record => ⟨record.2 + 2, record.1⟩

theorem mem_numbered {row : CsvRow} (h : row ∈ numbered table) : row.fields ∈ table := by
  obtain ⟨record, hrecord, rfl⟩ := List.mem_map.1 h
  exact List.fst_mem_of_mem_zipIdx hrecord

theorem numbered_length : (numbered table).length = table.length := by
  unfold numbered
  rw [List.length_map, List.length_zipIdx]

/-- A written file is read back, its header and its rows. -/
theorem parseCsv_writeCsv (hr : StandardUnicode r.toPlatform) (hheader : header.Nodup)
    (hsome : header ≠ []) (hlength : table.length ≤ maxImportRows)
    (hwidth : ∀ record ∈ table, record.length = header.length)
    (hblank : ∀ record ∈ table, isBlank record = false) (w : Writing) :
    parseCsv r (writeCsv w (header.map columnText :: table)) =
      .ok ⟨header.map columnText, numbered table⟩ := by
  obtain ⟨column, columns, rfl⟩ := List.exists_cons_of_ne_nil hsome
  generalize hnames : (column :: columns).map columnText = names
  have hvisible : ∀ record ∈ names :: table, Visible record := by
    intro record hrecord
    rcases List.mem_cons.1 hrecord with rfl | hrecord
    · rw [← hnames]
      refine ⟨by simp, fun hempty => ?_⟩
      rw [List.map_cons, List.cons.injEq] at hempty
      exact (columnText_plain column).2.1 hempty.1
    · exact visible_of_not_blank (hblank record hrecord)
  have htext : (if (writeCsv w (names :: table)).head? = some byteOrderMark then
      (writeCsv w (names :: table)).tail else writeCsv w (names :: table)) =
        writeRecords w (names :: table) := by
    unfold writeCsv
    by_cases hmarked : w.marked = true
    · simp [hmarked]
    · rw [if_neg hmarked, List.nil_append, ← hnames, if_neg (head_writeRecords column columns)]
  have hcolumns : names.map (headerColumn r) = names := by
    rw [← hnames, List.map_map]
    exact List.map_congr_left fun other _ => headerColumn_columnText hr other
  have hnot : (names.all fun name => name.length = 0) = false := by
    rw [← hnames, List.map_cons, List.all_cons]
    have hne : (columnText column).length ≠ 0 := fun hzero =>
      (columnText_plain column).2.1 (List.length_eq_zero_iff.1 hzero)
    simp only [hne, decide_false, Bool.false_and]
  have hknown : ((names.zip names).find? fun cell => cell.2 ∉ importColumns.map columnText) = none := by
    rw [List.find?_eq_none]
    intro cell hcell
    have hmem : cell.2 ∈ names := (List.of_mem_zip hcell).2
    rw [← hnames] at hmem
    obtain ⟨other, -, hother⟩ := List.mem_map.1 hmem
    have himport : other ∈ importColumns := by cases other <;> decide
    simpa using ⟨other, himport, hother⟩
  have hrepeated : repeatedName [] names = none := by
    apply repeatedName_nodup
    rw [List.nil_append, ← hnames]
    exact hheader.map columnText_injective
  have hrows : ((table.zipIdx.map fun record => CsvRow.mk (record.2 + 2) record.1).filter
      fun row => !isBlank row.fields) = numbered table := by
    refine List.filter_eq_self.2 fun row hrow => ?_
    rw [hblank _ (mem_numbered hrow)]
    rfl
  have hragged : ((numbered table).find? fun row => row.fields.length ≠ names.length) = none := by
    rw [List.find?_eq_none]
    intro row hrow
    rw [hwidth _ (mem_numbered hrow), ← hnames, List.length_map]
    simp
  unfold parseCsv
  simp only [htext, recordsOf_writeRecords hvisible, hcolumns, hnot, hknown, hrepeated, hrows, hragged,
    numbered_length, if_neg (Nat.not_lt.2 hlength), Bool.false_eq_true, if_false]

/-- Whatever is read is as wide as its header. -/
theorem parseCsv_width {source : JsString} {value : ParsedCsv} (h : parseCsv r source = .ok value) :
    ∀ row ∈ value.rows, row.fields.length = value.header.length := by
  unfold parseCsv at h
  dsimp only at h
  split at h
  · cases h
  · split at h
    · cases h
    · split at h
      · cases h
      · split at h
        · cases h
        · split at h
          · cases h
          · split at h
            · cases h
            · next hragged =>
              cases h
              intro row hrow
              simpa using List.find?_eq_none.1 hragged row hrow

/-- Reading inverts writing, for every table that has columns; and for every text, what is read is as
wide as its header. -/
theorem csv_round_trip (r : ImportRuntime) (hr : StandardUnicode r.toPlatform) :
    (∀ (header : List ImportColumn) (table : List (List JsString)) (w : Writing), header.Nodup →
      header ≠ [] → table.length ≤ maxImportRows → (∀ record ∈ table, record.length = header.length) →
      (∀ record ∈ table, isBlank record = false) →
      parseCsv r (writeCsv w (header.map columnText :: table)) =
        .ok ⟨header.map columnText, numbered table⟩) ∧
    ∀ source value, parseCsv r source = .ok value →
      ∀ row ∈ value.rows, row.fields.length = value.header.length :=
  ⟨fun _ _ w hheader hsome hlength hwidth hblank =>
    parseCsv_writeCsv hr hheader hsome hlength hwidth hblank w, fun _ _ => parseCsv_width⟩

end Files

/-- Two columns and two people, one of them in quotes. -/
theorem csv_round_trip_people :
    parseCsv basicRuntime (writeCsv ⟨false, .crlf, true, false⟩
      ([.firmName, .contactName].map columnText :: [[js "Acme, Inc.", js "Bob"], [js "\"A\"", []]])) =
      .ok ⟨[.firmName, .contactName].map columnText,
        numbered [[js "Acme, Inc.", js "Bob"], [js "\"A\"", []]]⟩ :=
  (csv_round_trip basicRuntime basicPlatform_standard).1 _ _ _ (by decide) (by decide) (by decide)
    (by decide) (by decide +kernel)

/-- A table without columns is an empty file. -/
theorem no_columns_refused :
    parseCsv basicRuntime (writeCsv ⟨false, .lf, false, true⟩ [([] : List ImportColumn).map columnText]) =
      .error ⟨.csvEmpty, none, none⟩ := by
  decide +kernel

end FoundingSales.Crm.Import
