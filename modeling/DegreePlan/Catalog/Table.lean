import DegreePlan.Fault
import DegreePlan.Text.Blank

/-!
# Tables

A table is a text of records, one on a line, whose fields are separated by commas. The first record
names the columns. A field may stand in double quotes; it may then hold commas and line ends, and a
quote inside it is written twice. Lines that are empty or hold only spaces and tabs are no records.
A cell that is empty or says that there is no value is missing.
-/

namespace DegreePlan

/-- Columns by name and rows of cells; every row has a cell for every column. -/
structure Table where
  columns : List String
  rows : List (List (Option String))
deriving DecidableEq, Inhabited

namespace Table

/-! ## Records -/

/-- The fields of a line and the number of the line. -/
structure Record where
  line : Nat
  fields : List String
deriving DecidableEq, Inhabited

/-- Where a reader stands within a field. -/
inductive Place where
  /-- Before the first character. -/
  | start
  /-- In a field without quotes. -/
  | plain
  /-- Between the quotes. -/
  | quoted
  /-- Behind a quote that ends the quotation or opens a doubled quote. -/
  | closed
  /-- In the text that follows a quotation. -/
  | tail
  /-- Behind a carriage return, which a line feed may still join. -/
  | returned
deriving DecidableEq, Inhabited

/-- What was read so far; records, fields and characters stand with the last one first. -/
structure Scan where
  records : List Record := []
  /-- The number of lines that have ended. -/
  lines : Nat := 0
  fields : List String := []
  field : List Char := []
  place : Place := .start
deriving Inhabited

namespace Scan

/-- The text of a field; a null character ends it. -/
def fieldText (s : Scan) : String := String.ofList (s.field.reverse.takeWhile (· != '\x00'))

/-- The line holds nothing or only spaces and tabs. -/
def isVoid (s : Scan) : Bool :=
  s.fields.isEmpty && (s.place == .start || s.place == .plain) &&
    s.field.all fun c => c == ' ' || c == '\t'

/-- Reads a character of the field. -/
def push (s : Scan) (place : Place) (c : Char) : Scan :=
  { s with field := c :: s.field, place }

/-- Ends the field. -/
def endField (s : Scan) : Scan :=
  { s with fields := s.fieldText :: s.fields, field := [], place := .start }

/-- Ends the line, which gives a record unless the line is void. -/
def endLine (s : Scan) (place : Place) : Scan :=
  let line := s.lines + 1
  let records :=
    if s.isVoid then s.records
    else { line, fields := (s.fieldText :: s.fields).reverse } :: s.records
  { records, lines := line, place }

/-- Reads a character outside quotes; `inside` is where it stands if it belongs to the field. -/
def readPlain (s : Scan) (inside : Place) (c : Char) : Scan :=
  if c == ',' then s.endField
  else if c == '\n' then s.endLine .start
  else if c == '\r' then s.endLine .returned
  else s.push inside c

/-- Reads the first character of a field. -/
def readFirst (s : Scan) (c : Char) : Scan :=
  if c == '\x22' then { s with place := .quoted } else s.readPlain .plain c

/-- Reads a character. -/
def read (s : Scan) (c : Char) : Scan :=
  match s.place with
  | .start => s.readFirst c
  | .plain => s.readPlain .plain c
  | .quoted => if c == '\x22' then { s with place := .closed } else s.push .quoted c
  | .closed => if c == '\x22' then s.push .quoted c else s.readPlain .tail c
  | .tail => s.readPlain .tail c
  | .returned => if c == '\n' then { s with place := .start } else s.readFirst c

/-- Ends the text. -/
def finish (s : Scan) : Scan :=
  if s.place == .returned then s else s.endLine .start

end Scan

/-- Reads the whole text. -/
def scan (text : String) : Scan := (Text.dropMark text.toList).foldl Scan.read {}

/-! ## Rows -/

/-- Adds missing fields at the end up to a width. -/
def padTo (width : Nat) (fields : List String) : List String :=
  fields ++ List.replicate (width - fields.length) ""

/-- Brings records to one width; none may be wider. -/
def align (width : Nat) : List Record → Except Fault (List (List String))
  | [] => .ok []
  | r :: rs =>
    if width < r.fields.length then
      .error (.table (.tooManyFields width r.line r.fields.length))
    else do return padTo width r.fields :: (← align width rs)

/-- Brings the records below the names of `columns` columns to one width. The first of them may be
    wider than the columns and then sets the width. -/
def alignRows (columns : Nat) : List Record → Except Fault (List (List String))
  | [] => .ok []
  | first :: rest => align (max columns first.fields.length) (first :: rest)

/-! ## Columns -/

/-- Column names with the number that the next column of a name is given. -/
structure Naming where
  names : List String
  next : List (String × Nat) := []

/-- The first number from `start` on with which a name is not taken. -/
def freeNumber (taken : List String) (name : String) (start : Nat) : Nat :=
  ((List.range (taken.length + 1)).map (start + ·)).find? (fun k => !taken.contains s!"{name}.{k}")
    |>.getD start

/-- Names a column: the first of a name keeps it, the others get a number behind it. -/
def Naming.assign (n : Naming) (column : Nat) : Naming :=
  let name := n.names.getD column ""
  match n.next.lookup name with
  | none => { n with next := (name, 1) :: n.next }
  | some start =>
    let number := freeNumber n.names name start
    let fresh := s!"{name}.{number}"
    { names := n.names.set column fresh, next := (fresh, 1) :: (name, number + 1) :: n.next }

/-- Distinct names for columns. An empty name is replaced by the column's place, and columns with a
    name of their own come first. -/
def nameColumns (fields : List String) : List String :=
  let named := fields.zipIdx.map fun (name, i) => if name.isEmpty then s!"Unnamed: {i}" else name
  let (empty, own) := fields.zipIdx.partition (·.1.isEmpty)
  ((own ++ empty).foldl (fun (n : Naming) (_, i) => n.assign i) { names := named }).names

/-! ## Tables -/

/-- Texts that say that there is no value. -/
def missingMarks : List String :=
  ["", "#N/A", "#N/A N/A", "#NA", "-1.#IND", "-1.#QNAN", "-NaN", "-nan", "1.#IND", "1.#QNAN",
   "<NA>", "N/A", "NA", "NULL", "NaN", "None", "n/a", "nan", "null"]

/-- The cell that a field stands for. -/
def cell (field : String) : Option String :=
  if missingMarks.contains field then none else some field

/-- The cells of a row. The fields by which the row is wider than the columns are its labels; they
    stand in front and are not kept. -/
def cells (columns : Nat) (fields : List String) : List (Option String) :=
  (fields.drop (fields.length - columns)).map cell

/-- The table of records. -/
def ofRecords : List Record → Except Fault Table
  | [] => .error (.table .empty)
  | header :: records => do
    let columns := nameColumns header.fields
    let rows ← alignRows columns.length records
    return { columns, rows := rows.map (cells columns.length) }

/-- Reads a table. In a text with a quotation that never ends the records before it are still
    checked for their width. -/
def read (text : String) : Except Fault Table :=
  let s := scan text
  if s.place == .quoted then
    match ofRecords s.records.reverse with
    | .error (.table (.tooManyFields expected line found)) =>
      .error (.table (.tooManyFields expected line found))
    | _ => .error (.table (.openQuote s.lines))
  else ofRecords s.finish.records.reverse

/-! ## Writing -/

/-- A field between quotes, which may hold any characters but the null character. -/
def quoteField (field : String) : String :=
  let doubled := field.toList.flatMap fun c => if c == '\x22' then [c, c] else [c]
  String.ofList ('\x22' :: doubled ++ ['\x22'])

end Table
end DegreePlan
