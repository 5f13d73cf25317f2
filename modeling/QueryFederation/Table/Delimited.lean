import QueryFederation.Table.Basic

/-!
# Delimited text

A text of records, one a line, with commas between their cells. A cell may stand between quotes; it then may hold
commas, line ends and, written twice, quotes. The first record names the columns. A cell is read as a number where it
spells one; an empty cell is null.
-/

namespace QueryFederation.Delimited

inductive Place where
  | cellStart
  | unquoted
  | quoted
  /-- Behind a quote in a quoted cell: the end of the cell, or the first of two. -/
  | closing
  deriving DecidableEq, Repr

/-- The part of a record that has been read: its finished cells, and the characters of the cell at hand, last first. -/
structure Partial where
  cells : List String := []
  cell : List Char := []

namespace Partial

def add (p : Partial) (c : Char) : Partial := { p with cell := c :: p.cell }

def finishCell (p : Partial) : Partial := ⟨p.cells ++ [String.ofList p.cell.reverse], []⟩

/-- The cells of the record when it ends at the given place. A line without a character has none. -/
def finish (p : Partial) (place : Place) : List String :=
  if place = .cellStart && p.cells.isEmpty then [] else p.finishCell.cells

end Partial

def recordsFrom (place : Place) (p : Partial) : List Char → List (List String)
  | [] => if place = .cellStart && p.cells.isEmpty then [] else [p.finish place]
  | c :: rest =>
    if place = .quoted then
      if c = '"' then recordsFrom .closing p rest else recordsFrom .quoted (p.add c) rest
    else if c = '\n' then p.finish place :: recordsFrom .cellStart {} rest
    else if c = '\r' then
      match rest with
      | '\n' :: rest => p.finish place :: recordsFrom .cellStart {} rest
      | rest => p.finish place :: recordsFrom .cellStart {} rest
    else if c = ',' then recordsFrom .cellStart p.finishCell rest
    else if c = '"' && place = .cellStart then recordsFrom .quoted p rest
    else if c = '"' && place = .closing then recordsFrom .quoted (p.add c) rest
    else recordsFrom .unquoted (p.add c) rest

/-- The records of a text; a mark of the byte order at its start does not count. -/
def records (s : String) : List (List String) :=
  recordsFrom .cellStart {} (match s.toList with
    | '\uFEFF' :: rest => rest
    | cs => cs)

/-- The value of a cell: nothing, an integer, a double or the text without the blanks around it. -/
def cellValue (s : String) : Value :=
  let trimmed := String.ofList (Text.trimList s.toList)
  if trimmed.isEmpty then .null
  else match Number.readInteger? trimmed with
    | some n => .integer n
    | none => match Number.readDouble? trimmed with
      | some x => .double x
      | none => .text trimmed

/-- A record as a row: cells beyond the columns are dropped, missing ones are null. -/
def row (columns : List String) (cells : List String) : Row := (columns.zip (cells.map cellValue))

end Delimited

def Table.ofDelimited (name s : String) : Except TableError Table :=
  let (header, records) := match Delimited.records s with
    | [] => ([], [])
    | header :: records => (header, records)
  let columns := header.map fun cell => String.ofList (Text.trimList cell.toList)
  Table.ofRows name columns ((records.filter fun cells => !cells.isEmpty).map (Delimited.row columns))

end QueryFederation
