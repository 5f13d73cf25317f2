import QueryFederation.Source.Connector

/-!
# All that a source holds

The columns and the rows of every table of a source, in the order in which the source tells of its tables.
-/

namespace QueryFederation

namespace Reply

variable {α β : Type}

def andThen (reply : Reply α) (next : α → Reply β) : Reply β :=
  match reply with
  | answer a => next a
  | failure f => failure f
  | fault f => fault f
  | malformed m => malformed m
  | breakdown b => breakdown b
  | silence => silence

def all : List (Reply α) → Reply (List α)
  | [] => answer []
  | reply :: rest => reply.andThen fun a => (all rest).map (a :: ·)

end Reply

structure TableContents where
  table : String
  columns : List ColumnDescriptor
  rows : List (List Value)

namespace Connector

/-- The query for all there is of a table. -/
def everything (c : Connector) (table : String) : SourceQuery where
  sourceId := ""
  language := .document
  columns := []
  statement :=
    if c.kind = .document then .pipeline table []
    else .sql ("SELECT * FROM " ++ Dialect.sqlite.quoteIdentifier table)

def tableContents (c : Connector) (table : String) : Reply TableContents :=
  (c.columns [] table).andThen fun columns =>
    (c.query [] (c.everything table)).map fun found => ⟨table, columns, found.rows⟩

def contents (c : Connector) : Reply (List TableContents) :=
  (c.tables []).andThen fun tables => .all (tables.map c.tableContents)

end Connector

end QueryFederation
