import QueryFederation.Document.Pipeline
import QueryFederation.Source.Connector

/-!
# Document stores as sources

A document store has collections of documents. It answers with what a pipeline makes of one of them; the columns of
the answer are the fields of its documents, each where it comes first.
-/

namespace QueryFederation.Connector

abbrev Collections := Entries (List Row)

def collectionColumns (docs : List Row) : List ColumnDescriptor :=
  (Table.columnsOf docs).map fun name => ⟨name, (ColumnType.ofValues (docs.map fun doc => Row.get doc name)).name⟩

/-- The rows of some documents; without a field in them the columns are those that were expected. -/
def rowsOfDocuments (expected : List String) (docs : List Row) : RowSet :=
  let found := Table.columnsOf docs
  let columns := if found.isEmpty then expected else found
  ⟨columns, docs.map fun doc => columns.map (Row.get doc)⟩

def withCollection {α : Type} (collections : Collections) (name : String) (reply : List Row → Reply α) : Reply α :=
  match collections.lookup name with
  | some docs => reply docs
  | none => .failure (.noCollection name)

def collectionQuery (collections : Collections) (q : SourceQuery) : Reply RowSet :=
  match q.statement with
  | .pipeline collection stages =>
    withCollection collections collection fun docs =>
      match Document.runPipeline docs (stages.map Value.record) with
      | .ok found => .answer (rowsOfDocuments q.outputNames found)
      | .error f => if f.isUnsupported then .failure (.pipeline f) else .fault f
  | _ => .failure .pipelineExpected

def ofCollections (collections : Collections) : Connector where
  kind := .document
  language := Language.documentName
  tables _ := .answer (collections.keys.mergeSort (· ≤ ·))
  columns _ name := withCollection collections name fun docs => .answer (collectionColumns docs)
  foreignKeys _ _ := .answer []
  query _ := collectionQuery collections

end QueryFederation.Connector
