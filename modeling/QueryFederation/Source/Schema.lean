import QueryFederation.Reading

/-!
# Schemas

What a source tells about its tables: their columns with the names of their types, and the keys that they declare.
-/

namespace QueryFederation

structure ColumnDescriptor where
  name : String
  type : String := "unknown"
  deriving DecidableEq, Repr, Inhabited

structure ForeignKey where
  column : String
  referencedTable : String
  referencedColumn : String
  deriving DecidableEq, Repr, Inhabited

structure TableSchema where
  aliasName : String
  sourceId : String := ""
  table : Option String := none
  columns : List ColumnDescriptor := []
  foreignKeys : List ForeignKey := []
  deriving DecidableEq, Repr, Inhabited

namespace TableSchema

def column? (t : TableSchema) (name : String) : Option ColumnDescriptor := t.columns.find? (·.name = name)

def hasColumn (t : TableSchema) (name : String) : Bool := (t.column? name).isSome

/-- The name of the table; without one, or with an empty one, it is the alias. -/
def tableName (t : TableSchema) : String :=
  match t.table with
  | none | some "" => t.aliasName
  | some table => table

end TableSchema

namespace Read

def columnDescriptor : Value → Checked ColumnDescriptor :=
  record "ColumnDescriptor" fun row =>
    ColumnDescriptor.mk <$> required row "name" text <*> defaulted row "type" text "unknown"

def foreignKey : Value → Checked ForeignKey :=
  record "ForeignKey" fun row =>
    ForeignKey.mk <$> required row "column" text <*> required row "references_table" text
      <*> required row "references_column" text

def tableSchema : Value → Checked TableSchema :=
  record "TableSchema" fun row =>
    TableSchema.mk <$> required row "alias" text <*> defaulted row "source_id" text ""
      <*> defaulted row "table" (optional text) none <*> defaulted row "columns" (list columnDescriptor) []
      <*> defaulted row "foreign_keys" (list foreignKey) []

end Read

end QueryFederation
