import QueryFederation.Compilation.Document
import QueryFederation.Compilation.Sql

/-!
# Compiling for one source

Chooses the compiler by the language of the source, and sees to it that only valid descriptions are compiled.
-/

namespace QueryFederation.Description

def validated (d : Description) (cleanup : Cleanup) : Except CompileFailure Validation :=
  let v := d.validate cleanup
  if v.isValid then .ok v else .error (.invalid v)

def compileTo (d : Description) (language : String) (replacements : Entries String) :
    Except CompileFailure SourceQuery :=
  if language = Language.documentName then d.compilePipeline replacements else d.compileSql language replacements

def compileChecked (d : Description) (language : String) (v : Validation) : Except CompileFailure CompiledQuery := do
  return (CompiledQuery.single (← d.compileTo language v.replacements)).annotate v

def compile (d : Description) (language : String) (cleanup : Cleanup) : Except CompileFailure CompiledQuery := do
  d.compileChecked language (← d.validated cleanup)

end QueryFederation.Description
