import QueryFederation.Fault
import QueryFederation.Validation.Basic
import QueryFederation.Sql.Dialect

/-!
# Why a description does not compile

Each cause has its words, the clause of the statement it belongs to, and, where there is one, the fragment of the
description that is to blame. Besides these causes a dialect may be unknown, a filter may have a value its operator is
not made for, and the primary table may be missing.
-/

namespace QueryFederation

inductive CompileError where
  | unreadableAggregate (text : String) (cause : ExpressionError)
  | problemOfAggregate (text : String) (problem : ExpressionProblem)
  | circularAggregates (cause : ExpressionError)
  | severalSources (ids : List String)
  | noColumns
  | unknownHaving (target : String)
  | unknownOrder (target : String)
  | unsupportedJoin (dialect : Dialect) (kind : JoinKind) (condition : JoinCondition)
  | joinedCollections
  | notCall (text : String)
  | notField (text : String)

namespace CompileError

def detail : CompileError → String
  | unreadableAggregate _ cause => cause.message
  | problemOfAggregate _ problem => problem.message
  | circularAggregates cause => cause.message
  | severalSources ids => "single-source compilation needs one source, got " ++ ", ".intercalate ids
  | noColumns => "description selects no columns"
  | unknownHaving target => "unknown HAVING target '" ++ target ++ "'"
  | unknownOrder target => "unknown ORDER BY target '" ++ target ++ "'"
  | unsupportedJoin dialect kind _ =>
    "dialect '" ++ dialect.name ++ "' does not support "
      ++ (if kind = .full then "FULL OUTER" else Text.upper kind.name) ++ " JOIN"
  | joinedCollections => "document sources cannot join collections in a single pipeline"
  | notCall _ => "document pipelines support only single aggregate calls"
  | notField _ => "document pipelines support aggregates over a single field only"

def clause : CompileError → String
  | severalSources _ => "FROM"
  | unknownHaving _ => "HAVING"
  | unknownOrder _ => "ORDER BY"
  | unsupportedJoin .. | joinedCollections => "JOIN"
  | _ => "SELECT"

def fragment? : CompileError → Option String
  | unreadableAggregate text _ | problemOfAggregate text _ | notCall text | notField text => some text
  | unsupportedJoin _ _ condition => some condition.text
  | _ => none

def message (e : CompileError) : String :=
  e.detail ++ " (clause: " ++ e.clause ++ ")" ++ (match e.fragment? with
    | none | some "" => ""
    | some fragment => ": " ++ fragment)

end CompileError

inductive CompileFailure where
  | invalid (v : Validation)
  | error (e : CompileError)
  | dialect (e : Dialect.Unsupported)
  | value (f : Fault)
  | noPrimary

def CompileFailure.message : CompileFailure → String
  | invalid v => v.message
  | error e => e.message
  | dialect e => e.message
  | value f => f.message
  | noPrimary => ""

end QueryFederation
