import QueryFederation.Compilation.Error
import QueryFederation.Source.Connector

/-!
# Why a request fails

A request fails because its description does not compile, because a source is not known or does not answer, because time
runs out, or because rows cannot be joined and computed with. Every cause a caller can do something about has words.
-/

namespace QueryFederation

inductive Expiry where
  | request (source : String) (asked : String) (time : Double)
  | partition
  | join

def Expiry.message : Expiry → String
  | request source asked time =>
    "Source '" ++ source ++ "' " ++ asked ++ " exceeded " ++ time.toDurationText ++ "s"
  | partition => "request deadline passed before sub-query start"
  | join => "request deadline passed before the in-memory join"

inductive EngineError where
  | compilation (f : CompileFailure)
  | unknownSource (id : String) (known : List String)
  | source (id : String) (f : ConnectorFailure)
  | expired (e : Expiry)
  | noColumns (table id : String)
  | partition (words : String)
  | computation (f : Fault)
  | malformed (m : Malformed)
  | breakdown (b : Breakdown)

namespace EngineError

def sourceMessage (id : String) (f : ConnectorFailure) : String :=
  "Source '" ++ id ++ "' failed (" ++ f.reason.name ++ "): " ++ f.words

def message : EngineError → String
  | compilation f => f.message
  | unknownSource id known =>
    "Unknown source '" ++ id ++ "'. Registered: " ++ (if known.isEmpty then "none" else ", ".intercalate known)
  | source id f => sourceMessage id f
  | expired e => e.message
  | noColumns table id => "table '" ++ table ++ "' of source '" ++ id ++ "' has no columns"
  | partition words => "partition failed: " ++ words
  | computation f => f.message
  | malformed _ => ""
  | breakdown b => b.words

def isUnforeseen : EngineError → Bool
  | compilation (.value _) | compilation .noPrimary | malformed _ | breakdown _ => true
  | computation f => f.isOperandFailure
  | _ => false

def isExpired : EngineError → Bool
  | expired _ => true
  | _ => false

end EngineError

end QueryFederation
