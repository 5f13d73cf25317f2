import QueryFederation.Number.Extended
import QueryFederation.Source.Connector

/-!
# Asking again

A source that lost its connection is asked again, a few times, after pauses that grow. A time is set for all attempts
together; it runs out only in waiting for a source that does not reply. Without any time a source is not asked at all.

The replies of a source are a script: what it replies to the first attempt, to the second, and so on.
-/

namespace QueryFederation

/-- How asking a source went: the reply that counts, the number of attempts, and the pauses between them in seconds. -/
structure Attempts (α : Type) where
  reply : Reply α
  count : Nat
  pauses : List Double := []

namespace Attempts

variable {α : Type}

def pause (time : Double) (attempt : Nat) : Double :=
  Double.smaller (Double.smaller (.ofRat (attempt / 4)) (.finite 1)) time

/-- Asks at attempt `attempt`, and may ask `further` times after it. -/
def run (script : Nat → Reply α) (time : Double) (attempt : Nat) : Nat → Attempts α
  | 0 => { reply := script attempt, count := 1 }
  | further + 1 =>
    if (script attempt).isPassing then
      let later := run script time (attempt + 1) further
      { later with count := later.count + 1, pauses := pause time attempt :: later.pauses }
    else { reply := script attempt, count := 1 }

/-- Asks a source, and again at most `retries` times. -/
def ofScript (script : Nat → Reply α) (time : Double) (retries : Nat) : Attempts α :=
  if time.isSpent then { reply := .silence, count := 0 } else run script time 1 retries

end Attempts

end QueryFederation
