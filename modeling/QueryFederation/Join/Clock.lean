import QueryFederation.Fault

/-!
# The deadline of a join

A join ticks for every row it looks at, and looks at its deadline at every so many ticks. A clock knows how many ticks
there were and whether the deadline has passed, which is fixed for the time of a join.
-/

namespace QueryFederation

structure Clock where
  isExpired : Bool := false
  ticks : Nat := 0
  deriving DecidableEq, Repr, Inhabited

abbrev Timed (α : Type) := StateT Clock Outcome α

namespace Clock

/-- So many ticks go by between two looks at the deadline. -/
def interval : Nat := 1024

def tick : Timed Unit := fun clock =>
  let ticks := clock.ticks + 1
  if clock.isExpired && ticks % interval = 0 then .error .joinDeadline else .ok ((), { clock with ticks := ticks })

def visit {α : Type} (test : α → Outcome Unit) : List α → Timed Unit
  | [] => pure ()
  | item :: rest => do
    tick
    test item
    visit test rest

def tickEach {α : Type} : List α → Timed Unit := visit fun _ => pure ()

end Clock

/-- The answer of a computation whose clock has just started. -/
def Timed.answer {α : Type} (computation : Timed α) (isExpired : Bool) : Outcome α :=
  (computation ⟨isExpired, 0⟩).map (·.1)

end QueryFederation
