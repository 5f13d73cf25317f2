/-!
# Groups

Items under keys, as far as a test tells keys apart. Groups keep the order in which their keys came first, and each
group the order of its items.
-/

namespace QueryFederation

abbrev Groups (κ α : Type) := List (κ × List α)

namespace Groups

variable {κ α : Type}

/-- Adds an item to the group of its key, which is a new one if no group has an equal key. -/
def add (same : κ → κ → Bool) (key : κ) (item : α) : Groups κ α → Groups κ α
  | [] => [(key, [item])]
  | (k, items) :: rest =>
    if same k key then (k, items ++ [item]) :: rest else (k, items) :: add same key item rest

def ofPairs (same : κ → κ → Bool) (pairs : List (κ × α)) : Groups κ α :=
  pairs.foldl (fun groups (key, item) => add same key item groups) []

def find (same : κ → κ → Bool) (groups : Groups κ α) (key : κ) : List α :=
  match List.find? (fun group => same group.1 key) groups with
  | some (_, items) => items
  | none => []

end Groups

end QueryFederation
