/-!
# Entries in order

Values under distinct keys, in the order in which the keys came first. `lookup_put` is all that a reader has to know of
`put`; merging and building from pairs are repeated puts.
-/

namespace QueryFederation

abbrev Entries (α : Type) := List (String × α)

namespace Entries

variable {α : Type}

/-- Puts a value under a key: in its place if the key is there, at the end if not. -/
def put : Entries α → String → α → Entries α
  | [], key, v => [(key, v)]
  | (k, w) :: rest, key, v => if k = key then (k, v) :: rest else (k, w) :: put rest key v

def putNew (entries : Entries α) (key : String) (v : α) : Entries α :=
  if (entries.lookup key).isSome then entries else put entries key v

def ofPairs (pairs : List (String × α)) : Entries α := pairs.foldl (fun entries (key, v) => put entries key v) []

/-- Both in one; on a key of both the second has its way. -/
def merge (first second : Entries α) : Entries α := second.foldl (fun entries (key, v) => put entries key v) first

def keys (entries : Entries α) : List String := entries.map (·.1)

theorem lookup_put (entries : Entries α) (key other : String) (v : α) :
    (put entries key v).lookup other = if other = key then some v else entries.lookup other := by
  induction entries with
  | nil =>
    by_cases h : other = key
    · simp [put, h]
    · have hb : (other == key) = false := by simp [h]
      simp [put, List.lookup_cons, h, hb]
  | cons entry rest ih =>
    obtain ⟨k, w⟩ := entry
    by_cases hk : k = key
    · subst hk
      by_cases h : other = k
      · simp [put, h]
      · have hb : (other == k) = false := by simp [h]
        simp [put, List.lookup_cons, h, hb]
    · by_cases h : other = k
      · subst h
        simp [put, hk]
      · have hb : (other == k) = false := by simp [h]
        simp [put, hk, List.lookup_cons, hb, ih]

end Entries

end QueryFederation
