import QueryFederation.Sql.Dialect

/-!
# How a target reads a statement

Text literals and quoted names are read as a target reads them: from the opening to the closing quote, with a doubled
quote standing for one. In MySQL and ClickHouse a backslash in a text literal makes the next character stand for
itself; in ClickHouse it does so in quoted names too.

A statement is complete if everything that opens in it closes again.
-/

namespace QueryFederation.Sql

namespace Lexing

structure Quoting where
  quote : Char
  hasEscapes : Bool := false
  deriving DecidableEq, Repr

def withFirst (c : Char) (read : Option (List Char × List Char)) : Option (List Char × List Char) :=
  read.map fun (body, after) => (c :: body, after)

/-- The rest of a quoted text behind its opening quote: what it stands for, and what follows the closing quote. -/
def readRest (q : Quoting) : List Char → Option (List Char × List Char)
  | [] => none
  | [c] => if c = q.quote then some ([], []) else none
  | c :: d :: rest =>
    if c = q.quote then
      if d = q.quote then withFirst q.quote (readRest q rest) else some ([], d :: rest)
    else if c = '\\' && q.hasEscapes then withFirst d (readRest q rest)
    else withFirst c (readRest q (d :: rest))

def read (q : Quoting) : List Char → Option (List Char × List Char)
  | [] => none
  | c :: rest => if c = q.quote then readRest q rest else none

def literal : Dialect → Quoting
  | .mysql | .clickhouse => ⟨'\'', true⟩
  | _ => ⟨'\'', false⟩

def identifier : Dialect → Quoting
  | .mysql => ⟨'\x60', false⟩
  | .clickhouse => ⟨'\x60', true⟩
  | _ => ⟨'"', false⟩

def quotings : Dialect → List Quoting
  | .mysql => [literal .mysql, ⟨'"', true⟩, identifier .mysql]
  | .clickhouse => [literal .clickhouse, identifier .clickhouse, ⟨'"', true⟩]
  | dialect => [literal dialect, identifier dialect]

theorem exists_of_withFirst {c : Char} {read : Option (List Char × List Char)} {body rest : List Char}
    (h : withFirst c read = some (body, rest)) : ∃ b, read = some (b, rest) := by
  obtain ⟨⟨b, after⟩, hread, heq⟩ := Option.map_eq_some_iff.mp h
  obtain ⟨-, rfl⟩ := Prod.mk.inj heq
  exact ⟨b, hread⟩

theorem readRest_length {q : Quoting} {cs body rest : List Char} (h : readRest q cs = some (body, rest)) :
    rest.length < cs.length := by
  fun_induction readRest q cs generalizing body rest with
  | case1 | case3 => simp at h
  | case2 | case5 =>
    obtain ⟨-, rfl⟩ := Prod.mk.inj (Option.some.inj h)
    simp
  | case4 _ ih | case6 _ _ _ _ _ ih | case7 _ _ _ _ _ ih =>
    obtain ⟨b, hread⟩ := exists_of_withFirst h
    have := ih hread
    simp only [List.length_cons] at this ⊢
    omega

/-- Does everything that opens close again? The count is of parentheses that are open. -/
def isComplete (dialect : Dialect) (opened : Nat) : List Char → Bool
  | [] => opened = 0
  | c :: rest =>
    match (quotings dialect).find? fun q => q.quote = c with
    | some q =>
      match _h : readRest q rest with
      | some (_, after) => isComplete dialect opened after
      | none => false
    | none =>
      if c = '(' then isComplete dialect (opened + 1) rest
      else if c = ')' then opened ≠ 0 && isComplete dialect (opened - 1) rest
      else isComplete dialect opened rest
termination_by cs => cs.length
decreasing_by
  · have := readRest_length _h
    simp only [List.length_cons]
    omega
  all_goals simp

end Lexing

def isComplete (dialect : Dialect) (statement : String) : Bool := Lexing.isComplete dialect 0 statement.toList

def incompleteMessage : String := "<parser detail>"

def complaints (dialectName statement : String) : List String :=
  match Dialect.all.find? fun dialect => dialect.name = dialectName with
  | none => ["Unknown dialect '" ++ dialectName ++ "', skipping SQL validation"]
  | some dialect => if isComplete dialect statement then [] else [incompleteMessage]

end QueryFederation.Sql
