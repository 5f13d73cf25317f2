import Mathlib.Tactic.Common
import QueryFederation.Expression.Parser
import QueryFederation.Proofs.Expression.Names

/-!
# Calls over one column

A call of an aggregate function over a name, a point and a name is read as that function over that column, or not at
all: the first name may be a word that stands for something else, but then what comes next is the point, and no call
closes there. No operator can be in the way, since none begins where an operand ends.
-/

namespace QueryFederation.Expression

/-- The column that a name, a point and a name are. -/
def plainColumn (t c : String) : Expression := column [⟨t, false⟩] ⟨c, false⟩

/-- The call of a function over a column, or over its different values. -/
def columnCall (function : AggregateFunction) (isDistinct : Bool) (t c : String) : Expression :=
  aggregate function [if isDistinct then distinct [plainColumn t c] else plainColumn t c]

/-- The tokens of such a call. -/
def columnCallTokens (function : AggregateFunction) (isDistinct : Bool) (t c : String) : List Token :=
  .word function.keyword :: .symbol "(" :: ((if isDistinct then [.word "DISTINCT"] else [])
    ++ [.word t, .symbol ".", .word c, .symbol ")"])

namespace Parser

variable {e : Option Expression} {tokens rest more : List Token} {operand : Operands} {bound : Nat}

/-! ### Where operands end -/

/-- Is nothing left, or a closing parenthesis or a point, so that no operator follows? -/
def EndsOperand (rest : List Token) : Prop := ∀ token ∈ rest.head?, token = .symbol ")" ∨ token = .symbol "."

theorem endsOperand_nil : EndsOperand [] := by
  rintro token ⟨⟩

theorem endsOperand_close : EndsOperand (.symbol ")" :: more) := by
  rintro token ⟨⟩
  exact Or.inl rfl

theorem endsOperand_point : EndsOperand (.symbol "." :: more) := by
  rintro token ⟨⟩
  exact Or.inr rfl

theorem EndsOperand.expectKeyword (h : EndsOperand rest) (keyword : String) : expectKeyword keyword rest = none := by
  cases rest with
  | nil => rfl
  | cons token rest => rcases h token rfl with rfl | rfl <;> rfl

theorem EndsOperand.operator? (h : EndsOperand (token :: rest)) (strength : Strength) :
    operator? strength token = none := by
  rcases h token rfl with rfl | rfl <;> cases strength <;> rfl

theorem EndsOperand.rangeTest? (h : EndsOperand rest) (e : Expression) (negated : Bool) :
    rangeTest? operand e negated rest = none := by
  cases rest with
  | nil => rfl
  | cons token rest => rcases h token rfl with rfl | rfl <;> rfl

theorem EndsOperand.chain (h : EndsOperand rest) (strength : Strength)
    (item : List Token → Option (Option Expression × List Token)) :
    chain (Parser.operator? strength) item (bound + 1) e rest = some (e, rest) := by
  cases rest with
  | nil => rfl
  | cons token rest => rw [Parser.chain, h.operator? strength]

/-- Without a left operand a chain comes to nothing. -/
theorem chain_none {operator? : Token → Option (Expression → Expression → Expression)}
    {item : List Token → Option (Option Expression × List Token)}
    (h : chain operator? item bound none tokens = some (e, rest)) : e = none ∧ rest = tokens := by
  cases bound with
  | zero => cases h
  | succ bound =>
    cases tokens with
    | nil =>
      cases h
      exact ⟨rfl, rfl⟩
    | cons token tokens =>
      rw [chain] at h
      cases hcombine : operator? token with
      | none =>
        rw [hcombine] at h
        cases h
        exact ⟨rfl, rfl⟩
      | some combine =>
        rw [hcombine] at h
        obtain ⟨_, -, h⟩ := Option.bind_eq_some_iff.mp h
        cases h

theorem EndsOperand.casts (h : EndsOperand rest) (e : Expression) : casts (bound + 1) e rest = some (e, rest) := by
  cases rest with
  | nil => rfl
  | cons token rest => rcases h token rfl with rfl | rfl <;> rfl

theorem EndsOperand.rangeStrength {e : Expression} (hoperand : operand .bitwise tokens = some (some e, rest))
    (h : EndsOperand rest) : rangeStrength operand tokens = some (some e, rest) := by
  simp [Parser.rangeStrength, hoperand, h.expectKeyword, h.rangeTest?]

/-- What is read without operators, up to where an operand ends, is read at every strength, if anything is. -/
theorem operands_of_unary {P : Option Expression → List Token → Prop}
    (hunary : ∀ bound e rest, unary (operands bound) tokens = some (e, rest) → P e rest)
    (hend : ∀ e rest, P (some e) rest → EndsOperand rest) {strength : Strength}
    (h : operands bound strength tokens = some (e, rest)) : P e rest := by
  induction bound generalizing strength e rest with
  | zero => cases h
  | succ bound ih =>
    unfold operands at h
    split at h
    · exact hunary bound e rest h
    · obtain ⟨⟨left, after⟩, hleft, hrest⟩ := Option.bind_eq_some_iff.mp h
      have hP := ih hleft
      cases left with
      | none =>
        dsimp only at hrest
        split at hrest <;> cases hrest
        exact hP
      | some left =>
        rw [(hend left after hP).rangeStrength hleft] at h
        cases h
        exact hP
    · obtain ⟨⟨left, after⟩, hleft, h⟩ := Option.bind_eq_some_iff.mp h
      have hP := ih hleft
      cases left with
      | none =>
        obtain ⟨rfl, rfl⟩ := chain_none h
        exact hP
      | some left =>
        dsimp only at h
        rw [(hend left after hP).chain] at h
        cases h
        exact hP

/-! ### Columns -/

variable {t c : String}

/-- No expression starts with a point and a name. -/
theorem operands_point {strength : Strength}
    (h : operands bound strength (.symbol "." :: .word c :: more) = some (e, rest)) :
    e = none ∧ rest = .symbol "." :: .word c :: more := by
  refine operands_of_unary (P := fun e rest => e = none ∧ rest = .symbol "." :: .word c :: more) ?_ nofun h
  rintro bound e rest hunary
  have hnone : unary (operands bound) (.symbol "." :: .word c :: more)
      = some (none, .symbol "." :: .word c :: more) := rfl
  rw [hnone] at hunary
  cases hunary
  exact ⟨rfl, rfl⟩

theorem tail_of_expectKeyword {keyword : String} {token : Token}
    (h : expectKeyword keyword (token :: tokens) = some rest) : rest = tokens := by
  rw [expectKeyword] at h
  split at h <;> cases h
  rfl

theorem eq_of_required {step : Option (Option Expression × List Token)} {found : Expression}
    (h : required step = some (found, rest)) : step = some (some found, rest) := by
  match step with
  | none | some (none, _) => cases h
  | some (some _, _) =>
    cases h
    rfl

/--
What may be read of a name, a point, a name and a closing parenthesis: the column; or a word that stands for something
else than a name, up to the point; or nothing.
-/
inductive ReadsColumn (t c : String) (more : List Token) : Option Expression → List Token → Prop where
  | column : ReadsColumn t c more (some (plainColumn t c)) (.symbol ")" :: more)
  | word (e : Option Expression) : ReadsColumn t c more e (.symbol "." :: .word c :: .symbol ")" :: more)
  | nothing : ReadsColumn t c more none (.word t :: .symbol "." :: .word c :: .symbol ")" :: more)

theorem ReadsColumn.endsOperand {e : Expression} (h : ReadsColumn t c more (some e) rest) : EndsOperand rest := by
  cases h with
  | column => exact endsOperand_close
  | word => exact endsOperand_point

theorem typedConstant?_point : typedConstant? (.word t :: .symbol "." :: more) = none := by
  have hparameters : ∀ target, (if target = CastTarget.double then
      (expectKeyword "PRECISION" (.symbol "." :: more)).getD (.symbol "." :: more) else .symbol "." :: more)
        = .symbol "." :: more := fun target => ite_self _
  rw [typedConstant?, knownType?]
  cases typeNames.lookup (Text.upper t) with
  | none => rfl
  | some target =>
    simp only [Option.bind_eq_bind, Option.bind_some, hparameters]
    rfl

theorem rest_of_constant? {found : Expression} (h : constant? (.word t :: tokens) = some (found, rest)) :
    rest = tokens := by
  change (if Token.isKeyword "NULL" (.word t) then some (null, tokens)
    else if Token.isKeyword "TRUE" (.word t) then some (boolean true, tokens)
    else if Token.isKeyword "FALSE" (.word t) then some (boolean false, tokens)
    else none) = _ at h
  repeat' split at h
  all_goals cases h <;> rfl

theorem nameOrCall_point {found : Expression}
    (h : nameOrCall operand (.word t :: .symbol "." :: .word c :: .symbol ")" :: more) = some (found, rest)) :
    found = plainColumn t c ∧ rest = .symbol ")" :: more := by
  obtain ⟨⟨name, after⟩, hname, h⟩ := Option.bind_eq_some_iff.mp h
  have hword : name = ⟨t, false⟩ ∧ after = .symbol "." :: .word c :: .symbol ")" :: more := by
    simp only [freeName?] at hname
    split at hname <;> cases hname
    exact ⟨rfl, rfl⟩
  obtain ⟨rfl, rfl⟩ := hword
  obtain ⟨⟨name, after⟩, hname, h⟩ :=
    (Option.bind_eq_some_iff (x := anyName? (.word c :: .symbol ")" :: more))).mp h
  have hword : name = ⟨c, false⟩ ∧ after = .symbol ")" :: more := by
    simp only [anyName?] at hname
    split at hname <;> cases hname
    exact ⟨rfl, rfl⟩
  obtain ⟨rfl, rfl⟩ := hword
  cases h
  exact ⟨rfl, rfl⟩

theorem readsColumn_of_primary
    (h : primary operand (.word t :: .symbol "." :: .word c :: .symbol ")" :: more) = some (e, rest)) :
    ReadsColumn t c more e rest := by
  unfold primary at h
  cases hconstant : constant? (.word t :: .symbol "." :: .word c :: .symbol ")" :: more) with
  | some step =>
    obtain ⟨found, after⟩ := step
    rw [hconstant] at h
    cases h
    rw [rest_of_constant? hconstant]
    exact .word _
  | none =>
    simp only [hconstant, typedConstant?_point] at h
    split at h
    · rename_i hcase
      simp [expect] at hcase
    split at h
    · cases h
      exact .word _
    split at h
    · obtain ⟨⟨found, after⟩, hname, heq⟩ := Option.map_eq_some_iff.mp h
      cases heq
      obtain ⟨rfl, rfl⟩ := nameOrCall_point hname
      exact .column
    · cases h
      exact .nothing

theorem readsColumn_of_unary
    (h : unary (operands bound) (.word t :: .symbol "." :: .word c :: .symbol ")" :: more) = some (e, rest)) :
    ReadsColumn t c more e rest := by
  unfold unary at h
  dsimp only at h
  cases hnot : expectKeyword "NOT" (.word t :: .symbol "." :: .word c :: .symbol ")" :: more) with
  | some after =>
    obtain rfl := tail_of_expectKeyword hnot
    rw [hnot] at h
    obtain ⟨⟨found, last⟩, hrequired, -⟩ := Option.bind_eq_some_iff.mp h
    cases (operands_point (eq_of_required hrequired)).1
  | none =>
    rw [hnot] at h
    obtain ⟨⟨found, after⟩, hprimary, h⟩ := Option.bind_eq_some_iff.mp h
    have hreads := readsColumn_of_primary hprimary
    cases found with
    | none =>
      cases h
      exact hreads
    | some found =>
      dsimp only at h
      rw [hreads.endsOperand.casts] at h
      cases h
      exact hreads

theorem readsColumn_of_operands {strength : Strength}
    (h : operands bound strength (.word t :: .symbol "." :: .word c :: .symbol ")" :: more) = some (e, rest)) :
    ReadsColumn t c more e rest :=
  operands_of_unary (fun _ _ _ => readsColumn_of_unary) (fun _ _ => ReadsColumn.endsOperand) h

/-! ### Arguments -/

/-- Does the call not go on here, neither to its end nor to another argument? -/
def Blocks (rest : List Token) : Prop := expect ")" rest = none ∧ expect "," rest = none

/-- What may be read where a call has one argument: just that, or something behind which the call is broken. -/
def IsArgument (arg : Expression) (more : List Token) (e : Option Expression) (rest : List Token) : Prop :=
  e = some arg ∧ rest = .symbol ")" :: more ∨ Blocks rest

theorem ReadsColumn.isArgument (h : ReadsColumn t c more e rest) : IsArgument (plainColumn t c) more e rest := by
  cases h with
  | column => exact Or.inl ⟨rfl, rfl⟩
  | word => exact Or.inr ⟨rfl, rfl⟩
  | nothing => exact Or.inr ⟨rfl, rfl⟩

theorem exists_of_items {item : List Token → Option (Option Expression × List Token)} {es : List Expression}
    (h : items item tokens = some (es, rest)) :
    ∃ e after, item tokens = some (e, after) ∧ (expect "," after = none → es = e.toList ∧ rest = after) := by
  obtain ⟨⟨⟨found, danglingComma⟩, after⟩, hfound, heq⟩ := Option.bind_eq_some_iff.mp h
  cases heq
  rw [commaSeparated] at hfound
  obtain ⟨⟨e, left⟩, hitem, hfound⟩ := Option.bind_eq_some_iff.mp hfound
  refine ⟨e, left, hitem, fun hcomma => ?_⟩
  simp only [hcomma] at hfound
  cases hfound
  exact ⟨rfl, rfl⟩

theorem rest_of_items_point {item : List Token → Option (Option Expression × List Token)} {es : List Expression}
    (hitem : ∀ e rest, item (.symbol "." :: tokens) = some (e, rest) → rest = .symbol "." :: tokens)
    (h : items item (.symbol "." :: tokens) = some (es, rest)) : rest = .symbol "." :: tokens := by
  obtain ⟨e, after, hfound, hends⟩ := exists_of_items h
  obtain rfl := hitem e after hfound
  exact (hends rfl).2

theorem rest_of_expression_point
    (h : expression (operands bound) (.symbol "." :: .word c :: more) = some (e, rest)) :
    rest = .symbol "." :: .word c :: more := by
  obtain ⟨⟨found, after⟩, hfound, h⟩ := Option.bind_eq_some_iff.mp h
  obtain ⟨rfl, rfl⟩ := operands_point hfound
  cases h
  rfl

/-- A query that starts with a point has no items and does not end. -/
theorem rest_of_select?_point {step : Option (Expression × List Token)} {query : Expression}
    (hselect : select? (operands bound) (.word t :: .symbol "." :: .word c :: more) = some step)
    (hstep : step = some (query, rest)) : rest = .symbol "." :: .word c :: more := by
  obtain ⟨after, hafter, rfl⟩ := Option.map_eq_some_iff.mp hselect
  obtain rfl := tail_of_expectKeyword hafter
  obtain ⟨⟨es, left⟩, hitems, h⟩ := Option.bind_eq_some_iff.mp hstep
  obtain rfl := rest_of_items_point (fun _ _ => rest_of_expression_point) hitems
  cases h
  rfl

theorem isArgument_column
    (h : argument (operands bound) (.word t :: .symbol "." :: .word c :: .symbol ")" :: more) = some (e, rest)) :
    IsArgument (plainColumn t c) more e rest := by
  have hpoint : ∀ e rest, operands bound .or (.symbol "." :: .word c :: .symbol ")" :: more) = some (e, rest) →
      rest = .symbol "." :: .word c :: .symbol ")" :: more := fun _ _ hread => (operands_point hread).2
  rw [argument] at h
  cases hdistinct : expectKeyword "DISTINCT" (.word t :: .symbol "." :: .word c :: .symbol ")" :: more) with
  | some after =>
    obtain rfl := tail_of_expectKeyword hdistinct
    rw [hdistinct] at h
    obtain ⟨⟨es, after⟩, hitems, heq⟩ := Option.bind_eq_some_iff.mp h
    cases heq
    rw [rest_of_items_point hpoint hitems]
    exact Or.inr ⟨rfl, rfl⟩
  | none =>
    rw [hdistinct] at h
    dsimp only at h
    cases hselect : select? (operands bound) (.word t :: .symbol "." :: .word c :: .symbol ")" :: more) with
    | some step =>
      rw [hselect] at h
      obtain ⟨⟨query, after⟩, hquery, heq⟩ := Option.map_eq_some_iff.mp h
      cases heq
      rw [rest_of_select?_point hselect hquery]
      exact Or.inr ⟨rfl, rfl⟩
    | none =>
      rw [hselect] at h
      exact (readsColumn_of_operands h).isArgument

theorem isArgument_distinct
    (h : argument (operands bound) (.word "DISTINCT" :: .word t :: .symbol "." :: .word c :: .symbol ")" :: more)
      = some (e, rest)) : IsArgument (distinct [plainColumn t c]) more e rest := by
  obtain ⟨⟨es, after⟩, hitems, heq⟩ := Option.bind_eq_some_iff.mp h
  cases heq
  obtain ⟨found, left, hfound, hends⟩ := exists_of_items hitems
  cases readsColumn_of_operands hfound with
  | column =>
    obtain ⟨rfl, rfl⟩ := hends rfl
    exact Or.inl ⟨rfl, rfl⟩
  | word =>
    obtain ⟨rfl, rfl⟩ := hends rfl
    exact Or.inr ⟨rfl, rfl⟩
  | nothing =>
    obtain ⟨rfl, rfl⟩ := hends rfl
    exact Or.inr ⟨rfl, rfl⟩

/-! ### Calls -/

variable {function : AggregateFunction} {arg found : Expression}

theorem call?_aggregate (function : AggregateFunction) (arg : Expression) :
    call? function.keyword [arg] = some (aggregate function [arg]) := by
  cases function <;> rfl

theorem call_of_isArgument (harg : ∀ e rest, argument operand tokens = some (e, rest) → IsArgument arg [] e rest)
    (h : call operand function.keyword tokens = some (found, rest)) : found = aggregate function [arg] ∧ rest = [] := by
  have hcast : Text.upper function.keyword ≠ "CAST" := by cases function <;> decide
  rw [call, if_neg hcast] at h
  obtain ⟨⟨args, after⟩, hitems, h⟩ := Option.bind_eq_some_iff.mp h
  obtain ⟨e, left, hargument, hends⟩ := exists_of_items hitems
  rcases harg e left hargument with ⟨rfl, rfl⟩ | hblocks
  · obtain ⟨rfl, rfl⟩ := hends rfl
    have hclose : expect ")" [.symbol ")"] = some [] := rfl
    simp only [hclose, Option.bind_eq_bind, Option.bind_some, Option.toList_some, call?_aggregate] at h
    cases h
    exact ⟨rfl, rfl⟩
  · obtain ⟨rfl, rfl⟩ := hends hblocks.2
    simp only [hblocks.1, Option.bind_eq_bind, Option.bind_none] at h
    cases h

theorem primary_keyword : primary operand (.word function.keyword :: .symbol "(" :: tokens)
    = (call operand function.keyword tokens).map fun (e, rest) => (some e, rest) := by
  cases function <;> rfl

theorem unary_keyword : unary operand (.word function.keyword :: .symbol "(" :: tokens) = (do
    let (e, rest) ← primary operand (.word function.keyword :: .symbol "(" :: tokens)
    match e with
    | none => return (none, rest)
    | some e =>
      let (e, rest) ← casts (rest.length + 1) e rest
      return (some e, rest)) := by
  cases function <;> rfl

/-- The start of a call is read as that call or not at all. -/
theorem unary_call (harg : ∀ e rest, argument operand tokens = some (e, rest) → IsArgument arg [] e rest)
    (h : unary operand (.word function.keyword :: .symbol "(" :: tokens) = some (e, rest)) :
    e = some (aggregate function [arg]) ∧ rest = [] := by
  rw [unary_keyword, primary_keyword] at h
  obtain ⟨⟨read, after⟩, hread, h⟩ := Option.bind_eq_some_iff.mp h
  obtain ⟨⟨found, left⟩, hcall, heq⟩ := Option.map_eq_some_iff.mp hread
  cases heq
  obtain ⟨rfl, rfl⟩ := call_of_isArgument harg hcall
  cases h
  exact ⟨rfl, rfl⟩

theorem statement?_call {found : Option Expression}
    (harg : ∀ bound e rest, argument (operands bound) tokens = some (e, rest) → IsArgument arg [] e rest)
    (h : statement? (.word function.keyword :: .symbol "(" :: tokens) = some found) :
    found = some (aggregate function [arg]) := by
  have hselect : select? (operands (boundFor (.word function.keyword :: .symbol "(" :: tokens)))
      (.word function.keyword :: .symbol "(" :: tokens) = none := by
    cases function <;> rfl
  rw [statement?] at h
  dsimp only at h
  rw [hselect] at h
  obtain ⟨⟨named, after⟩, hnamed, h⟩ := Option.bind_eq_some_iff.mp h
  obtain ⟨⟨e, rest⟩, hread, heq⟩ := Option.bind_eq_some_iff.mp hnamed
  have hcall : e = some (aggregate function [arg]) ∧ rest = [] :=
    operands_of_unary (fun bound _ _ => unary_call (harg bound)) (fun _ _ hend => hend.2 ▸ endsOperand_nil) hread
  obtain ⟨rfl, rfl⟩ := hcall
  cases heq
  cases h
  rfl

end Parser

/-- The tokens of a call over a column are read as that call or not at all. -/
theorem eq_of_ofTokens?_columnCallTokens {function : AggregateFunction} {isDistinct : Bool} {t c : String}
    {e : Expression} (h : ofTokens? (columnCallTokens function isDistinct t c) = some e) :
    e = columnCall function isDistinct t c := by
  have hone : Parser.statements (columnCallTokens function isDistinct t c)
      = [columnCallTokens function isDistinct t c] :=
    Parser.statements_of_notMem (by cases isDistinct <;> simp [columnCallTokens])
  rw [ofTokens?, hone] at h
  obtain ⟨found, hfound, h⟩ := Option.bind_eq_some_iff.mp h
  rw [List.mapM_cons] at hfound
  obtain ⟨read, hread, hfound⟩ := Option.bind_eq_some_iff.mp hfound
  cases hfound
  have hcall : read = some (columnCall function isDistinct t c) := by
    cases isDistinct with
    | true => exact Parser.statement?_call (fun _ _ _ => Parser.isArgument_distinct) hread
    | false => exact Parser.statement?_call (fun _ _ _ => Parser.isArgument_column) hread
  rw [hcall] at h
  exact (Option.some.inj h).symm

end QueryFederation.Expression
