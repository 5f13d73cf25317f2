import Mathlib.Tactic.Common
import QueryFederation.Expression.Analysis

/-!
# Names that are read

Reading an expression makes up no names: every table, column and alias that it mentions is a word or a quoted name among
the tokens of its text. Every production keeps to that, given that the parser of operands does, so the bound of the
recursion carries it through.
-/

namespace QueryFederation

def Token.name? : Token → Option String
  | word s | quotedName s => some s
  | text _ | number _ | symbol _ => none

namespace Expression

def Reference.names : Reference → List String
  | column table name => [table, name]
  | aliasName name => [name]

/-- Do all names that an expression mentions have the property? -/
def Mentions (P : String → Prop) (e : Expression) : Prop := ∀ r ∈ e.references, ∀ s ∈ r.names, P s

variable {α β : Type} {P : String → Prop} {e left right : Expression} {es : List Expression} {tokens rest : List Token}

/-! ### Expressions and their parts -/

theorem mentionsAll_iff : (∀ r ∈ referencesOfAll es, ∀ s ∈ r.names, P s) ↔ ∀ e ∈ es, Mentions P e := by
  induction es with
  | nil => simp [referencesOfAll]
  | cons e es ih => rw [referencesOfAll, List.forall_mem_append, ih, List.forall_mem_cons, Mentions]

theorem mentionsOptional_iff {e : Option Expression} :
    (∀ r ∈ referencesOfOptional e, ∀ s ∈ r.names, P s) ↔ ∀ found ∈ e, Mentions P found := by
  cases e <;> simp [referencesOfOptional, Mentions]

theorem mentionsBranches_iff {branches : List (Expression × Expression)} :
    (∀ r ∈ referencesOfBranches branches, ∀ s ∈ r.names, P s)
      ↔ ∀ branch ∈ branches, Mentions P branch.1 ∧ Mentions P branch.2 := by
  induction branches with
  | nil => simp [referencesOfBranches]
  | cons branch branches ih =>
    rw [referencesOfBranches, List.forall_mem_append, List.forall_mem_append, ih, List.forall_mem_cons, Mentions,
      Mentions]

theorem mentions_column {qualifiers : List Identifier} {name : Identifier} (hqualifiers : ∀ q ∈ qualifiers, P q.name)
    (hname : P name.name) : Mentions P (column qualifiers name) := by
  intro r hr s hs
  obtain rfl := List.mem_singleton.mp hr
  rw [Reference.ofNames] at hs
  split at hs
  · obtain rfl := List.mem_singleton.mp hs
    exact hname
  · rcases List.mem_cons.mp hs with rfl | hs
    · cases hlast : qualifiers.getLast? with
      | none => simp_all [tableName]
      | some q =>
        rw [tableName, hlast]
        exact hqualifiers q (List.mem_of_getLast? hlast)
    · obtain rfl := List.mem_singleton.mp hs
      exact hname

theorem mentions_binary (op : BinaryOperator) (hleft : Mentions P left) (hright : Mentions P right) :
    Mentions P (binary op left right) :=
  List.forall_mem_append.mpr ⟨hleft, hright⟩

theorem mentions_construct (c : Construct) (h : ∀ e ∈ es, Mentions P e) : Mentions P (construct c es) :=
  mentionsAll_iff.mpr h

theorem mentions_nullif (hleft : Mentions P left) (hright : Mentions P right) : Mentions P (nullif left right) :=
  List.forall_mem_append.mpr ⟨hleft, hright⟩

theorem mentions_is (hleft : Mentions P left) (hright : Mentions P right) : Mentions P (is left right) :=
  List.forall_mem_append.mpr ⟨hleft, hright⟩

theorem mentions_conditional {condition yes : Expression} {no : Option Expression} (hcondition : Mentions P condition)
    (hyes : Mentions P yes) (hno : ∀ e ∈ no, Mentions P e) : Mentions P (conditional condition yes no) :=
  List.forall_mem_append.mpr ⟨List.forall_mem_append.mpr ⟨hcondition, hyes⟩, mentionsOptional_iff.mpr hno⟩

theorem mentions_case {subject otherwise : Option Expression} {branches : List (Expression × Expression)}
    (hsubject : ∀ e ∈ subject, Mentions P e)
    (hbranches : ∀ branch ∈ branches, Mentions P branch.1 ∧ Mentions P branch.2)
    (hotherwise : ∀ e ∈ otherwise, Mentions P e) : Mentions P (case subject branches otherwise) :=
  List.forall_mem_append.mpr ⟨List.forall_mem_append.mpr ⟨mentionsOptional_iff.mpr hsubject,
    mentionsBranches_iff.mpr hbranches⟩, mentionsOptional_iff.mpr hotherwise⟩

theorem mentions_enclosed (h : Mentions P e) : Mentions P (Parser.enclosed e) := by
  rw [Parser.enclosed]
  split <;> exact h

theorem mentions_of_call? {name : String} (h : ∀ e ∈ es, Mentions P e) (hcall : Parser.call? name es = some e) :
    Mentions P e := by
  have hall : ∀ r ∈ referencesOfAll es, ∀ s ∈ r.names, P s := mentionsAll_iff.mpr h
  unfold Parser.call? at hcall
  dsimp only at hcall
  split at hcall
  · split at hcall <;> cases hcall
    exact hall
  split at hcall
  · split at hcall <;> cases hcall
    exact hall
  split at hcall
  · split at hcall <;> cases hcall
    exact hall
  split at hcall
  · split at hcall <;> cases hcall
    exact mentions_nullif (h _ (by simp)) (h _ (by simp))
  split at hcall
  · split at hcall <;> cases hcall
    exact mentions_binary _ (mentions_enclosed (h _ (by simp))) (mentions_enclosed (h _ (by simp)))
  split at hcall
  · split at hcall <;> cases hcall
    have he := List.forall_mem_singleton.mp h
    exact he
  split at hcall
  · split at hcall <;> cases hcall
    · exact mentions_conditional (h _ (by simp)) (h _ (by simp)) nofun
    · exact mentions_conditional (h _ (by simp)) (h _ (by simp)) (by simpa using h _ (by simp))
  split at hcall
  · split at hcall <;> cases hcall
    exact hall
  · cases hcall
    exact hall

namespace Parser

/-! ### Steps -/

/-- Do all names among the tokens have the property? -/
def AreNamed (P : String → Prop) (tokens : List Token) : Prop := ∀ token ∈ tokens, ∀ s ∈ token.name?, P s

/-- Does a step come, if it does, to something of which `Q` holds, and leave tokens whose names have the property? -/
def Reads (P : String → Prop) (Q : α → Prop) (step : Option (α × List Token)) : Prop :=
  ∀ a rest, step = some (a, rest) → Q a ∧ AreNamed P rest

section

variable {Q : α → Prop} {R : β → Prop} {step : Option (α × List Token)}

theorem reads_none : Reads P Q none := nofun

theorem reads_some {a : α} (ha : Q a) (hrest : AreNamed P rest) : Reads P Q (some (a, rest)) := by
  rintro _ _ ⟨⟩
  exact ⟨ha, hrest⟩

theorem Reads.bind {next : α × List Token → Option (β × List Token)} (h : Reads P Q step)
    (hnext : ∀ a rest, Q a → AreNamed P rest → Reads P R (next (a, rest))) : Reads P R (step >>= next) := by
  intro b after hb
  obtain ⟨⟨a, rest⟩, hstep, hb⟩ := Option.bind_eq_some_iff.mp hb
  obtain ⟨ha, hrest⟩ := h a rest hstep
  exact hnext a rest ha hrest b after hb

theorem Reads.map {f : α → β} (h : Reads P Q step) (hf : ∀ a, Q a → R (f a)) :
    Reads P R (step.map fun (a, rest) => (f a, rest)) := by
  intro b after hb
  obtain ⟨⟨a, rest⟩, hstep, heq⟩ := Option.map_eq_some_iff.mp hb
  cases heq
  obtain ⟨ha, hafter⟩ := h a after hstep
  exact ⟨hf a ha, hafter⟩

end

theorem reads_ite {Q : α → Prop} {step other : Option (α × List Token)} {c : Prop} [Decidable c] (h : Reads P Q step)
    (hother : Reads P Q other) : Reads P Q (if c then step else other) := by
  split
  · exact h
  · exact hother

/-- What must not be missing. -/
theorem reads_required {step : Option (Option Expression × List Token)} (h : Reads P (∀ e ∈ ·, Mentions P e) step) :
    Reads P (Mentions P) (required step) := by
  match step with
  | none | some (none, _) => exact reads_none
  | some (some e, rest) => exact reads_some ((h _ _ rfl).1 e rfl) (h _ _ rfl).2

/-! ### Words and symbols -/

section

variable {token : Token} {symbol keyword : String}

theorem AreNamed.tail (h : AreNamed P (token :: tokens)) : AreNamed P tokens := (List.forall_mem_cons.mp h).2

theorem AreNamed.expect (h : AreNamed P tokens) (hrest : expect symbol tokens = some rest) : AreNamed P rest := by
  match tokens with
  | [] => cases hrest
  | token :: tokens =>
    have htail := AreNamed.tail h
    cases token with
    | symbol s =>
      rw [Parser.expect] at hrest
      split at hrest <;> cases hrest
      exact htail
    | _ => cases hrest

theorem AreNamed.expectKeyword (h : AreNamed P tokens) (hrest : expectKeyword keyword tokens = some rest) :
    AreNamed P rest := by
  match tokens with
  | [] => cases hrest
  | token :: tokens =>
    rw [Parser.expectKeyword] at hrest
    split at hrest <;> cases hrest
    exact AreNamed.tail h

theorem AreNamed.getD_expectKeyword (h : AreNamed P tokens) :
    AreNamed P ((Parser.expectKeyword keyword tokens).getD tokens) := by
  cases hrest : Parser.expectKeyword keyword tokens with
  | none => exact h
  | some rest => exact AreNamed.expectKeyword h hrest

/-- A symbol that has to be there. -/
theorem reads_after {Q : α → Prop} {next : List Token → Option (α × List Token)} (h : AreNamed P tokens)
    (hnext : ∀ rest, AreNamed P rest → Reads P Q (next rest)) : Reads P Q (Parser.expect symbol tokens >>= next) := by
  cases hrest : Parser.expect symbol tokens with
  | none => exact reads_none
  | some rest => exact hnext rest (AreNamed.expect h hrest)

theorem reads_afterKeyword {Q : α → Prop} {next : List Token → Option (α × List Token)} (h : AreNamed P tokens)
    (hnext : ∀ rest, AreNamed P rest → Reads P Q (next rest)) :
    Reads P Q (Parser.expectKeyword keyword tokens >>= next) := by
  cases hrest : Parser.expectKeyword keyword tokens with
  | none => exact reads_none
  | some rest => exact hnext rest (AreNamed.expectKeyword h hrest)

theorem reads_freeName? (h : AreNamed P tokens) : Reads P (fun name => P name.name) (freeName? tokens) := by
  unfold freeName?
  split
  · exact reads_some (h _ List.mem_cons_self _ rfl) h.tail
  · rename_i s rest
    have hword : Reads P (fun name => P name.name) (some (⟨s, false⟩, rest) : Option (Identifier × List Token)) :=
      reads_some (h _ List.mem_cons_self _ rfl) h.tail
    dsimp only
    cases rest <;> exact reads_ite reads_none hword
  · exact reads_none

theorem reads_anyName? (h : AreNamed P tokens) : Reads P (fun name => P name.name) (anyName? tokens) := by
  unfold anyName?
  split
  · exact reads_some (h _ List.mem_cons_self _ rfl) h.tail
  · split
    · exact reads_none
    · exact reads_some (h _ List.mem_cons_self _ rfl) h.tail
  · exact reads_none

end

/-! ### Lists and chains -/

section

variable {item : List Token → Option (Option Expression × List Token)}
  (hitem : ∀ tokens, AreNamed P tokens → Reads P (∀ e ∈ ·, Mentions P e) (item tokens))

include hitem

theorem reads_commaSeparated (bound : Nat) (h : AreNamed P tokens) :
    Reads P (fun found => ∀ e ∈ found.1, Mentions P e) (commaSeparated item bound tokens) := by
  induction bound generalizing tokens with
  | zero => exact reads_none
  | succ bound ih =>
    refine (hitem tokens h).bind fun first rest hfirst hrest => ?_
    dsimp only
    cases hcomma : expect "," rest with
    | none => exact reads_some (by simpa using hfirst) hrest
    | some after =>
      refine (ih (hrest.expect hcomma)).bind fun others rest hothers hrest => ?_
      exact reads_some (List.forall_mem_append.mpr ⟨by simpa using hfirst, hothers⟩) hrest

theorem reads_items (h : AreNamed P tokens) : Reads P (∀ e ∈ ·, Mentions P e) (items item tokens) :=
  (reads_commaSeparated hitem _ h).bind fun _ _ hfound hrest => reads_some hfound hrest

theorem reads_chain {operator? : Token → Option (Expression → Expression → Expression)}
    (hoperator : ∀ token, ∀ combine ∈ operator? token, ∀ left right, Mentions P left → Mentions P right →
      Mentions P (combine left right)) (bound : Nat) {left : Option Expression} (hleft : ∀ e ∈ left, Mentions P e)
    (h : AreNamed P tokens) : Reads P (∀ e ∈ ·, Mentions P e) (chain operator? item bound left tokens) := by
  induction bound generalizing left tokens with
  | zero => exact reads_none
  | succ bound ih =>
    cases tokens with
    | nil => exact reads_some hleft h
    | cons token tokens =>
      rw [chain]
      cases hcombine : operator? token with
      | none => exact reads_some hleft h
      | some combine =>
        refine (reads_required (hitem tokens h.tail)).bind fun right rest hright hrest => ?_
        cases left with
        | none => exact reads_none
        | some left =>
          refine ih (fun e he => ?_) hrest
          cases he
          exact hoperator token combine hcombine left right (hleft left rfl) hright

end

theorem mentions_of_operator? {strength : Strength} {token : Token} {combine : Expression → Expression → Expression}
    (h : operator? strength token = some combine) (hleft : Mentions P left) (hright : Mentions P right) :
    Mentions P (combine left right) := by
  have hbinary : ∀ op, combine = binary op → Mentions P (combine left right) := by
    rintro op rfl
    exact mentions_binary op hleft hright
  unfold operator? at h
  split at h
  case h_5 =>
    split at h <;> cases h
    exact mentions_construct _ (List.forall_mem_cons.mpr ⟨hleft, List.forall_mem_singleton.mpr hright⟩)
  case h_8 => cases h
  all_goals
    repeat' split at h
    all_goals cases h <;> exact hbinary _ rfl

/-! ### Types -/

theorem reads_numbers (h : AreNamed P tokens) : Reads P (fun _ => True) (numbers tokens) := by
  fun_induction numbers tokens with
  | case1 s rest ih => exact (ih h.tail.tail).map fun _ _ => trivial
  | case2 s rest ht => exact reads_some trivial h.tail.tail
  | case3 => exact reads_none
  | case4 => exact reads_none

theorem reads_typeParameters (h : AreNamed P tokens) : Reads P (fun _ => True) (typeParameters tokens) := by
  rw [typeParameters]
  cases hrest : expect "(" tokens with
  | none => exact reads_some trivial h
  | some rest => exact reads_numbers (h.expect hrest)

theorem reads_knownType? (h : AreNamed P tokens) : Reads P (fun _ => True) (knownType? tokens) := by
  unfold knownType?
  split
  · rename_i s rest
    cases Text.upper s |> typeNames.lookup with
    | none => exact reads_none
    | some target =>
      dsimp only [Option.bind_eq_bind, Option.bind_some]
      refine (reads_typeParameters ?_).bind fun _ rest _ hrest => reads_some trivial hrest
      split
      · exact h.tail.getD_expectKeyword
      · exact h.tail
  · exact reads_none

theorem reads_castType (h : AreNamed P tokens) : Reads P (fun _ => True) (castType tokens) := by
  rw [castType]
  cases hknown : knownType? tokens with
  | none => exact (reads_freeName? h).bind fun _ rest _ hrest => reads_some trivial hrest
  | some step =>
    dsimp only
    rw [← hknown]
    exact reads_knownType? h

theorem reads_casts (bound : Nat) (he : Mentions P e) (h : AreNamed P tokens) :
    Reads P (Mentions P) (casts bound e tokens) := by
  induction bound generalizing e tokens with
  | zero => exact reads_none
  | succ bound ih =>
    rw [casts]
    cases hrest : expect "::" tokens with
    | none => exact reads_some he h
    | some rest => exact (reads_castType (h.expect hrest)).bind fun type rest _ hrest => ih he hrest

/-! ### Names of expressions -/

theorem reads_named {step : Option (Option Expression × List Token)} (h : Reads P (∀ e ∈ ·, Mentions P e) step) :
    Reads P (∀ e ∈ ·, Mentions P e) (named step) := by
  have hnamed : ∀ {e : Expression} (name : Identifier), Mentions P e →
      ∀ found ∈ some (construct (.named name) [e]), Mentions P found := by
    rintro e name he _ ⟨⟩
    exact mentions_construct _ (List.forall_mem_singleton.mpr he)
  refine h.bind fun e rest he hrest => ?_
  dsimp only
  cases has : expectKeyword "AS" rest with
  | some rest =>
    dsimp only
    cases hname : anyName? rest with
    | some found =>
      obtain ⟨-, hafter⟩ := reads_anyName? (hrest.expectKeyword has) _ _ hname
      cases e with
      | none => exact reads_none
      | some e => exact reads_some (hnamed found.1 (he e rfl)) hafter
    | none => exact reads_some he (hrest.expectKeyword has)
  | none =>
    cases e with
    | none => exact reads_some he hrest
    | some e =>
      dsimp only
      cases hname : freeName? rest with
      | some found =>
        obtain ⟨-, hafter⟩ := reads_freeName? hrest _ _ hname
        exact reads_some (hnamed found.1 (he e rfl)) hafter
      | none => exact reads_some he hrest

theorem reads_fromTable (h : AreNamed P tokens) : Reads P (∀ e ∈ ·, Mentions P e) (fromTable tokens) := by
  rw [fromTable]
  cases hfrom : expectKeyword "FROM" tokens with
  | none => exact reads_some (List.forall_mem_nil _) h
  | some rest =>
    refine (reads_freeName? (h.expectKeyword hfrom)).bind fun name rest _ hrest => reads_some ?_ hrest
    have htable : Mentions P (construct (.table name.name) []) := mentions_construct _ (List.forall_mem_nil _)
    exact List.forall_mem_singleton.mpr (mentions_construct _ (List.forall_mem_singleton.mpr htable))

/-! ### Columns -/

theorem reads_columnParts (bound : Nat) {parts : List Identifier} (hparts : ∀ part ∈ parts, P part.name)
    (h : AreNamed P tokens) : Reads P (Mentions P) (columnParts bound parts tokens) := by
  induction bound generalizing parts tokens with
  | zero => exact reads_none
  | succ bound ih =>
    rw [columnParts]
    cases hpoint : expect "." tokens with
    | none =>
      dsimp only
      cases hlast : parts.getLast? with
      | none => exact reads_none
      | some name =>
        have hname := hparts name (List.mem_of_getLast? hlast)
        exact reads_some (mentions_column (fun q hq => hparts q (List.dropLast_subset _ hq)) hname) h
    | some rest =>
      dsimp only
      cases hstar : expect "*" rest with
      | some after => exact reads_some (fun r hr => absurd hr List.not_mem_nil) ((h.expect hpoint).expect hstar)
      | none =>
        refine (reads_anyName? (h.expect hpoint)).bind fun name rest hname hrest => ih ?_ hrest
        exact List.forall_mem_append.mpr ⟨hparts, List.forall_mem_singleton.mpr hname⟩

/-! ### Constants -/

theorem areNamed_spanTexts (h : AreNamed P tokens) : AreNamed P (spanTexts tokens).2 := by
  fun_induction spanTexts tokens with
  | case1 s rest others left heq ih => simpa [heq] using ih h.tail
  | case2 => exact h

theorem mentions_text (s : String) : Mentions P (text s) := List.forall_mem_nil _

theorem reads_constant? (h : AreNamed P tokens) : Reads P (Mentions P) (constant? tokens) := by
  unfold constant?
  split
  · exact reads_some (List.forall_mem_nil _) h.tail
  · exact reads_some (List.forall_mem_nil _) h.tail.tail
  · split
    · exact reads_some (List.forall_mem_nil _) h.tail
    · rename_i others rest _ heq
      refine reads_some (mentions_construct _ (List.forall_mem_map.mpr fun s _ => mentions_text s)) ?_
      have hrest := areNamed_spanTexts h.tail
      rwa [heq] at hrest
  · exact reads_ite (reads_some (List.forall_mem_nil _) h.tail) (reads_ite (reads_some (List.forall_mem_nil _) h.tail)
      (reads_ite (reads_some (List.forall_mem_nil _) h.tail) reads_none))
  · exact reads_none

theorem reads_typedConstant? (h : AreNamed P tokens) : Reads P (Mentions P) (typedConstant? tokens) := by
  refine (reads_knownType? h).bind fun type rest _ hrest => ?_
  dsimp only
  split
  · exact reads_some (fun r hr => absurd hr List.not_mem_nil) hrest.tail
  · exact reads_some (fun r hr => absurd hr List.not_mem_nil) hrest.tail
  · exact reads_none

/-! ### Productions -/

theorem reads_found {step : Option (Expression × List Token)} (h : Reads P (Mentions P) step) :
    Reads P (∀ e ∈ ·, Mentions P e) (step.map fun (e, rest) => (some e, rest)) := by
  refine h.map fun e he => ?_
  rintro _ ⟨⟩
  exact he

section

variable {operand : Operands}
  (hoperand : ∀ strength tokens, AreNamed P tokens → Reads P (∀ e ∈ ·, Mentions P e) (operand strength tokens))

include hoperand

theorem reads_expression (tokens : List Token) (h : AreNamed P tokens) :
    Reads P (∀ e ∈ ·, Mentions P e) (expression operand tokens) :=
  reads_named (hoperand .or tokens h)

theorem reads_of_select? (h : AreNamed P tokens) {step : Option (Expression × List Token)}
    (hselect : select? operand tokens = some step) : Reads P (Mentions P) step := by
  obtain ⟨rest, hrest, rfl⟩ := Option.map_eq_some_iff.mp hselect
  refine (reads_items (reads_expression hoperand) (h.expectKeyword hrest)).bind fun es rest hes hrest => ?_
  refine (reads_fromTable hrest).bind fun source rest hsource hrest => reads_some ?_ hrest
  exact mentions_construct _ (List.forall_mem_append.mpr ⟨hes, hsource⟩)

theorem reads_argument (tokens : List Token) (h : AreNamed P tokens) :
    Reads P (∀ e ∈ ·, Mentions P e) (argument operand tokens) := by
  rw [argument]
  cases hdistinct : expectKeyword "DISTINCT" tokens with
  | some rest =>
    refine (reads_items (hoperand .or) (h.expectKeyword hdistinct)).bind fun es rest hes hrest => reads_some ?_ hrest
    rintro _ ⟨⟩
    exact mentionsAll_iff.mpr hes
  | none =>
    dsimp only
    cases hselect : select? operand tokens with
    | some step =>
      refine (reads_of_select? hoperand h hselect).map fun e he => ?_
      rintro _ ⟨⟩
      exact he
    | none => exact hoperand .or tokens h

theorem reads_partition (h : AreNamed P tokens) : Reads P (∀ e ∈ ·, Mentions P e) (partition operand tokens) := by
  rw [partition]
  split
  · rename_i rest hrest
    obtain ⟨after, hpartition, hby⟩ := Option.bind_eq_some_iff.mp hrest
    exact reads_items (hoperand .or) ((h.expectKeyword hpartition).expectKeyword hby)
  · exact reads_some (List.forall_mem_nil _) h

theorem reads_orderItem (tokens : List Token) (h : AreNamed P tokens) :
    Reads P (∀ e ∈ ·, Mentions P e) (orderItem operand tokens) := by
  refine (hoperand .or tokens h).bind fun e rest he hrest => ?_
  have hitem : ∀ descending, ∀ found ∈ e.map fun e => construct (.orderItem descending) [e], Mentions P found := by
    intro descending found hfound
    obtain ⟨inner, hinner, rfl⟩ := Option.map_eq_some_iff.mp hfound
    exact mentions_construct _ (List.forall_mem_singleton.mpr (he inner hinner))
  dsimp only
  cases hdesc : expectKeyword "DESC" rest with
  | some after => exact reads_some (hitem true) (hrest.expectKeyword hdesc)
  | none => exact reads_some (hitem false) hrest.getD_expectKeyword

theorem reads_windowOrder (h : AreNamed P tokens) : Reads P (∀ e ∈ ·, Mentions P e) (windowOrder operand tokens) := by
  rw [windowOrder]
  split
  · rename_i rest hrest
    obtain ⟨after, horder, hby⟩ := Option.bind_eq_some_iff.mp hrest
    refine (reads_items (reads_orderItem hoperand) ((h.expectKeyword horder).expectKeyword hby)).bind
      fun es rest hes hrest => reads_some (List.forall_mem_singleton.mpr (mentions_construct _ hes)) hrest
  · exact reads_some (List.forall_mem_nil _) h

theorem reads_window (he : Mentions P e) (h : AreNamed P tokens) :
    Reads P (Mentions P) (window operand e tokens) := by
  rw [window]
  cases hover : expectKeyword "OVER" tokens with
  | none => exact reads_some he h
  | some rest =>
    refine reads_after (h.expectKeyword hover) fun rest hrest => ?_
    refine (reads_partition hoperand hrest).bind fun parts rest hparts hrest => ?_
    refine (reads_windowOrder hoperand hrest).bind fun order rest horder hrest => ?_
    refine reads_after hrest fun rest hrest => reads_some (mentions_construct _ ?_) hrest
    exact List.forall_mem_append.mpr ⟨List.forall_mem_cons.mpr ⟨he, hparts⟩, horder⟩

theorem reads_castCall (h : AreNamed P tokens) : Reads P (Mentions P) (castCall operand tokens) := by
  refine (reads_required (hoperand .or tokens h)).bind fun e rest he hrest => ?_
  refine reads_afterKeyword hrest fun rest hrest => ?_
  refine (reads_castType hrest).bind fun type rest _ hrest => ?_
  exact reads_after hrest fun rest hrest => reads_some he hrest

theorem reads_call (name : String) (h : AreNamed P tokens) : Reads P (Mentions P) (call operand name tokens) := by
  rw [call]
  refine reads_ite (reads_castCall hoperand h) ?_
  refine (reads_items (reads_argument hoperand) h).bind fun args rest hargs hrest => ?_
  refine reads_after hrest fun rest hrest => ?_
  cases hcall : call? name args with
  | none => exact reads_none
  | some e => exact reads_window hoperand (mentions_of_call? hargs hcall) hrest

theorem reads_nameOrCall (h : AreNamed P tokens) : Reads P (Mentions P) (nameOrCall operand tokens) := by
  refine (reads_freeName? h).bind fun name rest hname hrest => ?_
  dsimp only
  cases hopen : expect "(" rest with
  | some after => exact reads_call hoperand name.name (hrest.expect hopen)
  | none => exact reads_columnParts _ (List.forall_mem_singleton.mpr hname) hrest

theorem reads_parenthesised (h : AreNamed P tokens) : Reads P (Mentions P) (parenthesised operand tokens) := by
  rw [parenthesised]
  cases hselect : select? operand tokens with
  | some step =>
    refine (reads_of_select? hoperand h hselect).bind fun query rest hquery hrest => ?_
    exact reads_after hrest fun rest hrest =>
      reads_some (mentions_construct _ (List.forall_mem_singleton.mpr hquery)) hrest
  | none =>
    refine (reads_commaSeparated (reads_expression hoperand) _ h).bind fun found rest hfound hrest => ?_
    refine reads_after hrest fun rest hrest => ?_
    obtain ⟨es, danglingComma⟩ := found
    dsimp only
    split
    · exact reads_some (mentions_construct _ hfound) hrest
    · have he := List.forall_mem_singleton.mp hfound
      exact reads_some he hrest
    · exact reads_some (mentions_construct _ hfound) hrest

theorem reads_branches (bound : Nat) (h : AreNamed P tokens) :
    Reads P (fun found => ∀ branch ∈ found, Mentions P branch.1 ∧ Mentions P branch.2)
      (branches operand bound tokens) := by
  induction bound generalizing tokens with
  | zero => exact reads_none
  | succ bound ih =>
    rw [branches]
    cases hwhen : expectKeyword "WHEN" tokens with
    | none => exact reads_some (List.forall_mem_nil _) h
    | some rest =>
      refine (reads_required (hoperand .or rest (h.expectKeyword hwhen))).bind fun condition rest hcondition hrest => ?_
      refine (reads_required (hoperand .or _ hrest.getD_expectKeyword)).bind fun value rest hvalue hrest => ?_
      refine (ih hrest).bind fun others rest hothers hrest => reads_some ?_ hrest
      exact List.forall_mem_cons.mpr ⟨⟨hcondition, hvalue⟩, hothers⟩

theorem reads_caseExpression (h : AreNamed P tokens) : Reads P (Mentions P) (caseExpression operand tokens) := by
  refine (hoperand .or tokens h).bind fun subject rest hsubject hrest => ?_
  refine (reads_branches hoperand _ hrest).bind fun branches rest hbranches hrest => ?_
  have hend : ∀ otherwise rest, (∀ e ∈ otherwise, Mentions P e) → AreNamed P rest → Reads P (Mentions P) (do
      let rest ← expectKeyword "END" rest
      if branches.isEmpty then none else return (case subject branches otherwise, rest)) := by
    intro otherwise rest hotherwise hrest
    refine reads_afterKeyword hrest fun rest hrest => ?_
    exact reads_ite reads_none (reads_some (mentions_case hsubject hbranches hotherwise) hrest)
  dsimp only
  cases helse : expectKeyword "ELSE" rest with
  | some after => exact (hoperand .or after (hrest.expectKeyword helse)).bind hend
  | none => exact hend none rest nofun hrest

theorem reads_primary (h : AreNamed P tokens) : Reads P (∀ e ∈ ·, Mentions P e) (primary operand tokens) := by
  have hconstant := reads_constant? h
  have htyped := reads_typedConstant? h
  unfold primary
  dsimp only
  split
  · rename_i step heq
    exact reads_found (heq ▸ hconstant)
  · rename_i step _ heq
    exact reads_found (heq ▸ htyped)
  · refine reads_some ?_ h.tail
    rintro _ ⟨⟩
    exact List.forall_mem_nil _
  · refine reads_found ((reads_parenthesised hoperand h.tail).bind fun e rest he hrest => ?_)
    exact reads_window hoperand he hrest
  · refine reads_found ((reads_items (reads_expression hoperand) h.tail).bind fun es rest hes hrest => ?_)
    exact reads_after hrest fun rest hrest => reads_some (mentions_construct _ hes) hrest
  · refine reads_ite (reads_found (reads_caseExpression hoperand h.tail)) (reads_ite (reads_some ?_ h.tail)
      (reads_ite (reads_found (reads_nameOrCall hoperand h)) (reads_some nofun h)))
    rintro _ ⟨⟩
    exact mentions_construct _ (List.forall_mem_nil _)
  · exact reads_some nofun h

theorem reads_unary (h : AreNamed P tokens) : Reads P (∀ e ∈ ·, Mentions P e) (unary operand tokens) := by
  unfold unary
  split
  · refine (reads_required (hoperand .unary _ h.tail)).bind fun e rest he hrest => reads_some ?_ hrest
    rintro _ ⟨⟩
    exact he
  · exact hoperand .unary _ h.tail
  · dsimp only
    cases hnot : expectKeyword "NOT" tokens with
    | some rest =>
      refine (reads_required (hoperand .equality rest (h.expectKeyword hnot))).bind fun e rest he hrest =>
        reads_some ?_ hrest
      rintro _ ⟨⟩
      exact he
    | none =>
      refine (reads_primary hoperand h).bind fun e rest he hrest => ?_
      cases e with
      | none => exact reads_some nofun hrest
      | some e =>
        refine (reads_casts _ (he e rfl) hrest).bind fun found rest hfound hrest => reads_some ?_ hrest
        rintro _ ⟨⟩
        exact hfound

/-- What `IS` tests for, once it is known whether the test is negated. -/
theorem reads_tested (negated : Bool) (he : Mentions P e) (h : AreNamed P tokens) : Reads P (Mentions P) (do
    let (tested, rest) ←
      match expectKeyword "NULL" tokens with
      | some rest => some (null, rest)
      | none => required (operand .bitwise tokens)
    casts (rest.length + 1) (if negated then not (is e tested) else is e tested) rest) := by
  have htested : ∀ (tested : Expression) rest, Mentions P tested → AreNamed P rest →
      Reads P (Mentions P) (casts (rest.length + 1) (if negated then not (is e tested) else is e tested) rest) := by
    intro tested rest htested hrest
    refine reads_casts _ ?_ hrest
    cases negated
    · exact mentions_is he htested
    · have his := mentions_is he htested
      exact his
  dsimp only
  cases hnull : expectKeyword "NULL" tokens with
  | some after => exact htested null after (List.forall_mem_nil _) (h.expectKeyword hnull)
  | none => exact (reads_required (hoperand .bitwise tokens h)).bind htested

theorem reads_isTest (he : Mentions P e) (h : AreNamed P tokens) : Reads P (Mentions P) (isTest operand e tokens) := by
  rw [isTest]
  cases hnot : expectKeyword "NOT" tokens with
  | some rest => exact reads_tested hoperand true he (h.expectKeyword hnot)
  | none => exact reads_tested hoperand false he h

theorem reads_of_rangeTest? (he : Mentions P e) (negated : Bool) (h : AreNamed P tokens)
    {step : Option (Expression × List Token)} (htest : rangeTest? operand e negated tokens = some step) :
    Reads P (Mentions P) step := by
  have hnegate : ∀ {test : Expression}, Mentions P test → Mentions P (if negated then not test else test) := by
    intro test ht
    split
    · exact ht
    · exact ht
  cases tokens with
  | nil => cases htest
  | cons token rest =>
    rw [rangeTest?] at htest
    dsimp only at htest
    by_cases hin : token.isKeyword "IN" = true
    · rw [if_pos hin] at htest
      cases htest
      refine reads_after h.tail fun rest hrest => ?_
      refine (reads_items (reads_argument hoperand) hrest).bind fun es rest hes hrest => ?_
      refine reads_after hrest fun rest hrest => reads_some (hnegate (mentions_construct _ ?_)) hrest
      exact List.forall_mem_cons.mpr ⟨he, hes⟩
    rw [if_neg hin] at htest
    by_cases hbetween : token.isKeyword "BETWEEN" = true
    · rw [if_pos hbetween] at htest
      cases htest
      refine (reads_required (hoperand .bitwise _ h.tail)).bind fun low rest hlow hrest => ?_
      refine (reads_required (hoperand .bitwise _ hrest.getD_expectKeyword)).bind fun high rest hhigh hrest => ?_
      refine reads_some (hnegate (mentions_construct _ ?_)) hrest
      exact List.forall_mem_cons.mpr ⟨he, List.forall_mem_cons.mpr ⟨hlow, List.forall_mem_singleton.mpr hhigh⟩⟩
    rw [if_neg hbetween] at htest
    by_cases hlike : token.isKeyword "LIKE" = true
    · rw [if_pos hlike] at htest
      cases htest
      refine (reads_required (hoperand .bitwise _ h.tail)).bind fun pattern rest hpattern hrest => ?_
      refine reads_some (mentions_construct _ ?_) hrest
      exact List.forall_mem_cons.mpr ⟨he, List.forall_mem_singleton.mpr hpattern⟩
    rw [if_neg hlike] at htest
    by_cases his : token.isKeyword "IS" = true
    · rw [if_pos his] at htest
      cases htest
      exact (reads_isTest hoperand he h.tail).map fun test ht => hnegate ht
    · rw [if_neg his] at htest
      cases htest

/-- The test for a constant that may stand behind the other tests. -/
theorem reads_lastTest (he : Mentions P e) (h : AreNamed P tokens) : Reads P (∀ e ∈ ·, Mentions P e)
    (match expectKeyword "IS" tokens with
    | some rest => do
      let (e, rest) ← isTest operand e rest
      return (some e, rest)
    | none => return (some e, tokens)) := by
  have hsome : ∀ {e : Expression}, Mentions P e → ∀ found ∈ some e, Mentions P found := by
    rintro e he _ ⟨⟩
    exact he
  cases his : expectKeyword "IS" tokens with
  | some after =>
    exact (reads_isTest hoperand he (h.expectKeyword his)).bind fun e rest he hrest => reads_some (hsome he) hrest
  | none => exact reads_some (hsome he) h

theorem reads_rangeStrength (h : AreNamed P tokens) :
    Reads P (∀ e ∈ ·, Mentions P e) (rangeStrength operand tokens) := by
  have htest : ∀ (e : Expression) (negated : Bool) rest, Mentions P e → AreNamed P rest → Reads P (Mentions P)
      ((rangeTest? operand e negated rest).getD (some (if negated then not e else e, rest))) := by
    intro e negated rest he hrest
    cases hfound : rangeTest? operand e negated rest with
    | some step => exact reads_of_rangeTest? hoperand he negated hrest hfound
    | none =>
      refine reads_some ?_ hrest
      split
      · exact he
      · exact he
  refine (hoperand .bitwise tokens h).bind fun e rest he hrest => ?_
  cases e with
  | none => exact reads_ite reads_none (reads_some nofun hrest)
  | some e =>
    dsimp only
    cases hnot : expectKeyword "NOT" rest with
    | some after =>
      exact (htest e true after (he e rfl) (hrest.expectKeyword hnot)).bind fun _ _ => reads_lastTest hoperand
    | none => exact (htest e false rest (he e rfl) hrest).bind fun _ _ => reads_lastTest hoperand

end

/-! ### The whole -/

theorem reads_operands (bound : Nat) (strength : Strength) (tokens : List Token) (h : AreNamed P tokens) :
    Reads P (∀ e ∈ ·, Mentions P e) (operands bound strength tokens) := by
  induction bound generalizing strength tokens with
  | zero => exact reads_none
  | succ bound ih =>
    unfold operands
    split
    · exact reads_unary ih h
    · exact reads_rangeStrength ih h
    · refine (ih strength.tighter tokens h).bind fun left rest hleft hrest => ?_
      refine reads_chain (ih strength.tighter) (fun token combine hcombine left right => ?_) _ hleft hrest
      exact mentions_of_operator? hcombine

/-- What is read up to the end of a statement is the statement. -/
theorem mentions_of_end {step : Option (Option Expression × List Token)} {found : Option Expression}
    (h : Reads P (∀ e ∈ ·, Mentions P e) step)
    (hfound : (step >>= fun (e, rest) => if rest.isEmpty then some e else none) = some found) :
    ∀ e ∈ found, Mentions P e := by
  obtain ⟨⟨e, rest⟩, hread, hfound⟩ := Option.bind_eq_some_iff.mp hfound
  dsimp only at hfound
  split at hfound <;> cases hfound
  exact (h _ _ hread).1

theorem mentions_of_statement? (h : AreNamed P tokens) {found : Option Expression}
    (hfound : statement? tokens = some found) : ∀ e ∈ found, Mentions P e := by
  have hoperand : ∀ strength rest, AreNamed P rest →
      Reads P (∀ e ∈ ·, Mentions P e) (operands (boundFor tokens) strength rest) := reads_operands _
  rw [statement?] at hfound
  dsimp only at hfound
  cases hselect : select? (operands (boundFor tokens)) tokens with
  | some step =>
    rw [hselect] at hfound
    exact mentions_of_end (reads_found (reads_of_select? hoperand h hselect)) hfound
  | none =>
    rw [hselect] at hfound
    exact mentions_of_end (reads_expression hoperand tokens h) hfound

/-! ### Statements -/

theorem subset_of_mem_statements {statement : List Token} (h : statement ∈ statements tokens) : statement ⊆ tokens := by
  fun_induction statements tokens generalizing statement with
  | case1 => simp_all
  | case2 => simp_all
  | case3 => simp_all
  | case4 rest _ ih =>
    rcases List.mem_cons.mp h with rfl | h
    · exact List.nil_subset _
    · exact List.subset_cons_of_subset _ (ih h)
  | case5 token rest _ _ first others heq ih =>
    rcases List.mem_cons.mp h with rfl | h
    · exact List.cons_subset_cons _ (ih (heq ▸ List.mem_cons_self))
    · exact List.subset_cons_of_subset _ (ih (heq ▸ List.mem_cons_of_mem _ h))
  | case6 token rest _ _ heq ih => simp_all

theorem statements_of_notMem (h : Token.symbol ";" ∉ tokens) : statements tokens = [tokens] := by
  fun_induction statements tokens with
  | case1 => rfl
  | case2 => exact absurd List.mem_cons_self h
  | case3 => rfl
  | case4 => exact absurd List.mem_cons_self h
  | case5 token rest _ _ first others heq ih =>
    have hrest := heq.symm.trans (ih fun hmem => h (List.mem_cons_of_mem _ hmem))
    cases hrest
    rfl
  | case6 token rest _ _ heq ih => cases heq.symm.trans (ih fun hmem => h (List.mem_cons_of_mem _ hmem))

end Parser

theorem mentions_of_ofTokens? (h : ofTokens? tokens = some e) (hnames : Parser.AreNamed P tokens) : Mentions P e := by
  obtain ⟨found, hfound, h⟩ := Option.bind_eq_some_iff.mp h
  cases hstatements : Parser.statements tokens with
  | nil =>
    rw [hstatements] at hfound
    cases hfound
    cases h
  | cons first others =>
    have hfirst : first ⊆ tokens := Parser.subset_of_mem_statements (hstatements ▸ List.mem_cons_self)
    rw [hstatements, List.mapM_cons] at hfound
    obtain ⟨read, hread, hfound⟩ := Option.bind_eq_some_iff.mp hfound
    obtain ⟨rest, -, heq⟩ := Option.bind_eq_some_iff.mp hfound
    cases heq
    exact Parser.mentions_of_statement? (fun token htoken => hnames token (hfirst htoken)) hread e h

/-- What an expression mentions is named by a token of its text. -/
theorem exists_token_of_mem_references (h : ofTokens? tokens = some e) {r : Reference} (hr : r ∈ e.references)
    {s : String} (hs : s ∈ r.names) : ∃ token ∈ tokens, token.name? = some s :=
  mentions_of_ofTokens? (P := fun s => ∃ token ∈ tokens, token.name? = some s) h
    (fun token htoken _ hname => ⟨token, htoken, hname⟩) r hr s hs

end Expression

end QueryFederation
