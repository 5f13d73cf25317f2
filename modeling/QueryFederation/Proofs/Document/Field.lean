import Mathlib.Data.List.Basic
import QueryFederation.Compilation.Document
import QueryFederation.Document.Field

/-!
# Fields by plain names

A name without a point is a path of one step, so the field at it is what the document has under the name. A point after
such a name leads into what is there.
-/

namespace QueryFederation.Document

variable {doc : Row} {name : String}

/-- Is there no point in the name? -/
def IsPlain (name : String) : Prop := '.' ∉ name.toList

instance : Decidable (IsPlain name) := inferInstanceAs (Decidable ('.' ∉ name.toList))

theorem splitOn_of_isPlain (h : IsPlain name) : name.toList.splitOn '.' = [name.toList] :=
  List.splitOnP_eq_singleton fun c hc => by
    rw [beq_eq_false_iff_ne]
    rintro rfl
    exact h hc

theorem pathNames_of_isPlain (h : IsPlain name) : pathNames name = [name] := by
  rw [pathNames, splitOn_of_isPlain h, List.map_singleton, String.ofList_toList]

theorem pathNames_point (rest : String) (h : IsPlain name) : pathNames (name ++ "." ++ rest) = name :: pathNames rest := by
  have hchars : (name ++ "." ++ rest).toList = name.toList ++ '.' :: rest.toList := by
    rw [String.toList_append, String.toList_append, List.append_assoc]
    rfl
  have hsplit : (name.toList ++ '.' :: rest.toList).splitOn '.' = name.toList.splitOn '.' ++ rest.toList.splitOn '.' :=
    List.splitOnP_append_cons _ _ (beq_self_eq_true '.')
  rw [pathNames, hchars, hsplit, splitOn_of_isPlain h, List.map_append, List.map_singleton, String.ofList_toList]
  rfl

theorem follow_single (name : String) (fields : Row) : follow [name] (.record fields) = fields.lookup name := by
  rw [follow]
  cases fields.lookup name <;> rfl

theorem field?_of_isPlain (doc : Row) (h : IsPlain name) : field? doc name = doc.lookup name := by
  rw [field?, pathNames_of_isPlain h, follow_single]

theorem field_of_isPlain (doc : Row) (h : IsPlain name) : field doc name = Row.get doc name := by
  rw [field, field?_of_isPlain doc h, Row.get]

/-- The field behind a point is one of the document that is there. -/
theorem field_behind_point {inner : Row} (hname : IsPlain name) (hinner : doc.lookup name = some (.record inner))
    (other : String) : field doc (name ++ "." ++ other) = field inner other := by
  rw [field, field, field?, field?, pathNames_point other hname, follow, hinner, Option.bind_some]

/-- A point in a path leads to a name behind another one. -/
theorem exists_pathNames_of_not_isPlain (h : ¬IsPlain name) :
    ∃ first second rest, pathNames name = first :: second :: rest := by
  obtain ⟨before, after, hchars⟩ := List.append_of_mem (not_not.mp h)
  have hsplit : name.toList.splitOn '.' = before.splitOn '.' ++ after.splitOn '.' := by
    rw [hchars]
    exact List.splitOnP_append_cons _ _ (beq_self_eq_true '.')
  rw [pathNames, hsplit]
  cases hbefore : before.splitOn '.' with
  | nil => exact absurd hbefore (List.splitOn_ne_nil _ _)
  | cons first others =>
    cases others with
    | nil =>
      cases hafter : after.splitOn '.' with
      | nil => exact absurd hafter (List.splitOn_ne_nil _ _)
      | cons second rest => exact ⟨_, _, _, rfl⟩
    | cons second rest => exact ⟨_, _, _, rfl⟩

/-- No path leads into a document without documents in it. -/
theorem field_of_not_isPlain (hdoc : ∀ entry ∈ doc, entry.2.isHashable = true) (h : ¬IsPlain name) :
    field doc name = .null := by
  obtain ⟨first, second, rest, hnames⟩ := exists_pathNames_of_not_isPlain h
  rw [field, field?, hnames, follow]
  cases hv : doc.lookup first with
  | none => rfl
  | some v =>
    obtain ⟨before, after, hentries, -⟩ := List.lookup_eq_some_iff.mp hv
    have hhashable := hdoc (first, v) (hentries ▸ List.mem_append_right _ List.mem_cons_self)
    cases v with
    | record => cases hhashable
    | _ => rfl

/-- A path starts as its first name does. -/
theorem head_pathNames {first : String} {rest : List String} (h : pathNames name = first :: rest)
    (hfirst : first.toList.head? = some '$') : name.toList.head? = some '$' := by
  rw [pathNames] at h
  cases hchars : name.toList with
  | nil =>
    rw [hchars] at h
    obtain ⟨rfl, -⟩ := List.cons.inj h
    cases hfirst
  | cons c cs =>
    rw [hchars, List.splitOn, List.splitOnP_cons_eq_if_modifyHead] at h
    split at h
    · obtain ⟨rfl, -⟩ := List.cons.inj h
      cases hfirst
    · cases hsplit : cs.splitOnP (· == '.') with
      | nil => exact absurd hsplit (List.splitOnP_ne_nil _ _)
      | cons chars others =>
        rw [hsplit] at h
        obtain ⟨rfl, -⟩ := List.cons.inj h
        rw [String.toList_ofList] at hfirst
        exact hfirst

/-- No other path leads into a document of one field whose name starts with a dollar. -/
theorem field_single {operator : String} (hoperator : operator.toList.head? = some '$')
    (h : name.toList.head? ≠ some '$') (v : Value) : field [(operator, v)] name = .null := by
  rw [field, field?]
  cases hnames : pathNames name with
  | nil => exact absurd (List.map_eq_nil_iff.mp hnames) (List.splitOn_ne_nil _ _)
  | cons first rest =>
    have hne : (first == operator) = false := by
      rw [beq_eq_false_iff_ne]
      rintro rfl
      exact h (head_pathNames hnames hoperator)
    rw [follow, List.lookup_cons, hne]
    rfl

theorem plainValue_fieldPath (doc : Row) (name : String) : plainValue doc (fieldPath name) = field doc name := by
  have hchars : ("$" ++ name).toList = '$' :: name.toList := by
    rw [String.toList_append]
    rfl
  rw [fieldPath, plainValue, textValue, hchars]
  change field doc (String.ofList name.toList) = _
  rw [String.ofList_toList]

theorem evaluate_fieldPath (doc : Row) (name : String) : evaluate doc (fieldPath name) = .ok (field doc name) := by
  rw [← plainValue_fieldPath]
  rfl

/-! ### Identifiers -/

theorem isPlain_append {other : String} (h : IsPlain name) (hother : IsPlain other) : IsPlain (name ++ other) := by
  rw [IsPlain, String.toList_append, List.mem_append]
  exact not_or.mpr ⟨h, hother⟩

theorem exists_chars_of_isIdentifier (h : isIdentifier name = true) : ∃ first rest, name.toList = first :: rest
    ∧ first ≠ '$' ∧ first ≠ '.' ∧ '.' ∉ rest := by
  rw [isIdentifier] at h
  cases hchars : name.toList with
  | nil =>
    rw [hchars] at h
    cases h
  | cons first rest =>
    rw [hchars] at h
    simp only [Bool.and_eq_true] at h
    obtain ⟨hfirst, hrest⟩ := h
    refine ⟨first, rest, rfl, ?_, ?_, fun hpoint => ?_⟩
    · rintro rfl
      revert hfirst
      decide
    · rintro rfl
      revert hfirst
      decide
    · -- A line feed may be the last character, and it is no point either.
      rw [Bool.or_eq_true, Bool.and_eq_true, decide_eq_true_eq, List.all_eq_true, List.all_eq_true] at hrest
      rcases hrest with hall | ⟨hlast, hall⟩
      · exact absurd (hall _ hpoint) (by decide)
      · have hmem : '.' ∈ rest.dropLast := List.mem_dropLast_of_mem_of_ne_getLast? hpoint (by rw [hlast]; decide)
        exact absurd (hall _ hmem) (by decide)

theorem isPlain_of_isIdentifier (h : isIdentifier name = true) : IsPlain name := by
  obtain ⟨first, rest, hchars, -, hfirst, hrest⟩ := exists_chars_of_isIdentifier h
  rw [IsPlain, hchars, List.mem_cons]
  exact not_or.mpr ⟨hfirst.symm, hrest⟩

/-! ### Records of fields -/

/-- A record without operators is evaluated field by field. -/
theorem evaluate_record {fields : Row} (h : ∀ key ∈ fields.keys, key.toList.head? ≠ some '$') :
    evaluate doc (.record fields) = do return .record (← evaluateFields doc fields) := by
  match fields, h with
  | [], _ => rfl
  | [(key, v)], h =>
    have hkey := h key List.mem_cons_self
    have hoperator : ∀ operator : String, operator.toList.head? = some '$' → key ≠ operator := by
      rintro operator hhead rfl
      exact hkey hhead
    rw [evaluate, if_neg (hoperator _ rfl), if_neg (hoperator _ rfl), if_neg (hoperator _ rfl), if_neg (hoperator _ rfl),
      evaluateFields]
    cases evaluate doc v <;> rfl
  | _ :: _ :: _, _ => rw [evaluate]; simp

theorem evaluateFields_of_forall {fields : Row} {f : Value → Value}
    (h : ∀ entry ∈ fields, evaluate doc entry.2 = .ok (f entry.2)) :
    evaluateFields doc fields = .ok (fields.map fun (key, v) => (key, f v)) := by
  induction fields with
  | nil => rfl
  | cons entry fields ih =>
    obtain ⟨key, v⟩ := entry
    obtain ⟨hentry, hfields⟩ := List.forall_mem_cons.mp h
    rw [evaluateFields, hentry, ih hfields]
    rfl

end QueryFederation.Document
