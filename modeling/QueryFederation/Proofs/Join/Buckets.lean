import Mathlib.Data.List.Induction
import QueryFederation.Proofs.Join.NestedLoop
import QueryFederation.Proofs.Value.Equality

/-!
# What is found in buckets

Items are grouped under keys by a test that tells keys apart. Where the test is symmetric and transitive, looking up a
key finds all items whose keys are equal to it, in their order: a key that is equal to nothing just opens a group that
nobody finds. Keys that rows can be looked up by are such keys, so the partners of a row in the buckets are the rows
that a nested loop would pair it with.
-/

namespace QueryFederation

namespace Groups

variable {κ α : Type} {same : κ → κ → Bool} {P : κ → Prop}

theorem forall_mem_add {key : κ} {item : α} {groups : Groups κ α} (hkey : P key) (hgroups : ∀ g ∈ groups, P g.1) :
    ∀ g ∈ add same key item groups, P g.1 := by
  induction groups with
  | nil => simpa [add] using hkey
  | cons group rest ih =>
    obtain ⟨k, items⟩ := group
    simp only [List.forall_mem_cons] at hgroups
    rw [add]
    split
    · exact List.forall_mem_cons.mpr hgroups
    · exact List.forall_mem_cons.mpr ⟨hgroups.1, ih hgroups.2⟩

theorem find_cons (key : κ) (items : List α) (rest : Groups κ α) (other : κ) :
    find same ((key, items) :: rest) other = if same key other then items else find same rest other := by
  cases h : same key other <;> simp [find, h]

section

variable (hcomm : ∀ a b, P a → P b → same a b = same b a)
  (htrans : ∀ a b c, P a → P b → P c → same a b → same b c → same a c)

include hcomm htrans

theorem find_add {key other : κ} {item : α} {groups : Groups κ α} (hkey : P key) (hother : P other)
    (hgroups : ∀ g ∈ groups, P g.1) :
    find same (add same key item groups) other = find same groups other ++ if same key other then [item] else [] := by
  induction groups with
  | nil =>
    rw [add, find_cons]
    simp [find]
  | cons group rest ih =>
    obtain ⟨k, items⟩ := group
    simp only [List.forall_mem_cons] at hgroups
    by_cases hk : same k key
    · have hiff : same k other = same key other := by
        rw [Bool.eq_iff_iff]
        constructor
        · exact htrans key k other hkey hgroups.1 hother (hcomm k key hgroups.1 hkey ▸ hk)
        · exact htrans k key other hgroups.1 hkey hother hk
      rw [add, if_pos hk, find_cons, find_cons, hiff]
      by_cases ho : same key other <;> simp [ho]
    · rw [add, if_neg hk, find_cons, find_cons, ih hgroups.2]
      by_cases ho : same k other
      · have hno : same key other = false := by
          rw [← Bool.not_eq_true]
          intro hyes
          rw [hcomm key other hkey hother] at hyes
          exact hk (htrans k other key hgroups.1 hother hkey ho hyes)
        simp [ho, hno]
      · simp [ho]

theorem find_ofPairs {pairs : List (κ × α)} (hpairs : ∀ p ∈ pairs, P p.1) {key : κ} (hkey : P key) :
    find same (ofPairs same pairs) key = (pairs.filter fun p => same p.1 key).map (·.2) := by
  have hgroups : (∀ g ∈ ofPairs same pairs, P g.1)
      ∧ find same (ofPairs same pairs) key = (pairs.filter fun p => same p.1 key).map (·.2) := by
    induction pairs using List.reverseRecOn with
    | nil => simp [ofPairs, find]
    | append_singleton pairs p ih =>
      obtain ⟨k, item⟩ := p
      simp only [List.mem_append, List.mem_singleton, or_imp, forall_and, forall_eq] at hpairs
      obtain ⟨hkeys, hfind⟩ := ih hpairs.1
      have hstep : ofPairs same (pairs ++ [(k, item)]) = add same k item (ofPairs same pairs) := by
        simp [ofPairs, List.foldl_append]
      rw [hstep]
      refine ⟨forall_mem_add hpairs.2 hkeys, ?_⟩
      rw [find_add hcomm htrans hpairs.2 hkey hkeys, hfind, List.filter_append, List.map_append]
      by_cases h : same k key <;> simp [h]
  exact hgroups.2

end

end Groups

/-! ### Keys -/

namespace Key

/-- Can rows be looked up by the key? -/
def IsHashable (key : Key) : Prop := key.all Value.isHashable = true

theorem same_comm {a b : Key} (ha : IsHashable a) (hb : IsHashable b) : same a b = same b a := by
  induction a generalizing b with
  | nil => cases b <;> simp [same, Value.sameItems]
  | cons v vs ih =>
    cases b with
    | nil => simp [same, Value.sameItems]
    | cons w ws =>
      simp only [IsHashable, List.all_cons, Bool.and_eq_true] at ha hb
      have htail := ih ha.2 hb.2
      simp only [same] at htail
      simp only [same, Value.sameItems]
      rw [Value.same_comm ha.1 hb.1, htail]

theorem same_trans {a b c : Key} (ha : IsHashable a) (hb : IsHashable b) (hc : IsHashable c)
    (hab : same a b = true) (hbc : same b c = true) : same a c = true := by
  induction a generalizing b c with
  | nil =>
    cases b with
    | nil => exact hbc
    | cons => simp [same, Value.sameItems] at hab
  | cons u us ih =>
    cases b with
    | nil => simp [same, Value.sameItems] at hab
    | cons v vs =>
      cases c with
      | nil => simp [same, Value.sameItems] at hbc
      | cons w ws =>
        simp only [IsHashable, List.all_cons, Bool.and_eq_true] at ha hb hc
        simp only [same, Value.sameItems, Bool.and_eq_true] at hab hbc ⊢
        exact ⟨Value.same_trans ha.1 hb.1 hc.1 hab.1 hbc.1, ih ha.2 hb.2 hc.2 hab.2 hbc.2⟩

end Key

namespace KeyedRow

/-- Can the row be looked up, if it has a key? -/
def IsHashable (r : KeyedRow) : Prop := ∀ key, r.key = some key → key.IsHashable

theorem matched_comm {a b : KeyedRow} (ha : a.IsHashable) (hb : b.IsHashable) : a.matched b = b.matched a := by
  rw [matched, matched]
  cases hka : a.key with
  | none => cases b.key <;> rfl
  | some k =>
    cases hkb : b.key with
    | none => rfl
    | some l => exact Key.same_comm (ha k hka) (hb l hkb)

private theorem sameItems_map {α : Type} (f g : α → Value) (items : List α) :
    Value.sameItems (items.map f) (items.map g) = items.all fun i => Value.same (f i) (g i) := by
  induction items with
  | nil => rfl
  | cons item items ih => rw [List.map_cons, List.map_cons, Value.sameItems, ih, List.all_cons]

/-- Rows have equal keys if they agree in all pairs of columns. -/
theorem matched_ofRow (pairs : List (String × String)) (left right : Row) :
    (ofRow (pairs.map (·.1)) left).matched (ofRow (pairs.map (·.2)) right) = Row.agree pairs left right := by
  have hagree : Row.agree pairs left right
      = (!(pairs.any fun p => (Row.get left p.1).joinKey.isNull)
          && !(pairs.any fun p => (Row.get right p.2).joinKey.isNull)
          && pairs.all fun p => Value.same (Row.get left p.1).joinKey (Row.get right p.2).joinKey) := by
    rw [Row.agree]
    induction pairs with
    | nil => rfl
    | cons p pairs ih =>
      rw [List.all_cons, ih, List.any_cons, List.any_cons, List.all_cons, Value.sameKey]
      cases (Row.get left p.1).joinKey.isNull <;> cases (Row.get right p.2).joinKey.isNull <;>
        cases pairs.any (fun p => (Row.get left p.1).joinKey.isNull) <;>
        cases pairs.any (fun p => (Row.get right p.2).joinKey.isNull) <;> simp
  rw [hagree, matched, ofRow, ofRow, Key.ofRow, Key.ofRow, List.map_map, List.map_map, List.any_map, List.any_map]
  simp only [Function.comp_def]
  cases pairs.any (fun p => (Row.get left p.1).joinKey.isNull) with
  | true => simp
  | false =>
    cases pairs.any (fun p => (Row.get right p.2).joinKey.isNull) with
    | true => simp
    | false => simpa [Key.same] using sameItems_map _ _ pairs

end KeyedRow

/-! ### Partners -/

namespace Buckets

theorem partners_ofRows {build : List KeyedRow} {r : KeyedRow} (hbuild : ∀ b ∈ build, b.IsHashable)
    (hr : r.IsHashable) : (ofRows build).partners r = (build.filter r.matched).map (·.row) := by
  rw [partners]
  cases hkey : r.key with
  | none =>
    have hnone : build.filter r.matched = [] := by
      rw [List.filter_eq_nil_iff]
      intro b _
      simp [KeyedRow.matched, hkey]
    rw [hnone]
    rfl
  | some key =>
    have hpairs : ∀ p ∈ build.filterMap fun b => b.key.map (·, b.row), p.1.IsHashable := by
      intro p hp
      obtain ⟨b, hb, hmap⟩ := List.mem_filterMap.mp hp
      obtain ⟨k, hk, rfl⟩ := Option.map_eq_some_iff.mp hmap
      exact hbuild b hb k hk
    change Groups.find Key.same (ofRows build) key = _
    rw [ofRows, Groups.find_ofPairs (P := Key.IsHashable) (fun _ _ => Key.same_comm) (fun _ _ _ => Key.same_trans)
      hpairs (hr key hkey)]
    clear hpairs
    induction build with
    | nil => rfl
    | cons b build ih =>
      simp only [List.forall_mem_cons] at hbuild
      rw [List.filterMap_cons]
      cases hb : b.key with
      | none => simpa [KeyedRow.matched, hkey, hb] using ih hbuild.2
      | some k =>
        have hcomm : Key.same k key = Key.same key k := Key.same_comm (hbuild.1 k hb) (hr key hkey)
        simp only [Option.map_some, List.filter_cons, KeyedRow.matched, hkey, hb, hcomm]
        split
        · simpa [KeyedRow.matched, hkey] using ih hbuild.2
        · simpa [KeyedRow.matched, hkey] using ih hbuild.2

end Buckets

namespace Join

variable {probe build : List KeyedRow} {pair : Option Row → Option Row → Row}

/-- The rows that look for partners come to their pairs and to those that stay alone. -/
theorem probed_perm (hprobe : ∀ p ∈ probe, p.IsHashable) (hbuild : ∀ b ∈ build, b.IsHashable) (keeps : Bool) :
    (probed (Buckets.ofRows build) keeps pair probe).Perm
      ((probe.flatMap fun p => (build.filter p.matched).map fun b => pair (some p.row) (some b.row))
        ++ if keeps then (probe.filter fun p => !build.any p.matched).map fun p => pair (some p.row) none else []) := by
  have hrow : probed (Buckets.ofRows build) keeps pair probe
      = probe.flatMap fun p => ((build.filter p.matched).map fun b => pair (some p.row) (some b.row))
          ++ if keeps && !build.any p.matched then [pair (some p.row) none] else [] := by
    rw [probed]
    apply List.flatMap_congr
    intro p hp
    rw [Buckets.partners_ofRows hbuild (hprobe p hp)]
    cases hfound : build.filter p.matched with
    | nil =>
      have hany : build.any p.matched = false := by
        rw [List.filter_eq_nil_iff] at hfound
        simpa using hfound
      simp [hany]
    | cons b bs =>
      have hany : build.any p.matched = true := by
        have hb : b ∈ build.filter p.matched := hfound ▸ List.mem_cons_self
        exact List.any_eq_true.mpr ⟨b, (List.mem_filter.mp hb).1, (List.mem_filter.mp hb).2⟩
      simp [hany]
  have halone : (if keeps then (probe.filter fun p => !build.any p.matched).map fun p => pair (some p.row) none else [])
      = probe.flatMap fun p => if keeps && !build.any p.matched then [pair (some p.row) none] else [] := by
    cases keeps with
    | false => simp
    | true => simp only [if_true, Bool.true_and, map_filter_eq_flatMap]
  rw [hrow, halone]
  exact (List.flatMap_append_perm probe _ _).symm

end Join

end QueryFederation
