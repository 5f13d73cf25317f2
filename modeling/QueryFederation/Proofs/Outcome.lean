import Mathlib.Data.List.Forall2
import QueryFederation.Fault

/-!
# Outcomes

What a computation that can fail has done once it has come back. One computation after the other has come back from
both. Mapping and filtering a list has come back for every item, with what the computation gave for it. Computations
that correspond come back together, or fail together with the one fault that they can fail with. Those that are alike
may fail with different faults, as those do that go through the same items in different orders.
-/

namespace QueryFederation

theorem exists_of_bind_eq_ok {ε α β : Type} {x : Except ε α} {f : α → Except ε β} {b : β} (h : x >>= f = .ok b) :
    ∃ a, x = .ok a ∧ f a = .ok b := by
  cases x with
  | error e => cases h
  | ok a => exact ⟨a, rfl, h⟩

theorem bind_eq_error_iff {ε α β : Type} {x : Except ε α} {f : α → Except ε β} {e : ε} :
    x >>= f = .error e ↔ x = .error e ∨ ∃ a, x = .ok a ∧ f a = .error e := by
  cases x with
  | error e' => simp [bind, Except.bind]
  | ok a => simp [bind, Except.bind]

/-- What is read off the result of a computation does not tell in steps that it does not tell in. -/
theorem map_bind_congr {ε α β γ : Type} {x : Except ε α} {next next' : α → Except ε β} {read : β → γ}
    (h : ∀ a, (next a).map read = (next' a).map read) : (x >>= next).map read = (x >>= next').map read := by
  cases x with
  | error e => rfl
  | ok a => exact h a

theorem toOption_eq_some_iff {ε α : Type} {x : Except ε α} {a : α} : x.toOption = some a ↔ x = .ok a := by
  cases x <;> simp [Except.toOption]

/-- What comes back from two computations is the same if each of their steps comes back with the same. -/
theorem toOption_bind_congr {ε α β : Type} {x x' : Except ε α} {next next' : α → Except ε β}
    (hx : x'.toOption = x.toOption) (h : ∀ a, (next' a).toOption = (next a).toOption) :
    (x' >>= next').toOption = (x >>= next).toOption := by
  cases x with
  | error e =>
    cases x' with
    | error e' => rfl
    | ok a' => cases hx
  | ok a =>
    cases x' with
    | error e' => cases hx
    | ok a' =>
      obtain rfl := Option.some.inj hx
      exact h a'

section

variable {ε α β : Type} {items : List α}

/-- A fold fails where one of its steps is the first to fail. -/
theorem foldlM_eq_error_iff {f : β → α → Except ε β} {start : β} {e : ε} : items.foldlM f start = .error e
    ↔ ∃ before item after b, items = before ++ item :: after ∧ before.foldlM f start = .ok b ∧ f b item = .error e := by
  induction items generalizing start with
  | nil =>
    constructor
    · exact fun h => by cases h
    · rintro ⟨before, item, after, b, hitems, -, -⟩
      exact absurd hitems (by simp)
  | cons first rest ih =>
    rw [List.foldlM_cons, bind_eq_error_iff]
    constructor
    · rintro (hfirst | ⟨next, hnext, hrest⟩)
      · exact ⟨[], first, rest, start, rfl, rfl, hfirst⟩
      · obtain ⟨before, item, after, b, rfl, hbefore, hitem⟩ := ih.mp hrest
        refine ⟨first :: before, item, after, b, rfl, ?_, hitem⟩
        rw [List.foldlM_cons, hnext]
        exact hbefore
    · rintro ⟨before, item, after, b, hitems, hbefore, hitem⟩
      cases before with
      | nil =>
        obtain ⟨rfl, rfl⟩ := List.cons.inj hitems
        cases hbefore
        exact Or.inl hitem
      | cons next before =>
        obtain ⟨rfl, rfl⟩ := List.cons.inj hitems
        rw [List.foldlM_cons] at hbefore
        obtain ⟨c, hc, hbefore⟩ := exists_of_bind_eq_ok hbefore
        exact Or.inr ⟨c, hc, ih.mpr ⟨before, item, after, b, rfl, hbefore, hitem⟩⟩

/-- A mapped list fails where one of its items is the first to fail. -/
theorem mapM_eq_error_iff {f : α → Except ε β} {e : ε} : items.mapM f = .error e
    ↔ ∃ before item after, items = before ++ item :: after ∧ (∀ b ∈ before, ∃ result, f b = .ok result)
      ∧ f item = .error e := by
  induction items with
  | nil =>
    constructor
    · exact fun h => by cases h
    · rintro ⟨before, item, after, hitems, -, -⟩
      exact absurd hitems (by simp)
  | cons first rest ih =>
    have hpure : ∀ {result : β} {results : List β}, (pure (result :: results) : Except ε (List β)) ≠ .error e :=
      fun h => by cases h
    rw [List.mapM_cons, bind_eq_error_iff]
    constructor
    · rintro (hfirst | ⟨result, hresult, hrest⟩)
      · exact ⟨[], first, rest, rfl, by simp, hfirst⟩
      · obtain hrest | ⟨results, -, hdone⟩ := bind_eq_error_iff.mp hrest
        · obtain ⟨before, item, after, rfl, hbefore, hitem⟩ := ih.mp hrest
          exact ⟨first :: before, item, after, rfl, List.forall_mem_cons.mpr ⟨⟨result, hresult⟩, hbefore⟩, hitem⟩
        · exact absurd hdone hpure
    · rintro ⟨before, item, after, hitems, hbefore, hitem⟩
      cases before with
      | nil =>
        obtain ⟨rfl, rfl⟩ := List.cons.inj hitems
        exact Or.inl hitem
      | cons next before =>
        obtain ⟨rfl, rfl⟩ := List.cons.inj hitems
        obtain ⟨⟨result, hresult⟩, hbefore⟩ := List.forall_mem_cons.mp hbefore
        have hrest := ih.mpr ⟨before, item, after, rfl, hbefore, hitem⟩
        exact Or.inr ⟨result, hresult, bind_eq_error_iff.mpr (Or.inl hrest)⟩

theorem exists_foldlM_eq_ok {f : β → α → Except ε β} (h : ∀ item ∈ items, ∀ b, ∃ b', f b item = .ok b') (start : β) :
    ∃ b, items.foldlM f start = .ok b := by
  induction items generalizing start with
  | nil => exact ⟨start, rfl⟩
  | cons item items ih =>
    obtain ⟨hitem, hitems⟩ := List.forall_mem_cons.mp h
    obtain ⟨next, hnext⟩ := hitem start
    obtain ⟨b, hb⟩ := ih hitems next
    refine ⟨b, ?_⟩
    rw [List.foldlM_cons, hnext]
    exact hb

theorem exists_mapM_eq_ok {f : α → Except ε β} (h : ∀ item ∈ items, ∃ b, f item = .ok b) :
    ∃ bs, items.mapM f = .ok bs := by
  induction items with
  | nil => exact ⟨[], rfl⟩
  | cons item items ih =>
    obtain ⟨hitem, hitems⟩ := List.forall_mem_cons.mp h
    obtain ⟨b, hb⟩ := hitem
    obtain ⟨bs, hbs⟩ := ih hitems
    refine ⟨b :: bs, ?_⟩
    rw [List.mapM_cons, hb, hbs]
    rfl

end

/-! ### Lists that correspond -/

section

variable {α β : Type} {R : α → β → Prop} {as : List α} {bs : List β}

theorem exists_right_of_forall₂ (h : List.Forall₂ R as bs) {a : α} (ha : a ∈ as) : ∃ b ∈ bs, R a b := by
  induction h with
  | nil => cases ha
  | cons hhead htail ih =>
    rcases List.mem_cons.mp ha with rfl | ha
    · exact ⟨_, List.mem_cons_self, hhead⟩
    · obtain ⟨b, hb, hab⟩ := ih ha
      exact ⟨b, List.mem_cons_of_mem _ hb, hab⟩

theorem forall₂_imp_of_mem {S : α → β → Prop} (h : List.Forall₂ R as bs) (himp : ∀ a ∈ as, ∀ b, R a b → S a b) :
    List.Forall₂ S as bs := by
  induction h with
  | nil => exact .nil
  | cons hhead _ ih =>
    obtain ⟨hfirst, hothers⟩ := List.forall_mem_cons.mp himp
    exact .cons (hfirst _ hhead) (ih hothers)

theorem exists_left_of_forall₂ (h : List.Forall₂ R as bs) {b : β} (hb : b ∈ bs) : ∃ a ∈ as, R a b :=
  exists_right_of_forall₂ (R := flip R) h.flip hb

theorem forall₂_comp {γ : Type} {S : β → γ → Prop} {cs : List γ} (h : List.Forall₂ R as bs)
    (hnext : List.Forall₂ S bs cs) : List.Forall₂ (fun a c => ∃ b, R a b ∧ S b c) as cs := by
  induction h generalizing cs with
  | nil =>
    cases hnext
    exact .nil
  | cons hhead _ ih =>
    cases hnext with
    | cons hfirst hothers => exact .cons ⟨_, hhead, hfirst⟩ (ih hothers)

end

/-! ### Lists of outcomes -/

namespace Outcome

variable {α β : Type} {items : List α}

theorem toOption_beq_some [BEq α] [LawfulBEq α] {x : Outcome α} {a : α} : (x.toOption == some a) = true ↔ x = .ok a := by
  cases x <;> simp [Except.toOption]

theorem mapM_congr {ε : Type} {f g : α → Except ε β} (h : ∀ item ∈ items, f item = g item) :
    items.mapM f = items.mapM g := by
  induction items with
  | nil => rfl
  | cons item items ih =>
    obtain ⟨hitem, hitems⟩ := List.forall_mem_cons.mp h
    rw [List.mapM_cons, List.mapM_cons, hitem, ih hitems]

theorem mapM_eq_of_forall₂ {ε γ : Type} {f : α → Except ε γ} {g : β → Except ε γ} {others : List β}
    (h : List.Forall₂ (fun item other => f item = g other) items others) : items.mapM f = others.mapM g := by
  induction h with
  | nil => rfl
  | cons hfirst _ ih => rw [List.mapM_cons, List.mapM_cons, hfirst, ih]

theorem foldlM_congr {ε : Type} {f g : β → α → Except ε β} (h : ∀ item ∈ items, ∀ b, f b item = g b item) (start : β) :
    items.foldlM f start = items.foldlM g start := by
  induction items generalizing start with
  | nil => rfl
  | cons item items ih =>
    obtain ⟨hitem, hitems⟩ := List.forall_mem_cons.mp h
    rw [List.foldlM_cons, List.foldlM_cons, hitem]
    exact bind_congr fun next => ih hitems next

theorem mapM_of_forall {f : α → Outcome β} {g : α → β} (h : ∀ item ∈ items, f item = .ok (g item)) :
    items.mapM f = .ok (items.map g) := by
  induction items with
  | nil => rfl
  | cons item items ih =>
    obtain ⟨hitem, hitems⟩ := List.forall_mem_cons.mp h
    rw [List.mapM_cons, hitem, ih hitems]
    rfl

theorem exists_of_mapM_eq_ok {f : α → Outcome β} {results : List β} (h : items.mapM f = .ok results) :
    ∀ item ∈ items, ∃ result, f item = .ok result := by
  induction items generalizing results with
  | nil => exact fun _ hitem => absurd hitem List.not_mem_nil
  | cons item items ih =>
    rw [List.mapM_cons] at h
    cases hitem : f item with
    | error fault =>
      rw [hitem] at h
      cases h
    | ok result =>
      cases hitems : items.mapM f with
      | error fault =>
        rw [hitem, hitems] at h
        cases h
      | ok others => exact List.forall_mem_cons.mpr ⟨⟨result, hitem⟩, ih hitems⟩

theorem forall₂_of_mapM_eq_ok {ε : Type} {f : α → Except ε β} {results : List β} (h : items.mapM f = .ok results) :
    List.Forall₂ (fun item result => f item = .ok result) items results := by
  induction items generalizing results with
  | nil =>
    cases h
    exact .nil
  | cons item items ih =>
    rw [List.mapM_cons] at h
    obtain ⟨result, hitem, h⟩ := exists_of_bind_eq_ok h
    obtain ⟨others, hitems, h⟩ := exists_of_bind_eq_ok h
    cases h
    exact .cons hitem (ih hitems)

/-- To filter a list is to test all items, and then to keep those that have passed. -/
theorem filterM_eq_bind (test : α → Outcome Bool) (items : List α) : items.filterM test = (do
    let tested ← items.mapM fun item => do return (item, ← test item)
    return (tested.filter (·.2)).map (·.1)) := by
  have haux : ∀ before, List.filterAuxM test items before = (do
      let tested ← items.mapM fun item => do return (item, ← test item)
      return ((tested.filter (·.2)).map (·.1)).reverse ++ before) := by
    induction items with
    | nil => exact fun before => rfl
    | cons item items ih =>
      intro before
      rw [List.filterAuxM, List.mapM_cons]
      cases test item with
      | error fault => rfl
      | ok b =>
        refine (ih _).trans ?_
        cases items.mapM fun item => do return (item, ← test item) with
        | error fault => rfl
        | ok tested => cases b <;> simp [bind, Except.bind, pure, Except.pure]
  rw [List.filterM, haux]
  cases items.mapM fun item => do return (item, ← test item) with
  | error fault => rfl
  | ok tested => simp [bind, Except.bind, pure, Except.pure]

theorem filterM_of_forall {test : α → Outcome Bool} {keeps : α → Bool}
    (h : ∀ item ∈ items, test item = .ok (keeps item)) :
    items.filterM test = .ok (items.filter keeps) := by
  have htested : items.mapM (fun item => do return (item, ← test item) : α → Outcome (α × Bool))
      = .ok (items.map fun item => (item, keeps item)) :=
    mapM_of_forall fun item hitem => by rw [h item hitem]; rfl
  rw [filterM_eq_bind, htested]
  refine congrArg Except.ok ?_
  rw [List.filter_map, List.map_map]
  exact List.map_id _

theorem filterM_eq_ok {test : α → Outcome Bool} {kept : List α} (h : items.filterM test = .ok kept) :
    kept = items.filter fun item => (test item).toOption == some true := by
  rw [filterM_eq_bind] at h
  obtain ⟨tested, htested, -⟩ := exists_of_bind_eq_ok h
  have hpasses : ∀ item ∈ items, test item = .ok ((test item).toOption == some true) := by
    intro item hitem
    obtain ⟨_, hresult⟩ := exists_of_mapM_eq_ok htested item hitem
    obtain ⟨b, hb, -⟩ := exists_of_bind_eq_ok hresult
    rw [hb]
    cases b <;> rfl
  rw [← filterM_eq_bind, filterM_of_forall hpasses] at h
  exact (Except.ok.inj h).symm

theorem foldlM_of_forall {f : β → α → Outcome β} {g : β → α → β}
    (h : ∀ item ∈ items, ∀ b, f b item = .ok (g b item)) (start : β) :
    items.foldlM f start = .ok (items.foldl g start) := by
  induction items generalizing start with
  | nil => rfl
  | cons item items ih =>
    obtain ⟨hitem, hitems⟩ := List.forall_mem_cons.mp h
    rw [List.foldlM_cons, hitem]
    exact ih hitems _

/-! ### Outcomes with some results and faults -/

/-- Has the computation come back with a result of which `P` holds, or failed with a fault of which `F` holds? -/
def Yields {α : Type} (P : α → Prop) (F : Fault → Prop) : Outcome α → Prop
  | .ok a => P a
  | .error fault => F fault

namespace Yields

variable {α β : Type} {P : α → Prop} {Q : β → Prop} {F : Fault → Prop} {x : Outcome α}

theorem imp {P' : α → Prop} (h : Yields P F x) (himp : ∀ a, P a → P' a) : Yields P' F x := by
  cases x with
  | ok a => exact himp a h
  | error fault => exact h

theorem of_eq_error {fault : Fault} (h : Yields P F x) (hx : x = .error fault) : F fault := by
  subst hx
  exact h

theorem bind {f : α → Outcome β} (h : Yields P F x) (hnext : ∀ a, P a → Yields Q F (f a)) : Yields Q F (x >>= f) := by
  cases x with
  | ok a => exact hnext a h
  | error fault => exact h

theorem map {f : α → β} (h : Yields P F x) (hnext : ∀ a, P a → Q (f a)) : Yields Q F (x.map f) := by
  cases x with
  | ok a => exact hnext a h
  | error fault => exact h

theorem mapM {f : α → Outcome β} {as : List α} (h : ∀ a ∈ as, Yields Q F (f a)) :
    Yields (fun bs => ∀ b ∈ bs, Q b) F (as.mapM f) := by
  induction as with
  | nil => exact fun _ hb => absurd hb List.not_mem_nil
  | cons a as ih =>
    obtain ⟨hhead, htail⟩ := List.forall_mem_cons.mp h
    rw [List.mapM_cons]
    exact hhead.bind fun b hb => (ih htail).bind fun bs hbs => List.forall_mem_cons.mpr ⟨hb, hbs⟩

theorem foldlM {f : α → β → Outcome α} {bs : List β} (h : ∀ b ∈ bs, ∀ a, P a → Yields P F (f a b)) {start : α}
    (hstart : P start) : Yields P F (bs.foldlM f start) := by
  induction bs generalizing start with
  | nil => exact hstart
  | cons b bs ih =>
    obtain ⟨hhead, htail⟩ := List.forall_mem_cons.mp h
    rw [List.foldlM_cons]
    exact (hhead start hstart).bind fun _ hnext => ih htail hnext

theorem filterM {test : α → Outcome Bool} {as : List α} (h : ∀ a ∈ as, Yields (fun _ => True) F (test a)) :
    Yields (fun _ => True) F (as.filterM test) := by
  have htested : ∀ a ∈ as, Yields (fun _ => True) F (do return (a, ← test a) : Outcome (α × Bool)) :=
    fun a ha => (h a ha).bind fun _ _ => trivial
  rw [filterM_eq_bind]
  exact (mapM htested).bind fun _ _ => trivial

end Yields

/-- A computation that comes back with a result of which something holds, or fails with the fault and no other. -/
def OkOr {α : Type} (fault : Fault) (P : α → Prop) : Outcome α → Prop
  | .ok a => P a
  | .error other => other = fault

namespace OkOr

variable {α β : Type} {fault : Fault} {P : α → Prop} {Q : β → Prop} {x : Outcome α}

theorem iff_yields : OkOr fault P x ↔ Yields P (· = fault) x := by
  cases x <;> exact Iff.rfl

theorem imp {P' : α → Prop} (h : OkOr fault P x) (himp : ∀ a, P a → P' a) : OkOr fault P' x :=
  iff_yields.mpr ((iff_yields.mp h).imp himp)

theorem bind {f : α → Outcome β} (h : OkOr fault P x) (hnext : ∀ a, P a → OkOr fault Q (f a)) :
    OkOr fault Q (x >>= f) :=
  iff_yields.mpr ((iff_yields.mp h).bind fun a ha => iff_yields.mp (hnext a ha))

theorem mapM {f : α → Outcome β} {as : List α} (h : ∀ a ∈ as, OkOr fault (fun _ => True) (f a)) :
    OkOr fault (fun _ => True) (as.mapM f) :=
  iff_yields.mpr ((Yields.mapM fun a ha => iff_yields.mp (h a ha)).imp fun _ _ => trivial)

theorem foldlM {f : α → β → Outcome α} {bs : List β} (h : ∀ b ∈ bs, ∀ a, P a → OkOr fault P (f a b)) {start : α}
    (hstart : P start) : OkOr fault P (bs.foldlM f start) :=
  iff_yields.mpr (Yields.foldlM (fun b hb a ha => iff_yields.mp (h b hb a ha)) hstart)

end OkOr

/-! ### Outcomes that correspond -/

/-- Two computations have come back with results that correspond, or both of them have failed with the fault. -/
inductive Corresponds {α β : Type} (fault : Fault) (R : α → β → Prop) : Outcome α → Outcome β → Prop
  | ok {a : α} {b : β} (h : R a b) : Corresponds fault R (.ok a) (.ok b)
  | error : Corresponds fault R (.error fault) (.error fault)

namespace Corresponds

variable {α β γ δ : Type} {fault : Fault} {R : α → β → Prop} {S : γ → δ → Prop} {x : Outcome α} {y : Outcome β}

theorem exists_right (h : Corresponds fault R x y) {a : α} (hx : x = .ok a) : ∃ b, y = .ok b ∧ R a b := by
  cases h with
  | ok h =>
    cases hx
    exact ⟨_, rfl, h⟩
  | error => cases hx

theorem exists_left (h : Corresponds fault R x y) {b : β} (hy : y = .ok b) : ∃ a, x = .ok a ∧ R a b := by
  cases h with
  | ok h =>
    cases hy
    exact ⟨_, rfl, h⟩
  | error => cases hy

theorem okOr_left (h : Corresponds fault R x y) : OkOr fault (fun _ => True) x := by
  cases h with
  | ok => trivial
  | error => rfl

theorem okOr_right (h : Corresponds fault R x y) : OkOr fault (fun _ => True) y := by
  cases h with
  | ok => trivial
  | error => rfl

theorem of_exists (hx : OkOr fault (fun _ => True) x) (hy : OkOr fault (fun _ => True) y)
    (hright : ∀ a, x = .ok a → ∃ b, y = .ok b ∧ R a b) (hleft : ∀ b, y = .ok b → ∃ a, x = .ok a) :
    Corresponds fault R x y := by
  cases x with
  | ok a =>
    obtain ⟨b, rfl, hab⟩ := hright a rfl
    exact .ok hab
  | error other =>
    obtain rfl : other = fault := hx
    cases y with
    | ok b =>
      obtain ⟨a, ha⟩ := hleft b rfl
      cases ha
    | error other' =>
      obtain rfl : other' = other := hy
      exact .error

theorem bind {f : α → Outcome γ} {g : β → Outcome δ} (h : Corresponds fault R x y)
    (hnext : ∀ a b, R a b → Corresponds fault S (f a) (g b)) : Corresponds fault S (x >>= f) (y >>= g) := by
  cases h with
  | ok h => exact hnext _ _ h
  | error => exact .error

/-- Results for two lists that correspond are paired over the items of the second. -/
theorem mapM {T : β → γ → δ → Prop} {f : α → Outcome γ} {g : β → Outcome δ} {as : List α} {bs : List β}
    (h : List.Forall₂ (fun a b => Corresponds fault (T b) (f a) (g b)) as bs) :
    Corresponds fault (fun cs ds => ∃ pairs : List (γ × δ), List.Forall₂ (fun b p => T b p.1 p.2) bs pairs
      ∧ cs = pairs.map (·.1) ∧ ds = pairs.map (·.2)) (as.mapM f) (bs.mapM g) := by
  induction h with
  | nil => exact .ok ⟨[], .nil, rfl, rfl⟩
  | cons hhead _ ih =>
    rw [List.mapM_cons, List.mapM_cons]
    refine hhead.bind fun c d hfirst => ih.bind ?_
    rintro _ _ ⟨pairs, hpairs, rfl, rfl⟩
    exact .ok ⟨(c, d) :: pairs, .cons hfirst hpairs, rfl, rfl⟩

end Corresponds

/-! ### Outcomes that are alike -/

/-- Two computations have come back with results that are related, or both have failed, with whatever faults. -/
inductive Alike {α β : Type} (R : α → β → Prop) : Outcome α → Outcome β → Prop
  | ok {a : α} {b : β} (h : R a b) : Alike R (.ok a) (.ok b)
  | error (fault fault' : Fault) : Alike R (.error fault) (.error fault')

namespace Alike

variable {α β γ δ : Type} {R : α → β → Prop} {S : γ → δ → Prop} {x : Outcome α} {y : Outcome β} {items items' : List α}

theorem self (x : Outcome α) : Alike Eq x x := by
  cases x with
  | ok a => exact .ok rfl
  | error fault => exact .error fault fault

theorem of_exists (hright : ∀ a, x = .ok a → ∃ b, y = .ok b ∧ R a b) (hleft : ∀ b, y = .ok b → ∃ a, x = .ok a) :
    Alike R x y := by
  cases x with
  | ok a =>
    obtain ⟨b, rfl, hab⟩ := hright a rfl
    exact .ok hab
  | error fault =>
    cases y with
    | ok b =>
      obtain ⟨a, ha⟩ := hleft b rfl
      cases ha
    | error fault' => exact .error fault fault'

theorem and_left {P : α → Prop} (h : Alike R x y) (hx : ∀ a, x = .ok a → P a) : Alike (fun a b => R a b ∧ P a) x y := by
  cases h with
  | ok h => exact .ok ⟨h, hx _ rfl⟩
  | error fault fault' => exact .error fault fault'

theorem trans {R S T : α → α → Prop} {x y z : Outcome α} (hxy : Alike R x y) (hyz : Alike S y z)
    (h : ∀ a b c, R a b → S b c → T a c) : Alike T x z := by
  cases hxy with
  | ok hab =>
    cases hyz with
    | ok hbc => exact .ok (h _ _ _ hab hbc)
  | error fault fault' =>
    cases hyz with
    | error _ fault'' => exact .error fault fault''

theorem bind {f : α → Outcome γ} {g : β → Outcome δ} (h : Alike R x y) (hnext : ∀ a b, R a b → Alike S (f a) (g b)) :
    Alike S (x >>= f) (y >>= g) := by
  cases h with
  | ok h => exact hnext _ _ h
  | error fault fault' => exact .error fault fault'

/-- The order in which items are mapped shows in the order of the results alone, but for the fault that comes first. -/
theorem mapM_perm (f : α → Outcome β) (h : items.Perm items') :
    Alike List.Perm (items.mapM f) (items'.mapM f) := by
  induction h with
  | nil => exact .ok .nil
  | cons item _ ih =>
    rw [List.mapM_cons, List.mapM_cons]
    refine (self (f item)).bind ?_
    rintro b _ rfl
    exact ih.bind fun bs bs' hbs => .ok (hbs.cons b)
  | swap a b items =>
    simp only [List.mapM_cons]
    cases f a with
    | error fault => cases f b <;> exact .error _ _
    | ok c =>
      cases f b with
      | error fault => exact .error _ _
      | ok d =>
        cases items.mapM f with
        | error fault => exact .error _ _
        | ok others => exact .ok (.swap c d others)
  | trans _ _ hfirst hsecond => exact hfirst.trans hsecond fun _ _ _ => List.Perm.trans

theorem filterM_perm (test : α → Outcome Bool) (h : items.Perm items') :
    Alike List.Perm (items.filterM test) (items'.filterM test) := by
  rw [filterM_eq_bind, filterM_eq_bind]
  exact (mapM_perm _ h).bind fun _ _ htested => .ok ((htested.filter _).map _)

end Alike

end Outcome

end QueryFederation
