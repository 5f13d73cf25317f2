import Mathlib.Data.List.TakeWhile
import QueryFederation.Value.Arithmetic

/-!
# Numbers as they are written

A text is taken for a number if it is a numeral once the blanks around it are gone: a sign, digits with at most one
point among them, and a power of ten. The reader of integers and that of doubles take a text apart in the same way, and
neither reads a text that is no numeral.

A whole number may be written with zeros in front. They are worth nothing, but they are digits, and a text of too many
digits is not read as an integer, however small the number. It is left to the reader of doubles.
-/

/-! ### Digits and blanks -/

namespace QueryFederation.Text

variable {c : Char} {before body after digits rest : List Char}

abbrev AreDigits (cs : List Char) : Prop := ∀ c ∈ cs, isDigit c = true

theorem length_filterMap_digitValue? (h : AreDigits digits) : (digits.filterMap digitValue?).length = digits.length :=
  List.filterMap_length_eq_length.mpr h

theorem filterMap_digitValue?_eq_nil_iff (h : AreDigits digits) : digits.filterMap digitValue? = [] ↔ digits = [] := by
  rw [← List.length_eq_zero_iff, length_filterMap_digitValue? h, List.length_eq_zero_iff]

theorem spanDigits_append (hdigits : AreDigits digits) (hrest : ∀ c ∈ rest.head?, isDigit c = false) :
    spanDigits (digits ++ rest) = (digits.filterMap digitValue?, rest) := by
  induction digits with
  | nil =>
    cases rest with
    | nil => rfl
    | cons c rest =>
      have hc : digitValue? c = none := by simpa [isDigit] using hrest c rfl
      simp [spanDigits, hc]
  | cons c digits ih =>
    obtain ⟨hc, hdigits⟩ := List.forall_mem_cons.mp hdigits
    obtain ⟨d, hd⟩ := Option.isSome_iff_exists.mp hc
    simp [spanDigits, hd, ih hdigits]

theorem exists_spanDigits (cs : List Char) : ∃ digits rest,
    cs = digits ++ rest ∧ AreDigits digits ∧ spanDigits cs = (digits.filterMap digitValue?, rest) := by
  induction cs with
  | nil => exact ⟨[], [], rfl, nofun, rfl⟩
  | cons c cs ih =>
    obtain ⟨digits, rest, hcs, hdigits, hspan⟩ := ih
    cases hc : digitValue? c with
    | none => exact ⟨[], c :: cs, rfl, nofun, by simp [spanDigits, hc]⟩
    | some d =>
      refine ⟨c :: digits, rest, by rw [hcs, List.cons_append], List.forall_mem_cons.mpr ⟨?_, hdigits⟩, ?_⟩
      · simp [isDigit, hc]
      · simp [spanDigits, hc, hspan]

theorem isBlank_of_isDigit (h : isDigit c = true) : isBlank c = false := by
  -- The ranges of blanks lie between the digits of the writing systems.
  have hapart : ∀ z ∈ digitZeros, ∀ range ∈ blankRanges, ¬(range.1 ≤ z + 9 ∧ z ≤ range.2) := by decide
  rw [isDigit, digitValue?, Option.isSome_map, List.find?_isSome] at h
  obtain ⟨z, hz, hc⟩ := h
  rw [isBlank, List.any_eq_false]
  intro range hrange
  have := hapart z hz range hrange
  simp only [Bool.and_eq_true, decide_eq_true_eq] at hc ⊢
  omega

theorem trimList_append (hbefore : ∀ c ∈ before, isBlank c = true) (hbody : ∀ c ∈ body, isBlank c = false)
    (hne : body ≠ []) (hafter : ∀ c ∈ after, isBlank c = true) : trimList (before ++ (body ++ after)) = body := by
  obtain ⟨c, rest, rfl⟩ := List.exists_cons_of_ne_nil hne
  have hlast : ((c :: rest).reverse).dropWhile isBlank = (c :: rest).reverse :=
    List.dropWhile_eq_self_iff.mpr fun hpos =>
      ne_true_of_eq_false (hbody _ (List.mem_reverse.mp (List.getElem_mem hpos)))
  rw [trimList, List.dropWhile_append_of_pos hbefore, List.cons_append,
    List.dropWhile_cons_of_neg (ne_true_of_eq_false (hbody c List.mem_cons_self)), ← List.cons_append,
    List.reverse_append, List.dropWhile_append_of_pos (by simpa using hafter), hlast, List.reverse_reverse]

theorem ofDigits_append_of_zeros {zeros digits : List Nat} (h : ∀ d ∈ zeros, d = 0) :
    ofDigits (zeros ++ digits) = ofDigits digits := by
  induction zeros with
  | nil => rfl
  | cons d zeros ih =>
    obtain ⟨rfl, hzeros⟩ := List.forall_mem_cons.mp h
    exact ih hzeros

end QueryFederation.Text

/-! ### Signs -/

namespace QueryFederation.Number

open Text

/-- The sign in front of a number, if there is one. -/
inductive Sign where
  | absent
  | plus
  | minus
  deriving DecidableEq, Repr

namespace Sign

variable {sign : Sign} {size : Nat}

def chars : Sign → List Char
  | absent => []
  | plus => ['+']
  | minus => ['-']

def isMinus : Sign → Bool
  | minus => true
  | _ => false

/-- The integer of this sign and size. -/
def apply (sign : Sign) (size : Nat) : Int := if sign.isMinus then -size else size

theorem apply_zero (sign : Sign) : sign.apply 0 = 0 := by
  cases sign <;> rfl

theorem natAbs_apply (sign : Sign) (size : Nat) : (sign.apply size).natAbs = size := by
  cases sign <;> simp [apply, isMinus]

theorem apply_neg_iff (h : 0 < size) : sign.apply size < 0 ↔ sign.isMinus = true := by
  cases sign <;> simp [apply, isMinus, h]

theorem isBlank_of_mem_chars {c : Char} (h : c ∈ sign.chars) : isBlank c = false := by
  cases sign with
  | absent => cases h
  | plus | minus =>
    obtain rfl := List.mem_singleton.mp h
    decide

theorem isDigit_of_mem_chars {c : Char} (h : c ∈ sign.chars) : isDigit c = false := by
  cases sign with
  | absent => cases h
  | plus | minus =>
    obtain rfl := List.mem_singleton.mp h
    decide

end Sign

variable {cs digits whole fraction exponent : List Char}

theorem readSign_append (sign : Sign) (h : ∀ c ∈ cs.head?, c ≠ '-' ∧ c ≠ '+') :
    Decimal.readSign (sign.chars ++ cs) = (sign.isMinus, cs) := by
  cases sign with
  | plus | minus => rfl
  | absent =>
    rw [Sign.chars, List.nil_append, Decimal.readSign.eq_def]
    split
    · exact absurd rfl (h '-' rfl).1
    · exact absurd rfl (h '+' rfl).2
    · rfl

theorem exists_readSign (cs : List Char) :
    ∃ (sign : Sign) (rest : List Char), cs = sign.chars ++ rest ∧ Decimal.readSign cs = (sign.isMinus, rest) := by
  rw [Decimal.readSign.eq_def]
  split
  · exact ⟨.minus, _, rfl, rfl⟩
  · exact ⟨.plus, _, rfl, rfl⟩
  · exact ⟨.absent, _, rfl, rfl⟩

/-- Digits do not start with a sign. -/
theorem ne_sign_of_mem_head? (hdigits : AreDigits digits) (hne : digits ≠ []) (rest : List Char) :
    ∀ c ∈ (digits ++ rest).head?, c ≠ '-' ∧ c ≠ '+' := by
  obtain ⟨c, digits, rfl⟩ := List.exists_cons_of_ne_nil hne
  rintro _ ⟨⟩
  have hc := hdigits c List.mem_cons_self
  constructor <;> (rintro rfl; exact absurd hc (by decide))

/-- A sign and digits are taken apart into these. -/
theorem readSign_digits (sign : Sign) (hdigits : AreDigits digits) (hne : digits ≠ []) :
    Decimal.readSign (sign.chars ++ digits) = (sign.isMinus, digits)
      ∧ spanDigits digits = (digits.filterMap digitValue?, []) := by
  have hread := readSign_append sign (ne_sign_of_mem_head? hdigits hne [])
  have hspan : spanDigits (digits ++ []) = _ := spanDigits_append hdigits nofun
  rw [List.append_nil] at hread hspan
  exact ⟨hread, hspan⟩

/-! ### Numerals -/

/-- Digits with at most one point among them. -/
inductive IsMantissa : List Char → Prop
  | whole {digits : List Char} (hdigits : AreDigits digits) (h : digits ≠ []) : IsMantissa digits
  | point {whole fraction : List Char} (hwhole : AreDigits whole) (hfraction : AreDigits fraction)
      (h : whole ++ fraction ≠ []) : IsMantissa (whole ++ '.' :: fraction)

/-- A power of ten, or nothing. -/
inductive IsExponent : List Char → Prop
  | absent : IsExponent []
  | power {e : Char} {sign : Sign} {digits : List Char} (he : e = 'e' ∨ e = 'E') (hdigits : AreDigits digits)
      (h : digits ≠ []) : IsExponent (e :: (sign.chars ++ digits))

/-- The texts that are taken for numbers, once the blanks around them are gone. -/
inductive IsNumeral : List Char → Prop
  | intro (sign : Sign) {mantissa exponent : List Char} (hmantissa : IsMantissa mantissa)
      (hexponent : IsExponent exponent) : IsNumeral (sign.chars ++ (mantissa ++ exponent))

/-- A power of ten starts with nothing that is part of a mantissa. -/
theorem IsExponent.not_mantissa {c : Char} (h : IsExponent exponent) (hc : c ∈ exponent.head?) :
    isDigit c = false ∧ c ≠ '.' := by
  cases h with
  | absent => cases hc
  | power he =>
    obtain rfl := Option.some_inj.mp hc
    rcases he with rfl | rfl <;> decide

theorem readExponent_isSome_iff : (Decimal.readExponent cs).isSome = true ↔ IsExponent cs := by
  constructor
  · intro h
    cases cs with
    | nil => exact .absent
    | cons e cs =>
      obtain ⟨sign, rest, rfl, hsign⟩ := exists_readSign cs
      obtain ⟨digits, after, rfl, hdigits, hspan⟩ := exists_spanDigits rest
      simp only [Decimal.readExponent, hsign, hspan] at h
      split at h
      · rename_i he
        split at h
        · cases h
        · rename_i hsome hspanned
          obtain ⟨rfl, rfl⟩ := Prod.mk.inj hspanned
          rw [List.append_nil]
          exact .power (by simpa using he) hdigits ((filterMap_digitValue?_eq_nil_iff hdigits).not.mp hsome)
        · cases h
      · cases h
  · rintro (_ | @⟨e, sign, digits, he, hdigits, hne⟩)
    · rfl
    · obtain ⟨hread, hspan⟩ := readSign_digits sign hdigits hne
      obtain ⟨d, rest, hvalues⟩ := List.exists_cons_of_ne_nil ((filterMap_digitValue?_eq_nil_iff hdigits).not.mpr hne)
      simp only [Decimal.readExponent, hread, hspan, hvalues]
      rw [if_pos (by simpa using he)]
      rfl

theorem ofChars?_whole (sign : Sign) (hwhole : AreDigits whole) (hne : whole ≠ [])
    (hend : ∀ c ∈ exponent.head?, isDigit c = false ∧ c ≠ '.') :
    Decimal.ofChars? (sign.chars ++ (whole ++ exponent)) = (Decimal.readExponent exponent).map
      fun e => ⟨sign.isMinus, ofDigits (whole.filterMap digitValue?), e⟩ := by
  have hread := readSign_append sign (ne_sign_of_mem_head? hwhole hne exponent)
  have hspan := spanDigits_append hwhole fun c hc => (hend c hc).1
  have hvalues : (whole.filterMap digitValue?).isEmpty = false := by
    rwa [List.isEmpty_eq_false_iff, ne_eq, filterMap_digitValue?_eq_nil_iff hwhole]
  simp only [Decimal.ofChars?, hread, hspan]
  split
  · exact absurd rfl (hend '.' rfl).2
  · simp only [hvalues, Bool.false_and, Bool.false_eq_true, if_false, List.append_nil, List.length_nil,
      Int.natCast_zero, Int.sub_zero, Option.map_eq_bind]
    rfl

theorem ofChars?_point (sign : Sign) (hwhole : AreDigits whole) (hfraction : AreDigits fraction)
    (hne : whole ++ fraction ≠ []) (hend : ∀ c ∈ exponent.head?, isDigit c = false) :
    Decimal.ofChars? (sign.chars ++ (whole ++ '.' :: fraction ++ exponent)) = (Decimal.readExponent exponent).map
      fun e => ⟨sign.isMinus, ofDigits ((whole ++ fraction).filterMap digitValue?), e - fraction.length⟩ := by
  have hstart : ∀ c ∈ (whole ++ '.' :: (fraction ++ exponent)).head?, c ≠ '-' ∧ c ≠ '+' := by
    cases whole with
    | nil => rintro _ ⟨⟩; decide
    | cons c whole => exact ne_sign_of_mem_head? hwhole nofun _
  have hread := readSign_append sign hstart
  have hspan : spanDigits (whole ++ '.' :: (fraction ++ exponent)) = _ :=
    spanDigits_append hwhole (by rintro _ ⟨⟩; decide)
  have hvalues : ((whole.filterMap digitValue?).isEmpty && (fraction.filterMap digitValue?).isEmpty) = false := by
    rw [← Bool.not_eq_true, Bool.and_eq_true, List.isEmpty_iff, List.isEmpty_iff,
      filterMap_digitValue?_eq_nil_iff hwhole, filterMap_digitValue?_eq_nil_iff hfraction, ← List.append_eq_nil_iff]
    exact hne
  rw [List.append_assoc, List.cons_append]
  simp only [Decimal.ofChars?, hread, hspan, spanDigits_append hfraction hend, hvalues, Bool.false_eq_true, if_false,
    length_filterMap_digitValue? hfraction, List.filterMap_append, Option.map_eq_bind]
  rfl

theorem ofChars?_isSome_iff : (Decimal.ofChars? cs).isSome = true ↔ IsNumeral cs := by
  constructor
  · intro h
    obtain ⟨sign, rest, rfl, hsign⟩ := exists_readSign cs
    obtain ⟨whole, after, rfl, hwhole, hspan⟩ := exists_spanDigits rest
    simp only [Decimal.ofChars?, hsign, hspan] at h
    split at h
    · rename_i after
      obtain ⟨fraction, exponent, rfl, hfraction, hspan⟩ := exists_spanDigits after
      rw [hspan] at h
      split at h
      · cases h
      · rename_i hsome
        have hne : whole ++ fraction ≠ [] := by
          intro hnil
          obtain ⟨rfl, rfl⟩ := List.append_eq_nil_iff.mp hnil
          exact hsome rfl
        have hexponent := readExponent_isSome_iff.mp (Option.isSome_of_isSome_bind h)
        have hnumeral := IsNumeral.intro sign (.point hwhole hfraction hne) hexponent
        rwa [List.append_assoc] at hnumeral
    · split at h
      · cases h
      · rename_i hsome
        have hne : whole ≠ [] := by
          rintro rfl
          exact hsome rfl
        exact .intro sign (.whole hwhole hne) (readExponent_isSome_iff.mp (Option.isSome_of_isSome_bind h))
  · rintro @⟨sign, mantissa, exponent, hmantissa, hexponent⟩
    cases hmantissa with
    | whole hdigits hne =>
      rw [ofChars?_whole sign hdigits hne fun c hc => hexponent.not_mantissa hc, Option.isSome_map]
      exact readExponent_isSome_iff.mpr hexponent
    | point hwhole hfraction hne =>
      rw [ofChars?_point sign hwhole hfraction hne fun c hc => (hexponent.not_mantissa hc).1, Option.isSome_map]
      exact readExponent_isSome_iff.mpr hexponent

theorem integerOfChars?_whole (sign : Sign) (hdigits : AreDigits digits) (hne : digits ≠ []) :
    integerOfChars? (sign.chars ++ digits) = if integerDigitLimit < digits.length then none
      else some (sign.apply (ofDigits (digits.filterMap digitValue?))) := by
  obtain ⟨hread, hspan⟩ := readSign_digits sign hdigits hne
  obtain ⟨d, rest, hvalues⟩ := List.exists_cons_of_ne_nil ((filterMap_digitValue?_eq_nil_iff hdigits).not.mpr hne)
  simp only [integerOfChars?, hread, hspan, hvalues]
  rw [← hvalues, length_filterMap_digitValue? hdigits]
  rfl

theorem isNumeral_of_integerOfChars? {n : Int} (h : integerOfChars? cs = some n) : IsNumeral cs := by
  obtain ⟨sign, rest, rfl, hsign⟩ := exists_readSign cs
  obtain ⟨digits, after, rfl, hdigits, hspan⟩ := exists_spanDigits rest
  simp only [integerOfChars?, hsign, hspan] at h
  split at h
  · cases h
  · rename_i hsome hspanned
    obtain ⟨rfl, rfl⟩ := Prod.mk.inj hspanned
    exact .intro sign (.whole hdigits ((filterMap_digitValue?_eq_nil_iff hdigits).not.mp hsome)) .absent
  · cases h

/-- Just the numerals are taken for numbers. -/
theorem ofNumericText?_isSome_iff {s : String} :
    (Value.ofNumericText? s).isSome = true ↔ IsNumeral (trimList s.toList) := by
  rw [Value.ofNumericText?]
  split
  · rename_i hinteger
    exact iff_of_true rfl (isNumeral_of_integerOfChars? hinteger)
  · rw [Option.isSome_map, ofChars?_isSome_iff]

/-! ### Whole numbers -/

/-- A whole number as it is written: blanks around it, a sign, zeros in front, and the digits that denote it. -/
structure WholeNumeral where
  before : List Char
  sign : Sign
  zeros : List Char
  digits : List Char
  after : List Char
  before_isBlank : ∀ c ∈ before, isBlank c = true
  zeros_isZero : ∀ c ∈ zeros, digitValue? c = some 0
  digits_isDigit : AreDigits digits
  after_isBlank : ∀ c ∈ after, isBlank c = true
  ne_nil : zeros ++ digits ≠ []

namespace WholeNumeral

variable (w : WholeNumeral)

def text : String := String.ofList (w.before ++ (w.sign.chars ++ (w.zeros ++ w.digits) ++ w.after))

def value : Int := w.sign.apply (ofDigits (w.digits.filterMap digitValue?))

theorem isDigit_of_mem {c : Char} (h : c ∈ w.zeros ++ w.digits) : isDigit c = true := by
  rcases List.mem_append.mp h with hzero | hdigit
  · rw [isDigit, w.zeros_isZero c hzero]
    rfl
  · exact w.digits_isDigit c hdigit

theorem ofDigits_zeros_append :
    ofDigits ((w.zeros ++ w.digits).filterMap digitValue?) = ofDigits (w.digits.filterMap digitValue?) := by
  rw [List.filterMap_append]
  refine ofDigits_append_of_zeros fun d hd => ?_
  obtain ⟨c, hc, hvalue⟩ := List.mem_filterMap.mp hd
  rw [w.zeros_isZero c hc] at hvalue
  exact (Option.some_inj.mp hvalue).symm

theorem trimList_text : trimList w.text.toList = w.sign.chars ++ (w.zeros ++ w.digits) := by
  rw [text, String.toList_ofList]
  refine trimList_append w.before_isBlank (fun c hc => ?_) (by simp [w.ne_nil]) w.after_isBlank
  rcases List.mem_append.mp hc with hsign | hdigit
  · exact Sign.isBlank_of_mem_chars hsign
  · exact isBlank_of_isDigit (w.isDigit_of_mem hdigit)

theorem countP_isDigit_text : w.text.toList.countP isDigit = (w.zeros ++ w.digits).length := by
  have hblank : ∀ {cs : List Char}, (∀ c ∈ cs, isBlank c = true) → cs.countP isDigit = 0 := by
    intro cs hcs
    refine List.countP_eq_zero.mpr fun c hc hdigit => ?_
    exact absurd (hcs c hc) (ne_true_of_eq_false (isBlank_of_isDigit hdigit))
  have hsign : w.sign.chars.countP isDigit = 0 :=
    List.countP_eq_zero.mpr fun c hc => ne_true_of_eq_false (Sign.isDigit_of_mem_chars hc)
  have hdigits : (w.zeros ++ w.digits).countP isDigit = (w.zeros ++ w.digits).length :=
    List.countP_eq_length.mpr fun c => w.isDigit_of_mem
  rw [text, String.toList_ofList, List.countP_append, List.countP_append, List.countP_append,
    hblank w.before_isBlank, hblank w.after_isBlank, hsign, hdigits, Nat.zero_add, Nat.zero_add, Nat.add_zero]

/-- Zeros in front do not change the number, but they count as digits. -/
theorem ofNumericText?_text : Value.ofNumericText? w.text = some
    (if (w.zeros ++ w.digits).length ≤ integerDigitLimit then .integer w.value
      else .double (.ofDecimal ⟨w.sign.isMinus, ofDigits (w.digits.filterMap digitValue?), 0⟩)) := by
  have hdigits : AreDigits (w.zeros ++ w.digits) := fun c => w.isDigit_of_mem
  have hdecimal : Decimal.ofChars? (w.sign.chars ++ (w.zeros ++ w.digits ++ [])) = _ :=
    ofChars?_whole w.sign hdigits w.ne_nil nofun
  rw [List.append_nil, w.ofDigits_zeros_append] at hdecimal
  rw [Value.ofNumericText?, trimList_text, integerOfChars?_whole w.sign hdigits w.ne_nil, w.ofDigits_zeros_append,
    hdecimal]
  by_cases hlong : integerDigitLimit < (w.zeros ++ w.digits).length
  · rw [if_pos hlong, if_neg (Nat.not_le.mpr hlong)]
    rfl
  · rw [if_neg hlong, if_pos (Nat.not_lt.mp hlong)]
    rfl

end WholeNumeral

end QueryFederation.Number
