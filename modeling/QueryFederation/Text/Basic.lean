/-!
# Characters and parts of texts

What is blank, what is a digit, and what is part of what, in texts of all writing systems.
-/

namespace QueryFederation.Text

/-!
### Blank characters

The characters that count as white space when a text is trimmed: the separators of every writing system and the control
characters that move the position or separate records.
-/

def blankRanges : List (Nat × Nat) :=
  [(0x9, 0xD), (0x1C, 0x20), (0x85, 0x85), (0xA0, 0xA0), (0x1680, 0x1680), (0x2000, 0x200A), (0x2028, 0x2029),
   (0x202F, 0x202F), (0x205F, 0x205F), (0x3000, 0x3000)]

def isBlank (c : Char) : Bool := blankRanges.any fun (low, high) => low ≤ c.toNat && c.toNat ≤ high

def trimList (cs : List Char) : List Char :=
  ((cs.dropWhile isBlank).reverse.dropWhile isBlank).reverse

def trim (s : String) : String := String.ofList (trimList s.toList)

/-!
### Decimal digits

Every writing system that has decimal digits has them as ten neighbouring characters, zero first, so the zeros alone
determine which characters are digits and what each is worth. Number readers accept all of them.
-/

/-- The code points of the digit zero in each writing system. -/
def digitZeros : List Nat :=
  [0x30, 0x660, 0x6F0, 0x7C0, 0x966, 0x9E6, 0xA66, 0xAE6, 0xB66, 0xBE6, 0xC66, 0xCE6, 0xD66, 0xDE6, 0xE50,
   0xED0, 0xF20, 0x1040, 0x1090, 0x17E0, 0x1810, 0x1946, 0x19D0, 0x1A80, 0x1A90, 0x1B50, 0x1BB0, 0x1C40,
   0x1C50, 0xA620, 0xA8D0, 0xA900, 0xA9D0, 0xA9F0, 0xAA50, 0xABF0, 0xFF10, 0x104A0, 0x10D30, 0x11066, 0x110F0,
   0x11136, 0x111D0, 0x112F0, 0x11450, 0x114D0, 0x11650, 0x116C0, 0x11730, 0x118E0, 0x11950, 0x11C50, 0x11D50,
   0x11DA0, 0x16A60, 0x16AC0, 0x16B50, 0x1D7CE, 0x1D7D8, 0x1D7E2, 0x1D7EC, 0x1D7F6, 0x1E140, 0x1E2F0, 0x1E950,
   0x1FBF0]

def digitValue? (c : Char) : Option Nat :=
  (digitZeros.find? fun z => z ≤ c.toNat && c.toNat ≤ z + 9).map (c.toNat - ·)

def isDigit (c : Char) : Bool := (digitValue? c).isSome

/-- The digits a text starts with, as their values, and what follows them. -/
def spanDigits : List Char → List Nat × List Char
  | [] => ([], [])
  | c :: rest =>
    match digitValue? c with
    | none => ([], c :: rest)
    | some d => let (digits, after) := spanDigits rest; (d :: digits, after)

/-- The number that decimal digits spell, most significant first. -/
def ofDigits (digits : List Nat) : Nat := digits.foldl (fun n d => 10 * n + d) 0

/-!
### Parts

One text is a part of another if the other holds its characters next to each other. The empty text is a part of every
text.
-/

def isPartOf (part : List Char) : List Char → Bool
  | [] => part.isEmpty
  | c :: rest => part.isPrefixOf (c :: rest) || isPartOf part rest

def isPart (part whole : String) : Bool := isPartOf part.toList whole.toList

end QueryFederation.Text
