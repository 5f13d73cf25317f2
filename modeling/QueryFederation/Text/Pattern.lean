import QueryFederation.Text.Case

/-!
# Patterns

A pattern is a list of steps, each of which takes one character, any number of characters, or none but only at the
start or the end of a text. Patterns have a text, which is what a document store is sent, and are read back from it;
SQL's LIKE has a text of its own, in which `%` stands for any characters and `_` for one.

The end of a text is also before a line feed that ends it.
-/

namespace QueryFederation.Text

inductive CharacterTest where
  | this (c : Char)
  | any
  deriving DecidableEq, Repr

inductive PatternStep where
  | one (test : CharacterTest)
  | many (test : CharacterTest)
  | start
  | finish
  deriving DecidableEq, Repr

abbrev Pattern := List PatternStep

structure MatchOptions where
  ignoreCase : Bool := false
  /-- Is a line feed one of any characters? -/
  anyLineFeed : Bool := false
  deriving DecidableEq, Repr

namespace Pattern

def accepts (options : MatchOptions) (test : CharacterTest) (c : Char) : Bool :=
  match test with
  | .this d => if options.ignoreCase then equalUpToCase d c else d = c
  | .any => options.anyLineFeed || c ≠ '\n'

/-- Is nothing left but a line feed at most? -/
def atEnd : List Char → Bool
  | [] => true
  | ['\n'] => true
  | _ => false

/-- Takes some of the first characters, all of which are accepted, so that what follows goes on with the rest. -/
def takesMany (accepted : Char → Bool) (goesOn : Bool → List Char → Bool) (atStart : Bool) : List Char → Bool
  | [] => goesOn atStart []
  | c :: rest => goesOn atStart (c :: rest) || (accepted c && takesMany accepted goesOn false rest)

/-- Do the first characters follow the pattern? The text before them is empty if `atStart`. -/
def matchesHere (options : MatchOptions) : Pattern → Bool → List Char → Bool
  | [], _, _ => true
  | .one test :: steps, _, cs =>
    match cs with
    | [] => false
    | c :: rest => accepts options test c && matchesHere options steps false rest
  | .many test :: steps, atStart, cs => takesMany (accepts options test) (matchesHere options steps) atStart cs
  | .start :: steps, atStart, cs => atStart && matchesHere options steps atStart cs
  | .finish :: steps, atStart, cs => atEnd cs && matchesHere options steps atStart cs

def foundIn (options : MatchOptions) (pattern : Pattern) (atStart : Bool) : List Char → Bool
  | [] => matchesHere options pattern atStart []
  | c :: rest => matchesHere options pattern atStart (c :: rest) || foundIn options pattern false rest

def isFoundIn (options : MatchOptions) (pattern : Pattern) (s : String) : Bool := foundIn options pattern true s.toList

/-! ### Texts of patterns -/

/-- The characters that stand for something else in a pattern's text, so that they are written behind a backslash. -/
def specialCharacters : List Char := "\\.^$*+?\x7b\x7d[]|()-&~# \t\n\r\x0b\x0c".toList

def escape (c : Char) : List Char := if specialCharacters.contains c then ['\\', c] else [c]

def ofChars : List Char → Pattern
  | [] => []
  | '^' :: rest => .start :: ofChars rest
  | '$' :: rest => .finish :: ofChars rest
  | '.' :: '*' :: rest => .many .any :: ofChars rest
  | '.' :: rest => .one .any :: ofChars rest
  | '\\' :: c :: '*' :: rest => .many (.this c) :: ofChars rest
  | '\\' :: c :: rest => .one (.this c) :: ofChars rest
  | c :: '*' :: rest => .many (.this c) :: ofChars rest
  | c :: rest => .one (.this c) :: ofChars rest

def ofText (s : String) : Pattern := ofChars s.toList

/-! ### LIKE -/

/-- The text of the pattern that one character of a LIKE text stands for. -/
def likeCharacter (c : Char) : List Char :=
  if c = '%' then ['.', '*'] else if c = '_' then ['.'] else escape c

def likeText (like : String) : String := String.ofList ('^' :: (like.toList.flatMap likeCharacter ++ ['$']))

end Pattern

end QueryFederation.Text
