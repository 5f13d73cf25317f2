/-!
# Kinds of joins

Which of the two sides keeps its rows that have no partner.
-/

namespace QueryFederation

inductive JoinKind where
  | inner
  | left
  | right
  | full
  deriving DecidableEq, Repr, Inhabited

namespace JoinKind

def all : List JoinKind := [inner, left, right, full]

def name : JoinKind → String
  | inner => "inner"
  | left => "left"
  | right => "right"
  | full => "full"

def ofName? (s : String) : Option JoinKind := all.find? fun kind => kind.name = s

def flip : JoinKind → JoinKind
  | inner => inner
  | left => right
  | right => left
  | full => full

def keepsLeft : JoinKind → Bool
  | left | full => true
  | _ => false

def keepsRight : JoinKind → Bool
  | right | full => true
  | _ => false

@[simp] theorem flip_flip (kind : JoinKind) : kind.flip.flip = kind := by cases kind <;> rfl

@[simp] theorem keepsLeft_flip (kind : JoinKind) : kind.flip.keepsLeft = kind.keepsRight := by cases kind <;> rfl

@[simp] theorem keepsRight_flip (kind : JoinKind) : kind.flip.keepsRight = kind.keepsLeft := by cases kind <;> rfl

end JoinKind

end QueryFederation
