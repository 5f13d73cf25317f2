/-!
# Bracket cleanup

Tools that help to write aggregates mark names with square brackets, which the expression language does not know.
Cleanup drops every bracket of a text.
-/

namespace QueryFederation.Expression

def isBracket (c : Char) : Bool := c = '[' || c = ']'

def hasBrackets (text : String) : Bool := text.toList.any isBracket

def stripBrackets (text : String) : String := String.ofList (text.toList.filter fun c => !isBracket c)

theorem hasBrackets_stripBrackets (text : String) : hasBrackets (stripBrackets text) = false := by
  rw [hasBrackets, stripBrackets, String.toList_ofList, List.any_eq_false]
  intro c hc
  simpa using (List.mem_filter.mp hc).2

theorem stripBrackets_eq_self {text : String} (h : hasBrackets text = false) : stripBrackets text = text := by
  have hkept : text.toList.filter (fun c => !isBracket c) = text.toList := by
    refine List.filter_eq_self.mpr fun c hc => ?_
    simpa using List.any_eq_false.mp h c hc
  rw [stripBrackets, hkept, String.ofList_toList]

@[simp] theorem stripBrackets_stripBrackets (text : String) : stripBrackets (stripBrackets text) = stripBrackets text :=
  stripBrackets_eq_self (hasBrackets_stripBrackets text)

end QueryFederation.Expression
