/-!
# Lines of a text

A line ends at a line feed, together with a carriage return right before it. What follows the last
line feed is a line only if it is not empty.

## Main definitions

* `Text.lines`
-/

namespace WorkflowScheduler.Text

/-- A line without the carriage return at its end; the line is given backwards. -/
def withoutReturn : List Char → List Char
  | '\r' :: cs => cs
  | cs => cs

/-- The lines of a text, of which the first one has begun; its beginning is given backwards. -/
def linesFrom (begun : List Char) : List Char → List (List Char)
  | [] => if begun.isEmpty then [] else [begun.reverse]
  | '\n' :: cs => (withoutReturn begun).reverse :: linesFrom [] cs
  | c :: cs => linesFrom (c :: begun) cs

/-- **The lines of a text.** -/
def lines (s : String) : List String :=
  (linesFrom [] s.toList).map String.ofList

end WorkflowScheduler.Text
