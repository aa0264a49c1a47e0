/-!
# Blank text

Which characters separate words, and the operations that depend on it. The class is the property
`White_Space`: a no-break space and an ideographic space are blank, a zero-width space is not.

## Main definitions

* `Text.isBlank`: the class
* `Text.trim`: a text without the blanks at its ends
* `Text.wordCount`: the number of maximal runs of visible characters
-/

namespace WorkflowScheduler.Text

/-- The code points with the property `White_Space`, as closed ranges in ascending order. -/
def blankRanges : List (Nat × Nat) :=
  [(0x9, 0xD), (0x20, 0x20), (0x85, 0x85), (0xA0, 0xA0), (0x1680, 0x1680), (0x2000, 0x200A),
    (0x2028, 0x2029), (0x202F, 0x202F), (0x205F, 0x205F), (0x3000, 0x3000)]

/-- Whether a character separates words. -/
def isBlank (c : Char) : Bool :=
  blankRanges.any fun r => r.1 ≤ c.toNat && c.toNat ≤ r.2

example : isBlank '\u00a0' = true ∧ isBlank '\u200b' = false := by decide

/-- The text without the blanks in front. -/
def trimLeft (cs : List Char) : List Char :=
  cs.dropWhile isBlank

/-- The text without the blanks at both ends. -/
def trim (cs : List Char) : List Char :=
  (trimLeft (trimLeft cs).reverse).reverse

/-- Whether a text shows nothing. -/
def allBlank (s : String) : Bool :=
  s.toList.all isBlank

/-- The number of words, counted at their first characters. -/
def wordCountFrom (inWord : Bool) : List Char → Nat
  | [] => 0
  | c :: cs =>
    if isBlank c then wordCountFrom false cs
    else (if inWord then 0 else 1) + wordCountFrom true cs

/-- The number of maximal runs of visible characters. -/
def wordCount (cs : List Char) : Nat :=
  wordCountFrom false cs

end WorkflowScheduler.Text
