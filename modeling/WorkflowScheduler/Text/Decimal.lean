/-!
# Decimal numerals

Reading and writing whole numbers in base ten. A numeral is a non-empty run of the digits `0` to
`9`; leading zeros are allowed. A sign in front is read where the number may carry one.

## Main definitions

* `Text.ofDigits`: the number that a run of digits stands for
* `Text.unsigned?`, `Text.signed?`: the number a whole text stands for, within bounds
* `Text.padded`: a number with zeros in front
* `Text.spread`: a text filled up with blanks on the right
-/

namespace WorkflowScheduler.Text

/-- Whether a character is one of the digits `0` to `9`. -/
def isDigit (c : Char) : Bool :=
  '0' ≤ c && c ≤ '9'

/-- The number that a digit stands for. -/
def digitValue (c : Char) : Nat :=
  c.toNat - '0'.toNat

/-- The number that a run of digits stands for, the most significant digit first. -/
def ofDigits (cs : List Char) : Nat :=
  cs.foldl (fun n c => 10 * n + digitValue c) 0

/-- The number a non-empty run of digits stands for. -/
def numeral? (cs : List Char) : Option Nat :=
  if cs ≠ [] ∧ cs.all isDigit then some (ofDigits cs) else none

/-- **A number without a minus sign**, at most `max`: a plus sign may stand in front. -/
def unsigned? (max : Nat) (cs : List Char) : Option Nat :=
  let n :=
    match cs with
    | '+' :: ds => numeral? ds
    | ds => numeral? ds
  n.filter (· ≤ max)

/-- **A number with an optional sign**, from `lo` to `hi`. -/
def signed? (lo hi : Int) (cs : List Char) : Option Int :=
  let n :=
    match cs with
    | '+' :: ds => (numeral? ds).map Int.ofNat
    | '-' :: ds => (numeral? ds).map fun n => -(n : Int)
    | ds => (numeral? ds).map Int.ofNat
  n.filter fun n => lo ≤ n ∧ n ≤ hi

/-- The digits of a number in base ten. -/
def digits (n : Nat) : List Char :=
  Nat.toDigits 10 n

/-- The digits of a number, with zeros in front up to `width` digits. -/
def padded (width n : Nat) : String :=
  String.ofList (List.replicate (width - (digits n).length) '0' ++ digits n)

/-- A text filled up with blanks on the right to `width` characters. -/
def spread (width : Nat) (s : String) : String :=
  s ++ String.ofList (List.replicate (width - s.length) ' ')

/-- The largest whole number of 16 bits without a sign. -/
def maxUnsigned16 : Nat := 65535

/-- The largest whole number of 32 bits without a sign. -/
def maxUnsigned32 : Nat := 4294967295

/-- The largest whole number of 64 bits without a sign. -/
def maxUnsigned64 : Nat := 18446744073709551615

/-- The smallest whole number of 32 bits with a sign. -/
def minSigned32 : Int := -2147483648

/-- The largest whole number of 32 bits with a sign. -/
def maxSigned32 : Int := 2147483647

/-- The smallest whole number of 64 bits with a sign. -/
def minSigned64 : Int := -9223372036854775808

/-- The largest whole number of 64 bits with a sign. -/
def maxSigned64 : Int := 9223372036854775807

end WorkflowScheduler.Text
