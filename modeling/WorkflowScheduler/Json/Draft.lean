import WorkflowScheduler.Text.Bytes
import WorkflowScheduler.Text.Decimal

/-!
# Reading JSON, as far as it goes

A text is read from left to right into a draft: the value as far as it could be read, with the first
problem at the place where it was met. What a text is good for depends on what is asked of it. A
number too large for any use, or a string with an unpaired surrogate, can still be passed over; and
a reader who wants a number complains of a string before it looks at what comes after it. So a
draft keeps both, what stands there and what is wrong with it, and judging it is left to the
decoders.

## Main definitions

* `Problem`: the three ways in which a text can fail
* `Draft`: a value as far as it could be read
* `Draft.ofText`: the draft of a whole text
* `Draft.passOver`: the first problem of a value that nobody wants to read
-/

namespace WorkflowScheduler.Json

/-- What is wrong with a text. -/
inductive Problem where
  /-- The text ends too early. -/
  | truncated
  /-- The text is not JSON. -/
  | malformed
  /-- The text is JSON so far, but not what was asked for. -/
  | unfit
  deriving DecidableEq, Repr

/-- **A value as far as it could be read.** A list ends with the problem that was met after its last
element, or with none where it was closed. -/
inductive Draft where
  | null
  | bool (b : Bool)
  /-- A number written with digits only, and perhaps a minus sign. -/
  | int (n : Int)
  /-- A number with a fraction or an exponent, or a negative zero. -/
  | fraction
  | text (s : String)
  | array (items : List Draft) (stop : Option Problem)
  | object (members : List (Draft × Draft)) (stop : Option Problem)
  /-- The text ends where a value should begin. -/
  | absent
  /-- A string that cannot be read, with what is wrong for one who passes it over. -/
  | flawedText (reading : Problem) (passing : Option Problem)
  /-- Something else that cannot be read, with what is wrong for one who passes it over. -/
  | flawed (reading : Problem) (passing : Option Problem)
  deriving Inhabited

/-- A draft, and the text after it where reading can go on. -/
abbrev Reading := Draft × Option (List Char)

/-- Nothing can be read here, and nothing after it. -/
def broken (p : Problem) : Draft :=
  .flawed p (some p)

/-- Whether a string stands here, readable or not. -/
def Draft.isString : Draft → Bool
  | .text _ => true
  | .flawedText _ _ => true
  | _ => false

/-- The four characters that JSON takes for blanks. -/
def isSpace (c : Char) : Bool :=
  c = ' ' || c = '\n' || c = '\t' || c = '\r'

/-- The text without the blanks in front. -/
def skipSpace (cs : List Char) : List Char :=
  cs.dropWhile isSpace

/-- One of the three words, of which the first character has been read. -/
def word (d : Draft) : List Char → List Char → Reading
  | [], rest => (d, some rest)
  | _ :: _, [] => (broken .truncated, none)
  | e :: es, c :: cs => if c = e then word d es cs else (broken .malformed, none)

/-! ## Strings -/

/-- The value of four hexadecimal digits. -/
def hexValue4? (a b c d : Char) : Option Nat := do
  some (4096 * (← Text.hexValue? a) + 256 * (← Text.hexValue? b) + 16 * (← Text.hexValue? c)
    + (← Text.hexValue? d))

/-- The character of an escape with one letter. -/
def shortEscape? (c : Char) : Option Char :=
  if c = '"' ∨ c = '\\' ∨ c = '/' then some c
  else if c = 'b' then some '\x08'
  else if c = 'f' then some '\x0c'
  else if c = 'n' then some '\n'
  else if c = 'r' then some '\r'
  else if c = 't' then some '\t'
  else none

/-- The first half of a surrogate pair. -/
def isHighSurrogate (n : Nat) : Bool :=
  0xD800 ≤ n && n ≤ 0xDBFF

/-- The second half of a surrogate pair. -/
def isLowSurrogate (n : Nat) : Bool :=
  0xDC00 ≤ n && n ≤ 0xDFFF

/-- The character of a surrogate pair. -/
def pairedChar (high low : Nat) : Char :=
  Char.ofNat (0x10000 + 1024 * (high - 0xD800) + (low - 0xDC00))

/-- The state within a string: the characters so far, the last one first; a first half of a
surrogate pair that waits for its second; and the first fault that only a reader minds. -/
structure TextState where
  chars : List Char
  high : Option Nat
  fault : Option Problem

namespace TextState

/-- The state at the opening quote. -/
def start : TextState := ⟨[], none, none⟩

/-- Note a fault, unless there is one already. -/
def noteFault (st : TextState) (p : Problem) : TextState :=
  { st with fault := st.fault.or (some p) }

/-- A half of a surrogate pair that did not find its other half is a fault. -/
def settle (st : TextState) : TextState :=
  if st.high.isSome then { st.noteFault .malformed with high := none } else st

/-- One more character. -/
def push (st : TextState) (c : Char) : TextState :=
  { st.settle with chars := c :: st.settle.chars }

/-- One more escaped code unit. -/
def pushUnit (st : TextState) (n : Nat) : TextState :=
  match st.high with
  | some high =>
    if isLowSurrogate n then { st with chars := pairedChar high n :: st.chars, high := none }
    else { st.noteFault .malformed with high := none }
  | none =>
    if isHighSurrogate n then { st with high := some n }
    else if isLowSurrogate n then st.noteFault .malformed
    else st.push (Char.ofNat n)

/-- The string at its closing quote. -/
def close (st : TextState) : Draft :=
  match st.settle.fault with
  | none => .text (String.ofList st.chars.reverse)
  | some p => .flawedText p none

/-- The string where reading stops; an earlier fault comes first for a reader. -/
def fail (st : TextState) (p : Problem) : Draft :=
  .flawedText (st.fault.getD p) (some p)

end TextState

/-- What is wrong with an escape of which not all four digits are there: fewer than four bytes are
too few, and others are no digits. -/
def shortUnitProblem (cs : List Char) : Problem :=
  if Text.byteCount cs < 4 then .truncated else .malformed

/-- The rest of a string, after its opening quote. -/
def readText (st : TextState) : List Char → Reading
  | [] => (st.fail .truncated, none)
  | ['\\'] => (st.fail .truncated, none)
  | '"' :: cs => (st.close, some cs)
  | '\\' :: 'u' :: a :: b :: c :: d :: cs =>
    match hexValue4? a b c d with
    | some n => readText (st.pushUnit n) cs
    | none => (st.fail .malformed, none)
  | '\\' :: 'u' :: cs => (st.fail (shortUnitProblem cs), none)
  | '\\' :: c :: cs =>
    match shortEscape? c with
    | some e => readText (st.push e) cs
    | none => (st.settle.fail .malformed, none)
  | c :: cs => if c.toNat < 32 then (st.settle.fail .malformed, none) else readText (st.push c) cs

/-! ## Numbers -/

/-- The number of 53 binary digits, followed by zeros, that is nearest to a number; of two that are
equally near, the one whose last digit is zero. -/
def roundTo53 (n : Nat) : Nat :=
  let unit := Nat.pow 2 (n.log2 + 1 - 53)
  let whole := n / unit
  let rest := 2 * (n % unit)
  if rest < unit ∨ (rest = unit ∧ whole % 2 = 0) then whole * unit else (whole + 1) * unit

/-- The number up to which binary floating point numbers of 64 bits reach, and half a unit more. -/
def floatLimit : Nat := Nat.pow 2 1024 - Nat.pow 2 970

/-- The largest power of ten within binary floating point numbers of 64 bits. -/
def maxFloatPower : Nat := 308

/-- A number as `significand * 10 ^ exponent`, where the significand has 64 bits. -/
structure Scientific where
  significand : Nat
  exponent : Int
  deriving DecidableEq, Repr

namespace Scientific

/-- The significand with one more digit, if it has still 64 bits then. -/
def extend? (n : Nat) (d : Char) : Option Nat :=
  let n := n * 10 + Text.digitValue d
  if n ≤ Text.maxUnsigned64 then some n else none

/-- Take in the digits before the point: those that no longer fit into the significand only count. -/
def takeWhole (n : Nat) : List Char → Scientific
  | [] => ⟨n, 0⟩
  | d :: ds =>
    match extend? n d with
    | some n => takeWhole n ds
    | none => ⟨n, ds.length + 1⟩

/-- Take in the digits after the point, up to the first one that no longer fits. -/
def takeFraction (x : Scientific) : List Char → Scientific
  | [] => x
  | d :: ds =>
    match extend? x.significand d with
    | some n => takeFraction ⟨n, x.exponent - 1⟩ ds
    | none => x

/-- **Whether a number is too large.** The significand and the power of ten are both rounded to
floating point numbers, and their product must be one too. -/
def isTooLarge (x : Scientific) : Bool :=
  if x.significand = 0 ∨ x.exponent < 0 then false
  else if maxFloatPower < x.exponent then true
  else floatLimit ≤ roundTo53 x.significand * roundTo53 (Nat.pow 10 x.exponent.toNat)

end Scientific

/-- A number of which all parts have been read. -/
def numberDraft (negative : Bool) (whole frac : List Char) (plain : Bool) (exponent : Int) : Draft :=
  let x := (Scientific.takeWhole 0 whole).takeFraction frac
  if { x with exponent := x.exponent + exponent }.isTooLarge then .flawed .malformed none
  else if plain then
    let n : Int := Text.ofDigits whole
    if negative then (if n = 0 then .fraction else .int (-n)) else .int n
  else .fraction

/-- What is wrong where digits should follow within a number: one who passes the number over does
not care whether the text ends here. -/
def noDigits : List Char → Reading
  | [] => (.flawed .truncated (some .malformed), none)
  | _ => (broken .malformed, none)

/-- The exponent of a number, if it has one. -/
def readExponent (negative : Bool) (whole frac : List Char) (plain : Bool) (cs : List Char) :
    Reading :=
  let digitsFrom (sign : Int) (cs : List Char) : Reading :=
    let ds := cs.takeWhile Text.isDigit
    if ds.isEmpty then noDigits cs
    else (numberDraft negative whole frac false (sign * Text.ofDigits ds), some (cs.drop ds.length))
  let signed (cs : List Char) : Reading :=
    match cs with
    | '+' :: cs => digitsFrom 1 cs
    | '-' :: cs => digitsFrom (-1) cs
    | cs => digitsFrom 1 cs
  match cs with
  | 'e' :: cs => signed cs
  | 'E' :: cs => signed cs
  | cs => (numberDraft negative whole frac plain 0, some cs)

/-- A number, after its minus sign. A zero in front is the only digit before the point. -/
def readNumber (negative : Bool) (cs : List Char) : Reading :=
  let whole := cs.takeWhile Text.isDigit
  let rest := cs.drop whole.length
  if whole.isEmpty then noDigits cs
  else if whole.head? = some '0' ∧ 1 < whole.length then (broken .malformed, none)
  else
    match rest with
    | '.' :: cs =>
      let frac := cs.takeWhile Text.isDigit
      if frac.isEmpty then noDigits cs
      else readExponent negative whole frac false (cs.drop frac.length)
    | rest => readExponent negative whole [] true rest

/-! ## Values -/

mutual

/-- A value. The first argument bounds the depth of the reading. -/
def readValue : Nat → List Char → Reading
  | 0, _ => (.absent, none)
  | fuel + 1, cs =>
    match skipSpace cs with
    | [] => (.absent, none)
    | 'n' :: cs => word .null ['u', 'l', 'l'] cs
    | 't' :: cs => word (.bool true) ['r', 'u', 'e'] cs
    | 'f' :: cs => word (.bool false) ['a', 'l', 's', 'e'] cs
    | '"' :: cs => readText .start cs
    | '[' :: cs =>
      match skipSpace cs with
      | [] => (.array [] (some .truncated), none)
      | ']' :: cs => (.array [] none, some cs)
      | cs =>
        let (items, stop, rest) := readItems fuel cs
        (.array items stop, rest)
    | '\x7b' :: cs =>
      match skipSpace cs with
      | [] => (.object [] (some .truncated), none)
      | '\x7d' :: cs => (.object [] none, some cs)
      | cs =>
        let (members, stop, rest) := readMembers fuel cs
        (.object members stop, rest)
    | '-' :: cs => readNumber true cs
    | c :: cs => if Text.isDigit c then readNumber false (c :: cs) else (broken .malformed, none)

/-- The elements of an array from one of them on. -/
def readItems : Nat → List Char → List Draft × Option Problem × Option (List Char)
  | 0, _ => ([.absent], none, none)
  | fuel + 1, cs =>
    match readValue fuel cs with
    | (item, none) => ([item], none, none)
    | (item, some cs) =>
      match skipSpace cs with
      | [] => ([item], some .truncated, none)
      | ']' :: cs => ([item], none, some cs)
      | ',' :: cs =>
        let (items, stop, rest) := readItems fuel cs
        (item :: items, stop, rest)
      | _ => ([item], some .malformed, none)

/-- The members of an object from one of them on. -/
def readMembers : Nat → List Char → List (Draft × Draft) × Option Problem × Option (List Char)
  | 0, _ => ([(.absent, .absent)], none, none)
  | fuel + 1, cs =>
    match readValue fuel cs with
    | (key, none) => ([(key, .absent)], none, none)
    | (key, some cs) =>
      if key.isString then
        match readMember fuel cs with
        | (value, none) => ([(key, value)], none, none)
        | (value, some cs) =>
          match skipSpace cs with
          | [] => ([(key, value)], some .truncated, none)
          | '\x7d' :: cs => ([(key, value)], none, some cs)
          | ',' :: cs =>
            let (members, stop, rest) := readMembers fuel cs
            ((key, value) :: members, stop, rest)
          | _ => ([(key, value)], some .malformed, none)
      else ([(key, .absent)], none, none)

/-- The colon and the value of a member. -/
def readMember : Nat → List Char → Reading
  | 0, _ => (.absent, none)
  | fuel + 1, cs =>
    match skipSpace cs with
    | [] => (.absent, none)
    | ':' :: cs => readValue fuel cs
    | _ => (broken .malformed, none)

end

namespace Draft

/-- **The draft of a whole text**, and what is wrong with the text after the value. -/
def ofText (s : String) : Draft × Option Problem :=
  let cs := s.toList
  match readValue (2 * cs.length + 2) cs with
  | (d, none) => (d, none)
  | (d, some rest) => (d, if (skipSpace rest).isEmpty then none else some .malformed)

/-- The first problem of a member's name for one who does not want to read it. -/
def passOverName : Draft → Option Problem
  | .text _ => none
  | .flawedText _ passing => passing
  | .absent => some .truncated
  | _ => some .malformed

mutual

/-- **The first problem of a value that nobody wants to read.** -/
def passOver : Draft → Option Problem
  | .array items stop => (passOverItems items).or stop
  | .object members stop => (passOverMembers members).or stop
  | .absent => some .truncated
  | .flawedText _ passing => passing
  | .flawed _ passing => passing
  | _ => none

/-- The first problem of elements that nobody wants to read. -/
def passOverItems : List Draft → Option Problem
  | [] => none
  | d :: ds => (passOver d).or (passOverItems ds)

/-- The first problem of members that nobody wants to read. -/
def passOverMembers : List (Draft × Draft) → Option Problem
  | [] => none
  | (k, v) :: ms => (passOverName k).or ((passOver v).or (passOverMembers ms))

end

end Draft

end WorkflowScheduler.Json
