/-!
# Endpoints

The target of a call is written `http://` followed by an authority, perhaps by a path and a query.
What is no such target is refused before anything is sent. An authority ends at the first `/`, `?`
or `#`. It holds only characters that addresses of the web allow, at most one pair of square
brackets, and, outside of brackets and of what names a user before an `@`, at most one colon and no
percent sign.

## Main definitions

* `Endpoint.authority?`: the length of the authority at the start of a text
* `Endpoint.isTarget`: whether a text after `http://` is a target
-/

namespace WorkflowScheduler.Endpoint

/-- The characters that an authority may hold, besides the percent sign. -/
def isAuthorityChar (c : Char) : Bool :=
  c.isAlphanum || "!$&'()*+,-.:;=@[]_~".toList.contains c

/-- Whether a character ends an authority. -/
def endsAuthority (c : Char) : Bool :=
  c == '/' || c == '?' || c == '#'

/-- What has been seen of an authority. -/
structure Scan where
  colons : Nat
  opened : Bool
  closed : Bool
  percent : Bool
  lastIsAt : Bool
  deriving DecidableEq, Repr

/-- Nothing has been seen. -/
def Scan.start : Scan := ⟨0, false, false, false, false⟩

/-- The most colons that may follow one another's parts, as in an address of eight groups. -/
def maxColons : Nat := 8

/-- Take in one character of an authority, unless it is out of place. Brackets and an `@` let what
was counted before them pass. -/
def Scan.step (st : Scan) (c : Char) : Option Scan :=
  let st := { st with lastIsAt := c == '@' }
  if c = ':' then
    if maxColons ≤ st.colons then none else some { st with colons := st.colons + 1 }
  else if c = '[' then
    if st.percent || st.opened then none else some { st with opened := true }
  else if c = ']' then
    if !st.opened || st.closed then none
    else some { st with closed := true, colons := 0, percent := false }
  else if c = '@' then some { st with colons := 0, percent := false }
  else if c = '%' then some { st with percent := true }
  else if isAuthorityChar c then some st
  else none

/-- Whether an authority may end here. -/
def Scan.mayEnd (st : Scan) : Bool :=
  st.opened == st.closed && st.colons ≤ 1 && !st.lastIsAt && !st.percent

/-- The length of the authority at the start of a text. -/
def authority? (cs : List Char) : Option Nat := do
  let part := cs.takeWhile fun c => !endsAuthority c
  let st ← part.foldlM Scan.step Scan.start
  if st.mayEnd then some part.length else none

/-- The characters that a path may hold. Those beyond ASCII pass. -/
def isPathChar (c : Char) : Bool :=
  c.isAlphanum || "!$%&'()*+,-./:;=@[\\]^_|~\"\x7b\x7d".toList.contains c || 128 ≤ c.toNat

/-- The characters that a query may hold. Those beyond ASCII pass. -/
def isQueryChar (c : Char) : Bool :=
  c == '!' || 0x24 ≤ c.toNat && c.toNat != 0x7f && c != '<' && c != '>'

/-- Whether a text is a path and a query. What follows a `#` does not count. -/
def isPathAndQuery (cs : List Char) : Bool :=
  let cs := cs.takeWhile (· != '#')
  (cs.takeWhile (· != '?')).all isPathChar
    && ((cs.dropWhile (· != '?')).drop 1).all isQueryChar

/-- The longest target in bytes. -/
def maxLength : Nat := 65534

/-- **Whether a text after `http://` is a target.** -/
def isTarget (s : String) : Bool :=
  ("http://" ++ s).utf8ByteSize ≤ maxLength
    && match authority? s.toList with
      | none => false
      | some 0 => false
      | some n => isPathAndQuery (s.toList.drop n)

end WorkflowScheduler.Endpoint
