import WorkflowScheduler.Text.Bytes
import WorkflowScheduler.Text.Reader

/-!
# Socket addresses

Numeric internet addresses with a port: four octets, or eight groups of 16 bits in brackets, perhaps
with the number of a scope. The shortest form of eight groups has two colons for the longest run of
at least two zero groups, the first of equally long ones.

## Main definitions

* `IpAddress`, `SocketAddress`
* `SocketAddress.parse?`: reading one
* `IpAddress.display`, `SocketAddress.display`: the shortest form
-/

namespace WorkflowScheduler

/-- An internet address: four octets, or eight groups of 16 bits. -/
inductive IpAddress where
  | v4 (octets : List Nat)
  | v6 (groups : List Nat)
  deriving DecidableEq, Repr

/-- An internet address with a port, and the number of a scope, zero if there is none. -/
structure SocketAddress where
  ip : IpAddress
  port : UInt16
  scope : Nat
  deriving DecidableEq, Repr

namespace IpAddress

open Text (Reader oneOf isDigit ofDigits digits)

/-! ## Reading -/

/-- An octet: at most three digits, without zeros in front. -/
def octet : Reader Nat := fun cs =>
  let ds := cs.takeWhile isDigit
  let n := ofDigits ds
  if ds.isEmpty ∨ 3 < ds.length ∨ (ds.head? = some '0' ∧ 1 < ds.length) ∨ 255 < n then none
  else some (n, cs.drop ds.length)

/-- Four octets with points between. -/
def fourOctets : Reader (List Nat) := fun cs => do
  let (a, cs) ← octet cs
  let (_, cs) ← oneOf ['.'] cs
  let (b, cs) ← octet cs
  let (_, cs) ← oneOf ['.'] cs
  let (c, cs) ← octet cs
  let (_, cs) ← oneOf ['.'] cs
  let (d, cs) ← octet cs
  some ([a, b, c, d], cs)

/-- A group: from one to four hexadecimal digits. -/
def group : Reader Nat := fun cs =>
  let ds := cs.takeWhile fun c => (Text.hexValue? c).isSome
  if ds.isEmpty ∨ 4 < ds.length then none
  else some (ds.foldl (fun n c => 16 * n + (Text.hexValue? c).getD 0) 0, cs.drop ds.length)

/-- What stands in front of a group: a colon, but not before the first one. -/
def groupGap (isFirst : Bool) : Reader Unit := fun cs =>
  if isFirst then some ((), cs) else oneOf [':'] cs

/-- As many groups as there are, up to `limit`; the last two may be written as four octets. The
answer tells whether they were. -/
def groupsUpTo (isFirst : Bool) : Nat → List Char → List Nat × Bool × List Char
  | 0, cs => ([], false, cs)
  | limit + 1, cs =>
    let asOctets : Option (List Nat × List Char) :=
      if limit = 0 then none
      else do
        let (_, cs) ← groupGap isFirst cs
        fourOctets cs
    match asOctets with
    | some ([a, b, c, d], rest) => ([256 * a + b, 256 * c + d], true, rest)
    | _ =>
      let one : Option (Nat × List Char) := do
        let (_, cs) ← groupGap isFirst cs
        group cs
      match one with
      | none => ([], false, cs)
      | some (g, rest) =>
        let (gs, octets, rest) := groupsUpTo false limit rest
        (g :: gs, octets, rest)

/-- Eight groups, of which one run of zeros may be left out between two colons. -/
def eightGroups : Reader (List Nat) := fun cs =>
  let (head, octets, rest) := groupsUpTo true 8 cs
  if head.length = 8 then some (head, rest)
  else if octets then none
  else
    match rest with
    | ':' :: ':' :: rest =>
      let (tail, _, rest) := groupsUpTo true (7 - head.length) rest
      some (head ++ List.replicate (8 - head.length - tail.length) 0 ++ tail, rest)
    | _ => none

/-! ## Writing -/

/-- The length of the run of zeros in front. -/
def zeroRun (gs : List Nat) : Nat :=
  (gs.takeWhile (· = 0)).length

/-- The place and the length of the longest run of zeros, the first of equally long ones. -/
def longestZeroRun (gs : List Nat) : Nat × Nat :=
  (List.range gs.length).foldl
    (fun best i => if best.2 < zeroRun (gs.drop i) then (i, zeroRun (gs.drop i)) else best) (0, 0)

/-- Texts with a separator between them. -/
def joined (sep : String) : List String → String
  | [] => ""
  | [s] => s
  | s :: ss => s ++ sep ++ joined sep ss

/-- Groups in hexadecimal digits, with colons between. -/
def groupsText (gs : List Nat) : String :=
  joined ":" (gs.map fun g => String.ofList (Nat.toDigits 16 g))

/-- Four octets, with points between. -/
def octetsText (os : List Nat) : String :=
  joined "." (os.map fun o => String.ofList (digits o))

/-- **The shortest form of an address.** The last two groups of an address that stands for four
octets are written as octets. -/
def display : IpAddress → String
  | .v4 os => octetsText os
  | .v6 gs =>
    match gs with
    | [0, 0, 0, 0, 0, 0xffff, a, b] => "::ffff:" ++ octetsText [a / 256, a % 256, b / 256, b % 256]
    | gs =>
      let (i, n) := longestZeroRun gs
      if 1 < n then groupsText (gs.take i) ++ "::" ++ groupsText (gs.drop (i + n))
      else groupsText gs

/-- Whether an address stands for all addresses of a machine. -/
def isUnspecified : IpAddress → Bool
  | .v4 os => os.all (· = 0)
  | .v6 gs => gs.all (· = 0)

end IpAddress

namespace SocketAddress

open Text (Reader oneOf many)

/-- A port, perhaps with zeros in front, at the end of a text. -/
def portAtEnd? (cs : List Char) : Option UInt16 := do
  let (_, cs) ← oneOf [':'] cs
  let (n, cs) ← many cs
  if n ≤ Text.maxUnsigned16 ∧ cs.isEmpty then some (UInt16.ofNat n) else none

/-- The number of a scope, if there is one. -/
def scopeNumber : Reader Nat
  | '%' :: cs => do
    let (n, cs) ← many cs
    if n ≤ Text.maxUnsigned32 then some (n, cs) else none
  | cs => some (0, cs)

/-- **Reading a socket address.** -/
def parse? (s : String) : Option SocketAddress :=
  match s.toList with
  | '[' :: cs => do
    let (gs, cs) ← IpAddress.eightGroups cs
    let (scope, cs) ← scopeNumber cs
    let (_, cs) ← oneOf [']'] cs
    let port ← portAtEnd? cs
    some ⟨.v6 gs, port, scope⟩
  | cs => do
    let (os, cs) ← IpAddress.fourOctets cs
    let port ← portAtEnd? cs
    some ⟨.v4 os, port, 0⟩

/-- **The shortest form of a socket address.** -/
def display (a : SocketAddress) : String :=
  match a.ip with
  | .v4 _ => a.ip.display ++ ":" ++ toString a.port.toNat
  | .v6 _ =>
    let scope := if a.scope = 0 then "" else "%" ++ toString a.scope
    "[" ++ a.ip.display ++ scope ++ "]:" ++ toString a.port.toNat

end SocketAddress

end WorkflowScheduler
