/-!
# Bytes

The length of a text as it is stored, in UTF-8, and bytes written in hexadecimal digits.

## Main definitions

* `Text.byteCount`
* `Text.hexValue?`, `Text.bytesOfHex`
-/

namespace WorkflowScheduler.Text

/-- The number of bytes that characters take. -/
def byteCount (cs : List Char) : Nat :=
  cs.foldl (fun n c => n + c.utf8Size) 0

/-- The value of a hexadecimal digit. -/
def hexValue? (c : Char) : Option Nat :=
  if '0' ≤ c ∧ c ≤ '9' then some (c.toNat - 48)
  else if 'a' ≤ c ∧ c ≤ 'f' then some (c.toNat - 87)
  else if 'A' ≤ c ∧ c ≤ 'F' then some (c.toNat - 55)
  else none

/-- The bytes written as pairs of hexadecimal digits. Other characters stand for zero. -/
def bytesOfHex (s : String) : ByteArray :=
  let rec pairs : List Char → ByteArray → ByteArray
    | a :: b :: cs, bytes =>
      pairs cs (bytes.push (UInt8.ofNat ((hexValue? a).getD 0 * 16 + (hexValue? b).getD 0)))
    | _, bytes => bytes
  pairs s.toList .empty

end WorkflowScheduler.Text
