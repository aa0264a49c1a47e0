import WorkflowScheduler.Text.Decimal

/-!
# Addresses of executors

An executor is known by a host and a port. The host is any text; in the written form everything up
to the last colon belongs to it, so that it may hold colons itself.

## Main definitions

* `Address`, `Address.display`: the written form, `host:port`
* `Address.parse`: reading it
* `Address.Precedes`: the order by host and then port
-/

namespace WorkflowScheduler

/-- The network address of an executor. -/
structure Address where
  host : String
  port : UInt16
  deriving DecidableEq, Repr

namespace Address

/-- The written form of an address. -/
def display (a : Address) : String :=
  a.host ++ ":" ++ toString a.port.toNat

/-- Where calls to the executor go. -/
def endpoint (a : Address) : String :=
  "http://" ++ a.display

/-- Why a text is no address. -/
inductive Fault where
  | missingPort (text : String)
  | missingHost (text : String)
  | invalidPort (text : String)
  deriving DecidableEq, Repr

/-- The wording of a fault. -/
def Fault.message : Fault → String
  | .missingPort s => "expected host:port, got '" ++ s ++ "'"
  | .missingHost s => "missing host in '" ++ s ++ "'"
  | .invalidPort s => "invalid port in '" ++ s ++ "'"

/-- A text before and after its last colon, if it has one. -/
def splitAtLastColon? (cs : List Char) : Option (List Char × List Char) :=
  let after := cs.reverse.takeWhile (· ≠ ':')
  match cs.reverse.drop after.length with
  | [] => none
  | _ :: before => some (before.reverse, after.reverse)

/-- A port number, perhaps with a plus sign and leading zeros. -/
def port? (cs : List Char) : Option UInt16 :=
  (Text.unsigned? Text.maxUnsigned16 cs).map UInt16.ofNat

/-- **Reading an address.** -/
def parse (s : String) : Except Fault Address :=
  match splitAtLastColon? s.toList with
  | none => .error (.missingPort s)
  | some (host, port) =>
    if host.isEmpty then .error (.missingHost s)
    else
      match port? port with
      | none => .error (.invalidPort s)
      | some p => .ok ⟨String.ofList host, p⟩

/-- The order by host and then port. -/
def Precedes (a b : Address) : Prop :=
  a.host < b.host ∨ a.host = b.host ∧ a.port < b.port

instance (a b : Address) : Decidable (a.Precedes b) :=
  inferInstanceAs (Decidable (_ ∨ _ ∧ _))

variable {a b c : Address}

theorem not_precedes_self (a : Address) : ¬ a.Precedes a := by
  rintro (h | ⟨-, h⟩)
  · exact String.lt_irrefl _ h
  · exact UInt16.lt_irrefl _ h

theorem Precedes.ne (h : a.Precedes b) : a ≠ b := by
  rintro rfl
  exact not_precedes_self a h

theorem Precedes.trans (h : a.Precedes b) (k : b.Precedes c) : a.Precedes c := by
  rcases h with h | ⟨heq, h⟩ <;> rcases k with k | ⟨keq, k⟩
  · exact .inl (String.lt_trans h k)
  · exact .inl (keq ▸ h)
  · exact .inl (heq ▸ k)
  · exact .inr ⟨heq.trans keq, UInt16.lt_trans h k⟩

/-- Of two addresses one precedes the other. -/
theorem precedes_of_not_precedes (hne : a ≠ b) (h : ¬ a.Precedes b) : b.Precedes a := by
  obtain ⟨hhost, hport⟩ := not_or.mp h
  by_cases hlt : b.host < a.host
  · exact .inl hlt
  · have heq : b.host = a.host :=
      String.le_antisymm (String.not_lt.mp hhost) (String.not_lt.mp hlt)
    have hle : b.port ≤ a.port := UInt16.not_lt.mp fun hlt => hport ⟨heq.symm, hlt⟩
    refine .inr ⟨heq, UInt16.lt_of_le_of_ne hle fun hports => hne ?_⟩
    cases a
    cases b
    simp_all

end Address

end WorkflowScheduler
