import Mathlib.Data.List.TakeWhile
import WorkflowScheduler.Executor.Address

/-!
# The written form of addresses

## Main results

* `Address.display_injective`: the written form names one address only
* `Address.parse_display`: an address with a host is read back from its written form
* `Address.parse_eq_ok_iff`: the texts that are read as an address
* `Address.display_eq_append_iff`: those among them that are written back as they were
-/

namespace WorkflowScheduler

namespace Text

theorem isDigit_of_mem_digits {n : Nat} {c : Char} (h : c ∈ digits n) : isDigit c = true := by
  have := Nat.isDigit_of_mem_toDigits (by decide) (by decide) h
  simpa [Char.isDigit, isDigit, Char.le_def] using this

/-- A number is read back from its digits. -/
theorem ofDigits_digits (n : Nat) : ofDigits (digits n) = n :=
  Nat.ofDigitChars_ten_toDigits

theorem numeral?_digits (n : Nat) : numeral? (digits n) = some n := by
  have hall : (digits n).all isDigit = true :=
    List.all_eq_true.mpr fun _ hc => isDigit_of_mem_digits hc
  rw [numeral?, if_pos ⟨Nat.toDigits_ne_nil, hall⟩, ofDigits_digits]

theorem unsigned?_digits {n max : Nat} (h : n ≤ max) : unsigned? max (digits n) = some n := by
  unfold unsigned?
  split
  · -- a plus sign is no digit
    next ds hds =>
    have := isDigit_of_mem_digits (n := n) (c := '+') (by simp [hds])
    simp [isDigit] at this
  · simp [numeral?_digits, h]

end Text

namespace Address

theorem colon_notMem_toDigits (n : Nat) : ':' ∉ Nat.toDigits 10 n := by
  intro hn
  have := Nat.isDigit_of_mem_toDigits (by decide) (by decide) hn
  simp at this

theorem toList_display (a : Address) :
    a.display.toList = a.host.toList ++ ':' :: Nat.toDigits 10 a.port.toNat := by
  simp [display, String.toList_append, Nat.toList_repr]

/-! ## The last colon -/

/-- What stands after the last colon. -/
theorem takeWhile_reverse (host : List Char) {port : List Char} (h : ':' ∉ port) :
    (host ++ ':' :: port).reverse.takeWhile (· ≠ ':') = port.reverse := by
  rw [List.reverse_append, List.reverse_cons, List.append_assoc, List.takeWhile_append_of_pos]
  · simp
  · intro c hc
    have hne : c ≠ ':' := by
      rintro rfl
      exact h (List.mem_reverse.mp hc)
    simpa using hne

/-- A text falls apart at its last colon. -/
theorem splitAtLastColon?_append {host port : List Char} (h : ':' ∉ port) :
    splitAtLastColon? (host ++ ':' :: port) = some (host, port) := by
  have hafter := takeWhile_reverse host h
  have hreverse : (host ++ ':' :: port).reverse = port.reverse ++ ':' :: host.reverse := by simp
  simp only [splitAtLastColon?, hafter]
  rw [hreverse, List.drop_left]
  simp

theorem splitAtLastColon?_of_notMem {cs : List Char} (h : ':' ∉ cs) :
    splitAtLastColon? cs = none := by
  have hafter : cs.reverse.takeWhile (· ≠ ':') = cs.reverse := by
    rw [List.takeWhile_eq_self_iff]
    intro c hc
    have hne : c ≠ ':' := by
      rintro rfl
      exact h (List.mem_reverse.mp hc)
    simpa using hne
  rw [splitAtLastColon?, hafter, List.drop_length]

/-- **Where a text falls apart**: at a colon that none follows. -/
theorem splitAtLastColon?_eq_some_iff {cs host port : List Char} :
    splitAtLastColon? cs = some (host, port) ↔ cs = host ++ ':' :: port ∧ ':' ∉ port := by
  constructor
  · intro h
    by_cases hcolon : ':' ∈ cs
    · -- counted from the end it is the first colon
      obtain ⟨after, before, hreverse, hlast⟩ :=
        List.eq_append_cons_of_mem (List.mem_reverse.mpr hcolon)
      have hcs : cs = before.reverse ++ ':' :: after.reverse := by
        rw [← List.reverse_reverse cs, hreverse]
        simp
      have hport : ':' ∉ after.reverse := by simpa using hlast
      rw [hcs, splitAtLastColon?_append hport] at h
      cases h
      exact ⟨hcs, hport⟩
    · rw [splitAtLastColon?_of_notMem hcolon] at h
      cases h
  · rintro ⟨rfl, hport⟩
    exact splitAtLastColon?_append hport

/-- The written form falls apart into host and port. -/
theorem splitAtLastColon?_display (a : Address) :
    splitAtLastColon? a.display.toList = some (a.host.toList, Text.digits a.port.toNat) := by
  rw [toList_display]
  exact splitAtLastColon?_append (colon_notMem_toDigits _)

/-! ## Reading and writing -/

theorem port?_digits (p : UInt16) : port? (Text.digits p.toNat) = some p := by
  have hle : p.toNat ≤ Text.maxUnsigned16 := Nat.le_of_lt_succ p.toNat_lt
  rw [port?, Text.unsigned?_digits hle, Option.map_some, UInt16.ofNat_toNat]

/-- **The written form names one address only.** -/
theorem display_injective {a b : Address} (h : a.display = b.display) : a = b := by
  have hparts : some (a.host.toList, Text.digits a.port.toNat) =
      some (b.host.toList, Text.digits b.port.toNat) := by
    rw [← splitAtLastColon?_display, h, splitAtLastColon?_display]
  obtain ⟨hhost, hdigits⟩ := Prod.mk.inj (Option.some.inj hparts)
  have hport : some a.port = some b.port := by rw [← port?_digits, hdigits, port?_digits]
  rw [String.toList_inj] at hhost
  cases a
  cases b
  simp_all

/-- **The texts that are read as an address**: a host, a colon and a port number, the colon being the
last one. -/
theorem parse_eq_ok_iff {s : String} {a : Address} :
    parse s = .ok a ↔ a.host ≠ "" ∧ ∃ port : String, s = a.host ++ ":" ++ port ∧
      ':' ∉ port.toList ∧ port? port.toList = some a.port := by
  constructor
  · intro h
    unfold parse at h
    split at h
    · cases h
    · next host port hsplit =>
      obtain ⟨hs, hcolon⟩ := splitAtLastColon?_eq_some_iff.mp hsplit
      split at h
      · cases h
      · next hhost =>
        split at h
        · cases h
        · next p hp =>
          cases h
          refine ⟨by simpa using hhost, String.ofList port, ?_, ?_, ?_⟩
          · rw [← String.toList_inj, hs]
            simp [String.toList_append]
          · simpa using hcolon
          · simpa using hp
  · rintro ⟨hhost, port, rfl, hcolon, hport⟩
    have hsplit : splitAtLastColon? (a.host ++ ":" ++ port).toList =
        some (a.host.toList, port.toList) := by
      rw [splitAtLastColon?_eq_some_iff]
      exact ⟨by simp [String.toList_append], hcolon⟩
    have hempty : a.host.toList.isEmpty = false := by simpa using hhost
    rw [parse, hsplit]
    simp [hempty, hport]

/-- **An address is written as a text that names its host** exactly if the port of the text is written
as numbers are. -/
theorem display_eq_append_iff {a : Address} {port : String} :
    a.display = a.host ++ ":" ++ port ↔ port = toString a.port.toNat := by
  rw [display, String.append_right_inj, eq_comm]

/-- **An address with a host is read back from its written form.** -/
theorem parse_display {a : Address} (h : a.host ≠ "") : parse a.display = .ok a := by
  refine parse_eq_ok_iff.mpr ⟨h, _, rfl, ?_, ?_⟩
  · simpa [Nat.toList_repr] using colon_notMem_toDigits a.port.toNat
  · simpa [Nat.toList_repr, Text.digits] using port?_digits a.port

end Address

end WorkflowScheduler
