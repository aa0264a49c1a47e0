import WorkflowScheduler.Json.Draft
import WorkflowScheduler.Json.Value
import WorkflowScheduler.Proofs.Numerals

/-!
# Strings and numbers in JSON

A string is read back from its escaped form, whatever its characters are: the quote, the backslash
and every control character is escaped in a way that the reader knows, and no other character means
anything to it. A whole number is read back from its digits if it has 64 bits at most; far larger
ones would not be taken for numbers.

## Main definitions

* `Stops`: what may follow a number

## Main results

* `readText_quoted`: a string is read back
* `readNumber_digits`: a whole number is read back
-/

namespace WorkflowScheduler.Json

/-! ## Strings -/

theorem readText_quote (st : TextState) (cs : List Char) :
    readText st ('"' :: cs) = (st.close, some cs) := by
  simp only [readText]

theorem readText_short {e c : Char} (h : shortEscape? e = some c) (he : e ≠ 'u') (st : TextState)
    (cs : List Char) : readText st ('\\' :: e :: cs) = readText (st.push c) cs := by
  rw [readText]
  · simp only [h]
  · exact fun _ _ _ _ _ heq _ => he heq
  · exact he

theorem readText_unit {a b c d : Char} {n : Nat} (h : hexValue4? a b c d = some n)
    (st : TextState) (cs : List Char) :
    readText st ('\\' :: 'u' :: a :: b :: c :: d :: cs) = readText (st.pushUnit n) cs := by
  simp only [readText, h]

theorem readText_plain {c : Char} (hquote : c ≠ '"') (hbackslash : c ≠ '\\') (hc : ¬ c.toNat < 32)
    (st : TextState) (cs : List Char) : readText st (c :: cs) = readText (st.push c) cs := by
  rw [readText]
  · simp only [hc, if_false]
  all_goals simp_all

theorem hexValue?_hexDigit : ∀ n < 16, Text.hexValue? (hexDigit n) = some n := by
  decide

/-- A state within a string in which nothing is wrong. -/
def TextState.sound (chars : List Char) : TextState :=
  ⟨chars, none, none⟩

/-- **How a character is escaped**: by one letter, as a code unit, or not at all. -/
theorem escape_cases (c : Char) :
    (∃ e, escape c = ['\\', e] ∧ shortEscape? e = some c ∧ e ≠ 'u') ∨
      (escape c = ['\\', 'u', '0', '0', hexDigit (c.toNat / 16), hexDigit (c.toNat % 16)] ∧
        c.toNat < 32) ∨
      (escape c = [c] ∧ c ≠ '"' ∧ c ≠ '\\' ∧ ¬ c.toNat < 32) := by
  unfold escape
  iterate 7
    split
    · next h => exact .inl ⟨_, rfl, by rw [h]; rfl, by decide⟩
  split
  · next h => exact .inr (.inl ⟨rfl, h⟩)
  · next hquote hbackslash _ _ _ _ _ h => exact .inr (.inr ⟨rfl, hquote, hbackslash, h⟩)

/-- The code unit of a control character. -/
theorem readText_control {c : Char} (hc : c.toNat < 32) (chars cs : List Char) :
    readText (.sound chars) ('\\' :: 'u' :: '0' :: '0' :: hexDigit (c.toNat / 16) ::
      hexDigit (c.toNat % 16) :: cs) = readText (.sound (c :: chars)) cs := by
  have hhex : hexValue4? '0' '0' (hexDigit (c.toNat / 16)) (hexDigit (c.toNat % 16)) =
      some c.toNat := by
    simp only [hexValue4?, hexValue?_hexDigit (c.toNat / 16) (by omega),
      hexValue?_hexDigit (c.toNat % 16) (by omega)]
    change some (4096 * 0 + 256 * 0 + 16 * (c.toNat / 16) + c.toNat % 16) = _
    congr 1
    omega
  have hunit : (TextState.sound chars).pushUnit c.toNat = .sound (c :: chars) := by
    have hhigh : isHighSurrogate c.toNat = false := by
      simp [isHighSurrogate]
      omega
    have hlow : isLowSurrogate c.toNat = false := by
      simp [isLowSurrogate]
      omega
    simp [TextState.pushUnit, TextState.sound, hhigh, hlow, TextState.push, TextState.settle]
  rw [readText_unit hhex, hunit]

/-- **An escaped character is read back.** -/
theorem readText_escape (c : Char) (chars cs : List Char) :
    readText (.sound chars) (escape c ++ cs) = readText (.sound (c :: chars)) cs := by
  rcases escape_cases c with ⟨e, hescape, hshort, he⟩ | ⟨hescape, hc⟩ | ⟨hescape, hq, hb, hc⟩
  · rw [hescape]
    exact readText_short hshort he _ cs
  · rw [hescape]
    exact readText_control hc chars cs
  · rw [hescape]
    exact readText_plain hq hb hc _ cs

theorem readText_escapes (chars cs rest : List Char) :
    readText (.sound chars) (cs.flatMap escape ++ '"' :: rest) =
      (.text (String.ofList (chars.reverse ++ cs)), some rest) := by
  induction cs generalizing chars with
  | nil =>
    rw [List.flatMap_nil, List.nil_append, readText_quote, List.append_nil]
    rfl
  | cons c cs ih =>
    rw [List.flatMap_cons, List.append_assoc, readText_escape, ih]
    simp

/-- **A string is read back**, whatever its characters. -/
theorem readText_quoted (s : String) (rest : List Char) :
    readText .start (s.toList.flatMap escape ++ '"' :: rest) = (.text s, some rest) := by
  have hread := readText_escapes [] s.toList rest
  rwa [List.reverse_nil, List.nil_append, String.ofList_toList] at hread

/-! ## Numbers -/

/-- **What may follow a number**: nothing that would be a part of it. -/
def Stops (rest : List Char) : Prop :=
  ∀ c ∈ rest.head?, Text.isDigit c = false ∧ c ≠ '.' ∧ c ≠ 'e' ∧ c ≠ 'E'

variable {n : Nat} {rest : List Char}

namespace Scientific

theorem extend?_eq {m : Nat} {d : Char} (h : 10 * m + Text.digitValue d ≤ Text.maxUnsigned64) :
    extend? m d = some (10 * m + Text.digitValue d) := by
  unfold extend?
  rw [Nat.mul_comm m 10]
  simp only [h, if_true]

theorem takeWhole_cons_of_extend? {m k : Nat} {d : Char} (h : extend? m d = some k)
    (ds : List Char) : takeWhole m (d :: ds) = takeWhole k ds := by
  -- to derive the equations of the definition would be to count up to the bound
  conv =>
    lhs
    whnf
  rw [h]

/-- A number does not become smaller by more digits. -/
theorem le_foldl (ds : List Char) (m : Nat) :
    m ≤ ds.foldl (fun n c => 10 * n + Text.digitValue c) m := by
  induction ds generalizing m with
  | nil => exact Nat.le_refl m
  | cons d ds ih =>
    have hrest := ih (10 * m + Text.digitValue d)
    rw [List.foldl_cons]
    omega

/-- Digits that make up no more than 64 bits are all taken in. -/
theorem takeWhole_eq (ds : List Char) {m : Nat} :
    ds.foldl (fun n c => 10 * n + Text.digitValue c) m ≤ Text.maxUnsigned64 →
      takeWhole m ds = ⟨ds.foldl (fun n c => 10 * n + Text.digitValue c) m, 0⟩ := by
  induction ds generalizing m with
  | nil => exact fun _ => rfl
  | cons d ds ih =>
    intro h
    rw [List.foldl_cons] at h ⊢
    have hd := extend?_eq (Nat.le_trans (le_foldl ds (10 * m + Text.digitValue d)) h)
    exact (takeWhole_cons_of_extend? hd ds).trans (ih h)

theorem takeWhole_digits (h : n ≤ Text.maxUnsigned64) : takeWhole 0 (Text.digits n) = ⟨n, 0⟩ := by
  have hvalue : (Text.digits n).foldl (fun n c => 10 * n + Text.digitValue c) 0 = n :=
    Text.ofDigits_digits n
  rw [takeWhole_eq _ (by rwa [hvalue]), hvalue]

/-- Rounding does not go beyond the next multiple of the last place. -/
theorem roundTo53_le (n : Nat) : roundTo53 n ≤ n + Nat.pow 2 (n.log2 + 1 - 53) := by
  have hdiv := Nat.div_mul_le_self n (Nat.pow 2 (n.log2 + 1 - 53))
  unfold roundTo53
  simp only
  split
  · exact hdiv.trans (Nat.le_add_right _ _)
  · rw [Nat.add_mul, Nat.one_mul]
    exact Nat.add_le_add_right hdiv _

/-- **A number of 64 bits is not too large.** -/
theorem isTooLarge_eq_false (h : n ≤ Text.maxUnsigned64) :
    (⟨n, 0⟩ : Scientific).isTooLarge = false := by
  have hone : roundTo53 (Nat.pow 10 (0 : Int).toNat) = 1 := by decide +kernel
  have hround : roundTo53 n < floatLimit := by
    have hlog : n.log2 < 64 := by
      by_cases hn : n = 0
      · subst hn
        decide
      · rw [Nat.log2_lt hn]
        exact Nat.lt_of_le_of_lt h (by decide)
    have hplace : Nat.pow 2 (n.log2 + 1 - 53) ≤ Nat.pow 2 11 := Nat.pow_le_pow_right (by decide) (by omega)
    have hlimit : Text.maxUnsigned64 + Nat.pow 2 11 < floatLimit := by decide +kernel
    have hle := roundTo53_le n
    omega
  have hpower : ¬ (maxFloatPower : Int) < 0 := by decide
  simp only [isTooLarge, hone, Nat.mul_one, if_neg hpower]
  split
  · rfl
  · exact decide_eq_false (Nat.not_le.mpr hround)

end Scientific

theorem numberDraft_digits (h : n ≤ Text.maxUnsigned64) (negative : Bool)
    (hzero : negative = true → n ≠ 0) :
    numberDraft negative (Text.digits n) [] true 0 = .int (if negative then -n else n) := by
  have hx : (Scientific.takeWhole 0 (Text.digits n)).takeFraction [] = ⟨n, 0⟩ :=
    Scientific.takeWhole_digits h
  unfold numberDraft
  simp only [hx, Int.add_zero, Scientific.isTooLarge_eq_false h, Text.ofDigits_digits]
  cases negative with
  | false => rfl
  | true => simp [hzero rfl]

/-- Digits are read up to their end. -/
theorem readNumber_digits (h : n ≤ Text.maxUnsigned64) (negative : Bool)
    (hzero : negative = true → n ≠ 0) (hrest : Stops rest) :
    readNumber negative (Text.digits n ++ rest) =
      (.int (if negative then -n else n), some rest) := by
  have htake : (Text.digits n ++ rest).takeWhile Text.isDigit = Text.digits n :=
    Text.takeWhile_digits (fun _ => Text.isDigit_of_mem_digits) fun c hc => (hrest c hc).1
  have hnil : (Text.digits n).isEmpty = false :=
    List.isEmpty_eq_false_iff.mpr Nat.toDigits_ne_nil
  -- a zero in front is the whole number
  have hfirst : ¬ ((Text.digits n).head? = some '0' ∧ 1 < (Text.digits n).length) := by
    rintro ⟨hhead, hlength⟩
    rw [Text.head?_digits hhead] at hlength
    simp [Text.digits] at hlength
  unfold readNumber
  simp only [htake, List.drop_left, hnil, Bool.false_eq_true, if_false, if_neg hfirst]
  rw [← numberDraft_digits h negative hzero]
  unfold readExponent
  cases rest with
  | nil => rfl
  | cons c cs =>
    obtain ⟨-, hpoint, he, hE⟩ := hrest c rfl
    split
    · next heq =>
      cases heq
      exact absurd rfl hpoint
    · split
      · next heq =>
        cases heq
        exact absurd rfl he
      · next heq =>
        cases heq
        exact absurd rfl hE
      · rfl

end WorkflowScheduler.Json
