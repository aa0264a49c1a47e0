import Mathlib.Data.List.TakeWhile
import WorkflowScheduler.Proofs.Addresses
import WorkflowScheduler.Text.Blank
import WorkflowScheduler.Text.Reader

/-!
# Numerals are read back

The digits of a number stand for it, with zeros in front as well as without. They end where
something else follows, and there is no blank among them.

## Main results

* `Text.takeWhile_digits`: digits end where something else follows
* `Text.head?_digits`: only zero is written with a zero in front
* `Text.upTo_padded`, `Text.many_padded`: a padded number is read back
-/

namespace WorkflowScheduler.Text

variable {w n : Nat} {c : Char} {ds rest : List Char}

/-- **Digits end where something else follows.** -/
theorem takeWhile_digits (hds : ∀ c ∈ ds, isDigit c = true)
    (hrest : ∀ c ∈ rest.head?, isDigit c = false) : (ds ++ rest).takeWhile isDigit = ds := by
  rw [List.takeWhile_append_of_pos hds]
  cases rest with
  | nil => exact List.append_nil ds
  | cons c cs =>
    rw [List.takeWhile_cons_of_neg (by simp [hrest c rfl]), List.append_nil]

/-- **Only zero is written with a zero in front.** -/
theorem head?_digits (h : (digits n).head? = some '0') : n = 0 := by
  unfold digits at h
  induction n using Nat.strong_induction_on with
  | _ n ih =>
    by_cases hn : n < 10
    · rw [Nat.toDigits_of_lt_base hn, List.head?_cons, Option.some.injEq] at h
      have hzero : ∀ m < 10, Nat.digitChar m = '0' → m = 0 := by decide
      exact hzero n hn h
    · obtain ⟨d, ds, hds⟩ : ∃ d ds, Nat.toDigits 10 (n / 10) = d :: ds :=
        List.exists_cons_of_ne_nil Nat.toDigits_ne_nil
      rw [Nat.toDigits_of_base_le (by decide) (by omega), hds, List.cons_append] at h
      have hquotient := ih (n / 10) (by omega) (by rw [hds]; exact h)
      omega

/-! ## Padded numbers -/

theorem toList_padded (w n : Nat) : (padded w n).toList =
    List.replicate (w - (digits n).length) '0' ++ digits n := by
  simp [padded]

theorem isDigit_of_mem_padded (h : c ∈ (padded w n).toList) : isDigit c = true := by
  rw [toList_padded] at h
  rcases List.mem_append.mp h with h | h
  · rw [List.eq_of_mem_replicate h]
    decide
  · exact isDigit_of_mem_digits h

theorem padded_ne_nil (w n : Nat) : (padded w n).toList ≠ [] := by
  rw [toList_padded]
  exact List.append_ne_nil_of_right_ne_nil _ Nat.toDigits_ne_nil

theorem length_padded (hw : 0 < w) (h : n < Nat.pow 10 w) : (padded w n).toList.length = w := by
  have hle : (digits n).length ≤ w := (Nat.length_toDigits_le_iff (by decide) hw).mpr h
  rw [toList_padded, List.length_append, List.length_replicate]
  omega

/-- Zeros in front do not count. -/
theorem ofDigits_padded (w n : Nat) : ofDigits (padded w n).toList = n := by
  have hzeros : ∀ k, (List.replicate k '0').foldl (fun n c => 10 * n + digitValue c) 0 = 0 := by
    intro k
    induction k with
    | zero => rfl
    | succ k ih => exact ih
  rw [toList_padded, ofDigits, List.foldl_append, hzeros]
  exact ofDigits_digits n

/-- **A padded number is read back** by its width. -/
theorem upTo_padded (hw : 0 < w) (h : n < Nat.pow 10 w) (rest : List Char) :
    upTo w ((padded w n).toList ++ rest) = some (n, rest) := by
  have htake : (((padded w n).toList ++ rest).take w).takeWhile isDigit = (padded w n).toList := by
    rw [List.take_left' (length_padded hw h)]
    exact List.takeWhile_eq_self_iff.mpr fun c hc => isDigit_of_mem_padded hc
  simp only [upTo, htake, List.isEmpty_eq_false_iff.mpr (padded_ne_nil w n), Bool.false_eq_true,
    if_false, ofDigits_padded, List.drop_left]

/-- **A padded number is read back** up to what ends it. -/
theorem many_padded (hrest : ∀ c ∈ rest.head?, isDigit c = false) :
    many ((padded w n).toList ++ rest) = some (n, rest) := by
  have htake : ((padded w n).toList ++ rest).takeWhile isDigit = (padded w n).toList :=
    takeWhile_digits (fun _ => isDigit_of_mem_padded) hrest
  simp only [many, htake, List.isEmpty_eq_false_iff.mpr (padded_ne_nil w n), Bool.false_eq_true,
    if_false, ofDigits_padded, List.drop_left]

/-! ## Blanks -/

theorem isBlank_of_isDigit (h : isDigit c = true) : isBlank c = false := by
  simp only [isDigit, Bool.and_eq_true, decide_eq_true_eq, Char.le_def, UInt32.le_iff_toNat_le] at h
  simp only [isBlank, blankRanges, List.any_cons, List.any_nil, Char.toNat]
  simp at h ⊢
  omega

theorem trimLeft_of_visible (hc : isBlank c = false) : trimLeft (c :: rest) = c :: rest :=
  List.dropWhile_cons_of_neg (by simp [hc])

/-- There are no blanks in front of a padded number. -/
theorem trimLeft_padded (w n : Nat) (rest : List Char) :
    trimLeft ((padded w n).toList ++ rest) = (padded w n).toList ++ rest := by
  cases hds : (padded w n).toList with
  | nil => exact absurd hds (padded_ne_nil w n)
  | cons c ds =>
    have hc : isDigit c = true := isDigit_of_mem_padded (hds ▸ List.mem_cons_self)
    exact trimLeft_of_visible (isBlank_of_isDigit hc)

end WorkflowScheduler.Text
