/-
Module: KernelHacking.Proofs.AddressText
Layer: Proofs
Purpose: `strtolu` reads every 32-bit address. A text of up to eight hexadecimal digits in any mixture of
  cases is read as the number it denotes: `lower` takes 2^31 out of a number that `strtol` would
  saturate, and the top bit puts it back. So what the clients print as an address can be given to them.
Imports: Mathlib.Data.Nat.Digits.Defs, KernelHacking.Model.AddressText,
  KernelHacking.Model.PageTableClients
Trusted boundary: none (fully proved)
Main exports: HexDigit, HexDigit.char, numeral, strtol_digits, strtolu_parses, strtolu_hex
Open obligations: none
-/
import Mathlib.Data.Nat.Digits.Defs
import KernelHacking.Model.AddressText
import KernelHacking.Model.PageTableClients

namespace KernelHacking.PageTable

/-! ### Hexadecimal texts -/

/-- A hexadecimal digit in one of the two cases. -/
structure HexDigit where
  value : Fin 16
  upper : Bool
deriving DecidableEq, Repr

/-- The character of the digit. -/
def HexDigit.char (digit : HexDigit) : CChar :=
  ascii (if digit.upper then (Nat.digitChar digit.value).toUpper else Nat.digitChar digit.value)

/-- The number that the digits denote in base 16, the highest digit first. -/
def numeral (digits : List HexDigit) : Nat :=
  Nat.ofDigits 16 (digits.reverse.map fun digit => digit.value.val)

theorem numeral_cons (digit : HexDigit) (rest : List HexDigit) :
    numeral (digit :: rest) = digit.value * 16 ^ rest.length + numeral rest := by
  rw [numeral, numeral, List.reverse_cons, List.map_append, Nat.ofDigits_append, List.length_map,
    List.length_reverse, List.map_singleton, Nat.ofDigits_singleton, Nat.add_comm, Nat.mul_comm]

theorem numeral_lt (digits : List HexDigit) : numeral digits < 16 ^ digits.length := by
  have below := Nat.ofDigits_lt_base_pow_length (show 1 < 16 by decide)
    (l := digits.reverse.map fun digit => digit.value.val) (by simp)
  rwa [List.length_map, List.length_reverse] at below

/-- `strtol` knows the digits. -/
theorem digitValue_char (digit : HexDigit) : digitValue digit.char = some digit.value.val := by
  obtain ⟨value, upper⟩ := digit
  revert value upper
  decide

/-- A digit is none of the other characters that `strtol` looks for. -/
theorem char_ne (digit : HexDigit) :
    isSpace digit.char = false ∧ digit.char ≠ ascii '-' ∧ digit.char ≠ ascii '+' ∧
      digit.char ≠ ascii 'x' ∧ digit.char ≠ ascii 'X' := by
  obtain ⟨value, upper⟩ := digit
  revert value upper
  decide

/-- The digits of the upper half are the characters from `'8'` on. -/
theorem char_ge_eight (digit : HexDigit) : digit.char ≥ ascii '8' ↔ 8 ≤ digit.value.val := by
  obtain ⟨value, upper⟩ := digit
  revert value upper
  decide

/-- The digit that is smaller by 8. -/
def HexDigit.lowered (digit : HexDigit) : HexDigit := ⟨⟨digit.value - 8, by omega⟩, false⟩

theorem lower_char (digit : HexDigit) (upperHalf : 8 ≤ digit.value.val) :
    lower digit.char = digit.lowered.char := by
  obtain ⟨value, upper⟩ := digit
  revert value upper
  decide

/-! ### `strtol` -/

theorem readDigits_map (value : Nat) (digits : List HexDigit) :
    readDigits value (digits.map HexDigit.char) = value * 16 ^ digits.length + numeral digits := by
  induction digits generalizing value with
  | nil => simp [readDigits, numeral]
  | cons digit rest inductionHypothesis =>
      rw [List.map_cons, readDigits, digitValue_char]
      dsimp only
      rw [inductionHypothesis, numeral_cons, List.length_cons, Nat.pow_succ]
      ring

/-- Digits stand behind no `0x`. -/
theorem skipBase_map (digits : List HexDigit) :
    skipBase (digits.map HexDigit.char) = digits.map HexDigit.char := by
  match digits with
  | [] => rfl
  | [_] => rfl
  | first :: second :: rest =>
      obtain ⟨_, _, _, notLower, notUpper⟩ := char_ne second
      simp [skipBase, notLower, notUpper]

/-- `strtol` reads a text of digits as its number, up to the largest `long`. -/
theorem strtol_digits (digits : List HexDigit) :
    strtol (digits.map HexDigit.char) = min LONG_MAX (numeral digits) := by
  have noSpace : (digits.map HexDigit.char).dropWhile isSpace = digits.map HexDigit.char := by
    cases digits with
    | nil => rfl
    | cons first rest => simp [(char_ne first).1]
  have noSign : ∀ sign, sign = ascii '-' ∨ sign = ascii '+' →
      (digits.map HexDigit.char).head? ≠ some sign := by
    intro sign isSign
    cases digits with
    | nil => simp
    | cons first rest =>
        obtain ⟨_, notMinus, notPlus, _⟩ := char_ne first
        rcases isSign with rfl | rfl
        · simpa using notMinus
        · simpa using notPlus
  simp only [strtol, noSpace, noSign _ (Or.inl rfl), noSign _ (Or.inr rfl), or_self, if_false,
    skipBase_map, readDigits_map, Nat.zero_mul, Nat.zero_add]

/-! ### `strtolu` -/

/-- The text denotes a number from 2^31 on: it has eight digits, and the first is one of the upper
    half. -/
def HasTopBit : List HexDigit → Prop
  | [] => False
  | first :: rest => rest.length = 7 ∧ 8 ≤ first.value.val

instance : DecidablePred HasTopBit
  | [] => isFalse id
  | _ :: _ => inferInstanceAs (Decidable (_ ∧ _))

/-- The digits that `strtolu` passes to `strtol`. -/
def reduced (digits : List HexDigit) : List HexDigit :=
  if HasTopBit digits then digits.modifyHead HexDigit.lowered else digits

/-- The test of `strtolu` finds the numbers from 2^31 on. -/
theorem flag_iff (digits : List HexDigit) :
    ((digits.map HexDigit.char).length = 8 ∧ (digits.map HexDigit.char).headD 0 ≥ ascii '8') ↔
      HasTopBit digits := by
  cases digits with
  | nil => simp [HasTopBit]
  | cons first rest => simp [HasTopBit, ← char_ge_eight]

theorem strtolu_eq (digits : List HexDigit) :
    strtolu (digits.map HexDigit.char) =
      (BitVec.ofInt 32 (strtol ((reduced digits).map HexDigit.char)) |||
        ((if HasTopBit digits then 1 else 0 : ULong) <<< 31), (reduced digits).map HexDigit.char) := by
  simp only [strtolu, flag_iff, decide_eq_true_eq]
  by_cases top : HasTopBit digits
  · cases digits with
    | nil => cases top
    | cons first rest => simp [reduced, top, lower_char first top.2]
  · simp [reduced, top]

/-- Taking the top bit out of the first digit takes 2^31 out of the number. -/
theorem numeral_reduced (digits : List HexDigit) :
    numeral digits = (if HasTopBit digits then 2 ^ 31 else 0) + numeral (reduced digits) := by
  by_cases top : HasTopBit digits
  · cases digits with
    | nil => cases top
    | cons first rest =>
        have atLeast := top.2
        simp only [reduced, top, if_true, List.modifyHead_cons, numeral_cons, HexDigit.lowered, top.1]
        omega
  · simp [reduced, top]

/-- What is left is a number that `strtol` can return. -/
theorem numeral_reduced_lt (digits : List HexDigit) (short : digits.length ≤ 8) :
    numeral (reduced digits) < 2 ^ 31 := by
  cases digits with
  | nil => simp [reduced, HasTopBit, numeral]
  | cons first rest =>
      have below := numeral_lt rest
      have smaller := first.value.isLt
      simp only [List.length_cons] at short
      by_cases full : rest.length = 7
      · rw [full] at below
        by_cases upperHalf : 8 ≤ first.value.val
        · simp only [reduced, HasTopBit, full, upperHalf, and_self, if_true, List.modifyHead_cons,
            numeral_cons, HexDigit.lowered]
          omega
        · simp only [reduced, HasTopBit, full, upperHalf, and_false, if_false, numeral_cons]
          omega
      · have whole := numeral_lt (first :: rest)
        have few : 16 ^ (first :: rest).length ≤ 16 ^ 7 := by
          apply Nat.pow_le_pow_right (by decide)
          simp only [List.length_cons]
          omega
        simp only [reduced, HasTopBit, full, false_and, if_false]
        omega

/-- The top bit is put back in front of the other bits. -/
theorem toNat_or_top (value : Nat) (small : value < 2 ^ 31) (top : Prop) [Decidable top] :
    (BitVec.ofInt 32 value ||| ((if top then 1 else 0 : ULong) <<< 31)).toNat =
      (if top then 2 ^ 31 else 0) + value := by
  have isValue : (BitVec.ofInt 32 (value : Int)).toNat = value := by
    rw [BitVec.ofInt_natCast, BitVec.toNat_ofNat]
    omega
  rw [BitVec.toNat_or, isValue]
  by_cases isTop : top
  · simp only [isTop, if_true]
    have added := Nat.two_pow_add_eq_or_of_lt small 1
    rw [Nat.mul_one, Nat.or_comm] at added
    exact added.symm
  · simp [isTop]

/-- `strtol` is given a number that fits into a `long`. -/
theorem strtol_reduced (digits : List HexDigit) (short : digits.length ≤ 8) :
    (numeral (reduced digits) : Int) ≤ LONG_MAX ∧
      strtol ((reduced digits).map HexDigit.char) = numeral (reduced digits) := by
  have small := numeral_reduced_lt digits short
  have fits : (numeral (reduced digits) : Int) ≤ LONG_MAX := by
    simp only [LONG_MAX]
    omega
  refine ⟨fits, ?_⟩
  rw [strtol_digits, min_eq_right fits]

/-- The number is the one that the text denotes. -/
theorem toNat_strtolu (digits : List HexDigit) (short : digits.length ≤ 8) :
    (strtolu (digits.map HexDigit.char)).1.toNat = numeral digits := by
  rw [strtolu_eq]
  dsimp only
  rw [(strtol_reduced digits short).2, toNat_or_top _ (numeral_reduced_lt digits short),
    ← numeral_reduced]

/-- For every text of up to eight hexadecimal digits, `strtolu` returns the number that the text denotes.
    The text that it passes to `strtol` denotes a number that fits into a `long`. -/
theorem strtolu_parses (digits : List HexDigit) (short : digits.length ≤ 8) :
    (strtolu (digits.map HexDigit.char)).1.toNat = numeral digits ∧
      ∃ passed : List HexDigit,
        (strtolu (digits.map HexDigit.char)).2 = passed.map HexDigit.char ∧
          (numeral passed : Int) ≤ LONG_MAX ∧
            strtol (passed.map HexDigit.char) = numeral passed := by
  refine ⟨toNat_strtolu digits short, reduced digits, ?_, strtol_reduced digits short⟩
  rw [strtolu_eq]

/-- The digits of `C000d8c4`. -/
def tableDigits : List HexDigit :=
  [⟨12, true⟩, ⟨0, false⟩, ⟨0, false⟩, ⟨0, false⟩, ⟨13, false⟩, ⟨8, false⟩, ⟨12, false⟩, ⟨4, false⟩]

theorem strtolu_parses_table :
    tableDigits.length ≤ 8 ∧ (strtolu (tableDigits.map HexDigit.char)).1 = 0xC000D8C4 := by
  have short : tableDigits.length ≤ 8 := by decide
  refine ⟨short, BitVec.eq_of_toNat_eq ?_⟩
  rw [(strtolu_parses tableDigits short).1]
  decide

/-! ### Printed addresses -/

/-- The digits that `%lx` prints. -/
theorem exists_toDigits (number : Nat) :
    ∃ digits : List HexDigit, (Nat.toDigits 16 number).map ascii = digits.map HexDigit.char ∧
      numeral digits = number := by
  induction number using Nat.strong_induction_on with
  | _ number inductionHypothesis =>
      rw [Nat.toDigits_eq_if (by decide)]
      by_cases small : number < 16
      · exists [⟨⟨number, small⟩, false⟩]
        simp [small, HexDigit.char, numeral]
      · rcases inductionHypothesis (number / 16) (by omega) with ⟨digits, printed, isNumber⟩
        exists digits ++ [⟨⟨number % 16, by omega⟩, false⟩]
        rw [if_neg small, List.map_append, List.map_append, printed]
        refine ⟨rfl, ?_⟩
        rw [numeral, List.reverse_append, List.map_append, Nat.ofDigits_append]
        rw [numeral] at isNumber
        simp only [List.reverse_singleton, List.map_singleton, Nat.ofDigits_singleton,
          List.length_singleton, Nat.pow_one, isNumber]
        omega

theorem numeral_zeros (count : Nat) (digits : List HexDigit) :
    numeral (List.replicate count ⟨0, false⟩ ++ digits) = numeral digits := by
  induction count with
  | zero => rfl
  | succ count inductionHypothesis =>
      rw [List.replicate_succ, List.cons_append, numeral_cons, inductionHypothesis]
      simp

/-- What the clients print as an address, they read as this address. -/
theorem strtolu_hex (width : Nat) (narrow : width ≤ 8) (number : ULong) :
    (strtolu ((hex width number).toList.map ascii)).1 = number := by
  rcases exists_toDigits number.toNat with ⟨digits, printed, isNumber⟩
  have isLength : (Nat.toDigits 16 number.toNat).length = digits.length := by
    simpa using congrArg List.length printed
  have short : digits.length ≤ 8 := by
    rw [← isLength, Nat.length_toDigits_le_iff (by decide) (by decide)]
    exact number.isLt
  have text : (hex width number).toList.map ascii =
      (List.replicate (width - digits.length) (HexDigit.mk 0 false) ++ digits).map HexDigit.char := by
    simp only [hex, String.toList_ofList, List.map_append, List.map_replicate, printed, isLength]
    rfl
  apply BitVec.eq_of_toNat_eq
  rw [text, toNat_strtolu, numeral_zeros, isNumber]
  rw [List.length_append, List.length_replicate]
  omega

end KernelHacking.PageTable
