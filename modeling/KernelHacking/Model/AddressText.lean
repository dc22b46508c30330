/-
Module: KernelHacking.Model.AddressText
Layer: Model
Purpose: How the two clients of `expose_page_table` read an address from the command line. `strtol` of a
  32-bit C library stops at 2^31 - 1, so `strtolu` takes the top bit out of the first digit of a text of
  eight digits with `lower`, and puts it back into the number.
Imports: KernelHacking.Model.PageTable
Trusted boundary: `strtol` for base 16 is the function of the C standard on a 32-bit `long`; a text is the
  bytes in front of its NUL, and `char` is unsigned, as on ARM
Main exports: CChar, ascii, lower, digitValue, readDigits, strtol, strtolu
Open obligations: none
-/
import KernelHacking.Model.PageTable

namespace KernelHacking.PageTable

/-- `char`. -/
abbrev CChar := BitVec 8

/-- A character constant. -/
def ascii (char : Char) : CChar := BitVec.ofNat 8 char.toNat

/-- `lower`: for a digit from 8 on, the digit that is smaller by 8. -/
def lower (c : CChar) : CChar :=
  if c ≥ ascii 'a' then c - ascii 'a' + ascii '2'
  else if c ≥ ascii 'A' then c - ascii 'A' + ascii '2'
  else c - 8

/-! ### `strtol` -/

def LONG_MAX : Int := 2147483647

def LONG_MIN : Int := -2147483648

/-- `isspace`. -/
def isSpace (c : CChar) : Bool := c = ascii ' ' ∨ (ascii '\t' ≤ c ∧ c ≤ ascii '\r')

/-- The value of a hexadecimal digit. -/
def digitValue (c : CChar) : Option Nat :=
  if ascii '0' ≤ c ∧ c ≤ ascii '9' then some (c - ascii '0').toNat
  else if ascii 'A' ≤ c ∧ c ≤ ascii 'F' then some ((c - ascii 'A').toNat + 10)
  else if ascii 'a' ≤ c ∧ c ≤ ascii 'f' then some ((c - ascii 'a').toNat + 10)
  else none

/-- The value of the digits up to the first other character, behind those that have been read. -/
def readDigits : Nat → List CChar → Nat
  | value, [] => value
  | value, c :: rest =>
      match digitValue c with
      | some digit => readDigits (16 * value + digit) rest
      | none => value

/-- The digits may stand behind `0x`. -/
def skipBase (text : List CChar) : List CChar :=
  match text with
  | zero :: x :: rest =>
      if zero = ascii '0' ∧ (x = ascii 'x' ∨ x = ascii 'X') then rest else text
  | _ => text

/-- `strtol(str, NULL, 16)`. -/
def strtol (str : List CChar) : Int :=
  let text := str.dropWhile isSpace
  let negative := text.head? = some (ascii '-')
  let number := if negative ∨ text.head? = some (ascii '+') then text.drop 1 else text
  let value : Int := readDigits 0 (skipBase number)
  if negative then max LONG_MIN (-value) else min LONG_MAX value

/-! ### `strtolu` -/

/-- `strtolu`: the number, and the text as it has been changed for `strtol`. -/
def strtolu (str : List CChar) : ULong × List CChar :=
  let flag : Bool := str.length = 8 ∧ str.headD 0 ≥ ascii '8'
  let str := if flag then str.modifyHead lower else str
  let res := BitVec.ofInt 32 (strtol str)
  (res ||| ((if flag then 1 else 0 : ULong) <<< 31), str)

end KernelHacking.PageTable
