/-
Module: KernelHacking.Model.PageTableClients
Layer: Model
Purpose: The two clients of `expose_page_table`. `VATranslate` translates one address and `vm_inspector`
  lists the present pages of a range, both by reading the exposed second-level tables through the
  directory the system call has filled in. A read outside the mapped memory ends the program.
Imports: KernelHacking.Model.PageTable
Trusted boundary: none (fully proved)
Main exports: View, vaTranslate, Translation, vmInspector, Inspection
Open obligations: none
-/
import KernelHacking.Model.PageTable

namespace KernelHacking.PageTable

def L_PTE_PRESENT : ULong := 1

/-- What a client reads after the call: the directory, and the words of its memory. -/
structure View where
  fakePgd : Nat → ULong
  read : ULong → Option ULong

/-- `((unsigned long *)fake_pgd[slot])[entry]`. -/
def View.word (view : View) (slot : Nat) (entry : ULong) : Option ULong :=
  view.read (view.fakePgd slot + 4 * entry)

/-- A number in hexadecimal digits, with zeros in front up to the width. -/
def hex (width : Nat) (number : ULong) : String :=
  let digits := Nat.toDigits 16 number.toNat
  String.ofList (List.replicate (width - digits.length) '0' ++ digits)

/-! ### `VATranslate` -/

/-- The values `VATranslate` prints. -/
structure Translation where
  virtualAddr : ULong
  vPgd : ULong
  vPte : ULong
  vOffset : ULong
  p : ULong
  pageFrame : ULong
  physicalAddr : ULong
  /-- The line "Invalid physical address!" has been printed. -/
  invalid : Bool
deriving DecidableEq, Repr

/-- The printed text. -/
def Translation.text (result : Translation) : String :=
  (if result.invalid then "Invalid physical address!" else "") ++
    "Virtual Address Translation:\n" ++
    "  virtual address = 0x" ++ hex 8 result.virtualAddr ++ "\n" ++
    "  pgd: 0x" ++ hex 3 result.vPgd ++ "\tpte: 0x" ++ hex 3 result.vPte ++
    "\toffset: 0x" ++ hex 3 result.vOffset ++ "\n" ++
    "  pgd_base[0x" ++ hex 1 result.vPgd ++ "] = 0x" ++ hex 8 result.p ++
    "\tpte[0x" ++ hex 1 result.vPte ++ "] = 0x" ++ hex 8 result.pageFrame ++ "\n" ++
    "  physical address = 0x" ++ hex 8 result.physicalAddr ++ "\n"

/-- `expose_page_table` of `VATranslate` after the system call has returned 0. -/
def vaTranslate (view : View) (beginVaddr : ULong) : Option Translation := do
  let vPgd := (beginVaddr >>> 21) &&& 0x7FF
  let vPte := (beginVaddr >>> PAGE_SHIFT) &&& 0x1FF
  let vOffset := beginVaddr &&& 0xFFF
  let pte ← view.word vPgd.toNat vPte
  let pageFrame := pte &&& 0xFFFFF000
  some
    { virtualAddr := beginVaddr
      vPgd := vPgd
      vPte := vPte
      vOffset := vOffset
      p := view.fakePgd vPgd.toNat
      pageFrame := pageFrame
      physicalAddr := pageFrame + vOffset
      -- the program goes on after the message
      invalid := pageFrame = 0 }

/-! ### `vm_inspector` -/

/-- The rows `vm_inspector` prints, and whether it was ended by a bad read. -/
structure Inspection where
  rows : List (ULong × ULong)
  crashed : Bool
deriving DecidableEq, Repr

/-- The printed text. -/
def Inspection.text (result : Inspection) : String :=
  result.rows.foldl
    (fun text row => text ++ "        0x" ++ hex 5 row.1 ++ "                0x" ++ hex 5 row.2 ++ "\n")
    "  Virtual Page Number\tPhysical Page Number\n"

/-- The body of the loop for each page number in turn. -/
def inspectPages (view : View) : List ULong → Inspection
  | [] => ⟨[], false⟩
  | i :: pages =>
      match view.word (i >>> 9).toNat (i &&& 0x1FF) with
      | none => ⟨[], true⟩
      | some pageFrame =>
          let rest := inspectPages view pages
          if pageFrame &&& L_PTE_PRESENT ≠ 0 then
            ⟨(i, pageFrame >>> PAGE_SHIFT) :: rest.rows, rest.crashed⟩
          else
            rest

/-- The values of `i` in `for (i = first; i <= last; ++i)`, for `last` below the largest word. -/
def pagesFrom (first last : ULong) : List ULong :=
  (List.range' first.toNat (last.toNat + 1 - first.toNat)).map (BitVec.ofNat 32)

/-- `expose_page_table` of `vm_inspector` after the system call has returned 0. -/
def vmInspector (view : View) (beginVaddr endVaddr : ULong) : Inspection :=
  inspectPages view
    (pagesFrom ((beginVaddr >>> PAGE_SHIFT) &&& 0xFFFFF) ((endVaddr >>> PAGE_SHIFT) &&& 0xFFFFF))

end KernelHacking.PageTable
