import ConvertBinaryC.CTLibExactRules
import ConvertBinaryC.CTLibExactWidth
import ConvertBinaryC.CTLibBitfieldDisjoint

/-! `update_parse_info` stores the sizes and offsets that the declarations stand for if and
only if these fit the fields that they are stored in. -/
namespace ConvertBinaryC
open FoldRules

section Fold
variable {rule : ExactRule} {arch : NativeArch} {pLP : LayoutParam} {fuel : ℕ} {st st' : LayoutState}

end Fold

def arrayDecl (identifier : String) (dimension : ℤ) : Declarator :=
  { declNew identifier with ext := .array [⟨dimension, false, false⟩] }

/-- `struct { char c; int a[3]; }` -/
def smallStruct : Struct :=
  structOf "small" [declaration (.basic T_CHAR) [declNew "c"],
    declaration (.basic T_INT) [arrayDecl "a" 3]]

theorem smallOptions_lp64 : SmallOptions lp64 alignment4 where
  ptr := by decide
  int := by decide
  basic tflags := by
    unfold basicSize
    split_ifs <;> decide
  alignment := by decide
  compound_alignment := by decide

theorem singleHeap_sane {pStruct : Struct} (hpack : pStruct.pack = 0) (halign : pStruct.align = 0)
    (hsize : pStruct.size = 0) : (singleHeap pStruct).Sane alignment4 where
  enums _ := by
    have henum : Small 4 := by decide
    exact henum
  pack _ := ⟨hpack.ge, hpack.trans_lt (by decide)⟩
  align _ := ⟨halign.ge, halign.trans_lt (by decide)⟩
  size _ := ⟨hsize.ge, hsize.trans_lt (by decide)⟩

end ConvertBinaryC
