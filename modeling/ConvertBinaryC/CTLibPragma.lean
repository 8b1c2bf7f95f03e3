import ConvertBinaryC.CTLibTypes

/-! The pack pragma (`ctlib/pragma.y`). -/
namespace ConvertBinaryC

/-- `errors` is the part of the parse's error stack that the pragma parser pushes. -/
structure PragmaState where
  file : String
  line : ℤ
  stack : List ℤ
  current : ℤ
  errors : List String
  deriving DecidableEq, Repr

inductive PragmaPack where
  | reset
  | value (n : ℤ)
  | push (n : ℤ)
  | pop
  deriving DecidableEq, Repr

def validPack (value : ℤ) : Prop :=
  value = 0 ∨ value = 1 ∨ value = 2 ∨ value = 4 ∨ value = 8

instance (value : ℤ) : Decidable (validPack value) := by unfold validPack; infer_instance

def pragmaParserNew (file : String) : PragmaState := ⟨file, 0, [], 0, []⟩

/-- `is_valid_pack_arg`, when it fails. -/
def PragmaState.invalidArg (st : PragmaState) (arg : ℤ) : PragmaState :=
  { st with errors := st.errors ++ [st.file ++ ", line " ++ toString st.line ++
      ": invalid argument " ++ toString arg ++ " to #pragma pack"] }

def pragmaPack (st : PragmaState) : PragmaPack → PragmaState
  | .reset => { st with current := 0 }
  | .value n => if validPack n then { st with current := n } else st.invalidArg n
  | .push n =>
    if validPack n then { st with stack := st.current :: st.stack, current := n }
    else st.invalidArg n
  | .pop =>
    match st.stack with
    | [] => { st with current := 0 }
    | size :: stack => { st with current := size, stack := stack }

theorem pragmaPack_pop_push (st : PragmaState) (n : ℤ) (hn : validPack n) :
    pragmaPack (pragmaPack st (.push n)) .pop = st := by
  simp only [pragmaPack, if_pos hn]

end ConvertBinaryC
