import ConvertBinaryC.CTLibIntegerText

/-! Reading and writing integers of 1, 2, 4 and 8 bytes in either byte order,
whole or as a window of bits (`ctlib/byteorder.c`, native 64 bit integers). -/
namespace ConvertBinaryC

abbrev Byte := BitVec 8

/-- Memory, addressed by byte. -/
abbrev Memory := ℕ → Byte

inductive CByteOrder where
  | bigEndian
  | littleEndian
  deriving DecidableEq, Repr

/-- The union of `u_64` and `i_64` is one 64 bit word; `string` is `none` for the
null pointer. -/
structure IntValue where
  value : BitVec 64
  sign : Bool
  string : Option (List Char)
  deriving DecidableEq, Repr

/-- The shape shared by the `GET_` macros: an or of shifted bytes, given as pairs
of a byte offset and a shift. -/
def gather (w : ℕ) (terms : List (ℕ × ℕ)) (mem : Memory) (ptr : ℕ) : BitVec w :=
  terms.foldr (fun t acc => (mem (ptr + t.1)).setWidth w <<< t.2 ||| acc) 0

/-- The shape shared by the `SET_` macros: one byte store for each pair of a byte
offset and a shift. -/
def scatter {w : ℕ} (terms : List (ℕ × ℕ)) (v : BitVec w) (mem : Memory) (ptr : ℕ) : Memory :=
  terms.foldl (fun m t => Function.update m (ptr + t.1) ((v >>> t.2).setWidth 8)) mem

def byteTerms : List (ℕ × ℕ) := [(0, 0)]
def leWordTerms : List (ℕ × ℕ) := [(0, 0), (1, 8)]
def beWordTerms : List (ℕ × ℕ) := [(0, 8), (1, 0)]
def leLongTerms : List (ℕ × ℕ) := [(0, 0), (1, 8), (2, 16), (3, 24)]
def beLongTerms : List (ℕ × ℕ) := [(0, 24), (1, 16), (2, 8), (3, 0)]
def leLonglongTerms : List (ℕ × ℕ) :=
  [(0, 0), (1, 8), (2, 16), (3, 24), (4, 32), (5, 40), (6, 48), (7, 56)]
def beLonglongTerms : List (ℕ × ℕ) :=
  [(0, 56), (1, 48), (2, 40), (3, 32), (4, 24), (5, 16), (6, 8), (7, 0)]

def getByte : Memory → ℕ → BitVec 8 := gather 8 byteTerms
def getLeWord : Memory → ℕ → BitVec 16 := gather 16 leWordTerms
def getBeWord : Memory → ℕ → BitVec 16 := gather 16 beWordTerms
def getLeLong : Memory → ℕ → BitVec 32 := gather 32 leLongTerms
def getBeLong : Memory → ℕ → BitVec 32 := gather 32 beLongTerms
def getLeLonglong : Memory → ℕ → BitVec 64 := gather 64 leLonglongTerms
def getBeLonglong : Memory → ℕ → BitVec 64 := gather 64 beLonglongTerms

def setByte (v : BitVec 8) : Memory → ℕ → Memory := scatter byteTerms v
def setLeWord (v : BitVec 16) : Memory → ℕ → Memory := scatter leWordTerms v
def setBeWord (v : BitVec 16) : Memory → ℕ → Memory := scatter beWordTerms v
def setLeLong (v : BitVec 32) : Memory → ℕ → Memory := scatter leLongTerms v
def setBeLong (v : BitVec 32) : Memory → ℕ → Memory := scatter beLongTerms v
def setLeLonglong (v : BitVec 64) : Memory → ℕ → Memory := scatter leLonglongTerms v
def setBeLonglong (v : BitVec 64) : Memory → ℕ → Memory := scatter beLonglongTerms v

/-- `FETCH`: the macro's value is cast to the signed or the unsigned type of its
width and then widened to 64 bits. -/
def widen {w : ℕ} (sign : Bool) (v : BitVec w) : BitVec 64 :=
  if sign then v.signExtend 64 else v.setWidth 64

inductive ShiftDirection where
  | left
  | right
  deriving DecidableEq, Repr

/-- A shift by the full width of the operand is undefined in C. -/
def shiftInteger (val : BitVec 64) (bits : ℕ) (dir : ShiftDirection) : Call (BitVec 64) :=
  if 64 ≤ bits then .error .undefinedBehaviour
  else match dir with
    | .left => .ok (val <<< bits)
    | .right => .ok (val >>> bits)

/-- The mask of `bits` bits at `shift`, `(ALL_64_BITS >> (64 - bits)) << shift`. -/
def windowMask (bits shift : ℕ) : Call (BitVec 64) :=
  if bits = 0 ∨ 64 < bits ∨ 64 ≤ shift then .error .undefinedBehaviour
  else .ok (BitVec.allOnes 64 >>> (64 - bits) <<< shift)

def maskInteger (val : BitVec 64) (bits shift : ℕ) (extendMsb : Bool) : Call (BitVec 64) := do
  let msb := bits + shift - 1
  let mask ← windowMask bits shift
  let val := val &&& mask
  if extendMsb = true ∧ 0 < bits then
    if 64 ≤ msb then .error .undefinedBehaviour
    else if val.getLsbD msb then .ok (val ||| BitVec.allOnes 64 <<< msb)
    else .ok val
  else .ok val

def mergeInteger (dest src : BitVec 64) (bits shift : ℕ) : Call (BitVec 64) := do
  let mask ← windowMask bits shift
  .ok ((dest &&& ~~~mask) ||| (src &&& mask))

/-- The `switch (size)` of `fetch_integer`; another size leaves `iv` as it was. -/
def fetchSwitch (size : ℕ) (sign : Bool) (bo : CByteOrder) (mem : Memory) (ptr : ℕ)
    (iv : BitVec 64) : BitVec 64 :=
  match size, bo with
  | 1, _ => widen sign (getByte mem ptr)
  | 2, .bigEndian => widen sign (getBeWord mem ptr)
  | 2, .littleEndian => widen sign (getLeWord mem ptr)
  | 4, .bigEndian => widen sign (getBeLong mem ptr)
  | 4, .littleEndian => widen sign (getLeLong mem ptr)
  | 8, .bigEndian => widen sign (getBeLonglong mem ptr)
  | 8, .littleEndian => widen sign (getLeLonglong mem ptr)
  | _, _ => iv

def fetchInteger (size : ℕ) (sign : Bool) (bits shift : ℕ) (bo : CByteOrder)
    (mem : Memory) (src : ℕ) (pIV : IntValue) : Call IntValue := do
  let value := fetchSwitch size sign bo mem src pIV.value
  let value ← (if 0 < bits then do
      let value ← (if 0 < shift then shiftInteger value shift .right else .ok value)
      maskInteger value bits 0 sign
    else .ok value)
  let string ← (if pIV.string.isSome then do
      let string ← integer2string value sign
      .ok (some string)
    else .ok none)
  .ok ⟨value, sign, string⟩

/-- The `switch (size)` of `store_integer`; another size stores nothing. -/
def storeSwitch (size : ℕ) (bo : CByteOrder) (mem : Memory) (ptr : ℕ) (v : BitVec 64) : Memory :=
  match size, bo with
  | 1, _ => setByte (v.setWidth 8) mem ptr
  | 2, .bigEndian => setBeWord (v.setWidth 16) mem ptr
  | 2, .littleEndian => setLeWord (v.setWidth 16) mem ptr
  | 4, .bigEndian => setBeLong (v.setWidth 32) mem ptr
  | 4, .littleEndian => setLeLong (v.setWidth 32) mem ptr
  | 8, .bigEndian => setBeLonglong v mem ptr
  | 8, .littleEndian => setLeLonglong v mem ptr
  | _, _ => mem

/-- With a window, the surrounding bits come from the unit as it is in memory:
`orig` is fetched whole, and the shifted value is merged into it. -/
def storeInteger (size bits shift : ℕ) (bo : CByteOrder) (mem : Memory) (dest : ℕ)
    (pIV : IntValue) : Call Memory := do
  let value := match pIV.string with
    | some s => (string2integer s).2
    | none => pIV.value
  let value ← (if 0 < bits then do
      let orig ← fetchInteger size false 0 0 bo mem dest ⟨0, false, none⟩
      let value ← (if 0 < shift then shiftInteger value shift .left else .ok value)
      mergeInteger orig.value value bits shift
    else .ok value)
  .ok (storeSwitch size bo mem dest value)

end ConvertBinaryC
