import ConvertBinaryC.CBCPackInfo
import ConvertBinaryC.FieldRules

/-! The options of an object (`cbc/option.c`). Their handlers write to the configuration while they
check the value, and an error leaves what has been written. -/
namespace ConvertBinaryC
open FieldRules

/-- What the options set. The layout parameters and the layouter are fields of one record in the
source. A keyword is mapped to a token, which is known by its name; the token that is skipped has
none. -/
structure Config where
  order_members : Bool
  ixhash : Option String
  enumType : EnumType
  issue_warnings : Bool
  has_cpp_comments : Bool
  has_macro_vaargs : Bool
  unsigned_chars : Bool
  unsigned_bitfields : Bool
  has_std_c : Bool
  has_std_c_hosted : Bool
  is_std_c_hosted : Bool
  std_c_version : ℤ
  keywords : BitVec 32
  disabled_keywords : List String
  includes : List String
  defines : List String
  assertions : List String
  keyword_map : List (String × Option String)
  layout : LayoutParam
  bflayouter : BitfieldLayouter

/-- The handlers fail with the configuration as it is then. -/
abbrev Setting := EStateM Fault Config

def Setting.ofCall {α : Type} : Call α → Setting α
  | .ok a => pure a
  | .error e => throw e

namespace Config

def orderMembers : RecordField Config Bool where
  get := order_members
  set cfg x := { cfg with order_members := x }

def warnings : RecordField Config Bool where
  get := issue_warnings
  set cfg x := { cfg with issue_warnings := x }

def cppComments : RecordField Config Bool where
  get := has_cpp_comments
  set cfg x := { cfg with has_cpp_comments := x }

def macroVaargs : RecordField Config Bool where
  get := has_macro_vaargs
  set cfg x := { cfg with has_macro_vaargs := x }

def unsignedChars : RecordField Config Bool where
  get := unsigned_chars
  set cfg x := { cfg with unsigned_chars := x }

def unsignedBitfields : RecordField Config Bool where
  get := unsigned_bitfields
  set cfg x := { cfg with unsigned_bitfields := x }

def stdC : RecordField Config Bool where
  get := has_std_c
  set cfg x := { cfg with has_std_c := x }

def stdCHosted : RecordField Config Bool where
  get := has_std_c_hosted
  set cfg x := { cfg with has_std_c_hosted := x }

def hosted : RecordField Config Bool where
  get := is_std_c_hosted
  set cfg x := { cfg with is_std_c_hosted := x }

def stdCVersion : RecordField Config ℤ where
  get := std_c_version
  set cfg x := { cfg with std_c_version := x }

def enumTypes : RecordField Config EnumType where
  get := enumType
  set cfg x := { cfg with enumType := x }

def includeList : RecordField Config (List String) where
  get := includes
  set cfg x := { cfg with includes := x }

def defineList : RecordField Config (List String) where
  get := defines
  set cfg x := { cfg with defines := x }

def assertList : RecordField Config (List String) where
  get := assertions
  set cfg x := { cfg with assertions := x }

def layouter : RecordField Config BitfieldLayouter where
  get := bflayouter
  set cfg x := { cfg with bflayouter := x }

def layoutParam : RecordField Config LayoutParam where
  get := layout
  set cfg x := { cfg with layout := x }

end Config

namespace LayoutParam

def ptrSize : RecordField LayoutParam ℤ where
  get := ptr_size
  set lp x := { lp with ptr_size := x }

def enumSize : RecordField LayoutParam ℤ where
  get := enum_size
  set lp x := { lp with enum_size := x }

def intSize : RecordField LayoutParam ℤ where
  get := int_size
  set lp x := { lp with int_size := x }

def charSize : RecordField LayoutParam ℤ where
  get := char_size
  set lp x := { lp with char_size := x }

def shortSize : RecordField LayoutParam ℤ where
  get := short_size
  set lp x := { lp with short_size := x }

def longSize : RecordField LayoutParam ℤ where
  get := long_size
  set lp x := { lp with long_size := x }

def longLongSize : RecordField LayoutParam ℤ where
  get := long_long_size
  set lp x := { lp with long_long_size := x }

def floatSize : RecordField LayoutParam ℤ where
  get := float_size
  set lp x := { lp with float_size := x }

def doubleSize : RecordField LayoutParam ℤ where
  get := double_size
  set lp x := { lp with double_size := x }

def longDoubleSize : RecordField LayoutParam ℤ where
  get := long_double_size
  set lp x := { lp with long_double_size := x }

def maxAlignment : RecordField LayoutParam ℤ where
  get := alignment
  set lp x := { lp with alignment := x }

def compoundAlignment : RecordField LayoutParam ℤ where
  get := compound_alignment
  set lp x := { lp with compound_alignment := x }

def byteOrder : RecordField LayoutParam CByteOrder where
  get := byte_order
  set lp x := { lp with byte_order := x }

end LayoutParam

section Values
variable (perl : Perl) (address : SV → IV)

/-- `SvROK` -/
def SV.isRef : SV → Bool
  | .av _ | .hv _ | .ref _ => true
  | .undef | .scalar _ => false

/-- `SvIV` of any value. That of a reference is its address. -/
def Perl.ivOf : SV → ℤ
  | .undef => 0
  | .scalar s => perl.intOf s
  | sv => address sv

/-- `SvPV_nolen`, read as a C string. -/
def Perl.textOf (sv : SV) : String := String.ofList (cString (perl.stringOf sv))

/-- The alternatives of an error message. -/
def alternatives (comma last : String) : List String → String
  | [] => ""
  | [a] => a
  | [a, b] => a ++ last ++ b
  | a :: rest => a ++ comma ++ alternatives comma last rest

def checkIntegerOption (name : String) (options : List ℤ) (sv : SV) : Call ℤ :=
  if sv.isRef then .error (.croak (name ++ " must be an integer value, not a reference"))
  else
    let value := perl.ivOf address sv
    if value ∈ options then .ok value
    else .error (.croak (name ++ " must be " ++
      alternatives ", " " or " (options.map toString) ++ ", not " ++ toString value))

/-- `get_string_option` for a value that is given. -/
def getStringOption {α : Type} (name : String) (options : List (String × α)) (sv : SV) : Call α :=
  if sv.isRef then .error (.croak (name ++ " must be a string value, not a reference"))
  else
    let string := perl.textOf sv
    match options.find? fun opt => opt.1 == string with
    | some opt => .ok opt.2
    | none => .error (.croak (name ++ " must be '" ++
        alternatives "', '" "' or '" (options.map Prod.fst) ++ "', not '" ++ string ++ "'"))

end Values

def byteOrderOptions : List (String × CByteOrder) :=
  [("BigEndian", .bigEndian), ("LittleEndian", .littleEndian)]

def enumTypeOptions : List (String × EnumType) :=
  [("Integer", .integer), ("String", .string), ("Both", .both)]

def intSizes : List ℤ := [0, 1, 2, 4, 8]

def enumSizes : List ℤ := [-1, 0, 1, 2, 4, 8]

def floatSizes : List ℤ := [0, 1, 2, 4, 8, 12, 16]

def alignments : List ℤ := [0, 1, 2, 4, 8, 16]

/-- `UPDATE_OPT`: has the value changed? -/
def updateOpt {α : Type} [DecidableEq α] (config : RecordField Config α) (val : α) : Setting Bool := do
  let cfg ← get
  if config.get cfg ≠ val then do
    set (config.set cfg val)
    pure true
  else pure false

/-- The value of a flag, which is a bit. -/
def flagValue (flag : Bool) : ℤ := if flag then 1 else 0

/-- A flag is compared with the number that it is set from, so 2 counts as a change of a flag that
is set. -/
def updateFlag (flag : RecordField Config Bool) (iv : ℤ) : Setting Bool := do
  let cfg ← get
  if flagValue (flag.get cfg) ≠ iv then do
    set (flag.set cfg (decide (iv ≠ 0)))
    pure true
  else pure false

section Handlers
variable (perl : Perl) (address : SV → IV)

/-- `FLAG_OPTION` -/
def flagOption (name : String) (flag : RecordField Config Bool) (sv_val : Option SV) : Setting Bool :=
  match sv_val with
  | none => pure false
  | some sv =>
    if sv.isRef then throw (.croak (name ++ " must be a boolean value, not a reference"))
    else updateFlag flag (perl.ivOf address sv)

/-- `IVAL_OPTION` -/
def ivalOption (name : String) (options : List ℤ) (config : RecordField LayoutParam ℤ)
    (sv_val : Option SV) : Setting Bool :=
  match sv_val with
  | none => pure false
  | some sv => do
    let val ← Setting.ofCall (checkIntegerOption perl address name options sv)
    updateOpt (Config.layoutParam.comp config) val

/-- What `TRISTATE_FLAG_OPTION` and `TRISTATE_INT_OPTION` share. The state is written before a
reference is refused. -/
def tristateOption (text : String) (state : RecordField Config Bool) (update : ℤ → Setting Bool)
    (sv_val : Option SV) : Setting Bool :=
  match sv_val with
  | none => pure false
  | some sv => do
    let cfg ← get
    let changed := sv.defined != state.get cfg
    set (state.set cfg sv.defined)
    if sv.defined then
      if sv.isRef then throw (.croak text)
      else do
        let updated ← update (perl.ivOf address sv)
        pure (changed || updated)
    else pure changed

def tristateFlagOption (name : String) (state flag : RecordField Config Bool) :
    Option SV → Setting Bool :=
  tristateOption perl address (name ++ " must be undef or a boolean value, not a reference") state
    (updateFlag flag)

def tristateIntOption (name : String) (state : RecordField Config Bool) (config : RecordField Config ℤ) :
    Option SV → Setting Bool :=
  tristateOption perl address (name ++ " must be undef or an integer value, not a reference") state
    (updateOpt config)

/-- `LL_push` of a string. -/
def pushString (list : RecordField Config (List String)) : Option SV → Setting PUnit
  | some sv => modify fun cfg => list.set cfg (list.get cfg ++ [perl.textOf sv])
  | none => throw (.fatal "NULL returned by av_fetch() in handle_string_list()")

/-- The list is flushed before the value is looked at. -/
def handleStringList (option : String) (list : RecordField Config (List String)) (sv_val : Option SV) :
    Setting Bool :=
  match sv_val with
  | none => pure false
  | some sv => do
    modify fun cfg => list.set cfg []
    match sv with
    | .av elems => do
      elems.forM (pushString perl list)
      pure true
    | .hv _ | .ref _ => throw (.croak (option ++ " wants an array reference"))
    | _ => throw (.croak (option ++ " wants a reference to an array of strings"))

/-- The keywords that can be disabled, with their bits. -/
def keywordMasks : List (String × BitVec 32) :=
  [("auto", 0x1), ("const", 0x2), ("double", 0x4), ("enum", 0x8), ("extern", 0x10),
    ("float", 0x20), ("inline", 0x40), ("long", 0x80), ("register", 0x100), ("restrict", 0x200),
    ("short", 0x400), ("signed", 0x800), ("static", 0x1000), ("unsigned", 0x2000),
    ("void", 0x4000), ("volatile", 0x8000), ("asm", 0x10000)]

def hasAllKeywords : BitVec 32 := 0x1FFFF

def disableKeyword (acc : BitVec 32 × List String) (elem : Option SV) :
    Call (BitVec 32 × List String) :=
  match elem with
  | none => .error (.fatal "NULL returned by av_fetch() in disabled_keywords()")
  | some sv =>
    let str := perl.textOf sv
    match keywordMasks.find? fun k => k.1 == str with
    | some k => .ok (acc.1 &&& ~~~k.2, acc.2 ++ [str])
    | none => .error (.croak ("Cannot disable unknown keyword '" ++ str ++ "'"))

def disabledKeywords (sv_val : Option SV) : Setting Bool :=
  match sv_val with
  | none => pure false
  | some (.av elems) => do
    let (keywords, list) ← Setting.ofCall (elems.foldlM (disableKeyword perl) (hasAllKeywords, []))
    modify fun cfg => { cfg with keywords := keywords, disabled_keywords := list }
    pure true
  | some (.hv _) | some (.ref _) =>
    throw (.croak "DisabledKeywords wants an array reference")
  | some _ => throw (.croak "DisabledKeywords wants a reference to an array of strings")

/-- The keywords of C that have a token. -/
def cKeywords : List String :=
  keywordMasks.map Prod.fst ++ ["break", "case", "char", "continue", "default", "do", "else", "for",
    "goto", "if", "int", "return", "sizeof", "struct", "switch", "typedef", "union", "while"]

/-- The key of a hash as a C string, which ends at the first NUL. -/
def keyText (key : String) : String := String.ofList (key.toList.takeWhile fun c => c.toNat ≠ 0)

/-- One entry of a keyword map. Only the C string is checked, but the whole key is stored. -/
def mapKeyword (entry : String × SV) : Call (String × Option String) :=
  let key := keyText entry.1
  if key = "" then .error (.croak "Cannot use empty string as a keyword")
  else if key.toList.all fun c => c == '_' || c.isAlpha then
    match entry.2 with
    | .undef => .ok (entry.1, none)
    | .scalar s =>
      let map := perl.textOf (.scalar s)
      if map ∈ cKeywords then .ok (entry.1, some map)
      else .error (.croak ("Cannot use '" ++ map ++ "' as a keyword"))
    | _ => .error (.croak "Cannot use a reference as a keyword")
  else .error (.croak ("Cannot use '" ++ key ++ "' as a keyword"))

def keywordMap (sv_val : Option SV) : Setting Bool :=
  match sv_val with
  | none => pure false
  | some (.hv hv) => do
    let map ← Setting.ofCall (hv.mapM (mapKeyword perl))
    modify fun cfg => { cfg with keyword_map := map }
    pure true
  | some _ => throw (.croak "KeywordMap wants a hash reference")

end Handlers

/-- The properties of layouters. -/
inductive BLProperty where
  | align
  | blockSize
  | byteOrder
  | maxAlign
  | offset
  deriving DecidableEq, Repr

/-- `bl_property_string` -/
def BLProperty.string : BLProperty → String
  | align => "Align"
  | blockSize => "BlockSize"
  | byteOrder => "ByteOrder"
  | maxAlign => "MaxAlign"
  | offset => "Offset"

def blProperty (property : String) : Option BLProperty :=
  [BLProperty.align, .blockSize, .byteOrder, .maxAlign, .offset].find? fun p => p.string == property

/-- A property that can be set as an option, with its values; all integers are allowed if there are
none. No engine has an option that is a string. -/
structure BLOption where
  prop : BLProperty
  values : List ℤ
  deriving DecidableEq, Repr

def BLClass.options : BLClass → List BLOption
  | .generic _ | .microsoft _ => []
  | .simple _ => [⟨.blockSize, []⟩]

def BLClass.name : BLClass → String
  | .generic _ => "Generic"
  | .microsoft _ => "Microsoft"
  | .simple _ => "Simple"

/-- `bl_create` -/
def blCreateNamed (class_name : String) : Option BitfieldLayouter :=
  [blCreateGeneric, blCreateMicrosoft, blCreateSimple].find? fun bl => bl.blc.name == class_name

namespace BitfieldLayouter

/-- The method `set` for an integer; the byte order is no integer. -/
def setProperty (bl : BitfieldLayouter) (prop : BLProperty) (v : ℤ) : Option BitfieldLayouter :=
  match prop with
  | .align => some { bl with align := v }
  | .maxAlign => some { bl with max_align := v }
  | .offset => some { bl with offset := v }
  | .byteOrder => none
  | .blockSize =>
    match bl.blc with
    | .simple b => some { bl with blc := .simple { b with block_size := v } }
    | _ => none

/-- The method `get` for an integer. -/
def getProperty (bl : BitfieldLayouter) (prop : BLProperty) : ℤ :=
  match prop with
  | .align => bl.align
  | .maxAlign => bl.max_align
  | .offset => bl.offset
  | .byteOrder => 0
  | .blockSize =>
    match bl.blc with
    | .simple b => b.block_size
    | _ => 0

/-- The option of the engine that a key names. -/
def option? (bl : BitfieldLayouter) (key : String) : Option BLOption :=
  (blProperty key).bind fun prop => bl.blc.options.find? fun opt => opt.prop == prop

end BitfieldLayouter

section Engines
variable (perl : Perl) (address : SV → IV)

/-- One entry of the hash, set on the layouter at once. -/
def setBitfieldsEntry (entry : String × SV) : EStateM Fault BitfieldLayouter PUnit :=
  let prop_string := keyText entry.1
  if prop_string = "Engine" then pure ⟨⟩
  else do
    let bl ← get
    match bl.option? prop_string with
    | none => throw (.croak ("Invalid option '" ++ prop_string ++
        "' for bitfield layout engine '" ++ bl.blc.name ++ "'"))
    | some opt =>
      let v := perl.ivOf address entry.2
      let invalid := Fault.croak ("Invalid value '" ++ perl.textOf entry.2 ++ "' for option '" ++
        prop_string ++ "'")
      if opt.values ≠ [] ∧ v ∉ opt.values then throw invalid
      else match bl.setProperty opt.prop v with
        | none => throw invalid
        | some bl => set bl

/-- The engine that the hash asks for. -/
def newEngine (hv : Hash) : Call (Option BitfieldLayouter) :=
  match hv.lookup "Engine" with
  | none => .ok none
  | some engine =>
    match blCreateNamed (perl.textOf engine) with
    | none => .error (.croak ("Unknown bitfield layout engine '" ++ perl.textOf engine ++ "'"))
    | some bl => .ok (some bl)

/-- `bitfields_option`. An error destroys a new engine, but not what has been set on the one that
is in use. -/
def bitfieldsOption (sv_val : Option SV) : Setting Bool :=
  match sv_val with
  | none => pure false
  | some (.hv hv) => do
    let bl_new ← Setting.ofCall (newEngine perl hv)
    let cfg ← get
    match hv.forM (setBitfieldsEntry perl address) (bl_new.getD cfg.bflayouter) with
    | .ok _ bl => do
      set { cfg with bflayouter := bl }
      pure true
    | .error e bl =>
      match bl_new with
      | some _ => throw e
      | none => do
        set { cfg with bflayouter := bl }
        throw e
  | some _ => throw (.croak "Bitfields wants a hash reference")

end Engines

inductive ConfigOption where
  | unsignedBitfields
  | unsignedChars
  | warnings
  | pointerSize
  | enumSize
  | intSize
  | charSize
  | shortSize
  | longSize
  | longLongSize
  | floatSize
  | doubleSize
  | longDoubleSize
  | alignment
  | compoundAlignment
  | includes
  | defines
  | asserts
  | disabledKeywords
  | keywordMap
  | byteOrder
  | enumType
  | hasCPPComments
  | hasMacroVAARGS
  | orderMembers
  | bitfields
  | stdCVersion
  | hostedC
  deriving DecidableEq, Repr

namespace ConfigOption

def string : ConfigOption → String
  | unsignedBitfields => "UnsignedBitfields"
  | unsignedChars => "UnsignedChars"
  | warnings => "Warnings"
  | pointerSize => "PointerSize"
  | enumSize => "EnumSize"
  | intSize => "IntSize"
  | charSize => "CharSize"
  | shortSize => "ShortSize"
  | longSize => "LongSize"
  | longLongSize => "LongLongSize"
  | floatSize => "FloatSize"
  | doubleSize => "DoubleSize"
  | longDoubleSize => "LongDoubleSize"
  | alignment => "Alignment"
  | compoundAlignment => "CompoundAlignment"
  | includes => "Include"
  | defines => "Define"
  | asserts => "Assert"
  | disabledKeywords => "DisabledKeywords"
  | keywordMap => "KeywordMap"
  | byteOrder => "ByteOrder"
  | enumType => "EnumType"
  | hasCPPComments => "HasCPPComments"
  | hasMacroVAARGS => "HasMacroVAARGS"
  | orderMembers => "OrderMembers"
  | bitfields => "Bitfields"
  | stdCVersion => "StdCVersion"
  | hostedC => "HostedC"

def all : List ConfigOption :=
  [unsignedBitfields, unsignedChars, warnings, pointerSize, enumSize, intSize, charSize, shortSize,
    longSize, longLongSize, floatSize, doubleSize, longDoubleSize, alignment, compoundAlignment,
    includes, defines, asserts, disabledKeywords, keywordMap, byteOrder, enumType, hasCPPComments,
    hasMacroVAARGS, orderMembers, bitfields, stdCVersion, hostedC]

/-- `IMPACTS_LAYOUT` -/
def impactsLayout : ConfigOption → Bool
  | pointerSize | enumSize | intSize | charSize | shortSize | longSize | longLongSize | floatSize
  | doubleSize | longDoubleSize | alignment | compoundAlignment | byteOrder | bitfields => true
  | _ => false

/-- `IMPACTS_PREPROC` -/
def impactsPreproc : ConfigOption → Bool
  | hasCPPComments | hasMacroVAARGS | hostedC | stdCVersion | includes | defines | asserts => true
  | _ => false

end ConfigOption

/-- `get_config_option` -/
def getConfigOption (option : String) : Option ConfigOption :=
  ConfigOption.all.find? fun o => o.string == option

structure HandleOptionResult where
  option_modified : Bool
  impacts_layout : Bool
  impacts_preproc : Bool
  deriving DecidableEq, Repr

section Options
variable (perl : Perl) (address : SV → IV)

/-- The first switch of `handle_option`: has the option changed? -/
def setOption (cfgopt : ConfigOption) : Option SV → Setting Bool :=
  match cfgopt with
  | .orderMembers => flagOption perl address "OrderMembers" Config.orderMembers
  | .warnings => flagOption perl address "Warnings" Config.warnings
  | .hasCPPComments => flagOption perl address "HasCPPComments" Config.cppComments
  | .hasMacroVAARGS => flagOption perl address "HasMacroVAARGS" Config.macroVaargs
  | .unsignedChars => flagOption perl address "UnsignedChars" Config.unsignedChars
  | .unsignedBitfields => flagOption perl address "UnsignedBitfields" Config.unsignedBitfields
  | .pointerSize => ivalOption perl address "PointerSize" intSizes LayoutParam.ptrSize
  | .enumSize => ivalOption perl address "EnumSize" enumSizes LayoutParam.enumSize
  | .intSize => ivalOption perl address "IntSize" intSizes LayoutParam.intSize
  | .charSize => ivalOption perl address "CharSize" intSizes LayoutParam.charSize
  | .shortSize => ivalOption perl address "ShortSize" intSizes LayoutParam.shortSize
  | .longSize => ivalOption perl address "LongSize" intSizes LayoutParam.longSize
  | .longLongSize => ivalOption perl address "LongLongSize" intSizes LayoutParam.longLongSize
  | .floatSize => ivalOption perl address "FloatSize" floatSizes LayoutParam.floatSize
  | .doubleSize => ivalOption perl address "DoubleSize" floatSizes LayoutParam.doubleSize
  | .longDoubleSize => ivalOption perl address "LongDoubleSize" floatSizes LayoutParam.longDoubleSize
  | .alignment => ivalOption perl address "Alignment" alignments LayoutParam.maxAlignment
  | .compoundAlignment =>
    ivalOption perl address "CompoundAlignment" alignments LayoutParam.compoundAlignment
  | .hostedC => tristateFlagOption perl address "HostedC" Config.stdCHosted Config.hosted
  | .stdCVersion => tristateIntOption perl address "StdCVersion" Config.stdC Config.stdCVersion
  | .includes => handleStringList perl "Include" Config.includeList
  | .defines => handleStringList perl "Define" Config.defineList
  | .asserts => handleStringList perl "Assert" Config.assertList
  | .disabledKeywords => disabledKeywords perl
  | .keywordMap => keywordMap perl
  | .byteOrder => fun
    | none => pure false
    | some sv => do
      let val ← Setting.ofCall (getStringOption perl "ByteOrder" byteOrderOptions sv)
      updateOpt (Config.layoutParam.comp LayoutParam.byteOrder) val
  | .enumType => fun
    | none => pure false
    | some sv => do
      let val ← Setting.ofCall (getStringOption perl "EnumType" enumTypeOptions sv)
      updateOpt Config.enumTypes val
  | .bitfields => bitfieldsOption perl address

end Options

section Answers

def newSVpv (s : String) : SV := newSVpvn (textBytes s)

def stringList (list : List String) : SV := .av (list.map fun s => some (newSVpv s))

/-- The name of a value in a table of `get_string_option`. -/
def optionString {α : Type} [BEq α] (options : List (String × α)) (val : α) : SV :=
  match options.find? fun opt => opt.2 == val with
  | none => .undef
  | some opt => newSVpv opt.1

/-- `*rval` -/
def optionValue (cfg : Config) : ConfigOption → SV
  | .orderMembers => newSViv (flagValue cfg.order_members)
  | .warnings => newSViv (flagValue cfg.issue_warnings)
  | .hasCPPComments => newSViv (flagValue cfg.has_cpp_comments)
  | .hasMacroVAARGS => newSViv (flagValue cfg.has_macro_vaargs)
  | .unsignedChars => newSViv (flagValue cfg.unsigned_chars)
  | .unsignedBitfields => newSViv (flagValue cfg.unsigned_bitfields)
  | .pointerSize => newSViv cfg.layout.ptr_size
  | .enumSize => newSViv cfg.layout.enum_size
  | .intSize => newSViv cfg.layout.int_size
  | .charSize => newSViv cfg.layout.char_size
  | .shortSize => newSViv cfg.layout.short_size
  | .longSize => newSViv cfg.layout.long_size
  | .longLongSize => newSViv cfg.layout.long_long_size
  | .floatSize => newSViv cfg.layout.float_size
  | .doubleSize => newSViv cfg.layout.double_size
  | .longDoubleSize => newSViv cfg.layout.long_double_size
  | .alignment => newSViv cfg.layout.alignment
  | .compoundAlignment => newSViv cfg.layout.compound_alignment
  | .hostedC => if cfg.has_std_c_hosted then newSViv (flagValue cfg.is_std_c_hosted) else .undef
  | .stdCVersion => if cfg.has_std_c then newSViv cfg.std_c_version else .undef
  | .includes => stringList cfg.includes
  | .defines => stringList cfg.defines
  | .asserts => stringList cfg.assertions
  | .disabledKeywords => stringList cfg.disabled_keywords
  | .keywordMap => .hv (cfg.keyword_map.map fun k => (k.1, (k.2.map newSVpv).getD .undef))
  | .byteOrder => optionString byteOrderOptions cfg.layout.byte_order
  | .enumType => optionString enumTypeOptions cfg.enumType
  | .bitfields => .hv (("Engine", newSVpv cfg.bflayouter.blc.name) ::
      cfg.bflayouter.blc.options.map fun opt =>
        (opt.prop.string, newSViv (cfg.bflayouter.getProperty opt.prop)))

end Answers

/-- `load_indexed_hash_module`: the first module that can be loaded. None is no error, but a
warning. -/
def loadIndexedHashModule (canRequire : String → Bool) (preferred : Option String) : Option String :=
  (preferred.toList ++ ["Tie::Hash::Indexed", "Hash::Ordered", "Tie::IxHash"]).find? canRequire

/-- The second switch of `handle_option`. -/
def postProcess (canRequire : String → Bool) (preferred : Option String) (cfgopt : ConfigOption)
    (sv_val : Option SV) (cfg : Config) : Config :=
  if cfgopt = .orderMembers ∧ sv_val.isSome ∧ cfg.order_members ∧ cfg.ixhash = none then
    { cfg with ixhash := loadIndexedHashModule canRequire preferred }
  else cfg

def handleOption (perl : Perl) (address : SV → IV) (canRequire : String → Bool)
    (preferred : Option String) (opt : SV) (sv_val : Option SV) :
    Setting (HandleOptionResult × SV) :=
  if opt.isRef then throw (.croak "Option name must be a string, not a reference")
  else
    match getConfigOption (perl.textOf opt) with
    | none => throw (.croak ("Invalid option '" ++ perl.textOf opt ++ "'"))
    | some cfgopt => do
      let option_modified ← setOption perl address cfgopt sv_val
      let cfg ← get
      set (postProcess canRequire preferred cfgopt sv_val cfg)
      pure (⟨option_modified, cfgopt.impactsLayout, cfgopt.impactsPreproc⟩, optionValue cfg cfgopt)

end ConvertBinaryC
