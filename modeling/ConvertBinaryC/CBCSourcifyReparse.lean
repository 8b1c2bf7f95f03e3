import ConvertBinaryC.CBCSourcifyPack

/-! The emitted text, read back: the recursion of `sourcify.c` and the walk over
the expansions go through the same compounds, every expansion is read with the
pack values of its nesting, and every pragma that is pushed is popped. -/
namespace ConvertBinaryC

/-- A piece that a parser of the text reads without a change to its pack stack. -/
def Piece.Plain (piece : Piece) : Prop := ∀ r : Reparse, r.read piece = r

def AllPlain (pieces : List Piece) : Prop := ∀ piece ∈ pieces, piece.Plain

@[simp] theorem plain_text (s : String) : (Piece.text s).Plain := fun _ => rfl
@[simp] theorem plain_bodyOpen (id : ℕ) : (Piece.bodyOpen id).Plain := fun _ => rfl
@[simp] theorem plain_enumOpen (id : ℕ) : (Piece.enumOpen id).Plain := fun _ => rfl
@[simp] theorem plain_enumClose (id : ℕ) : (Piece.enumClose id).Plain := fun _ => rfl

@[simp] theorem allPlain_nil : AllPlain [] := by simp [AllPlain]

@[simp] theorem allPlain_cons (piece : Piece) (pieces : List Piece) :
    AllPlain (piece :: pieces) ↔ piece.Plain ∧ AllPlain pieces := by simp [AllPlain]

@[simp] theorem allPlain_append (a b : List Piece) :
    AllPlain (a ++ b) ↔ AllPlain a ∧ AllPlain b := by simp [AllPlain, or_imp, forall_and]

@[simp] theorem allPlain_addIndent (level : ℕ) : AllPlain (addIndent level) := by
  simp [addIndent]

@[simp] theorem allPlain_srcIndent (level : ℕ) : AllPlain (srcIndent level) := by
  unfold srcIndent
  split_ifs <;> simp

@[simp] theorem allPlain_beginLine (ss : SourcifyState) : AllPlain (beginLine ss).1 := by
  unfold beginLine
  split_ifs <;> simp

@[simp] theorem allPlain_checkSetKeyword (level : ℕ) (ss : SourcifyState) :
    AllPlain (checkSetKeyword level ss).1 := by
  unfold checkSetKeyword
  split_ifs <;> simp

@[simp] theorem allPlain_contextLine (pSC : SourcifyConfig) (context : ContextInfo)
    (ss : SourcifyState) : AllPlain (contextLine pSC context ss).1 := by
  unfold contextLine
  split_ifs <;> simp

@[simp] theorem allPlain_keywordText (level : ℕ) (keyword identifier : String)
    (ss : SourcifyState) : AllPlain (keywordText level keyword identifier ss).1 := by
  unfold keywordText
  split_ifs <;> simp

@[simp] theorem allPlain_enumeratorLines (level : ℕ) (first : Bool) (lastVal : ℤ)
    (es : List Enumerator) : AllPlain (enumeratorLines level first lastVal es) := by
  induction es generalizing first lastVal with
  | nil => simp [enumeratorLines]
  | cons e es ih =>
    unfold enumeratorLines
    cases first <;> simp [ih]

@[simp] theorem beginLine_pop (ss : SourcifyState) :
    (beginLine ss).2.pragmaPackPop = ss.pragmaPackPop := by
  unfold beginLine
  split_ifs <;> rfl

@[simp] theorem contextLine_pop (pSC : SourcifyConfig) (context : ContextInfo)
    (ss : SourcifyState) : (contextLine pSC context ss).2.pragmaPackPop = ss.pragmaPackPop := by
  unfold contextLine
  split_ifs <;> simp

@[simp] theorem pragmaLine_pop (packPushed : Bool) (pack : ℤ) (ss : SourcifyState) :
    (pragmaLine packPushed pack ss).2.pragmaPackPop = ss.pragmaPackPop := by
  unfold pragmaLine
  split_ifs <;> simp

theorem readText_append (r : Reparse) (a b : List Piece) :
    readText r (a ++ b) = readText (readText r a) b := List.foldl_append

theorem readText_plain (r : Reparse) (pieces : List Piece) (h : AllPlain pieces) :
    readText r pieces = r := by
  induction pieces with
  | nil => rfl
  | cons piece pieces ih =>
    rw [allPlain_cons] at h
    change readText (r.read piece) pieces = r
    rw [h.1 r, ih h.2]

/-- The pack state once the pushed pragmas, one or none, are in force. -/
def pushed (st : PragmaState) : Option ℤ → PragmaState
  | none => st
  | some n => pragmaPack st (.push n)

section

variable (pack : ℕ → ℤ)

/-- Where `p` is in force the pieces write the expansions, and leave `q` pushed. -/
def Reads (p : ℤ) (q : Option ℤ) (pieces : List Piece) (es : List Expansion) : Prop :=
  ∀ r : Reparse, r.pragma.current = p →
    readText r pieces = ⟨pushed r.pragma q, r.packs ++ closingsOf pack p es⟩

variable {pack}

theorem Reads.plain {p : ℤ} {pieces : List Piece} (h : AllPlain pieces) :
    Reads pack p none pieces [] := by
  intro r _
  rw [readText_plain r pieces h, closingsOf, List.append_nil, pushed]

theorem Reads.append {p : ℤ} {q : Option ℤ} {a b : List Piece} {es fs : List Expansion}
    (ha : Reads pack p none a es) (hb : Reads pack p q b fs) :
    Reads pack p q (a ++ b) (es ++ fs) := by
  intro r hr
  rw [readText_append, ha r hr, closingsOf_append, ← List.append_assoc]
  exact hb ⟨r.pragma, _⟩ hr

theorem Reads.append_plain {p : ℤ} {q : Option ℤ} {a b : List Piece} {es : List Expansion}
    (ha : Reads pack p q a es) (hb : AllPlain b) : Reads pack p q (a ++ b) es := by
  intro r hr
  rw [readText_append, ha r hr, readText_plain _ b hb]

/-- The pop that `F_PRAGMA_PACK_POP` asks for. -/
theorem Reads.pop {p : ℤ} {q : Option ℤ} {a : List Piece} {es : List Expansion}
    (ha : Reads pack p q a es) (hq : ∀ n ∈ q, validPack n) :
    Reads pack p none (a ++ if q.isSome then [.packPop] else []) es := by
  intro r hr
  rw [readText_append, ha r hr]
  cases q with
  | none => rfl
  | some n =>
    have hpop := pragmaPack_pop_push r.pragma n (hq n rfl)
    simp only [Option.isSome_some, if_true, pushed]
    change (⟨pragmaPack (pragmaPack r.pragma (.push n)) .pop, _⟩ : Reparse) = _
    rw [hpop]

/-- A body: its head, the bodies inside it, and its closing brace, where the pack
value is the one its head pushed or else the one in force around it. -/
theorem Reads.body {p : ℤ} {q : Option ℤ} {head inside tail : List Piece}
    {inner : List Expansion} {id : ℕ}
    (hhead : Reads pack p q head []) (hq : ∀ n ∈ q, validPack n)
    (hhere : packInside pack p id = q.getD p)
    (hinside : Reads pack (packInside pack p id) none inside inner) (htail : AllPlain tail) :
    Reads pack p q (head ++ inside ++ tail ++ [.bodyClose id]) [.body id inner] := by
  intro r hr
  have hcur : (pushed r.pragma q).current = packInside pack p id := by
    rw [hhere]
    cases q with
    | none => exact hr
    | some n => simp only [pushed, pragmaPack, if_pos (hq n rfl), Option.getD_some]
  rw [readText_append, readText_append, readText_append, hhead r hr, hinside _ hcur,
    readText_plain _ tail htail]
  simp only [pushed, closingsOf, List.append_nil, Expansion.closings]
  change (⟨pushed r.pragma q, _ ++ [(id, (pushed r.pragma q).current)]⟩ : Reparse) = _
  rw [hcur, List.append_assoc]
  rfl

end

/-- A type database as the parser leaves it: every object was created after the
objects its own definition refers to by tagless specifiers or typedef names, and
packs are values that `#pragma pack` accepts. -/
structure ParsedTypes where
  pCPI : CParseInfo
  structCount : ℕ
  typedefCount : ℕ
  structs_lt : ∀ id ∈ pCPI.structs, id < structCount
  lists_known : ∀ pTDL ∈ pCPI.typedef_lists,
    ∀ kind id, pTDL.type = .compound kind id → id < structCount
  typedef_typedef : ∀ t < typedefCount, ∀ t', (pCPI.heap.typedefAt t).type = .typedef t' → t' < t
  typedef_compound : ∀ t < typedefCount, ∀ kind id,
    (pCPI.heap.typedefAt t).type = .compound kind id → id < structCount
  member_typedef : ∀ id < structCount, ∀ sds, (pCPI.heap.structAt id).declarations = some sds →
    ∀ sd ∈ sds, ∀ t, sd.type = .typedef t → t < typedefCount
  member_compound : ∀ id < structCount, ∀ sds, (pCPI.heap.structAt id).declarations = some sds →
    ∀ sd ∈ sds, ∀ kind id', sd.type = .compound kind id' → id' < structCount ∧
      ((pCPI.heap.structAt id).identifier = "" → (pCPI.heap.structAt id').identifier = "" →
        id' < id)
  pack_valid : ∀ id < structCount, validPack (pCPI.heap.structAt id).pack

namespace ParsedTypes

variable (T : ParsedTypes)

abbrev heap : Heap := T.pCPI.heap

def packOf (id : ℕ) : ℤ := (T.heap.structAt id).pack

def Unnamed (id : ℕ) : Prop := (T.heap.structAt id).identifier = ""

/-- A recursion depth that is never reached. -/
def depth : ℕ := T.structCount * (T.structCount + 2) + T.structCount + T.typedefCount + 1

/-- The compounds not yet marked. -/
def undumped (dumped : ℕ → Bool) : ℕ :=
  ((Finset.range T.structCount).filter fun id => dumped id = false).card

theorem undumped_le (dumped : ℕ → Bool) : T.undumped dumped ≤ T.structCount := by
  simpa only [undumped, Finset.card_range] using
    Finset.card_filter_le (Finset.range T.structCount) fun id => dumped id = false

theorem undumped_mono {a b : ℕ → Bool} (h : ∀ id, a id = true → b id = true) :
    T.undumped b ≤ T.undumped a := by
  apply Finset.card_le_card
  intro id hid
  rw [Finset.mem_filter] at hid ⊢
  refine ⟨hid.1, ?_⟩
  by_contra hne
  rw [Bool.not_eq_false] at hne
  rw [h id hne] at hid
  exact absurd hid.2 (by decide)

theorem undumped_mark {dumped : ℕ → Bool} {id : ℕ} (hid : id < T.structCount)
    (hd : dumped id = false) :
    T.undumped (Function.update dumped id true) + 1 ≤ T.undumped dumped := by
  have hmem : id ∈ (Finset.range T.structCount).filter fun i => dumped i = false :=
    Finset.mem_filter.mpr ⟨Finset.mem_range.mpr hid, hd⟩
  have hsub : ((Finset.range T.structCount).filter
      fun i => Function.update dumped id true i = false) ⊆
      ((Finset.range T.structCount).filter fun i => dumped i = false).erase id := by
    intro i hi
    rw [Finset.mem_filter] at hi
    by_cases hne : i = id
    · subst hne
      exact absurd hi.2 (by simp)
    · rw [Function.update_of_ne hne] at hi
      exact Finset.mem_erase.mpr ⟨hne, Finset.mem_filter.mpr hi⟩
  have hcard := Finset.card_le_card hsub
  rw [Finset.card_erase_of_mem hmem] at hcard
  have hpos : 0 < T.undumped dumped := Finset.card_pos.mpr ⟨id, hmem⟩
  unfold undumped at *
  omega

theorem resolveTypedef_ok (fuel : ℕ) (t : ℕ) (ht : t < T.typedefCount)
    (hfuel : t < fuel) :
    ∃ r, resolveTypedef T.heap fuel t = .ok r ∧
      ∀ kind id, r = some (.compound kind id) → id < T.structCount := by
  induction fuel generalizing t with
  | zero => omega
  | succ fuel ih =>
    unfold resolveTypedef
    dsimp only
    split_ifs with hptr
    · exact ⟨none, rfl, by simp⟩
    · split
      · next t' htype =>
        have hlt : t' < t := T.typedef_typedef t ht t' htype
        exact ih t' (by omega) (by omega)
      · next spec _ =>
        refine ⟨_, rfl, fun kind id hspec => ?_⟩
        exact T.typedef_compound t ht kind id (Option.some.inj hspec)

theorem definedType_ok (fuel : ℕ) (hfuel : T.typedefCount ≤ fuel) (pTS : TypeSpec)
    (ht : ∀ t, pTS = .typedef t → t < T.typedefCount)
    (hs : ∀ kind id, pTS = .compound kind id → id < T.structCount) :
    ∃ r, definedType T.heap fuel pTS = .ok r ∧
      ∀ kind id, r = some (.compound kind id) → id < T.structCount := by
  cases pTS with
  | typedef t => exact T.resolveTypedef_ok fuel t (ht t rfl) ((ht t rfl).trans_le hfuel)
  | basic _ => exact ⟨_, rfl, fun kind id h => hs kind id (Option.some.inj h)⟩
  | enum _ => exact ⟨_, rfl, fun kind id h => hs kind id (Option.some.inj h)⟩
  | compound _ _ => exact ⟨_, rfl, fun kind id h => hs kind id (Option.some.inj h)⟩

/-- Dump and walk have moved from `d`, `w` to `d'`, `w'` together: the complete
definitions read as the walk's outermost expansions, and what was added to the
open buffer reads, where `p` is in force, as the expansions added to the walk. -/
structure Written (d d' : Dump) (w w' : Walk) (p : ℤ) (q : Option ℤ) : Prop where
  marks : d'.structDumped = w'.structDumped
  grown : ∀ id, d.structDumped id = true → d'.structDumped id = true
  str : Reads T.packOf 0 none d'.str w'.tops
  s : ∃ pieces inner, d'.s = d.s ++ pieces ∧ w'.inner = w.inner ++ inner ∧
    Reads T.packOf p q pieces inner

/-- Dump and walk agree on the marks and on the complete definitions. -/
structure Agree (d : Dump) (w : Walk) : Prop where
  marks : d.structDumped = w.structDumped
  str : Reads T.packOf 0 none d.str w.tops

variable {T}

theorem Written.agree {d d' : Dump} {w w' : Walk} {p : ℤ} {q : Option ℤ}
    (h : T.Written d d' w w' p q) : T.Agree d' w' := ⟨h.marks, h.str⟩

theorem Agree.refl {d : Dump} {w : Walk} (h : T.Agree d w) (p : ℤ) : T.Written d d w w p none :=
  ⟨h.marks, fun _ hd => hd, h.str,
    [], [], (List.append_nil _).symm, (List.append_nil _).symm, Reads.plain (by simp)⟩

theorem Written.trans {d d1 d2 : Dump} {w w1 w2 : Walk} {p : ℤ} {q : Option ℤ}
    (h1 : T.Written d d1 w w1 p none) (h2 : T.Written d1 d2 w1 w2 p q) :
    T.Written d d2 w w2 p q := by
  obtain ⟨a, es, ha, hes, hra⟩ := h1.s
  obtain ⟨b, fs, hb, hfs, hrb⟩ := h2.s
  refine ⟨h2.marks, fun id hid => h2.grown id (h1.grown id hid), h2.str,
    a ++ b, es ++ fs, ?_, ?_, hra.append hrb⟩
  · rw [hb, ha, List.append_assoc]
  · rw [hfs, hes, List.append_assoc]

theorem Written.cat {d d' : Dump} {w w' : Walk} {p : ℤ} {q : Option ℤ}
    (h : T.Written d d' w w' p q) {pieces : List Piece} (hp : AllPlain pieces) :
    T.Written d (d'.cat pieces) w w' p q := by
  obtain ⟨a, es, ha, hes, hra⟩ := h.s
  refine ⟨h.marks, h.grown, h.str, a ++ pieces, es, ?_, hes, hra.append_plain hp⟩
  change d'.s ++ pieces = _
  rw [ha, List.append_assoc]

theorem Written.pop {d d' : Dump} {w w' : Walk} {p : ℤ} {q : Option ℤ}
    (h : T.Written d d' w w' p q) (hq : ∀ n ∈ q, validPack n) :
    T.Written d (d'.cat (if q.isSome then [.packPop] else [])) w w' p none := by
  obtain ⟨a, es, ha, hes, hra⟩ := h.s
  refine ⟨h.marks, h.grown, h.str, a ++ _, es, ?_, hes, hra.pop hq⟩
  change d'.s ++ _ = _
  rw [ha, List.append_assoc]

/-- Writing an enum touches neither the marks of compounds nor the pack stack. -/
theorem Agree.enum {d : Dump} {w : Walk} (h : T.Agree d w) (pSC : SourcifyConfig)
    (ss : SourcifyState) (id level : ℕ) (p : ℤ) :
    T.Written d (addEnumSpecStringRec T.pCPI pSC d ss id level).1 w w p none ∧
      (addEnumSpecStringRec T.pCPI pSC d ss id level).2.pragmaPackPop = ss.pragmaPackPop := by
  have hmark : T.Written d (d.markEnum id) w w p none :=
    ⟨h.marks, fun _ hd => hd, h.str, [], [], (List.append_nil _).symm,
      (List.append_nil _).symm, Reads.plain (by simp)⟩
  have hhead := (hmark.cat (allPlain_contextLine pSC (T.pCPI.heap.enumAt id).context ss)).cat
    (allPlain_keywordText level "enum" (T.pCPI.heap.enumAt id).identifier
      (contextLine pSC (T.pCPI.heap.enumAt id).context ss).2)
  have hpop : (keywordText level "enum" (T.pCPI.heap.enumAt id).identifier
      (contextLine pSC (T.pCPI.heap.enumAt id).context ss).2).2.pragmaPackPop =
      ss.pragmaPackPop := contextLine_pop pSC _ ss
  unfold addEnumSpecStringRec
  dsimp only
  split
  · exact ⟨hhead, hpop⟩
  · exact ⟨hhead.cat (by simp), hpop⟩

theorem Agree.enumSpec {d : Dump} {w : Walk} (h : T.Agree d w) (pSC : SourcifyConfig) (id : ℕ)
    (p : ℤ) : T.Written d (addEnumSpecString T.pCPI pSC d id) w w p none := by
  have hempty : T.Agree { d with s := [] } w := ⟨h.marks, h.str⟩
  obtain ⟨hw, _⟩ := hempty.enum pSC .initial id 0 0
  obtain ⟨a, es, ha, hes, hra⟩ := hw.s
  have hnil : es = [] := List.append_right_eq_self.mp hes.symm
  subst hnil
  refine ⟨hw.marks, hw.grown, ?_, [], [], (List.append_nil _).symm, (List.append_nil _).symm,
    Reads.plain (by simp)⟩
  have hread : Reads T.packOf 0 none
      ((addEnumSpecStringRec T.pCPI pSC { d with s := [] } .initial id 0).1.s ++
        [.text ";\n"]) [] := by
    rw [ha]
    exact hra.append_plain (by simp)
  have hall := hw.str.append hread
  rw [List.append_nil, ← List.append_assoc] at hall
  exact hall

/-- The recursion has room for the compound: enough depth is left, and a compound
that is marked already is one without a tag. -/
structure Enters (T : ParsedTypes) (fuel : ℕ) (d : Dump) (id : ℕ) : Prop where
  known : id < T.structCount
  unnamed : d.structDumped id = true → T.Unnamed id
  room : T.undumped d.structDumped * (T.structCount + 2) +
    (if d.structDumped id then id + 1 else 0) < fuel

/-- What the two recursions do with a compound at a place where `p` is in force. -/
def Expands (T : ParsedTypes) (pSC : SourcifyConfig) (tfuel fuel : ℕ) : Prop :=
  ∀ d ss w id level p, T.Enters fuel d id → T.Agree d w → (ss.pack = 0 ∨ ss.pack = p) →
    ss.pragmaPackPop = false →
    ∃ d' ss' w' q, addStructSpecStringRec T.pCPI pSC tfuel fuel d ss id level = .ok (d', ss') ∧
      walkStruct T.heap tfuel fuel w id = .ok w' ∧ T.Written d d' w w' p q ∧
      ss'.pragmaPackPop = q.isSome ∧ ∀ n ∈ q, validPack n

/-- Once a compound is marked there is room for the members of its body. -/
theorem Enters.body_room {fuel : ℕ} {d : Dump} {id : ℕ} (h : T.Enters (fuel + 1) d id) :
    ∃ slack, T.undumped (Function.update d.structDumped id true) * (T.structCount + 2) + slack <
        fuel ∧
      ∀ id' < T.structCount, (T.Unnamed id → T.Unnamed id' → id' < id) →
        T.Unnamed id' → id' + 1 ≤ slack := by
  have hroom := h.room
  have hknown := h.known
  split_ifs at hroom with hd
  · have hsame : Function.update d.structDumped id true = d.structDumped := by
      rw [← hd, Function.update_eq_self]
    refine ⟨id, by rw [hsame]; omega, fun id' _ hord hun => ?_⟩
    exact hord (h.unnamed hd) hun
  · have hmark := T.undumped_mark hknown (Bool.not_eq_true _ ▸ hd)
    have := Nat.mul_le_mul_right (T.structCount + 2) hmark
    rw [Nat.add_mul] at this
    exact ⟨T.structCount, by omega, fun id' hid' _ _ => hid'⟩

theorem reads_pragmaLine (p : ℤ) (packPushed : Bool) (pack : ℤ) (ss : SourcifyState) :
    Reads T.packOf p (if packPushed then some pack else none) (pragmaLine packPushed pack ss).1
      [] := by
  unfold pragmaLine
  split_ifs
  · intro r _
    dsimp only
    rw [readText_append, readText_plain _ _ (allPlain_beginLine ss), closingsOf, List.append_nil]
    rfl
  · exact Reads.plain (by simp)

section

variable {pSC : SourcifyConfig} {tfuel fuel : ℕ} (hx : T.Expands pSC tfuel fuel)

include hx

theorem Expands.structSpec {d : Dump} {w : Walk} {id : ℕ} (p : ℤ) (hin : T.Enters fuel d id)
    (h : T.Agree d w) :
    ∃ d' w', addStructSpecString (addStructSpecStringRec T.pCPI pSC tfuel fuel) d id = .ok d' ∧
      walkTop (walkStruct T.heap tfuel fuel) w id = .ok w' ∧ T.Written d d' w w' p none := by
  have hempty : T.Agree { d with s := [] } { w with inner := [] } := ⟨h.marks, h.str⟩
  have hin' : T.Enters fuel { d with s := [] } id := ⟨hin.known, hin.unnamed, hin.room⟩
  obtain ⟨d', ss', w', q, hd, hw, hwr, hpop, hq⟩ :=
    hx { d with s := [] } .initial { w with inner := [] } id 0 0 hin' hempty (Or.inl rfl) rfl
  obtain ⟨a, es, ha, hes, hra⟩ := hwr.s
  rw [List.nil_append] at ha hes
  refine ⟨{ d' with
      str := d'.str ++ d'.s ++ ([.text ";\n"] ++ if ss'.pragmaPackPop then [.packPop] else [])
      s := d.s }, { w' with tops := w'.tops ++ w'.inner, inner := w.inner }, ?_, ?_,
    hwr.marks, hwr.grown, ?_, [], [], (List.append_nil _).symm, (List.append_nil _).symm,
    Reads.plain (by simp)⟩
  · rw [addStructSpecString, hd]
    rfl
  · rw [walkTop, hw]
    rfl
  have hread := hwr.str.append ((hra.append_plain (b := [.text ";\n"]) (by simp)).pop hq)
  rw [← ha, ← hes, ← hpop] at hread
  simpa only [List.append_assoc] using hread

theorem Expands.define {d : Dump} {w : Walk} {slack : ℕ} (p : ℤ) (h : T.Agree d w)
    (hroom : T.undumped d.structDumped * (T.structCount + 2) + slack < fuel)
    (htfuel : T.typedefCount ≤ tfuel) {pTS : TypeSpec}
    (ht : ∀ t, pTS = .typedef t → t < T.typedefCount)
    (hs : ∀ kind id, pTS = .compound kind id → id < T.structCount) :
    ∃ d' w', checkDefineType T.pCPI pSC tfuel (addStructSpecStringRec T.pCPI pSC tfuel fuel) d
        pTS = .ok d' ∧
      walkDefine T.heap tfuel (walkStruct T.heap tfuel fuel) w pTS = .ok w' ∧
      T.Written d d' w w' p none := by
  obtain ⟨r, hr, hknown⟩ := T.definedType_ok tfuel htfuel pTS ht hs
  unfold checkDefineType walkDefine
  rw [hr, call_bind_apply, call_bind_apply]
  match r, hknown with
  | none, _ => exact ⟨d, w, rfl, rfl, h.refl p⟩
  | some (.basic _), _ => exact ⟨d, w, rfl, rfl, h.refl p⟩
  | some (.typedef _), _ => exact ⟨d, w, rfl, rfl, h.refl p⟩
  | some (.enum id), _ =>
    dsimp only
    split_ifs
    · exact ⟨d, w, rfl, rfl, h.refl p⟩
    · exact ⟨_, w, rfl, rfl, h.enumSpec pSC id p⟩
  | some (.compound kind id), hknown =>
    dsimp only
    rw [← h.marks]
    split_ifs with hmark
    · exact ⟨d, w, rfl, rfl, h.refl p⟩
    · have hin : T.Enters fuel d id :=
        ⟨hknown kind id rfl, fun hd => absurd hd hmark, by rw [if_neg hmark]; omega⟩
      exact hx.structSpec p hin h

theorem Expands.typeSpec {d : Dump} {w : Walk} (ss : SourcifyState) {slack : ℕ} (level : ℕ)
    (p : ℤ) (h : T.Agree d w) (hpack : ss.pack = 0 ∨ ss.pack = p)
    (hpop : ss.pragmaPackPop = false)
    (hroom : T.undumped d.structDumped * (T.structCount + 2) + slack < fuel) {pTS : TypeSpec}
    (hs : ∀ kind id, pTS = .compound kind id → id < T.structCount ∧
      (T.Unnamed id → id + 1 ≤ slack)) :
    ∃ d' ss' w' q, addTypeSpecStringRec T.pCPI pSC (addStructSpecStringRec T.pCPI pSC tfuel fuel)
        d ss pTS level = .ok (d', ss') ∧
      walkType T.heap (walkStruct T.heap tfuel fuel) w ss.dontExpand pTS = .ok w' ∧
      T.Written d d' w w' p q ∧ ss'.pragmaPackPop = q.isSome ∧ ∀ n ∈ q, validPack n := by
  unfold addTypeSpecStringRec walkType
  match pTS, hs with
  | .basic tflags, _ =>
    exact ⟨_, _, w, none, rfl, rfl, (h.refl p).cat (by simp), hpop, by simp⟩
  | .typedef t, _ =>
    dsimp only
    split_ifs
    · exact ⟨d, ss, w, none, rfl, rfl, h.refl p, hpop, by simp⟩
    · exact ⟨_, _, w, none, rfl, rfl, (h.refl p).cat (by simp), hpop, by simp⟩
  | .enum id, _ =>
    dsimp only
    split_ifs
    · exact ⟨_, _, w, none, rfl, rfl, (h.refl p).cat (by simp), hpop, by simp⟩
    · obtain ⟨hw, hp⟩ := h.enum pSC ss id level p
      exact ⟨_, _, w, none, rfl, rfl, hw, hp.trans hpop, by simp⟩
  | .compound kind id, hs =>
    obtain ⟨hid, hslack⟩ := hs kind id rfl
    dsimp only
    rw [← h.marks]
    by_cases href : (T.heap.structAt id).identifier ≠ "" ∧
        (d.structDumped id = true ∨ ss.dontExpand = true)
    · exact ⟨_, _, w, none, if_pos href, if_pos href, (h.refl p).cat (by simp), hpop, by simp⟩
    · -- written out: either not marked yet, or it has no tag to refer to
      have hunnamed : d.structDumped id = true → T.Unnamed id := fun hd => by
        by_contra hn
        exact href ⟨hn, Or.inl hd⟩
      have hin : T.Enters fuel d id := by
        refine ⟨hid, hunnamed, ?_⟩
        split_ifs with hd
        · have := hslack (hunnamed hd)
          omega
        · omega
      obtain ⟨d', ss', w', q, hd, hw, hrest⟩ := hx d ss w id level p hin h hpack hpop
      exact ⟨d', ss', w', q, (if_neg href).trans hd, (if_neg href).trans hw, hrest⟩

/-- One declaration of a body in which `p` is in force. -/
theorem Expands.structDecl {d : Dump} {w : Walk} {slack level : ℕ} {packPushed : Bool}
    {pack p : ℤ} (h : T.Agree d w) (hpack : packPushed = true → pack = p)
    (hroom : T.undumped d.structDumped * (T.structCount + 2) + slack < fuel)
    (htfuel : T.typedefCount ≤ tfuel) {sd : StructDeclaration}
    (ht : ∀ t, sd.type = .typedef t → t < T.typedefCount)
    (hs : ∀ kind id, sd.type = .compound kind id → id < T.structCount ∧
      (T.Unnamed id → id + 1 ≤ slack)) :
    ∃ d' w', addStructDeclString T.pCPI pSC tfuel (addStructSpecStringRec T.pCPI pSC tfuel fuel)
        packPushed pack level d sd = .ok d' ∧
      walkDecl T.heap tfuel (walkStruct T.heap tfuel fuel) w sd = .ok w' ∧
      T.Written d d' w w' p none := by
  have hpack' : (if packPushed then pack else 0) = 0 ∨ (if packPushed then pack else 0) = p := by
    split_ifs with hp
    · exact Or.inr (hpack hp)
    · exact Or.inl rfl
  obtain ⟨d1, ss1, w1, q, hd1, hw1, hwr, hpop, hq⟩ :=
    hx.typeSpec ⟨true, false, !sd.needDef, false, if packPushed then pack else 0⟩
      (level + 1) p h hpack' rfl hroom hs
  let gap : List Piece := if ss1.newline then addIndent (level + 1)
    else if sd.declarators.isSome then [.text " "] else []
  have hgap : AllPlain gap := by
    unfold gap
    split_ifs <;> simp
  let line := gap ++ [.text (declaratorList (sd.declarators.getD []))] ++ [.text ";\n"]
  have hline : T.Written d
      (d1.cat (line ++ if ss1.pragmaPackPop then [.packPop] else [])) w w1 p none := by
    have hplain : AllPlain line := by simp [line, hgap]
    have hwr' := (hwr.cat hplain).pop hq
    rw [← hpop] at hwr'
    simpa only [Dump.cat, List.append_assoc] using hwr'
  unfold addStructDeclString walkDecl
  dsimp only
  rw [hd1, hw1, call_bind_apply, call_bind_apply]
  by_cases hneed : sd.needDef = true
  · have hroom1 : T.undumped d1.structDumped * (T.structCount + 2) + slack < fuel := by
      have := Nat.mul_le_mul_right (T.structCount + 2) (T.undumped_mono hwr.grown)
      omega
    obtain ⟨d2, w2, hd2, hw2, hwr2⟩ := hx.define p hline.agree hroom1 htfuel ht
      fun kind id hid => (hs kind id hid).1
    exact ⟨d2, w2, (if_pos hneed).trans hd2, (if_pos hneed).trans hw2, hline.trans hwr2⟩
  · exact ⟨_, w1, if_neg hneed, if_neg hneed, hline⟩

/-- One more level of the recursion: a whole compound with its body. -/
theorem Expands.succ (htfuel : T.typedefCount ≤ tfuel) : T.Expands pSC tfuel (fuel + 1) := by
  intro d ss w id level p hin h hpack hpop
  let pStruct := T.pCPI.heap.structAt id
  let packPushed := pStruct.declarations.isSome && pStruct.pack != 0 && pStruct.pack != ss.pack
  let q : Option ℤ := if packPushed then some pStruct.pack else none
  have hq : ∀ n ∈ q, validPack n := by
    intro n hn
    unfold q at hn
    split_ifs at hn
    · rw [Option.mem_some_iff] at hn
      exact hn ▸ T.pack_valid id hin.known
    · simp at hn
  have hqsome : q.isSome = packPushed := by
    unfold q
    split_ifs with hp <;> simp [hp]
  let push := pragmaLine packPushed pStruct.pack ss
  let line := contextLine pSC pStruct.context push.2
  let head := keywordText level pStruct.kind.keyword pStruct.identifier line.2
  let d1 := (d.markStruct id).cat (push.1 ++ line.1 ++ head.1)
  let w1 : Walk := { w with structDumped := Function.update w.structDumped id true }
  have hpush : Reads T.packOf p q push.1 [] := reads_pragmaLine p packPushed pStruct.pack ss
  have hhead : Reads T.packOf p q (push.1 ++ line.1 ++ head.1) [] :=
    (hpush.append_plain (allPlain_contextLine _ _ _)).append_plain (allPlain_keywordText _ _ _ _)
  have hgrown : ∀ i, d.structDumped i = true → d1.structDumped i = true := by
    intro i hi
    change Function.update d.structDumped id true i = true
    by_cases hne : i = id
    · rw [hne, Function.update_self]
    · rwa [Function.update_of_ne hne]
  have hmarks : d1.structDumped = w1.structDumped := by
    change Function.update d.structDumped id true = Function.update w.structDumped id true
    rw [h.marks]
  have hpop' : (head.2.pragmaPackPop || packPushed) = q.isSome := by
    have hz : head.2.pragmaPackPop = ss.pragmaPackPop :=
      (contextLine_pop pSC pStruct.context push.2).trans (pragmaLine_pop _ _ ss)
    rw [hz, hpop, hqsome, Bool.false_or]
  cases hdecl : pStruct.declarations with
  | none =>
    refine ⟨d1, { head.2 with pragmaPackPop := head.2.pragmaPackPop || packPushed }, w1, q,
      ?_, ?_, ⟨hmarks, hgrown, h.str, _, [], rfl, (List.append_nil _).symm, hhead⟩, hpop', hq⟩
    · change addStructSpecStringBody _ _ _ _ d ss id level = _
      unfold addStructSpecStringBody
      dsimp only
      split
      · rfl
      · next hsome => exact absurd (hdecl.symm.trans hsome) (by simp)
    · change walkBody _ _ _ w id = _
      unfold walkBody
      dsimp only
      split
      · rfl
      · next hsome => exact absurd (hdecl.symm.trans hsome) (by simp)
  | some sds =>
    -- the members of a tagless compound without tags of their own were created before it
    obtain ⟨slack, hroom, hslack⟩ : ∃ slack,
        T.undumped d1.structDumped * (T.structCount + 2) + slack < fuel ∧
        ∀ id' < T.structCount, (T.Unnamed id → T.Unnamed id' → id' < id) →
          T.Unnamed id' → id' + 1 ≤ slack := hin.body_room
    let here := packInside T.packOf p id
    have hhere : here = q.getD p := by
      unfold here packInside q packPushed
      change (if pStruct.pack ≠ 0 then pStruct.pack else p) = _
      by_cases hz : pStruct.pack = 0
      · simp [hz]
      · by_cases he : pStruct.pack = ss.pack
        · have hp : ss.pack = p := hpack.resolve_left fun h0 => hz (he.trans h0)
          simp [he, hp]
        · simp [hz, he, hdecl]
    have hpackHere : packPushed = true → pStruct.pack = here := by
      intro hp
      rw [hhere]
      simp [q, hp]
    let d2 := d1.cat ([.text "\n"] ++ srcIndent level ++ [.bodyOpen id])
    let w2 : Walk := { w1 with inner := [] }
    have hagree : T.Agree d2 w2 := ⟨hmarks, h.str⟩
    obtain ⟨d3, w3, hd3, hw3, hbody⟩ := FoldRules.foldlM_simulation
      (f := addStructDeclString T.pCPI pSC tfuel (addStructSpecStringRec T.pCPI pSC tfuel fuel)
        packPushed pStruct.pack level)
      (g := walkDecl T.heap tfuel (walkStruct T.heap tfuel fuel))
      (fun b c => T.Written d2 b w2 c here none) sds (b := d2) (c := w2)
      (by
        intro sd hsd b c hbc
        have hroomb : T.undumped b.structDumped * (T.structCount + 2) + slack < fuel := by
          have := Nat.mul_le_mul_right (T.structCount + 2) (T.undumped_mono hbc.grown)
          have hsame : T.undumped d2.structDumped = T.undumped d1.structDumped := rfl
          rw [hsame] at this
          omega
        obtain ⟨b', c', hb', hc', hstep⟩ := hx.structDecl hbc.agree hpackHere hroomb htfuel
          (T.member_typedef id hin.known sds hdecl sd hsd)
          (fun kind id' hid' => by
            obtain ⟨hlt, hord⟩ := T.member_compound id hin.known sds hdecl sd hsd kind id' hid'
            exact ⟨hlt, hslack id' hlt hord⟩)
        exact ⟨b', c', hb', hc', hbc.trans hstep⟩)
      (hagree.refl here)
    obtain ⟨inside, inner, hs3, hi3, hread⟩ := hbody.s
    refine ⟨d3.cat (srcIndent level ++ [.bodyClose id]),
      { head.2 with pragmaPackPop := head.2.pragmaPackPop || packPushed },
      { w3 with inner := w.inner ++ [.body id w3.inner] }, q, ?_, ?_,
      ⟨hbody.marks, fun i hi => hbody.grown i (hgrown i hi), hbody.str,
        (push.1 ++ line.1 ++ head.1) ++ ([.text "\n"] ++ srcIndent level ++ [.bodyOpen id]) ++
          inside ++ srcIndent level ++ [.bodyClose id], [.body id inner], ?_, ?_, ?_⟩,
      hpop', hq⟩
    · change addStructSpecStringBody _ _ _ _ d ss id level = _
      unfold addStructSpecStringBody
      dsimp only
      split
      · next hnone => exact absurd (hdecl.symm.trans hnone) (by simp)
      · next sds' hsome =>
        have hsame : sds' = sds := Option.some.inj (hsome.symm.trans hdecl)
        subst hsame
        change (List.foldlM _ d2 sds' >>= _) = _
        rw [hd3]
        rfl
    · change walkBody _ _ _ w id = _
      unfold walkBody
      dsimp only
      split
      · next hnone => exact absurd (hdecl.symm.trans hnone) (by simp)
      · next sds' hsome =>
        have hsame : sds' = sds := Option.some.inj (hsome.symm.trans hdecl)
        subst hsame
        change (List.foldlM _ w2 sds' >>= _) = _
        rw [hw3]
        rfl
    · change d3.s ++ _ = _
      rw [hs3]
      change (d.s ++ _) ++ _ ++ _ ++ _ = _
      simp only [List.append_assoc]
    · rw [hi3, List.nil_append]
    · exact (hhead.append_plain (by simp)).body hq hhere hread (allPlain_srcIndent level)

/-- A typedef list in a buffer of its own, appended to `str` when complete. -/
theorem Expands.typedefList {d : Dump} {w : Walk} (h : T.Agree d w)
    (hroom : T.undumped d.structDumped * (T.structCount + 2) + T.structCount < fuel)
    (pTDL : TypedefList) (hs : ∀ kind id, pTDL.type = .compound kind id → id < T.structCount) :
    ∃ d' w', addTypedefListSpecString T.pCPI pSC
        (addStructSpecStringRec T.pCPI pSC tfuel fuel) d pTDL = .ok d' ∧
      walkType T.heap (walkStruct T.heap tfuel fuel) { w with inner := [] } false pTDL.type =
        .ok w' ∧
      T.Agree d' { w' with tops := w'.tops ++ w'.inner, inner := w.inner } := by
  have hstart : T.Agree { d with s := [.text "typedef"] } { w with inner := [] } :=
    ⟨h.marks, h.str⟩
  obtain ⟨d1, ss1, w1, q, hd1, hw1, hwr, hpop, hq⟩ :=
    hx.typeSpec ⟨false, true, false, false, 0⟩ 0 0 hstart (Or.inl rfl) rfl hroom
      fun kind id hid => ⟨hs kind id hid, fun _ => hs kind id hid⟩
  obtain ⟨a, es, ha, hes, hra⟩ := hwr.s
  rw [List.nil_append] at hes
  let gap : List Piece := if ss1.newline then [] else [.text " "]
  have hgap : AllPlain gap := by
    unfold gap
    split_ifs <;> simp
  have hread : Reads T.packOf 0 none ((d1.s ++ (gap ++ [.text (typedefListDecl T.pCPI pTDL)] ++
      [.text ";\n"])) ++ if ss1.pragmaPackPop then [.packPop] else []) es := by
    rw [ha, hpop]
    have hfirst : Reads T.packOf 0 none [.text "typedef"] [] := Reads.plain (by simp)
    exact ((hfirst.append hra).append_plain (by simp [hgap])).pop hq
  refine ⟨{ d1 with
      str := d1.str ++ d1.s ++ (gap ++ [.text (typedefListDecl T.pCPI pTDL)] ++ [.text ";\n"] ++
        if ss1.pragmaPackPop then [.packPop] else [])
      s := d.s }, w1, ?_, hw1, hwr.marks, ?_⟩
  · unfold addTypedefListSpecString
    rw [hd1]
    rfl
  · rw [hes]
    have hall := hwr.str.append hread
    simpa only [List.append_assoc] using hall

end

/-- The recursion never runs out of depth where `Enters` says that it has room. -/
theorem expands (T : ParsedTypes) (pSC : SourcifyConfig) (tfuel fuel : ℕ)
    (htfuel : T.typedefCount ≤ tfuel) : T.Expands pSC tfuel fuel := by
  induction fuel with
  | zero =>
    intro d ss w id level p hin
    exact absurd hin.room (Nat.not_lt_zero _)
  | succ fuel ih => exact ih.succ htfuel

theorem Agree.catStr {d : Dump} {w : Walk} (h : T.Agree d w) {pieces : List Piece}
    (hp : AllPlain pieces) : T.Agree (d.catStr pieces) w :=
  ⟨h.marks, h.str.append_plain hp⟩

theorem Agree.heading {d : Dump × Bool} {w : Walk} (h : T.Agree d.1 w) (title : String) :
    T.Agree (heading title d) w := by
  unfold ConvertBinaryC.heading
  split_ifs
  · exact h
  · exact h.catStr (by simp)

section

variable {fuel : ℕ} (hfuel : T.depth ≤ fuel)

include hfuel

theorem depth_room (dumped : ℕ → Bool) :
    T.undumped dumped * (T.structCount + 2) + T.structCount < fuel := by
  have := Nat.mul_le_mul_right (T.structCount + 2) (T.undumped_le dumped)
  unfold depth at hfuel
  omega

theorem typedefCount_le_fuel : T.typedefCount ≤ fuel := by
  unfold depth at hfuel
  omega

theorem Agree.typedefPredeclaration (pSC : SourcifyConfig) {d : Dump × Bool} {w : Walk} (h : T.Agree d.1 w)
    (pTDL : TypedefList) :
    ∃ d', ConvertBinaryC.typedefPredeclaration T.pCPI pSC
        (addStructSpecStringRec T.pCPI pSC fuel fuel) d pTDL = .ok d' ∧ T.Agree d'.1 w := by
  have hnamed (pieces : List Piece) (hp : AllPlain pieces) (b : Bool) :
      T.Agree ((ConvertBinaryC.heading "/* typedef predeclarations */\n\n" d).catStr pieces, b).1
        w := (h.heading _).catStr hp
  unfold ConvertBinaryC.typedefPredeclaration
  match hty : pTDL.type with
  | .basic tflags =>
    obtain ⟨d', w', hd', hw', hagree⟩ := (T.expands pSC fuel fuel (typedefCount_le_fuel
      hfuel)).typedefList (h.heading "/* typedef predeclarations */\n\n") (depth_room hfuel _) pTDL
      (by simp [hty])
    rw [hty] at hw'
    have hwalk : w' = { w with inner := [] } := (Except.ok.inj hw').symm
    subst hwalk
    refine ⟨(d', true), by rw [hd']; rfl, ?_⟩
    simpa only [List.append_nil] using hagree
  | .typedef t => exact ⟨d, rfl, h⟩
  | .enum id =>
    dsimp only
    split_ifs
    · exact ⟨d, rfl, h⟩
    · exact ⟨_, rfl, hnamed _ (by simp) true⟩
  | .compound kind id =>
    dsimp only
    split_ifs
    · exact ⟨d, rfl, h⟩
    · exact ⟨_, rfl, hnamed _ (by simp) true⟩

theorem Agree.typedefDefinition (pSC : SourcifyConfig) {d : Dump × Bool} {w : Walk} (h : T.Agree d.1 w)
    {pTDL : TypedefList} (hknown : pTDL ∈ T.pCPI.typedef_lists) :
    ∃ d' w', ConvertBinaryC.typedefDefinition T.pCPI pSC
        (addStructSpecStringRec T.pCPI pSC fuel fuel) d pTDL = .ok d' ∧
      walkTypedefList T.heap (walkStruct T.heap fuel fuel) w pTDL = .ok w' ∧ T.Agree d'.1 w' := by
  obtain ⟨d', w', hd', hw', hagree⟩ := (T.expands pSC fuel fuel (typedefCount_le_fuel
    hfuel)).typedefList (h.heading "\n\n/* typedefs */\n\n") (depth_room hfuel _)
    pTDL (T.lists_known pTDL hknown)
  have hwritten : (addTypedefListSpecString T.pCPI pSC (addStructSpecStringRec T.pCPI pSC fuel fuel)
      (ConvertBinaryC.heading "\n\n/* typedefs */\n\n" d) pTDL >>= fun d =>
        (.ok (d.catStr [.text "\n"], true) : Call (Dump × Bool))) =
      .ok (d'.catStr [.text "\n"], true) := by
    rw [hd']
    rfl
  have hplain : T.Agree (d'.catStr [.text "\n"]) _ := hagree.catStr (by simp)
  unfold ConvertBinaryC.typedefDefinition walkTypedefList
  match hty : pTDL.type with
  | .basic tflags => exact ⟨d, w, rfl, rfl, h⟩
  | .typedef t =>
    rw [hty] at hw'
    have hwalk : w' = { w with inner := [] } := (Except.ok.inj hw').symm
    subst hwalk
    refine ⟨_, w, hwritten, rfl, ?_⟩
    simpa only [List.append_nil] using hplain
  | .enum id =>
    rw [hty] at hw'
    have hwalk : w' = { w with inner := [] } := (Except.ok.inj hw').symm
    subst hwalk
    dsimp only
    split_ifs
    · refine ⟨_, w, hwritten, rfl, ?_⟩
      simpa only [List.append_nil] using hplain
    · exact ⟨d, w, rfl, rfl, h⟩
  | .compound kind id =>
    dsimp only
    by_cases hun : (T.heap.structAt id).identifier = ""
    · refine ⟨_, { w' with tops := w'.tops ++ w'.inner, inner := w.inner },
        (if_pos (beq_iff_eq.mpr hun)).trans hwritten, (if_pos hun).trans ?_, hplain⟩
      rw [hty] at hw'
      have hrec := (if_neg fun hc => hc.1 hun).symm.trans hw'
      rw [walkTop, hrec]
      rfl
    · exact ⟨d, w, if_neg fun hc => hun (beq_iff_eq.mp hc), if_neg hun, h⟩

theorem Agree.topStruct (pSC : SourcifyConfig) {d : Dump × Bool} {w : Walk} (h : T.Agree d.1 w) {id : ℕ}
    (hid : id < T.structCount) (hmark : d.1.structDumped id = false) (title : String) :
    ∃ d' w', addStructSpecString (addStructSpecStringRec T.pCPI pSC fuel fuel)
        (ConvertBinaryC.heading title d) id = .ok d' ∧
      walkTop (walkStruct T.heap fuel fuel) w id = .ok w' ∧
      T.Agree (d'.catStr [.text "\n"]) w' := by
  have hmark' : (ConvertBinaryC.heading title d).structDumped = d.1.structDumped := by
    unfold ConvertBinaryC.heading
    split_ifs <;> rfl
  have hin : T.Enters fuel (ConvertBinaryC.heading title d) id := by
    have hroom := depth_room hfuel d.1.structDumped
    refine ⟨hid, fun hd => ?_, ?_⟩
    · rw [hmark', hmark] at hd
      exact absurd hd (by decide)
    · rw [hmark', hmark, if_neg (by decide)]
      omega
  obtain ⟨d', w', hd', hw', hwr⟩ :=
    (T.expands pSC fuel fuel (typedefCount_le_fuel hfuel)).structSpec 0 hin (h.heading title)
  exact ⟨d', w', hd', hw', hwr.agree.catStr (by simp)⟩

theorem Agree.definedStruct (pSC : SourcifyConfig) {d : Dump × Bool} {w : Walk} (h : T.Agree d.1 w) {id : ℕ}
    (hid : id < T.structCount) :
    ∃ d' w', ConvertBinaryC.definedStruct T.pCPI
        (addStructSpecStringRec T.pCPI pSC fuel fuel) d id = .ok d' ∧
      walkDefined T.heap (walkStruct T.heap fuel fuel) w id = .ok w' ∧ T.Agree d'.1 w' := by
  unfold ConvertBinaryC.definedStruct walkDefined
  dsimp only
  rw [← h.marks]
  by_cases hc : ((T.heap.structAt id).declarations.isSome &&
      (T.heap.structAt id).identifier != "" && !d.1.structDumped id) = true
  · have hmark : d.1.structDumped id = false := by
      simp only [Bool.and_eq_true, Bool.not_eq_true'] at hc
      exact hc.2
    obtain ⟨d', w', hd', hw', hagree⟩ :=
      h.topStruct hfuel pSC hid hmark "\n/* defined structs and unions */\n\n"
    refine ⟨(d'.catStr [.text "\n"], true), w', (if_pos hc).trans ?_, (if_pos hc).trans hw', hagree⟩
    rw [hd']
    rfl
  · exact ⟨d, w, if_neg hc, if_neg hc, h⟩

theorem Agree.undefinedStruct (pSC : SourcifyConfig) {d : Dump × Bool} {w : Walk} (h : T.Agree d.1 w) {id : ℕ}
    (hid : id < T.structCount) :
    ∃ d' w', ConvertBinaryC.undefinedStruct T.pCPI
        (addStructSpecStringRec T.pCPI pSC fuel fuel) d id = .ok d' ∧
      walkUndefined T.heap (walkStruct T.heap fuel fuel) w id = .ok w' ∧ T.Agree d'.1 w' := by
  unfold ConvertBinaryC.undefinedStruct walkUndefined
  dsimp only
  rw [← h.marks]
  have hclear {d' : Dump} {w' : Walk} (ha : T.Agree d' w') :
      T.Agree { d' with structDumped := Function.update d'.structDumped id false }
        { w' with structDumped := Function.update w'.structDumped id false } :=
    ⟨congrArg (fun marks => Function.update marks id false) ha.marks, ha.str⟩
  by_cases hc : (!d.1.structDumped id && (T.heap.structAt id).refcount == 0 &&
      ((T.heap.structAt id).declarations.isSome || (T.heap.structAt id).identifier != "")) = true
  · have hmark : d.1.structDumped id = false := by
      simp only [Bool.and_eq_true, Bool.not_eq_true'] at hc
      exact hc.1.1
    obtain ⟨d', w', hd', hw', hagree⟩ := h.topStruct hfuel pSC hid hmark
      "\n/* undefined/unnamed structs and unions */\n\n"
    refine ⟨({ d'.catStr [.text "\n"] with
      structDumped := Function.update d'.structDumped id false }, true), _, ?_, ?_, hclear hagree⟩
    · rw [if_pos hc, hd']
      rfl
    · rw [if_pos hc, hw']
      rfl
  · refine ⟨({ d.1 with structDumped := Function.update d.1.structDumped id false }, d.2), _,
      ?_, ?_, hclear h⟩
    · rw [if_neg hc]
      rfl
    · rw [if_neg hc]
      rfl

end

theorem Agree.definedEnum {d : Dump × Bool} {w : Walk} (h : T.Agree d.1 w)
    (pSC : SourcifyConfig) (id : ℕ) :
    T.Agree (ConvertBinaryC.definedEnum T.pCPI pSC d id).1 w := by
  unfold ConvertBinaryC.definedEnum
  dsimp only
  split_ifs
  · exact ((h.heading _).enumSpec pSC id 0).agree.catStr (by simp)
  · exact h

theorem Agree.undefinedEnum {d : Dump × Bool} {w : Walk} (h : T.Agree d.1 w)
    (pSC : SourcifyConfig) (id : ℕ) :
    T.Agree (ConvertBinaryC.undefinedEnum T.pCPI pSC d id).1 w := by
  unfold ConvertBinaryC.undefinedEnum
  dsimp only
  split_ifs
  · have hline : AllPlain [.text "\n"] := by simp
    have hwritten :=
      ((h.heading "\n/* undefined enums */\n\n").enumSpec pSC id 0).agree.catStr hline
    exact ⟨hwritten.marks, hwritten.str⟩
  · exact ⟨h.marks, h.str⟩

theorem agree_enums {step : Dump × Bool → ℕ → Dump × Bool} {w : Walk}
    (hstep : ∀ d id, T.Agree d.1 w → T.Agree (step d id).1 w) (ids : List ℕ) {d : Dump × Bool}
    (h : T.Agree d.1 w) : T.Agree (ids.foldl step d).1 w := by
  induction ids generalizing d with
  | nil => exact h
  | cons id ids ih => exact ih (hstep d id h)

theorem allPlain_preprocessorDefinitions (macros : List String) :
    AllPlain (preprocessorDefinitions macros) := by
  unfold preprocessorDefinitions
  split_ifs
  · simp
  · intro piece hpiece
    simp only [List.mem_append, List.mem_map, List.mem_singleton] at hpiece
    rcases hpiece with (rfl | ⟨m, _, rfl⟩) | rfl <;> exact plain_text _

end ParsedTypes

/-- The text gives every compound that it completes the pack value it is stored
with, and leaves the pack stack as it was. -/
def PreservesPack (T : ParsedTypes) (text : List Piece) : Prop :=
  (∀ c ∈ (readText ⟨pragmaParserNew "", []⟩ text).packs, c.2 = T.packOf c.1) ∧
    (readText ⟨pragmaParserNew "", []⟩ text).pragma = pragmaParserNew ""

/-- Both recursions complete on a parsed database, and the text reads as the
expansions do. -/
theorem getParsedDefinitions_reads (T : ParsedTypes) (pSC : SourcifyConfig)
    (macros : List String) (fuel : ℕ) (hfuel : T.depth ≤ fuel) (enumDumped : ℕ → Bool)
    (structDumped : ℕ → Bool) :
    ∃ d es, getParsedDefinitions fuel T.pCPI pSC macros enumDumped structDumped = .ok d ∧
      expansions fuel T.pCPI structDumped = .ok es ∧ Reads T.packOf 0 none d.str es := by
  have hstart : T.Agree ⟨[], [], enumDumped, structDumped⟩ ⟨[], [], structDumped⟩ :=
    ⟨rfl, Reads.plain (by simp)⟩
  have hpre (pTDLs : List TypedefList) : ∀ d : Dump × Bool,
      T.Agree d.1 ⟨[], [], structDumped⟩ → ∃ d', pTDLs.foldlM (typedefPredeclaration T.pCPI pSC
        (addStructSpecStringRec T.pCPI pSC fuel fuel)) d = .ok d' ∧
        T.Agree d'.1 ⟨[], [], structDumped⟩ := by
    induction pTDLs with
    | nil => exact fun d hd => ⟨d, rfl, hd⟩
    | cons pTDL pTDLs ih =>
      intro d hd
      obtain ⟨d1, hd1, ha1⟩ := hd.typedefPredeclaration hfuel pSC pTDL
      obtain ⟨d2, hd2, ha2⟩ := ih d1 ha1
      exact ⟨d2, FoldRules.foldlM_cons_ok hd1 hd2, ha2⟩
  obtain ⟨d1, hd1, ha1⟩ := hpre T.pCPI.typedef_lists (⟨[], [], enumDumped, structDumped⟩, false)
    hstart
  obtain ⟨d2, w2, hd2, hw2, ha2⟩ := FoldRules.foldlM_simulation
    (f := typedefDefinition T.pCPI pSC (addStructSpecStringRec T.pCPI pSC fuel fuel))
    (g := walkTypedefList T.heap (walkStruct T.heap fuel fuel))
    (fun (d : Dump × Bool) w => T.Agree d.1 w) T.pCPI.typedef_lists (b := (d1.1, false))
    (fun pTDL hp d w h => h.typedefDefinition hfuel pSC hp) ha1
  have ha3 : T.Agree (T.pCPI.enums.foldl (definedEnum T.pCPI pSC) (d2.1, false)).1 w2 :=
    ParsedTypes.agree_enums (fun d id h => h.definedEnum pSC id) _ ha2
  obtain ⟨d4, w4, hd4, hw4, ha4⟩ := FoldRules.foldlM_simulation
    (f := definedStruct T.pCPI (addStructSpecStringRec T.pCPI pSC fuel fuel))
    (g := walkDefined T.heap (walkStruct T.heap fuel fuel))
    (fun (d : Dump × Bool) w => T.Agree d.1 w) T.pCPI.structs
    (b := ((T.pCPI.enums.foldl (definedEnum T.pCPI pSC) (d2.1, false)).1, false))
    (fun id hid d w h => h.definedStruct hfuel pSC (T.structs_lt id hid)) ha3
  have ha5 : T.Agree (T.pCPI.enums.foldl (undefinedEnum T.pCPI pSC) (d4.1, false)).1 w4 :=
    ParsedTypes.agree_enums (fun d id h => h.undefinedEnum pSC id) _ ha4
  obtain ⟨d6, w6, hd6, hw6, ha6⟩ := FoldRules.foldlM_simulation
    (f := undefinedStruct T.pCPI (addStructSpecStringRec T.pCPI pSC fuel fuel))
    (g := walkUndefined T.heap (walkStruct T.heap fuel fuel))
    (fun (d : Dump × Bool) w => T.Agree d.1 w) T.pCPI.structs
    (b := ((T.pCPI.enums.foldl (undefinedEnum T.pCPI pSC) (d4.1, false)).1, false))
    (fun id hid d w h => h.undefinedStruct hfuel pSC (T.structs_lt id hid)) ha5
  refine ⟨d6.1.catStr (if pSC.defines then preprocessorDefinitions macros else []), w6.tops,
    ?_, ?_, ?_⟩
  · unfold getParsedDefinitions
    dsimp only
    rw [hd1, call_bind_apply, hd2, call_bind_apply, hd4, call_bind_apply, hd6, call_bind_apply]
  · unfold expansions
    change (List.foldlM (walkTypedefList T.heap (walkStruct T.heap fuel fuel)) _ _ >>= _) = _
    rw [hw2, call_bind_apply]
    change (List.foldlM (walkDefined T.heap (walkStruct T.heap fuel fuel)) _ _ >>= _) = _
    rw [hw4, call_bind_apply]
    change (List.foldlM (walkUndefined T.heap (walkStruct T.heap fuel fuel)) _ _ >>= _) = _
    rw [hw6, call_bind_apply]
  · refine (ha6.catStr ?_).str
    split_ifs
    · exact ParsedTypes.allPlain_preprocessorDefinitions macros
    · simp

/-- The emitted source preserves packing if and only if no compound of the default
packing is written out inside a packed one. -/
theorem sourcify_preserves_pack_iff (T : ParsedTypes) (pSC : SourcifyConfig)
    (macros : List String) (fuel : ℕ) (hfuel : T.depth ≤ fuel) (enumDumped : ℕ → Bool)
    (structDumped : ℕ → Bool) :
    ∃ d es, getParsedDefinitions fuel T.pCPI pSC macros enumDumped structDumped = .ok d ∧
      expansions fuel T.pCPI structDumped = .ok es ∧
      (PreservesPack T d.str ↔ PackNestedAll T.packOf False es) := by
  obtain ⟨d, es, hd, hes, hread⟩ :=
    getParsedDefinitions_reads T pSC macros fuel hfuel enumDumped structDumped
  refine ⟨d, es, hd, hes, ?_⟩
  have hrun : readText ⟨pragmaParserNew "", []⟩ d.str =
      ⟨pragmaParserNew "", closingsOf T.packOf 0 es⟩ := hread ⟨pragmaParserNew "", []⟩ rfl
  rw [PreservesPack, hrun]
  simp only [and_true]
  exact closingsOf_preserve_iff T.packOf 0 False (by simp) es

/-- `struct outer;` is declared first, `struct inner` has the default packing, and
`struct outer`, completed under `#pragma pack(1)`, has a member of that type. -/
def forwardOuter : ParsedTypes where
  pCPI :=
    { heap :=
        { structAt := fun id =>
            if id = 0 then
              structNew "outer" .struct 1 ⟨"", 1⟩
                (some [⟨.compound .struct 1, some [declNew "x"], -1, -1⟩])
            else
              structNew "inner" .struct 0 ⟨"", 2⟩
                (some [⟨.basic T_CHAR, some [declNew "a"], -1, -1⟩,
                  ⟨.basic T_INT, some [declNew "b"], -1, -1⟩])
          enumAt := fun _ => ⟨0, false, false, 1, 1, ⟨"", 0⟩, none, .empty, ""⟩
          typedefAt := fun _ => ⟨.basic T_INT, declNew ""⟩ }
      enums := []
      structs := [0, 1]
      typedef_lists := [] }
  structCount := 2
  typedefCount := 0
  structs_lt := by decide
  lists_known := by simp
  typedef_typedef := by simp
  typedef_compound := by simp
  member_typedef := by
    intro id _ sds hsds sd hsd t ht
    by_cases h0 : id = 0
    · simp [h0, structNew] at hsds
      simp [← hsds] at hsd
      simp [hsd] at ht
    · simp [h0, structNew] at hsds
      simp [← hsds] at hsd
      rcases hsd with rfl | rfl <;> simp at ht
  member_compound := by
    intro id _ sds hsds sd hsd kind id' hid'
    by_cases h0 : id = 0
    · simp [h0, structNew] at hsds
      simp [← hsds] at hsd
      simp [hsd] at hid'
      simp [← hid'.2, h0, structNew]
    · simp [h0, structNew] at hsds
      simp [← hsds] at hsd
      rcases hsd with rfl | rfl <;> simp at hid'
  pack_valid := by
    intro id _
    by_cases h0 : id = 0 <;> simp [h0, structNew, validPack]

theorem sourcify_loses_default_pack :
    ∃ d, getParsedDefinitions forwardOuter.depth forwardOuter.pCPI ⟨false, false⟩ []
        (fun _ => false) (fun _ => false) = .ok d ∧
      (readText ⟨pragmaParserNew "", []⟩ d.str).packs = [(1, 1), (0, 1)] ∧
      forwardOuter.packOf 1 = 0 ∧ ¬PreservesPack forwardOuter d.str := by
  refine ⟨_, rfl, rfl, rfl, fun h => ?_⟩
  exact absurd (h.1 (1, 1) (by decide)) (by decide)

theorem sourcify_preserves_pack_iff_forwardOuter :
    ∃ d es, getParsedDefinitions forwardOuter.depth forwardOuter.pCPI ⟨true, true⟩ ["N 1"]
        (fun _ => false) (fun _ => false) = .ok d ∧
      expansions forwardOuter.depth forwardOuter.pCPI (fun _ => false) = .ok es ∧
      (PreservesPack forwardOuter d.str ↔ PackNestedAll forwardOuter.packOf False es) :=
  sourcify_preserves_pack_iff forwardOuter ⟨true, true⟩ ["N 1"] forwardOuter.depth le_rfl _ _

end ConvertBinaryC
