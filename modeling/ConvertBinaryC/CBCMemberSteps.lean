import Mathlib.Data.List.ReduceOption
import ConvertBinaryC.CBCMemberSearch
import ConvertBinaryC.CBCZeroSized

/-! One access of `get_member` (`cbc/member.c`): what it needs to come to the place that the
expression addresses. -/
namespace ConvertBinaryC
open FoldRules

/-- The size that the walk holds for a place, as an int; -1 where there is no declarator. -/
def Place.sizeHeld (p : Place) : ℤ :=
  match p.pDecl with
  | some d => if p.level = 0 then d.size else i32 (d.partSize p.level)
  | none => -1

/-- The variables of `get_member` at a place. -/
def Place.state (p : Place) (parent : Option ℕ) : GmState :=
  ⟨p.type, p.pDecl, parent, p.name, p.level, p.offset, p.sizeHeld⟩

/-- The declarator of a place and its level belong together. -/
def Place.Proper (p : Place) : Prop :=
  ∀ d ∈ p.pDecl, p.level ≤ d.dims.length ∧ d.ext ≠ .array [] ∧ IsInt d.size ∧ IsInt d.item_size

/-- The fields of a declarator are ints, and an array has a dimension. -/
def Recorded (d : Declarator) : Prop := d.ext ≠ .array [] ∧ IsInt d.size ∧ IsInt d.item_size

section Settle
variable {heap : Heap}

/-- What a typedef stands for. -/
def Place.ofTypedef (heap : Heap) (p : Place) (t : ℕ) : Place :=
  { p with type := (heap.typedefAt t).type, pDecl := some (heap.typedefAt t).decl, level := 0 }

theorem Place.settle_done {p : Place} (h : p.expand heap = none) (fuel : ℕ) :
    p.settle heap fuel = p := by
  cases fuel with
  | zero => rfl
  | succ fuel =>
    unfold settle
    rw [h]

theorem Place.settle_next {p q : Place} (h : p.expand heap = some q) (fuel : ℕ) :
    p.settle heap (fuel + 1) = q.settle heap fuel := by
  rw [settle, h]

theorem Declarator.dims_nil_iff {d : Declarator} (h : d.ext ≠ .array []) :
    0 = d.dims.length ↔ d.isArray = false := by
  unfold dims isArray
  cases hext : d.ext with
  | array dims =>
    rw [hext] at h
    have hne : dims ≠ [] := fun hnil => h (congrArg _ hnil)
    have hpos : 0 < dims.length := List.length_pos_iff.mpr hne
    exact iff_of_false hpos.ne Bool.true_eq_false.mp
  | _ => exact iff_of_true rfl rfl

variable (hheap : heap.Declarators Recorded)
include hheap

/-- A typedef stands for another one unless it declares a pointer or an array. -/
theorem Place.ofTypedef_expand (p : Place) (t : ℕ) :
    (p.ofTypedef heap t).expand heap = match (heap.typedefAt t).type with
      | .typedef t' =>
        if (heap.typedefAt t).decl.pointer_flag = false ∧ (heap.typedefAt t).decl.isArray = false then
          some (p.ofTypedef heap t')
        else none
      | _ => none := by
  have hdims := Declarator.dims_nil_iff (hheap.typedef t).1
  unfold expand ofTypedef
  dsimp only
  cases (heap.typedefAt t).type with
  | typedef t' =>
    exact if_congr (and_congr_right fun _ => hdims) rfl rfl
  | _ => rfl

/-- The loop over typedefs comes to the place that the typedef stands for, or runs out. -/
theorem gmTypedefs_settle (p : Place) (fuel t : ℕ) :
    (gmTypedefs heap (fuel + 1) t >>= fun r =>
        .ok { p with type := r.1, pDecl := some r.2, level := 0 }) =
      if (((p.ofTypedef heap t).settle heap fuel).expand heap).isSome then .error .outOfFuel
      else .ok ((p.ofTypedef heap t).settle heap fuel) := by
  -- the number of steps is generalized over the typedefs
  induction fuel generalizing t with
  | zero =>
    have hexpand := p.ofTypedef_expand hheap t
    unfold gmTypedefs Place.settle
    dsimp only
    cases htype : (heap.typedefAt t).type with
    | typedef t' =>
      rw [htype] at hexpand
      dsimp only at hexpand ⊢
      by_cases hplain : (heap.typedefAt t).decl.pointer_flag = false ∧
          (heap.typedefAt t).decl.isArray = false
      · rw [if_pos hplain] at hexpand ⊢
        rw [hexpand]
        rfl
      · rw [if_neg hplain] at hexpand ⊢
        rw [hexpand, ← htype]
        rfl
    | _ =>
      rw [htype] at hexpand
      dsimp only at hexpand ⊢
      rw [hexpand, ← htype]
      rfl
  | succ fuel ih =>
    have hexpand := p.ofTypedef_expand hheap t
    unfold gmTypedefs
    dsimp only
    cases htype : (heap.typedefAt t).type with
    | typedef t' =>
      rw [htype] at hexpand
      dsimp only at hexpand ⊢
      by_cases hplain : (heap.typedefAt t).decl.pointer_flag = false ∧
          (heap.typedefAt t).decl.isArray = false
      · rw [if_pos hplain] at hexpand ⊢
        rw [Place.settle_next hexpand]
        exact ih t'
      · rw [if_neg hplain] at hexpand ⊢
        rw [Place.settle_done hexpand, hexpand, ← htype]
        rfl
    | _ =>
      rw [htype] at hexpand
      dsimp only at hexpand ⊢
      rw [Place.settle_done hexpand, hexpand, ← htype]
      rfl

/-- `get_member` goes to the place that a place stands for. -/
theorem gmResolve_settle {flags : GmFlags} (hcalc : flags.do_calc = true) (p : Place)
    (parent : Option ℕ) (fuel : ℕ) :
    gmResolve heap fuel flags (p.state parent) =
      if ((p.settle heap fuel).expand heap).isSome then .error .outOfFuel
      else .ok ((p.settle heap fuel).state parent) := by
  obtain ⟨type, pDecl, name, level, offset⟩ := p
  have hstay (hexpand : Place.expand heap ⟨type, pDecl, name, level, offset⟩ = none)
      (hsame : gmResolve heap fuel flags (Place.state ⟨type, pDecl, name, level, offset⟩ parent) =
        .ok (Place.state ⟨type, pDecl, name, level, offset⟩ parent)) :
      gmResolve heap fuel flags (Place.state ⟨type, pDecl, name, level, offset⟩ parent) =
        if ((Place.settle heap fuel ⟨type, pDecl, name, level, offset⟩).expand heap).isSome then
          .error .outOfFuel
        else .ok ((Place.settle heap fuel ⟨type, pDecl, name, level, offset⟩).state parent) := by
    rw [Place.settle_done hexpand, hexpand]
    exact hsame
  cases pDecl with
  | none => exact hstay rfl rfl
  | some d =>
    cases type with
    | typedef t =>
      by_cases hplain : d.pointer_flag = false ∧ level = d.dims.length
      · have hexpand : Place.expand heap ⟨.typedef t, some d, name, level, offset⟩ =
            some (Place.ofTypedef heap ⟨.typedef t, some d, name, level, offset⟩ t) := if_pos hplain
        show (if d.pointer_flag = false ∧ level = d.dims.length then _ else _) = _
        rw [if_pos hplain]
        cases fuel with
        | zero =>
          rw [Place.settle, hexpand]
          rfl
        | succ fuel =>
          have hloop := gmTypedefs_settle hheap ⟨.typedef t, some d, name, level, offset⟩ fuel t
          rw [Place.settle_next hexpand]
          cases hresult : gmTypedefs heap (fuel + 1) t with
          | error e =>
            rw [hresult] at hloop
            split_ifs at hloop ⊢ with hsome
            · cases hloop
              rfl
            · exact nomatch hloop
          | ok r =>
            rw [hresult] at hloop
            split_ifs at hloop ⊢ with hsome
            · exact nomatch hloop
            · have hplace := Except.ok.inj hloop
              rw [← hplace]
              rfl
      · exact hstay (if_neg hplain) (if_neg hplain)
    | basic tflags => exact hstay rfl rfl
    | enum pES => exact hstay rfl rfl
    | compound kind s => exact hstay rfl rfl

end Settle

/-- A call that ends with an error message. -/
def Reported {α : Type} (c : Call α) : Prop := ∃ err, c = .error (.croak err)

/-- The walk reports an error if nothing is addressed, and else it has come to the offset
and the size of the object. -/
def Linear (cbc : CBC) (ideal : Option Place) (c : Call GmState) : Prop :=
  match ideal with
  | none => Reported c
  | some p => ∃ st, c = .ok st ∧ st.offset = p.offset ∧ u32 st.size = p.size cbc

/-- The size that is held for a place is that of the object. -/
def Place.SizeFits (cbc : CBC) (p : Place) : Prop := u32 p.sizeHeld = p.size cbc

/-- The same with all of the variables. -/
def AtPlace (cbc : CBC) (ideal : Option Place) (c : Call GmState) : Prop :=
  match ideal with
  | none => Reported c
  | some p => p.SizeFits cbc ∧ ∃ parent, c = .ok (p.state parent)

/-- A name that an error message can end with: of 20 characters no end is written. -/
def NameFits (name : String) : Prop := name.length ≠ 20

section Silent
variable {α β : Type}

theorem silent_ok (a : α) : ¬ Reported (.ok a : Call α) := fun ⟨_, h⟩ => nomatch h

theorem silent_error {e : Fault} (h : Unreported e) : ¬ Reported (.error e : Call α) := by
  rintro ⟨err, herr⟩
  exact h err (Except.error.inj herr)

theorem silent_bind {c : Call α} {f : α → Call β} (hc : ¬ Reported c)
    (hf : ∀ a, ¬ Reported (f a)) : ¬ Reported (c >>= f) := by
  cases c with
  | ok a => exact hf a
  | error e =>
    rintro ⟨err, herr⟩
    cases herr
    exact hc ⟨err, rfl⟩

theorem silent_int (x : ℤ) : ¬ Reported (int x) := by
  unfold int
  split_ifs
  · exact silent_ok x
  · exact silent_error fun err h => nomatch h

theorem silent_timesDims (size : ℤ) (dims : List Value) : ¬ Reported (timesDims size dims) := by
  unfold timesDims timesAs
  induction dims generalizing size with
  | nil => exact silent_ok size
  | cons pValue dims ih =>
    rw [List.foldlM_cons]
    apply silent_bind
    · unfold long
      split_ifs
      · exact silent_ok _
      · exact silent_error fun err h => nomatch h
    · exact fun size' => ih size'

end Silent

theorem truncName_cases (name : String) :
    (NameFits name ∧ ∃ trunc, truncName name = .ok trunc) ∨
      (¬ NameFits name ∧ truncName name = .error .undefinedBehaviour) := by
  unfold truncName NameFits
  by_cases hshort : name.length < 20
  · exact Or.inl ⟨hshort.ne, _, if_pos hshort⟩
  by_cases hexact : name.length = 20
  · exact Or.inr ⟨fun h => h hexact, (if_neg hshort).trans (if_pos hexact)⟩
  · exact Or.inl ⟨hexact, _, (if_neg hshort).trans (if_neg hexact)⟩

/-- A message with a name in it is reported if the name fits. -/
theorem reported_truncName_iff {α β : Type} (name : String) (text : String → String)
    (f : α → Call β) :
    Reported (truncName name >>= fun trunc => (gmError (text trunc) : Call α) >>= f) ↔
      NameFits name := by
  rcases truncName_cases name with ⟨hfits, trunc, htrunc⟩ | ⟨hlong, htrunc⟩
  · rw [htrunc]
    exact iff_of_true ⟨_, rfl⟩ hfits
  · rw [htrunc]
    exact iff_of_false (fun ⟨err, h⟩ => nomatch h) hlong

theorem reported_bind {α β : Type} {c : Call α} (f : α → Call β) (h : Reported c) :
    Reported (c >>= f) := by
  obtain ⟨err, rfl⟩ := h
  exact ⟨err, rfl⟩

/-- The size, the offset and the name of a member that a place of compound type has. -/
def Place.MemberFits (cbc : CBC) (fuel : ℕ) (p : Place) (name : String) : Prop :=
  match p.compound with
  | none => NameFits name
  | some s =>
    match (visibleMembers cbc.heap fuel s).find? (stopsSearch name) with
    | none => NameFits name
    | some none => False
    | some (some m) => OffsetsFit m.offsets ∧ IsInt (p.offset + m.offsets.sum) ∧
        u32 m.pDecl.size = m.pDecl.partSize 0

section Member
variable {cbc : CBC} {fuel : ℕ} {flags : GmFlags} {p : Place} {parent : Option ℕ} {name : String}

/-- Without gaps in front of it, the first entry of a name is the first member of it. -/
theorem find_reduceOption {entries : List (Option VisibleMember)} {entry : Option (Option VisibleMember)}
    (h : entries.find? (stopsSearch name) = entry) (hgap : entry ≠ some none) :
    entries.reduceOption.find? (fun m => m.pDecl.identifier = name) = entry.join := by
  induction entries with
  | nil =>
    cases h
    rfl
  | cons e entries ih =>
    rw [List.find?_cons] at h
    cases e with
    | none => exact absurd h.symm hgap
    | some m =>
      rw [List.reduceOption_cons_of_some, List.find?_cons]
      have hstop : stopsSearch name (some m) = decide (m.pDecl.identifier = name) := rfl
      rw [hstop] at h
      cases hname : decide (m.pDecl.identifier = name) with
      | true =>
        rw [hname] at h
        cases h
        rfl
      | false =>
        rw [hname] at h
        exact ih h

theorem gmCompound_some {s : ℕ} (h : p.compound = some s) :
    gmCompound (p.state parent) name = .ok s := by
  obtain ⟨type, pDecl, name', level, offset⟩ := p
  unfold Place.compound at h
  dsimp only at h
  split_ifs at h with hobject
  cases type with
  | compound kind s' =>
    cases h
    cases pDecl with
    | none => rfl
    | some d =>
      have hd : d.pointer_flag = false ∧ level = d.dims.length := of_decide_eq_true hobject
      have harray : ¬ decide (level < d.dims.length) = true := by
        rw [hd.2, decide_eq_true_iff]
        exact lt_irrefl _
      have hpointer : ¬ d.pointer_flag = true := by
        rw [hd.1]
        exact Bool.false_ne_true
      show (if decide (level < d.dims.length) = true then _ else if d.pointer_flag = true then _
        else _) = _
      rw [if_neg harray, if_neg hpointer]
      rfl
  | _ => exact nomatch h

theorem gmCompound_none (hproper : p.Proper) (h : p.compound = none) :
    ∃ type, gmCompound (p.state parent) name = cannotAccess type name := by
  obtain ⟨type, pDecl, name', level, offset⟩ := p
  unfold Place.compound at h
  unfold gmCompound
  dsimp only at h
  by_cases harray : (Place.state ⟨type, pDecl, name', level, offset⟩ parent).pDecl.any
      fun pDecl => level < pDecl.dims.length
  · exact ⟨"array", if_pos harray⟩
  by_cases hpointer : (Place.state ⟨type, pDecl, name', level, offset⟩ parent).pDecl.any
      Declarator.pointer_flag
  · exact ⟨"pointer", (if_neg harray).trans (if_pos hpointer)⟩
  refine ⟨"non-compound", (if_neg harray).trans ((if_neg hpointer).trans ?_)⟩
  have hobject : (pDecl.all fun d => d.pointer_flag = false ∧ level = d.dims.length) = true := by
    cases pDecl with
    | none => rfl
    | some d =>
      have hle : level ≤ d.dims.length := (hproper d rfl).1
      have hnlt : ¬ level < d.dims.length := fun hlt => harray (decide_eq_true hlt)
      have hplain : d.pointer_flag = false := Bool.eq_false_of_not_eq_true hpointer
      exact decide_eq_true ⟨hplain, le_antisymm hle (not_lt.mp hnlt)⟩
  rw [if_pos hobject] at h
  cases type with
  | compound kind s => exact nomatch h
  | _ => rfl

variable {dotless has_dot : Bool} (haccept : (!dotless && !has_dot) = false)
include haccept

/-- What is done with the member that the search has found. -/
theorem gmMember_declared (hcalc : flags.do_calc = true) {s : ℕ} {m : VisibleMember} (hcompound : p.compound = some s)
    (hsearch : searchStructMember cbc.heap name fuel s = (searchedOffset m.offsets >>= fun offset =>
      .ok (some ⟨max 0 offset, m.type, m.pDecl⟩))) :
    gmMember cbc.heap fuel flags dotless (p.state parent) name has_dot =
      (searchedOffset m.offsets >>= fun offset => int (p.offset + max 0 offset) >>= fun offset =>
        .ok (Place.state ⟨m.type, some m.pDecl, some name, 0, offset⟩ (some s))) := by
  unfold gmMember
  rw [haccept, if_neg Bool.false_ne_true, gmCompound_some hcompound, hcalc]
  show (searchStructMember cbc.heap name fuel s >>= _) = _
  rw [hsearch]
  cases searchedOffset m.offsets with
  | error e => rfl
  | ok offset => rfl

theorem gmMember_notFound {s : ℕ} (hcompound : p.compound = some s)
    (hsearch : searchStructMember cbc.heap name fuel s = .ok none) :
    Reported (gmMember cbc.heap fuel flags dotless (p.state parent) name has_dot) ↔
      NameFits name := by
  unfold gmMember
  rw [haccept, if_neg Bool.false_ne_true, gmCompound_some hcompound]
  show Reported (searchStructMember cbc.heap name fuel s >>= _) ↔ _
  rw [hsearch]
  exact reported_truncName_iff name _ .ok

theorem gmMember_noCompound (hproper : p.Proper) (hcompound : p.compound = none) :
    Reported (gmMember cbc.heap fuel flags dotless (p.state parent) name has_dot) ↔
      NameFits name := by
  obtain ⟨type, htype⟩ : ∃ type, gmCompound (p.state parent) name = cannotAccess type name :=
    gmCompound_none hproper hcompound
  unfold gmMember
  rw [haccept, if_neg Bool.false_ne_true, htype]
  unfold cannotAccess
  rw [bind_assoc]
  exact reported_truncName_iff name _ _

theorem gmMember_gap {s : ℕ} (hcompound : p.compound = some s) {e : Fault}
    (hsearch : searchStructMember cbc.heap name fuel s = .error e) :
    gmMember cbc.heap fuel flags dotless (p.state parent) name has_dot = .error e := by
  unfold gmMember
  rw [haccept, if_neg Bool.false_ne_true, gmCompound_some hcompound]
  show (searchStructMember cbc.heap name fuel s >>= _) = _
  rw [hsearch]
  rfl

theorem gmMember_atPlace (hcalc : flags.do_calc = true) (hproper : p.Proper) :
    (Linear cbc (p.member cbc.heap fuel name)
        (gmMember cbc.heap fuel flags dotless (p.state parent) name has_dot) →
      p.MemberFits cbc fuel name) ∧
    (p.MemberFits cbc fuel name → AtPlace cbc (p.member cbc.heap fuel name)
      (gmMember cbc.heap fuel flags dotless (p.state parent) name has_dot)) := by
  unfold Place.MemberFits Place.member
  cases hcompound : p.compound with
  | none =>
    have hreported : Reported (gmMember cbc.heap fuel flags dotless (p.state parent) name has_dot) ↔
        NameFits name := gmMember_noCompound haccept hproper hcompound
    exact ⟨hreported.mp, hreported.mpr⟩
  | some s =>
    have hstops : StopsAt (max 0) ((visibleMembers cbc.heap fuel s).find? (stopsSearch name))
        (searchStructMember cbc.heap name fuel s) := searchStructMember_stops name fuel s
    dsimp only
    cases hfind : (visibleMembers cbc.heap fuel s).find? (stopsSearch name) with
    | none =>
      rw [hfind] at hstops
      have hideal := find_reduceOption hfind (fun h => nomatch h)
      rw [Option.bind_eq_bind, Option.bind_some, hideal]
      have hreported : Reported (gmMember cbc.heap fuel flags dotless (p.state parent) name has_dot) ↔
          NameFits name := gmMember_notFound haccept hcompound hstops
      exact ⟨hreported.mp, hreported.mpr⟩
    | some entry =>
      rw [hfind] at hstops
      cases entry with
      | none =>
        obtain ⟨e, hsearch, hunreported⟩ := hstops
        rw [gmMember_gap haccept hcompound hsearch]
        refine ⟨fun hlinear => ?_, False.elim⟩
        unfold Linear at hlinear
        split at hlinear
        · obtain ⟨err, herr⟩ := hlinear
          exact hunreported err (Except.error.inj herr)
        · obtain ⟨st, hst, -⟩ := hlinear
          exact nomatch hst
      | some m =>
        have hideal := find_reduceOption hfind (fun h => nomatch h)
        rw [Option.bind_eq_bind, Option.bind_some, hideal]
        rw [gmMember_declared haccept hcalc hcompound hstops]
        constructor
        · rintro ⟨st, hst, hoffset, hsize⟩
          obtain ⟨r, hr, hst⟩ := bind_ok hst
          obtain ⟨offset, hint, hst⟩ := bind_ok hst
          obtain ⟨hint, rfl⟩ := int_ok_iff.mp hint
          cases hst
          have hexact : max 0 r = m.offsets.sum := add_left_cancel hoffset
          refine ⟨(searchedOffset_iff _).mp ⟨r, hr, hexact⟩, ?_, hsize⟩
          rwa [← hexact]
        · rintro ⟨hfit, hint, hsize⟩
          obtain ⟨r, hr, hexact⟩ := (searchedOffset_iff _).mpr hfit
          refine ⟨hsize, some s, ?_⟩
          rw [hr, call_bind_apply, hexact, int_ok_iff.mpr ⟨hint, rfl⟩]
          rfl

end Member

/-- Is the index that is stored outside of the dimension that is stored? -/
def StoredOutside (pValue : Value) (index : ℤ) : Prop :=
  pValue.undef = false ∧ ¬ (0 ≤ storedNumber index ∧ storedNumber index < i32 pValue.iv)

/-- The size of an element is found, and nothing that is computed with it is cut off. -/
structure ElementFits (p : Place) (d : Declarator) (pValue : Value) (index : ℤ) : Prop where
  undefined : pValue.undef = true →
    0 < d.item_size ∧ ProductsFit d.item_size (d.dims.drop (p.level + 1)).reverse
  defined : pValue.undef = false → 0 ≤ p.sizeHeld ∧ i32 pValue.iv ≠ 0 ∧
    p.sizeHeld.tdiv (i32 pValue.iv) = d.partSize (p.level + 1)
  size_nonneg : 0 ≤ d.partSize (p.level + 1)
  size_lt : d.partSize (p.level + 1) < 2147483648
  kept : storedNumber index * d.partSize (p.level + 1) = index * d.partSize (p.level + 1)
  distance : IsInt (index * d.partSize (p.level + 1))
  sum : IsInt (p.offset + index * d.partSize (p.level + 1))

/-- What an index needs: the bounds give the same answer for the stored numbers, and an
element that is not rejected fits. -/
def Place.IndexFits (reject : Bool) (p : Place) (index : ℤ) : Prop :=
  match p.pDecl with
  | none => ∀ name ∈ p.name, NameFits name
  | some d =>
    match d.dims[p.level]? with
    | none => ∀ name ∈ p.name, NameFits name
    | some pValue =>
      (reject = true → (StoredOutside pValue index ↔ Place.Outside pValue index)) ∧
        (¬ (reject = true ∧ Place.Outside pValue index) → ElementFits p d pValue index)

/-- The size of an element, for an index that is not rejected. -/
def heldElement (d : Declarator) (pValue : Value) (level : ℕ) (size : ℤ) : Call ℤ :=
  if pValue.undef then
    if d.item_size ≤ 0 then .error (.fatal "pDecl->item_size is not initialized in get_member()")
    else elementStride d level
  else if size < 0 then .error (.fatal "size is not initialized in get_member()")
  else divideInt size (i32 pValue.iv)

section Index
variable {cbc : CBC} {flags : GmFlags} {p : Place} {parent : Option ℕ} {index : ℤ}
  {d : Declarator} {pValue : Value}

theorem reported_cannotIndex_iff {α : Type} (name : Option String) (what : String) :
    Reported (cannotIndex name what : Call α) ↔ ∀ n ∈ name, NameFits n := by
  cases name with
  | none => exact iff_of_true ⟨_, rfl⟩ fun n h => nomatch h
  | some n =>
    have hname : (∀ n' ∈ some n, NameFits n') ↔ NameFits n := by
      constructor
      · intro h
        exact h n rfl
      · intro h n' hn'
        cases hn'
        exact h
    rw [hname]
    exact reported_truncName_iff n _ .ok

theorem divideInt_ok_iff {size dim r : ℤ} (hsize : IsInt size) (hpos : 0 ≤ size) :
    divideInt size dim = .ok r ↔ dim ≠ 0 ∧ r = size.tdiv dim := by
  unfold divideInt
  by_cases hzero : dim = 0
  · rw [if_pos hzero]
    exact iff_of_false (fun h => nomatch h) (fun h => h.1 hzero)
  · rw [if_neg hzero]
    have hle : (size.tdiv dim).natAbs ≤ size.natAbs := Int.natAbs_tdiv_le_natAbs size dim
    have hbound : -2147483648 ≤ size.tdiv dim ∧ size.tdiv dim < 2147483648 := by
      obtain ⟨-, hlt⟩ := hsize
      omega
    rw [i32_of_lt hbound.1 hbound.2]
    exact ⟨fun h => ⟨hzero, (Except.ok.inj h).symm⟩, fun h => congrArg _ h.2.symm⟩

theorem silent_heldElement (d : Declarator) (pValue : Value) (level : ℕ) (size : ℤ) :
    ¬ Reported (heldElement d pValue level size) := by
  unfold heldElement divideInt
  split_ifs
  · exact silent_error fun err h => nomatch h
  · exact silent_timesDims _ _
  · exact silent_error fun err h => nomatch h
  · exact silent_error fun err h => nomatch h
  · exact silent_ok _

theorem silent_gmOffset (offset size index : ℤ) : ¬ Reported (gmOffset flags offset size index) := by
  unfold gmOffset
  split_ifs
  · exact silent_error fun err h => nomatch h
  · exact silent_bind (silent_int _) fun _ => silent_int _
  · exact silent_ok _

/-- An index that is not rejected is never reported. -/
theorem gmIndex_element (hcalc : flags.do_calc = true) (hdecl : p.pDecl = some d)
    (hdim : d.dims[p.level]? = some pValue)
    (hkept : ¬ (flags.reject_out_of_bounds_index = true ∧ StoredOutside pValue index)) :
    gmIndex flags (p.state parent) (storedNumber index) =
      (heldElement d pValue p.level p.sizeHeld >>= fun size =>
        gmOffset flags p.offset size (storedNumber index) >>= fun offset =>
          .ok { p.state parent with size := size, offset := offset, level := p.level + 1 }) := by
  have hlevel : p.level < d.dims.length := (List.getElem?_eq_some_iff.mp hdim).1
  have harray : ¬ (p.level = 0 ∧ d.isArray = false) := by
    rw [Declarator.isArray_of_dims hlevel]
    exact fun h => Bool.true_eq_false.mp h.2
  have hsize : gmElementSize flags d pValue p.level p.sizeHeld (storedNumber index) =
      heldElement d pValue p.level p.sizeHeld := by
    unfold gmElementSize heldElement
    rw [hcalc]
    cases hundef : pValue.undef with
    | true => rfl
    | false =>
      -- neither of the comparisons rejects the index
      have hlow : ¬ (flags.reject_out_of_bounds_index = true ∧ storedNumber index < 0) :=
        fun h => hkept ⟨h.1, hundef, fun hin => not_le.mpr h.2 hin.1⟩
      have hhigh : ¬ (flags.reject_out_of_bounds_index = true ∧ storedNumber index ≥ i32 pValue.iv) :=
        fun h => hkept ⟨h.1, hundef, fun hin => not_lt.mpr h.2 hin.2⟩
      dsimp only
      rw [if_neg Bool.false_ne_true, if_neg Bool.false_ne_true, if_neg hlow, if_neg hhigh, if_pos rfl]
  unfold gmIndex Place.state
  dsimp only
  rw [hdecl]
  dsimp only
  rw [if_neg harray, hdim]
  dsimp only
  rw [hsize]

theorem gmIndex_rejected (hdecl : p.pDecl = some d) (hdim : d.dims[p.level]? = some pValue)
    (hreject : flags.reject_out_of_bounds_index = true ∧ StoredOutside pValue index) :
    Reported (gmIndex flags (p.state parent) (storedNumber index)) := by
  obtain ⟨hreject, hundef, hout⟩ := hreject
  have hlevel : p.level < d.dims.length := (List.getElem?_eq_some_iff.mp hdim).1
  have harray : ¬ (p.level = 0 ∧ d.isArray = false) := by
    rw [Declarator.isArray_of_dims hlevel]
    exact fun h => Bool.true_eq_false.mp h.2
  have hsize : Reported (gmElementSize flags d pValue p.level p.sizeHeld (storedNumber index)) := by
    unfold gmElementSize
    rw [hundef, hreject, if_neg Bool.false_ne_true]
    dsimp only
    by_cases hlow : storedNumber index < 0
    · rw [if_pos ⟨rfl, hlow⟩]
      exact ⟨_, rfl⟩
    · have hhigh : storedNumber index ≥ i32 pValue.iv := by
        by_contra hlt
        exact hout ⟨not_lt.mp hlow, not_le.mp hlt⟩
      rw [if_neg (fun h => hlow h.2), if_pos ⟨rfl, hhigh⟩]
      exact ⟨_, rfl⟩
  unfold gmIndex Place.state
  dsimp only
  rw [hdecl]
  dsimp only
  rw [if_neg harray, hdim]
  exact reported_bind _ hsize

theorem gmIndex_none (h : p.pDecl.bind (fun d => d.dims[p.level]?) = none) :
    Reported (gmIndex flags (p.state parent) (storedNumber index)) ↔
      ∀ name ∈ p.name, NameFits name := by
  unfold gmIndex Place.state
  dsimp only
  cases hdecl : p.pDecl with
  | none => exact reported_cannotIndex_iff _ _
  | some d =>
    rw [hdecl] at h
    have hdim : d.dims[p.level]? = none := h
    dsimp only
    rw [hdim]
    split_ifs
    · exact reported_cannotIndex_iff _ _
    · exact reported_cannotIndex_iff _ _

theorem heldElement_ok_iff {level : ℕ} {size r : ℤ} (hsize : IsInt size)
    (hitem : d.item_size = i32 d.item_size) :
    heldElement d pValue level size = .ok r ↔
      (pValue.undef = true → (0 < d.item_size ∧
        ProductsFit d.item_size (d.dims.drop (level + 1)).reverse) ∧
          r = i32 (d.item_size * d.inner level)) ∧
      (pValue.undef = false → (0 ≤ size ∧ i32 pValue.iv ≠ 0) ∧ r = size.tdiv (i32 pValue.iv)) := by
  unfold heldElement
  cases hundef : pValue.undef with
  | true =>
    rw [if_pos rfl]
    have hskip : (true = false → (0 ≤ size ∧ i32 pValue.iv ≠ 0) ∧ r = size.tdiv (i32 pValue.iv)) :=
      fun h => (Bool.true_eq_false.mp h).elim
    by_cases hzero : d.item_size ≤ 0
    · rw [if_pos hzero]
      exact iff_of_false (fun h => nomatch h) (fun h => not_lt.mpr hzero (h.1 rfl).1.1)
    · rw [if_neg hzero, elementStride_ok_iff hitem]
      constructor
      · intro h
        exact ⟨fun _ => ⟨⟨not_le.mp hzero, h.1⟩, h.2⟩, hskip⟩
      · intro h
        exact ⟨(h.1 rfl).1.2, (h.1 rfl).2⟩
  | false =>
    rw [if_neg Bool.false_ne_true]
    by_cases hneg : size < 0
    · rw [if_pos hneg]
      exact iff_of_false (fun h => nomatch h) (fun h => not_le.mpr hneg (h.2 rfl).1.1)
    · have hpos : 0 ≤ size := not_lt.mp hneg
      rw [if_neg hneg, divideInt_ok_iff hsize hpos]
      constructor
      · intro h
        exact ⟨fun h' => (Bool.false_ne_true h').elim, fun _ => ⟨⟨hpos, h.1⟩, h.2⟩⟩
      · intro h
        exact ⟨(h.2 rfl).1.2, (h.2 rfl).2⟩

theorem gmOffset_ok_iff (hcalc : flags.do_calc = true) {offset size n r : ℤ} :
    gmOffset flags offset size n = .ok r ↔
      0 ≤ size ∧ IsInt (n * size) ∧ IsInt (offset + n * size) ∧ r = offset + n * size := by
  unfold gmOffset
  rw [if_pos hcalc]
  by_cases hneg : size < 0
  · rw [if_pos hneg]
    exact iff_of_false (fun h => nomatch h) (fun h => not_le.mpr hneg h.1)
  · rw [if_neg hneg]
    constructor
    · intro h
      obtain ⟨distance, hdistance, h⟩ := bind_ok h
      obtain ⟨hint, rfl⟩ := int_ok_iff.mp hdistance
      obtain ⟨hsum, hr⟩ := int_ok_iff.mp h
      exact ⟨not_lt.mp hneg, hint, hsum, hr⟩
    · rintro ⟨-, hint, hsum, hr⟩
      rw [int_ok_iff.mpr ⟨hint, rfl⟩]
      exact int_ok_iff.mpr ⟨hsum, hr⟩

theorem sizeHeld_int (hproper : p.Proper) : IsInt p.sizeHeld := by
  unfold Place.sizeHeld
  cases hdecl : p.pDecl with
  | none =>
    show IsInt (-1)
    decide
  | some d =>
    have hsize : IsInt d.size := (hproper d hdecl).2.2.1
    dsimp only
    split_ifs
    · exact hsize
    · have hlow := Int.le_bmod (x := d.partSize p.level) (m := 4294967296) (by decide)
      have hhigh := Int.bmod_lt (x := d.partSize p.level) (m := 4294967296) (by decide)
      unfold i32 IsInt
      omega

section Exact
variable (hcalc : flags.do_calc = true) (hproper : p.Proper) (hdecl : p.pDecl = some d)
include hcalc hproper hdecl

/-- What is computed exactly fits. -/
theorem elementFits_of_exact {size offset : ℤ}
    (hsize : heldElement d pValue p.level p.sizeHeld = .ok size)
    (hoffset : gmOffset flags p.offset size (storedNumber index) = .ok offset)
    (hexact : offset = p.offset + index * d.partSize (p.level + 1))
    (hu32 : u32 size = d.partSize (p.level + 1)) : ElementFits p d pValue index := by
  obtain ⟨-, -, -, hitem⟩ := hproper d hdecl
  have hitem' : d.item_size = i32 d.item_size := (i32_of_lt hitem.1 hitem.2).symm
  have hheld := sizeHeld_int hproper
  obtain ⟨hundef, hdef⟩ := (heldElement_ok_iff hheld hitem').mp hsize
  obtain ⟨hpos, hdistance, hsum, rfl⟩ := (gmOffset_ok_iff hcalc).mp hoffset
  -- the size is an int, and so it is the size of the element
  have hint : size < 2147483648 := by
    cases hu : pValue.undef with
    | true =>
      have hhigh := Int.bmod_lt (x := d.item_size * d.inner p.level) (m := 4294967296) (by decide)
      rw [(hundef hu).2]
      unfold i32
      omega
    | false =>
      have hle := Int.natAbs_tdiv_le_natAbs p.sizeHeld (i32 pValue.iv)
      obtain ⟨⟨hheldpos, -⟩, heq⟩ := hdef hu
      obtain ⟨-, hlt⟩ := hheld
      rw [← heq] at hle
      omega
  have hsame : size = d.partSize (p.level + 1) := by
    rw [← hu32]
    exact (u32_of_lt hpos (by omega)).symm
  have hkept : storedNumber index * size = index * d.partSize (p.level + 1) :=
    add_left_cancel hexact
  refine ⟨fun hu => (hundef hu).1, fun hu => ?_, ?_, ?_, ?_, ?_, ?_⟩
  · obtain ⟨⟨hheldpos, hne⟩, heq⟩ := hdef hu
    exact ⟨hheldpos, hne, heq.symm.trans hsame⟩
  · rw [← hsame]
    exact hpos
  · rw [← hsame]
    exact hint
  · rw [← hkept, hsame]
  · rw [← hkept]
    exact hdistance
  · rw [← hkept]
    exact hsum

/-- What fits is computed exactly. -/
theorem exact_of_elementFits (hdim : d.dims[p.level]? = some pValue)
    (hfits : ElementFits p d pValue index) :
    heldElement d pValue p.level p.sizeHeld = .ok (d.partSize (p.level + 1)) ∧
      gmOffset flags p.offset (d.partSize (p.level + 1)) (storedNumber index) =
        .ok (p.offset + index * d.partSize (p.level + 1)) := by
  obtain ⟨-, -, -, hitem⟩ := hproper d hdecl
  have hitem' : d.item_size = i32 d.item_size := (i32_of_lt hitem.1 hitem.2).symm
  have hheld := sizeHeld_int hproper
  have hlevel : p.level < d.dims.length := (List.getElem?_eq_some_iff.mp hdim).1
  have hpart : d.partSize (p.level + 1) = d.item_size * d.inner p.level := by
    unfold Declarator.partSize Declarator.inner
    rw [Declarator.isArray_of_dims hlevel, if_pos rfl]
  have hint : i32 (d.partSize (p.level + 1)) = d.partSize (p.level + 1) :=
    i32_of_lt (by linarith [hfits.size_nonneg]) hfits.size_lt
  constructor
  · apply (heldElement_ok_iff hheld hitem').mpr
    constructor
    · intro hu
      refine ⟨hfits.undefined hu, ?_⟩
      rw [← hpart, hint]
    · intro hu
      obtain ⟨hheldpos, hne, heq⟩ := hfits.defined hu
      exact ⟨⟨hheldpos, hne⟩, heq.symm⟩
  · apply (gmOffset_ok_iff hcalc).mpr
    rw [hfits.kept]
    exact ⟨hfits.size_nonneg, hfits.distance, hfits.sum, rfl⟩

end Exact

theorem gmIndex_atPlace (hcalc : flags.do_calc = true) (hproper : p.Proper) :
    (Linear cbc (p.element flags.reject_out_of_bounds_index index)
        (gmIndex flags (p.state parent) (storedNumber index)) →
      p.IndexFits flags.reject_out_of_bounds_index index) ∧
    (p.IndexFits flags.reject_out_of_bounds_index index →
      AtPlace cbc (p.element flags.reject_out_of_bounds_index index)
        (gmIndex flags (p.state parent) (storedNumber index))) := by
  cases hfound : p.pDecl.bind fun d => d.dims[p.level]? with
  | none =>
    have hreported : Reported (gmIndex flags (p.state parent) (storedNumber index)) ↔
        ∀ name ∈ p.name, NameFits name := gmIndex_none hfound
    have hideal : p.element flags.reject_out_of_bounds_index index = none := by
      unfold Place.element
      cases hdecl : p.pDecl with
      | none => rfl
      | some d =>
        rw [hdecl, Option.bind_some] at hfound
        rw [Option.bind_eq_bind, Option.bind_some, hfound]
        rfl
    have hfits : p.IndexFits flags.reject_out_of_bounds_index index ↔
        ∀ name ∈ p.name, NameFits name := by
      unfold Place.IndexFits
      cases hdecl : p.pDecl with
      | none => rfl
      | some d =>
        rw [hdecl, Option.bind_some] at hfound
        dsimp only
        rw [hfound]
    rw [hideal, hfits]
    exact ⟨hreported.mp, hreported.mpr⟩
  | some pValue =>
    obtain ⟨d, hdecl, hdim⟩ := Option.bind_eq_some_iff.mp hfound
    have hfits : p.IndexFits flags.reject_out_of_bounds_index index ↔
        (flags.reject_out_of_bounds_index = true →
          (StoredOutside pValue index ↔ Place.Outside pValue index)) ∧
        (¬ (flags.reject_out_of_bounds_index = true ∧ Place.Outside pValue index) →
          ElementFits p d pValue index) := by
      unfold Place.IndexFits
      rw [hdecl]
      dsimp only
      rw [hdim]
    have hideal : p.element flags.reject_out_of_bounds_index index =
        if flags.reject_out_of_bounds_index = true ∧ Place.Outside pValue index then none
        else some { p with
          level := p.level + 1, offset := p.offset + index * d.partSize (p.level + 1) } := by
      unfold Place.element
      rw [hdecl, Option.bind_eq_bind, Option.bind_some, hdim]
      rfl
    rw [hfits, hideal]
    by_cases hstored : flags.reject_out_of_bounds_index = true ∧ StoredOutside pValue index
    · -- the code rejects the index
      have hreported : Reported (gmIndex flags (p.state parent) (storedNumber index)) :=
        gmIndex_rejected hdecl hdim hstored
      by_cases hout : Place.Outside pValue index
      · rw [if_pos ⟨hstored.1, hout⟩]
        refine ⟨fun _ => ⟨fun _ => iff_of_true hstored.2 hout, fun h => ?_⟩, fun _ => hreported⟩
        exact absurd ⟨hstored.1, hout⟩ h
      · rw [if_neg fun h => hout h.2]
        constructor
        · rintro ⟨st, hst, -⟩
          obtain ⟨err, herr⟩ := hreported
          rw [herr] at hst
          exact nomatch hst
        · rintro ⟨hagree, -⟩
          exact absurd ((hagree hstored.1).mp hstored.2) hout
    · rw [gmIndex_element hcalc hdecl hdim hstored]
      by_cases hout : flags.reject_out_of_bounds_index = true ∧ Place.Outside pValue index
      · -- the index is outside, but nothing is reported
        have hsilent : ¬ Reported (heldElement d pValue p.level p.sizeHeld >>= fun size =>
            gmOffset flags p.offset size (storedNumber index) >>= fun offset =>
              (.ok { p.state parent with size := size, offset := offset, level := p.level + 1 } :
                Call GmState)) := by
          apply silent_bind (silent_heldElement _ _ _ _)
          intro size
          apply silent_bind (silent_gmOffset _ _ _)
          intro offset
          exact silent_ok _
        rw [if_pos hout]
        refine ⟨fun h => absurd h hsilent, fun h => ?_⟩
        exact absurd ⟨hout.1, (h.1 hout.1).mpr hout.2⟩ hstored
      · rw [if_neg hout]
        have hagree (hreject : flags.reject_out_of_bounds_index = true) :
            StoredOutside pValue index ↔ Place.Outside pValue index :=
          iff_of_false (fun h => hstored ⟨hreject, h⟩) (fun h => hout ⟨hreject, h⟩)
        constructor
        · rintro ⟨st, hst, hoffset, hsize⟩
          obtain ⟨size, hheld, hst⟩ := bind_ok hst
          obtain ⟨offset, hoff, hst⟩ := bind_ok hst
          cases hst
          have hpart : (Place.size cbc { p with
              level := p.level + 1, offset := p.offset + index * d.partSize (p.level + 1) }) =
              d.partSize (p.level + 1) := by
            unfold Place.size
            dsimp only
            rw [hdecl]
          rw [hpart] at hsize
          exact ⟨hagree, fun _ =>
            elementFits_of_exact hcalc hproper hdecl hheld hoff hoffset hsize⟩
        · rintro ⟨-, hfits⟩
          have hfits := hfits hout
          obtain ⟨hheld, hoff⟩ := exact_of_elementFits hcalc hproper hdecl hdim hfits
          have hint : i32 (d.partSize (p.level + 1)) = d.partSize (p.level + 1) :=
            i32_of_lt (by linarith [hfits.size_nonneg]) hfits.size_lt
          have hheldSize : (Place.sizeHeld { p with
              level := p.level + 1, offset := p.offset + index * d.partSize (p.level + 1) }) =
              d.partSize (p.level + 1) := by
            unfold Place.sizeHeld
            dsimp only
            rw [hdecl]
            dsimp only
            rw [if_neg (Nat.succ_ne_zero _), hint]
          refine ⟨?_, parent, ?_⟩
          · unfold Place.SizeFits Place.size
            dsimp only
            rw [hheldSize, hdecl]
            exact u32_of_lt hfits.size_nonneg (by linarith [hfits.size_lt])
          · rw [hheld, call_bind_apply, hoff, call_bind_apply]
            unfold Place.state
            rw [hheldSize]

end Index

end ConvertBinaryC
