import ConvertBinaryC.CBCClonePack
import ConvertBinaryC.CBCInitializer
import ConvertBinaryC.CBCMemberStrings
import ConvertBinaryC.CBCOffsetString

/-! Initializers, members and offsets of a clone. -/
namespace ConvertBinaryC
open CarryRules

variable {ρ : ParserObject → ℕ} {heap heap' : Heap} {Listed : ParserObject → Prop}
  (hcopies : heap.Copies ρ heap' Listed)

/-- The two say the same of every listed type and of its copy. -/
def SameTypes {α : Type} (ρ : ParserObject → ℕ) (Listed : ParserObject → Prop)
    (f f' : TypeSpec → α) : Prop :=
  ∀ pTS, (∀ o, pTS.object = some o → Listed o) → f' (pTS.rename ρ) = f pTS

def SameStructs {α : Type} (ρ : ParserObject → ℕ) (Listed : ParserObject → Prop) (f f' : ℕ → α) :
    Prop :=
  ∀ s, Listed (.struct s) → f' (ρ (.struct s)) = f s

section Initializer
variable (perl : Perl)

section Steps
variable {initType initType' : InitTypeFn} {initStruct initStruct' : InitStructFn}
  (htype : SameTypes ρ Listed initType initType')
  (hstruct : SameStructs ρ Listed initStruct initStruct')

include hcopies htype hstruct in
theorem initDeclaration_copy (fuel : ℕ) (kind : CompoundKind) (init : Option SV) (level : ℕ)
    (st : InitString) {sd : StructDeclaration} (hlisted : ∀ o, sd.type.object = some o → Listed o) :
    initDeclaration heap' fuel initType' initStruct' kind init level st (sd.rename ρ) =
      initDeclaration heap fuel initType initStruct kind init level st sd := by
  unfold initDeclaration StructDeclaration.rename
  dsimp only
  cases sd.declarators with
  | some declarators =>
    unfold initMember
    rw [htype sd.type hlisted]
  | none =>
    split_ifs
    · rfl
    · exact (hcopies.follow_tsptr fuel hlisted).bind_eq fun s hs => by rw [hstruct s hs]

include hcopies htype hstruct in
theorem initStructStep_copy (fuel : ℕ) : SameStructs ρ Listed
    (initStructStep heap fuel initType initStruct) (initStructStep heap' fuel initType' initStruct') := by
  intro s hs
  funext init level string
  unfold initStructStep
  rw [hcopies.struct s hs]
  dsimp only
  rw [declarations_rename, foldlM_map_eq]
  intro st sd hsd
  exact initDeclaration_copy hcopies htype hstruct fuel _ init level st
    (hcopies.member_object s hs sd hsd)

include hcopies htype hstruct in
theorem initTypeStep_copy : SameTypes ρ Listed
    (initTypeStep perl heap initType initStruct) (initTypeStep perl heap' initType' initStruct') := by
  intro pTS hlisted
  funext pDecl dimension init level string
  unfold initTypeStep
  split
  -- The dimensions that are left are gone through before the type is looked at.
  · unfold initElement
    rw [htype pTS hlisted]
  · split_ifs
    · rfl
    · cases pTS with
      | basic tflags => rfl
      | enum pES => rfl
      | compound kind s => exact congrFun (congrFun (congrFun (hstruct s (hlisted _ rfl)) _) _) _
      | typedef t =>
        dsimp only [TypeSpec.rename]
        rw [hcopies.typedef t (hlisted _ rfl), Typedef.rename]
        dsimp only
        rw [htype _ (hcopies.type_object t (hlisted _ rfl))]

end Steps

include hcopies in
theorem init_copy (fuel : ℕ) :
    SameTypes ρ Listed (initType perl heap fuel) (initType perl heap' fuel) ∧
      SameStructs ρ Listed (initStruct perl heap fuel) (initStruct perl heap' fuel) := by
  induction fuel with
  | zero => exact ⟨fun _ _ => rfl, fun _ _ => rfl⟩
  | succ fuel ih =>
    exact ⟨initTypeStep_copy hcopies perl ih.1 ih.2, initStructStep_copy hcopies ih.1 ih.2 fuel⟩

end Initializer

section MemberStrings

section Steps
variable {amsType amsType' : AmsTypeFn} {amsStruct amsStruct' : AmsStructFn}
  (htype : SameTypes ρ Listed amsType amsType')
  (hstruct : SameStructs ρ Listed amsStruct amsStruct')

include hcopies htype hstruct in
theorem amsDeclaration_copy (fuel : ℕ) (name : Option String) (info : AMSInfo)
    {sd : StructDeclaration} (hlisted : ∀ o, sd.type.object = some o → Listed o) :
    amsDeclaration heap' fuel amsType' amsStruct' name info (sd.rename ρ) =
      amsDeclaration heap fuel amsType amsStruct name info sd := by
  unfold amsDeclaration StructDeclaration.rename
  dsimp only
  cases sd.declarators with
  | some declarators =>
    unfold amsMember
    rw [htype sd.type hlisted]
  | none =>
    -- An unnamed member is a compound, perhaps behind typedefs.
    exact (hcopies.follow_tsptr fuel hlisted).bind_eq fun s hs => by rw [hstruct s hs]

include hcopies htype hstruct in
theorem amsStructStep_copy (fuel : ℕ) : SameStructs ρ Listed
    (amsStructStep heap fuel amsType amsStruct) (amsStructStep heap' fuel amsType' amsStruct') := by
  intro s hs
  funext name info
  unfold amsStructStep
  rw [hcopies.struct s hs, declarations_rename]
  apply foldlM_map_eq
  intro info sd hsd
  exact amsDeclaration_copy hcopies htype hstruct fuel name info (hcopies.member_object s hs sd hsd)

include hcopies htype hstruct in
theorem amsTypeStep_copy : SameTypes ρ Listed
    (amsTypeStep heap amsType amsStruct) (amsTypeStep heap' amsType' amsStruct') := by
  intro pTS hlisted
  funext pDecl dimension name info
  unfold amsTypeStep
  split
  · unfold amsArray amsElement
    rw [htype pTS hlisted]
  · split_ifs
    · rfl
    · cases pTS with
      | basic tflags => rfl
      | enum pES => rfl
      | compound kind s => exact congrFun (congrFun (hstruct s (hlisted _ rfl)) _) _
      | typedef t =>
        dsimp only [TypeSpec.rename]
        rw [hcopies.typedef t (hlisted _ rfl), Typedef.rename]
        dsimp only
        rw [htype _ (hcopies.type_object t (hlisted _ rfl))]

end Steps

include hcopies in
theorem ams_copy (fuel : ℕ) :
    SameTypes ρ Listed (amsType heap fuel) (amsType heap' fuel) ∧
      SameStructs ρ Listed (amsStruct heap fuel) (amsStruct heap' fuel) := by
  induction fuel with
  | zero => exact ⟨fun _ _ => rfl, fun _ _ => rfl⟩
  | succ fuel ih =>
    exact ⟨amsTypeStep_copy hcopies ih.1 ih.2, amsStructStep_copy hcopies ih.1 ih.2 fuel⟩

end MemberStrings

section GetMember

def FoundMember.rename (ρ : ParserObject → ℕ) (found : FoundMember) : FoundMember :=
  { found with type := found.type.rename ρ }

/-- Members of listed types. -/
def FoundMember.Known (Listed : ParserObject → Prop) (found : Option FoundMember) : Prop :=
  ∀ m, found = some m → ∀ o, m.type.object = some o → Listed o

def FoundMember.Search (ρ : ParserObject → ℕ) (Listed : ParserObject → Prop)
    (search search' : ℕ → Call (Option FoundMember)) : Prop :=
  ∀ s, Listed (.struct s) → Maps (Option.map (FoundMember.rename ρ)) (FoundMember.Known Listed)
    (search s) (search' (ρ (.struct s)))

include hcopies in
theorem searchDeclarations_maps (fuel : ℕ) {search search' : ℕ → Call (Option FoundMember)}
    (hsearch : FoundMember.Search ρ Listed search search') (elem : String)
    {declarations : List StructDeclaration}
    (hlisted : ∀ sd ∈ declarations, ∀ o, sd.type.object = some o → Listed o) :
    Maps (Option.map (FoundMember.rename ρ)) (FoundMember.Known Listed)
      (searchDeclarations heap fuel search elem declarations)
      (searchDeclarations heap' fuel search' elem
        (declarations.map (StructDeclaration.rename ρ))) := by
  induction declarations with
  | nil =>
    apply maps_ok
    rintro m ⟨⟩
  | cons sd declarations ih =>
    have hfirst := hlisted sd List.mem_cons_self
    have hrest := ih fun sd hsd => hlisted sd (List.mem_cons_of_mem _ hsd)
    rw [List.map_cons]
    unfold searchDeclarations StructDeclaration.rename
    dsimp only
    cases sd.declarators with
    | some declarators =>
      dsimp only
      cases declarators.find? fun pDecl => pDecl.identifier = elem with
      | none => exact hrest
      | some pDecl =>
        apply maps_ok
        rintro m ⟨⟩
        exact hfirst
    | none =>
      -- The search goes on inside an unnamed compound, and past it when it finds nothing there.
      apply (hcopies.follow_tsptr fuel hfirst).bind
      intro s hs
      apply (hsearch s hs).bind
      intro found hfound
      cases found with
      | none => exact hrest
      | some found =>
        apply maps_bind_self
        intro offset
        apply maps_ok
        rintro m ⟨⟩
        exact hfound found rfl

include hcopies in
theorem searchStructMember_maps (elem : String) (fuel : ℕ) :
    FoundMember.Search ρ Listed (searchStructMember heap elem fuel)
      (searchStructMember heap' elem fuel) := by
  induction fuel with
  | zero => exact fun _ _ => maps_error _
  | succ fuel ih =>
    intro s hs
    unfold searchStructMember
    rw [hcopies.struct s hs, declarations_rename]
    apply (searchDeclarations_maps hcopies fuel ih elem (hcopies.member_object s hs)).bind
    intro found hfound
    cases found with
    | none =>
      apply maps_ok
      rintro m ⟨⟩
    | some found =>
      apply maps_ok
      rintro m ⟨⟩
      exact hfound found rfl

include hcopies in
theorem gmTypedefs_maps (fuel : ℕ) {t : ℕ} (ht : Listed (.typedef t)) :
    Maps (fun base => (base.1.rename ρ, base.2)) (fun base => ∀ o, base.1.object = some o → Listed o)
      (gmTypedefs heap fuel t) (gmTypedefs heap' fuel (ρ (.typedef t))) := by
  induction fuel generalizing t with
  | zero => exact maps_error _
  | succ fuel ih =>
    have hobject := hcopies.type_object t ht
    unfold gmTypedefs
    rw [hcopies.typedef t ht, Typedef.rename]
    dsimp only
    -- Only a typedef of a plain declarator is followed further.
    generalize (heap.typedefAt t).type = type at hobject ⊢
    cases type with
    | basic tflags => exact maps_ok hobject
    | enum pES => exact maps_ok hobject
    | compound kind s => exact maps_ok hobject
    | typedef t' =>
      dsimp only [TypeSpec.rename]
      split_ifs
      · exact ih (hobject _ rfl)
      · exact maps_ok hobject

def GmState.rename (ρ : ParserObject → ℕ) (st : GmState) : GmState :=
  { st with pType := st.pType.rename ρ, pStruct := st.pStruct.map fun s => ρ (.struct s) }

/-- The variables hold a listed type. -/
def GmState.Known (Listed : ParserObject → Prop) (st : GmState) : Prop :=
  ∀ o, st.pType.object = some o → Listed o

variable (flags : GmFlags) (fuel : ℕ)

include hcopies in
theorem gmStart_maps {pMI : MemberInfo} (hlisted : ∀ o, pMI.type.object = some o → Listed o) :
    Maps (GmState.rename ρ) (GmState.Known Listed) (gmStart heap flags pMI)
      (gmStart heap' flags (pMI.rename ρ)) := by
  have hbase : gmBase heap' (pMI.rename ρ) =
        ((gmBase heap pMI).1.rename ρ, (gmBase heap pMI).2) ∧
      ∀ o, (gmBase heap pMI).1.object = some o → Listed o := by
    obtain ⟨type, parent, pDecl, level, offset, size⟩ := pMI
    -- Without a declarator the member is the whole type, and a typedef is opened at once.
    cases pDecl with
    | some d => exact ⟨rfl, hlisted⟩
    | none =>
      cases type with
      | basic tflags => exact ⟨rfl, hlisted⟩
      | enum pES => exact ⟨rfl, hlisted⟩
      | compound kind s => exact ⟨rfl, hlisted⟩
      | typedef t =>
        refine ⟨?_, hcopies.type_object t (hlisted _ rfl)⟩
        show ((heap'.typedefAt (ρ (.typedef t))).type, some (heap'.typedefAt (ρ (.typedef t))).decl) = _
        rw [hcopies.typedef t (hlisted _ rfl)]
        rfl
  unfold gmStart
  rw [hbase.1]
  apply maps_bind_self
  intro size
  exact maps_ok hbase.2

include hcopies in
theorem gmResolve_maps {st : GmState} (hlisted : st.Known Listed) :
    Maps (GmState.rename ρ) (GmState.Known Listed) (gmResolve heap fuel flags st)
      (gmResolve heap' fuel flags (st.rename ρ)) := by
  obtain ⟨pType, pDecl, pStruct, name, level, offset, size⟩ := st
  cases pDecl with
  | none =>
    cases pType with
    | basic tflags => exact maps_ok hlisted
    | enum pES => exact maps_ok hlisted
    | compound kind s => exact maps_ok hlisted
    | typedef t => exact maps_ok hlisted
  | some pDecl =>
    cases pType with
    | basic tflags => exact maps_ok hlisted
    | enum pES => exact maps_ok hlisted
    | compound kind s => exact maps_ok hlisted
    | typedef t =>
      unfold gmResolve GmState.rename
      dsimp only [TypeSpec.rename]
      split_ifs
      · apply (gmTypedefs_maps hcopies fuel (hlisted _ rfl)).bind
        intro base hbase
        exact maps_ok hbase
      · apply (gmTypedefs_maps hcopies fuel (hlisted _ rfl)).bind
        intro base hbase
        exact maps_ok hbase
      · exact maps_ok hlisted

theorem gmCompound_maps {st : GmState} (hlisted : st.Known Listed) (name : String) :
    Maps (fun s => ρ (.struct s)) (fun s => Listed (.struct s)) (gmCompound st name)
      (gmCompound (st.rename ρ) name) := by
  have hfail (type : String) : Maps (fun s => ρ (.struct s)) (fun s => Listed (.struct s))
      (cannotAccess type name) (cannotAccess type name) := by
    apply maps_bind_self
    exact fun _ => maps_error _
  obtain ⟨pType, pDecl, pStruct, _, level, offset, size⟩ := st
  unfold gmCompound GmState.rename
  dsimp only
  split_ifs
  · exact hfail _
  · exact hfail _
  · cases pType with
    | basic tflags => exact hfail _
    | enum pES => exact hfail _
    | typedef t => exact hfail _
    | compound kind s => exact maps_ok (hlisted _ rfl)

include hcopies in
theorem gmMember_maps (dotless : Bool) {st : GmState} (hlisted : st.Known Listed) (name : String)
    (has_dot : Bool) : Maps (GmState.rename ρ) (GmState.Known Listed)
      (gmMember heap fuel flags dotless st name has_dot)
      (gmMember heap' fuel flags dotless (st.rename ρ) name has_dot) := by
  unfold gmMember
  apply maps_ite
  · exact maps_error _
  · apply (gmCompound_maps hlisted name).bind
    intro s hs
    apply (searchStructMember_maps hcopies name fuel s hs).bind
    intro found hfound
    cases found with
    | none =>
      dsimp only [Option.map_none]
      rw [hcopies.struct s hs]
      apply maps_bind_self
      exact fun _ => maps_error _
    | some found =>
      apply maps_bind_self
      intro offset
      exact maps_ok (hfound found rfl)

theorem gmIndex_maps {st : GmState} (hlisted : st.Known Listed) (index : ℤ) :
    Maps (GmState.rename ρ) (GmState.Known Listed) (gmIndex flags st index)
      (gmIndex flags (st.rename ρ) index) := by
  have hfail (name : Option String) (what : String) : Maps (GmState.rename ρ) (GmState.Known Listed)
      (cannotIndex name what) (cannotIndex name what) := by
    cases name with
    | none => exact maps_error _
    | some name =>
      apply maps_bind_self
      exact fun _ => maps_error _
  obtain ⟨pType, pDecl, pStruct, name, level, offset, size⟩ := st
  unfold gmIndex GmState.rename
  dsimp only
  cases pDecl with
  | none => exact hfail name _
  | some pDecl =>
    apply maps_ite
    · exact hfail name _
    · cases pDecl.dims[level]? with
      | none => exact hfail name _
      | some pValue =>
        apply maps_bind_self
        intro size
        apply maps_bind_self
        intro offset
        exact maps_ok hlisted

include hcopies in
theorem gmStep_maps (dotless : Bool) {st : GmState} (hlisted : st.Known Listed) (mei : MeWalkInfo) :
    Maps (GmState.rename ρ) (GmState.Known Listed) (gmStep heap fuel flags dotless st mei)
      (gmStep heap' fuel flags dotless (st.rename ρ) mei) := by
  apply (gmResolve_maps hcopies flags fuel hlisted).bind
  intro st hlisted
  cases mei with
  | compoundMember name has_dot => exact gmMember_maps hcopies flags fuel dotless hlisted name has_dot
  | arrayIndex index => exact gmIndex_maps flags hlisted index
  | offset n =>
    apply maps_ite
    · exact maps_error _
    · apply maps_bind_self
      exact fun _ => maps_ok hlisted
  | _ => exact maps_error _

include hcopies in
/-- By induction over what the walker reports. -/
theorem gmWalk_maps (infos : List MeWalkInfo) (dotless : Bool) {st : GmState}
    (hlisted : st.Known Listed) :
    Maps (GmState.rename ρ) (GmState.Known Listed) (gmWalk heap fuel flags dotless st infos)
      (gmWalk heap' fuel flags dotless (st.rename ρ) infos) := by
  induction infos generalizing dotless st with
  | nil => exact maps_ok hlisted
  | cons mei infos ih =>
    unfold gmWalk
    split_ifs
    · exact maps_ok hlisted
    · cases walkFault mei with
      | some e => exact maps_error e
      | none =>
        apply (gmStep_maps hcopies flags fuel dotless hlisted mei).bind
        intro st hlisted
        exact ih false hlisted

include hcopies in
theorem getMember_copy {pMI : MemberInfo} (hlisted : ∀ o, pMI.type.object = some o → Listed o)
    (member : String) : getMember heap' fuel flags (pMI.rename ρ) member =
      (getMember heap fuel flags pMI member).map (Option.map (MemberInfo.rename ρ)) := by
  have hfound : Maps (GmState.rename ρ) (GmState.Known Listed)
      (gmStart heap flags pMI >>= fun st =>
        gmWalk heap fuel flags flags.accept_dotless_member st (memberExpr member.toList))
      (gmStart heap' flags (pMI.rename ρ) >>= fun st =>
        gmWalk heap' fuel flags flags.accept_dotless_member st (memberExpr member.toList)) :=
    (gmStart_maps hcopies flags hlisted).bind fun st hst =>
      gmWalk_maps hcopies flags fuel (memberExpr member.toList) flags.accept_dotless_member hst
  unfold getMember
  dsimp only
  rw [hfound.eq]
  generalize (gmStart heap flags pMI >>= fun st =>
    gmWalk heap fuel flags flags.accept_dotless_member st (memberExpr member.toList)) = found
  cases found with
  | ok st => rfl
  | error e =>
    cases e with
    | croak err =>
      dsimp only [Except.map]
      split_ifs
      · rfl
      · rfl
    | _ => rfl

end GetMember

section MemberString

include hcopies in
theorem gmsChain_maps (follow fuel : ℕ) {pType : TypeSpec}
    (hlisted : ∀ o, pType.object = some o → Listed o) (pDecl : Declarator) (offset : ℤ) (sv : String) :
    Maps (fun last => (last.1.rename ρ, last.2)) (fun last => ∀ o, last.1.object = some o → Listed o)
      (gmsChain heap follow fuel pType pDecl offset sv)
      (gmsChain heap' follow fuel (pType.rename ρ) pDecl offset sv) := by
  induction fuel generalizing pType pDecl offset sv with
  | zero => exact maps_error _
  | succ fuel ih =>
    unfold gmsChain
    apply maps_ite
    · exact maps_error _
    · apply maps_bind_self
      rintro ⟨offset, sv⟩
      apply maps_ite
      · exact maps_ok hlisted
      · cases pType with
        | basic tflags => exact maps_ok hlisted
        | enum pES => exact maps_ok hlisted
        | compound kind s => exact maps_ok hlisted
        | typedef t =>
          apply (gmTypedefs_maps hcopies follow (hlisted _ rfl)).bind
          rintro ⟨pType, pDecl⟩ hbase
          exact ih hbase pDecl offset sv

variable {structRec structRec' : GmsStructFn}
  (hstruct : SameStructs ρ Listed structRec structRec')

include hstruct in
theorem gmsTarget_copy {pType : TypeSpec} (hlisted : ∀ o, pType.object = some o → Listed o)
    (pointer : Bool) (offset : ℤ) (sv : String) (pInfo : Option GMSInfo) :
    gmsTarget structRec' (pType.rename ρ) pointer offset sv pInfo =
      gmsTarget structRec pType pointer offset sv pInfo := by
  cases pointer with
  | true => rfl
  | false =>
    cases pType with
    | basic tflags => rfl
    | enum pES => rfl
    | typedef t => rfl
    | compound kind s =>
      show structRec' (ρ (.struct s)) offset offset sv pInfo = structRec s offset offset sv pInfo
      rw [hstruct s (hlisted _ rfl)]

include hcopies hstruct in
theorem gmsDeclared_copy (fuel : ℕ) {pType : TypeSpec}
    (hlisted : ∀ o, pType.object = some o → Listed o) (pDecl : Declarator) (offset : ℤ) (sv : String)
    (pInfo : Option GMSInfo) :
    gmsDeclared heap' fuel structRec' (pType.rename ρ) pDecl offset sv pInfo =
      gmsDeclared heap fuel structRec pType pDecl offset sv pInfo := by
  apply (gmsChain_maps hcopies fuel fuel hlisted pDecl _ sv).bind_eq
  rintro ⟨pType, pDecl, offset, sv⟩ hend
  exact gmsTarget_copy hstruct hend _ offset sv pInfo

include hcopies hstruct in
theorem appendMemberString_copy (fuel : ℕ) {pType : TypeSpec}
    (hlisted : ∀ o, pType.object = some o → Listed o) (pDecl : Option Declarator) (offset : ℤ)
    (sv : String) (pInfo : Option GMSInfo) :
    appendMemberString heap' fuel structRec' (pType.rename ρ) pDecl offset sv pInfo =
      appendMemberString heap fuel structRec pType pDecl offset sv pInfo := by
  cases pDecl with
  | some pDecl => exact gmsDeclared_copy hcopies hstruct fuel hlisted pDecl offset _ pInfo
  | none =>
    cases pType with
    | basic tflags => rfl
    | enum pES => rfl
    | compound kind s => exact gmsTarget_copy hstruct hlisted false offset sv pInfo
    | typedef t =>
      show gmsDeclared heap' fuel structRec' (heap'.typedefAt (ρ (.typedef t))).type
        (heap'.typedefAt (ρ (.typedef t))).decl offset sv pInfo = _
      rw [hcopies.typedef t (hlisted _ rfl)]
      exact gmsDeclared_copy hcopies hstruct fuel (hcopies.type_object t (hlisted _ rfl)) _ offset sv
        pInfo

variable (fuel : ℕ) (isUnion : Bool) (offset realoffset : ℤ) (sv : String)

include hcopies hstruct in
theorem gmsDeclarators_copy {pType : TypeSpec} (hlisted : ∀ o, pType.object = some o → Listed o)
    (declarators : List Declarator) :
    gmsDeclarators heap' fuel structRec' isUnion offset realoffset sv (pType.rename ρ) declarators =
      gmsDeclarators heap fuel structRec isUnion offset realoffset sv pType declarators := by
  induction declarators with
  | nil => rfl
  | cons pDecl declarators ih =>
    have hfirst : gmsDeclarator heap' fuel structRec' isUnion offset sv (pType.rename ρ) pDecl =
        gmsDeclarator heap fuel structRec isUnion offset sv pType pDecl := by
      funext b pInfo
      unfold gmsDeclarator
      rw [appendMemberString_copy hcopies hstruct fuel hlisted]
    unfold gmsDeclarators
    rw [hfirst, ih]

include hcopies hstruct in
theorem gmsDeclarations_copy {declarations : List StructDeclaration}
    (hlisted : ∀ sd ∈ declarations, ∀ o, sd.type.object = some o → Listed o) :
    gmsDeclarations heap' fuel structRec' isUnion offset realoffset sv
        (declarations.map (StructDeclaration.rename ρ)) =
      gmsDeclarations heap fuel structRec isUnion offset realoffset sv declarations := by
  induction declarations with
  | nil => rfl
  | cons sd declarations ih =>
    have htype := hlisted sd List.mem_cons_self
    have hfirst : gmsDeclaration heap' fuel structRec' isUnion offset realoffset sv (sd.rename ρ) =
        gmsDeclaration heap fuel structRec isUnion offset realoffset sv sd := by
      unfold gmsDeclaration StructDeclaration.rename
      dsimp only
      cases sd.declarators with
      | some declarators =>
        exact gmsDeclarators_copy hcopies hstruct fuel isUnion offset realoffset sv htype declarators
      | none =>
        funext b pInfo
        apply (hcopies.follow_tsptr fuel htype).bind_eq
        intro s hs
        rw [hstruct s hs]
    rw [List.map_cons]
    unfold gmsDeclarations
    rw [hfirst, ih fun sd hsd => hlisted sd (List.mem_cons_of_mem _ hsd)]
    rfl

include hcopies in
theorem getMemberStringRec_copy : SameStructs ρ Listed (getMemberStringRec heap fuel)
    (getMemberStringRec heap' fuel) := by
  induction fuel with
  | zero => exact fun _ _ => rfl
  | succ fuel ih =>
    intro s hs
    have hlisted := hcopies.member_object s hs
    funext offset realoffset sv pInfo
    unfold getMemberStringRec
    rw [hcopies.struct s hs, Struct.rename]
    dsimp only
    cases hlist : (heap.structAt s).declarations with
    | none => rfl
    | some declarations =>
      rw [hlist, Option.getD_some] at hlisted
      dsimp only [Option.map_some]
      rw [gmsDeclarations_copy hcopies ih fuel _ offset realoffset sv hlisted]

include hcopies in
theorem getMemberString_copy {pMI : MemberInfo} (hlisted : ∀ o, pMI.type.object = some o → Listed o)
    (offset : ℤ) (pInfo : Option GMSInfo) :
    getMemberString heap' fuel (pMI.rename ρ) offset pInfo =
      getMemberString heap fuel pMI offset pInfo := by
  have hrec := getMemberStringRec_copy hcopies fuel
  show (gmsRemainder pMI offset >>= fun start => appendMemberString heap' fuel
    (getMemberStringRec heap' fuel) (pMI.type.rename ρ) none start.1 start.2 pInfo >>= _) = _
  simp only [appendMemberString_copy hcopies hrec fuel hlisted]
  rfl

end MemberString

section Clone
variable {mem mem' : TypeMemory} {src dest : ParseTables}

/-- A clone finds the members and the offsets that its source finds, lists the same members and writes
the same initializers. -/
theorem clone_answers_alike (hsound : src.Sound mem) (hclone : cloneParseInfo mem src = .ok (mem', dest))
    (fuel : ℕ) (mi : MemberInfo) (hlisted : ∀ o, mi.type.object = some o → src.Lists mem o) :
    (∀ flags member,
      getMember mem'.heap fuel flags (mi.rename (src.cloneAddress mem)) member =
        (getMember mem.heap fuel flags mi member).map
          (Option.map (MemberInfo.rename (src.cloneAddress mem)))) ∧
    (∀ offset pInfo,
      getMemberString mem'.heap fuel (mi.rename (src.cloneAddress mem)) offset pInfo =
        getMemberString mem.heap fuel mi offset pInfo) ∧
    (∀ list,
      getAllMemberStrings mem'.heap fuel (mi.rename (src.cloneAddress mem)) list =
        getAllMemberStrings mem.heap fuel mi list) ∧
    ∀ perl init level string,
      initType perl mem'.heap fuel (mi.type.rename (src.cloneAddress mem)) mi.pDecl mi.level init level
          string =
        initType perl mem.heap fuel mi.type mi.pDecl mi.level init level string := by
  have hcopies := hsound.copies hclone
  refine ⟨?_, ?_, ?_, ?_⟩
  · intro flags member
    exact getMember_copy hcopies flags fuel hlisted member
  · intro offset pInfo
    exact getMemberString_copy hcopies fuel hlisted offset pInfo
  · intro list
    have hams := (ams_copy hcopies fuel).1 mi.type hlisted
    unfold getAllMemberStrings
    show (amsType _ fuel (mi.type.rename _) mi.pDecl mi.level _ _ >>= _) = _
    rw [hams]
  · intro perl init level string
    rw [(init_copy hcopies perl fuel).1 mi.type hlisted]

theorem clone_answers_alike_linked :
    ∃ mem' dest, cloneParseInfo linkedMemory linkedTables = .ok (mem', dest) ∧
      getMember mem'.heap 10 ⟨true, false, false, false, false⟩
          ⟨.compound .struct 3, none, none, 0, 0, 16⟩ "from.colour" =
        (getMember linkedMemory.heap 10 ⟨true, false, false, false, false⟩ linkedInfo
          "from.colour").map
          (Option.map (MemberInfo.rename (linkedTables.cloneAddress linkedMemory))) ∧
      getMemberString mem'.heap 10 ⟨.compound .struct 3, none, none, 0, 0, 16⟩ 8 none =
        getMemberString linkedMemory.heap 10 linkedInfo 8 none ∧
      getAllMemberStrings mem'.heap 10 ⟨.compound .struct 3, none, none, 0, 0, 16⟩ true =
        getAllMemberStrings linkedMemory.heap 10 linkedInfo true ∧
      initType echoPerl mem'.heap 10 (.compound .struct 3) none 0 linkedValue 0 [] =
        initType echoPerl linkedMemory.heap 10 (.compound .struct 1) none 0 linkedValue 0 [] := by
  have hclone := linked_sound.cloneParseInfo_eq
  obtain ⟨hmember, hstring, hlist, hinit⟩ :=
    clone_answers_alike linked_sound hclone 10 linkedInfo linked_listed
  exact ⟨_, _, hclone, hmember _ _, hstring 8 none, hlist _, hinit echoPerl _ _ _⟩

end Clone
end ConvertBinaryC
