import ConvertBinaryC.RankRules
import ConvertBinaryC.CBCOffsetString
import ConvertBinaryC.CBCMemberOffset

/-! The two ways to ask for the member at an offset (`get_member_string` of `cbc/member.c`): the
string that is found without lists is the first of the best among those that are listed. -/
namespace ConvertBinaryC
open FoldRules RankRules

/-- A string that is listed, with its rank. -/
abbrev GmsOut := GMSRV × String

def outRank (out : GmsOut) : ℕ := out.1.rank

def GMSInfo.push (info : GMSInfo) (out : GmsOut) : GMSInfo :=
  match out.1 with
  | .hit => info.pushHit out.2
  | .hitOff => info.pushOff out.2
  | .pad => info.pushPad out.2
  | .none => info

def GMSInfo.pushAll (info : GMSInfo) (outs : List GmsOut) : GMSInfo := outs.foldl GMSInfo.push info

/-- What has been found, if anything has. -/
def GmsFound.out (found : GmsFound) : Option GmsOut :=
  if found.rval = .none then none else some (found.rval, found.sv)

def GmsFound.withoutInfo (found : GmsFound) : GmsFound := { found with pInfo := none }

/-- The best member of a union so far. -/
def GmsBest.of : Option GmsOut → GmsBest
  | none => .start
  | some out => ⟨out.1, some out.2⟩

/-- `found` with the strings that were listed for it: it is the first of the best of them. -/
structure Ranks (info : GMSInfo) (outs : List GmsOut) (found : GmsFound) : Prop where
  proper : ∀ out ∈ outs, out.1 ≠ .none
  pushed : found.pInfo = some (info.pushAll outs)
  best : found.out = outs.argmax outRank

/-- With lists and without them the same is found. -/
def Agrees (call : Option GMSInfo → Call GmsFound) : Prop :=
  ∀ info found, call (some info) = .ok found →
    (∃ outs, Ranks info outs found) ∧ call none = .ok found.withoutInfo

/-- How a loop that has found this ends without lists: a hit is not searched any further. -/
def GmsBest.ended (b : GmsBest) : GmsLoop := if b.best = .hit then .unionEnd b none else .next b none

/-- The end of a loop that had found `seen` before. -/
structure Continues (isUnion : Bool) (info : GMSInfo) (seen : Option GmsOut) (loop : GmsLoopFn)
    (outs : List GmsOut) (result : GmsLoop) : Prop where
  proper : ∀ out ∈ outs, out.1 ≠ .none
  result_eq : result =
    .next (.of (better outRank seen (outs.argmax outRank))) (some (info.pushAll outs))
  nothing : isUnion = false → outs = []
  single : (GmsBest.of seen).best ≠ .hit →
    loop (.of seen) none = .ok (GmsBest.of (better outRank seen (outs.argmax outRank))).ended

/-- A return from a loop, which only a struct has. -/
structure Leaves (isUnion : Bool) (info : GMSInfo) (seen : Option GmsOut) (loop : GmsLoopFn)
    (result : GmsLoop) (found : GmsFound) : Prop where
  struct : isUnion = false
  ranks : ∃ outs, Ranks info outs found
  result_eq : result = .leave found
  single : (GmsBest.of seen).best ≠ .hit →
    loop (.of seen) none = .ok (.leave found.withoutInfo)

def LoopAgrees (isUnion : Bool) (loop : GmsLoopFn) : Prop :=
  ∀ info seen result, loop (.of seen) (some info) = .ok result →
    (∃ outs, Continues isUnion info seen loop outs result) ∨
      ∃ found, Leaves isUnion info seen loop result found

section Ranking
variable {info : GMSInfo} {found : GmsFound}

theorem pushAll_append (outs outs' : List GmsOut) :
    info.pushAll (outs ++ outs') = (info.pushAll outs).pushAll outs' := List.foldl_append

theorem rank_pos {rval : GMSRV} (h : rval ≠ .none) : 0 < rval.rank := by
  cases rval with
  | none => exact absurd rfl h
  | _ => decide

theorem rank_le_hit (rval : GMSRV) : rval.rank ≤ GMSRV.hit.rank := by
  cases rval <;> decide

/-- `GMS_HANDLE_BEST_MEMBER` keeps the first of the best. -/
theorem take_of (seen : Option GmsOut) (found : GmsFound) :
    (GmsBest.of seen).take found.rval found.sv = .of (better outRank seen found.out) := by
  unfold GmsBest.take GmsFound.out
  by_cases hnone : found.rval = .none
  · rw [if_pos hnone, better_none_right, hnone]
    exact if_neg (Nat.not_lt_zero _)
  · rw [if_neg hnone]
    cases seen with
    | none => exact if_pos (rank_pos hnone)
    | some out =>
      show (if out.1.rank < found.rval.rank then _ else _) =
        GmsBest.of (if out.1.rank < found.rval.rank then _ else _)
      split_ifs with hlt
      · rfl
      · rfl

/-- Nothing is better than a hit. -/
theorem better_hit {seen : Option GmsOut} (h : (GmsBest.of seen).best = .hit) (out : Option GmsOut) :
    better outRank seen out = seen := by
  cases seen with
  | none => exact absurd h (by decide)
  | some first =>
    apply better_of_top
    intro c _
    have hfirst : outRank first = GMSRV.hit.rank := congrArg GMSRV.rank h
    rw [hfirst]
    exact rank_le_hit c.1

theorem pushed_ranks {rval : GMSRV} (sv : String) (h : rval ≠ .none) (info : GMSInfo) :
    Ranks info [(rval, sv)] ⟨rval, sv, some (info.push (rval, sv))⟩ where
  proper := by
    intro out hout
    rw [List.mem_singleton.mp hout]
    exact h
  pushed := rfl
  best := if_neg h

theorem gmsPadRegion_ranks (realoffset : ℤ) (sv : String) (info : GMSInfo) :
    ∃ outs, Ranks info outs (gmsPadRegion realoffset sv (some info)) :=
  ⟨_, pushed_ranks (sv ++ ("+" ++ toString realoffset)) (by decide) info⟩

theorem gmsHit_ranks (offset : ℤ) (sv : String) (info : GMSInfo) :
    ∃ outs, Ranks info outs (gmsHit offset sv (some info)) := by
  unfold gmsHit
  split_ifs
  · exact ⟨_, pushed_ranks (sv ++ ("+" ++ toString offset)) (by decide) info⟩
  · exact ⟨_, pushed_ranks sv (by decide) info⟩

end Ranking

section Append
variable {heap : Heap} {fuel : ℕ} {structRec : GmsStructFn}

/-- An offset from the start of an object. -/
def IsOffset (offset : ℤ) : Prop := 0 ≤ offset ∧ offset < 2147483648

/-- The indices leave an offset that is not negative and not larger than before. -/
theorem gmsDims_offset {dims : List Value} {size offset offset' : ℤ} {sv sv' : String}
    (hoffset : IsOffset offset) (h : gmsDims dims size offset sv = .ok (offset', sv')) :
    IsOffset offset' := by
  induction dims generalizing size offset sv with
  | nil =>
    cases h
    exact hoffset
  | cons pValue dims ih =>
    obtain ⟨size', -, h⟩ := bind_ok h
    obtain ⟨index, hindex, h⟩ := bind_ok h
    apply ih _ h
    unfold divideInt at hindex
    split_ifs at hindex
    cases hindex
    -- the quotient is an int, and what is left is the remainder
    have hquot : (offset.tdiv size').natAbs ≤ offset.natAbs := by
      rw [Int.natAbs_tdiv]
      exact Nat.div_le_self _ _
    have hwrap : i32 (offset.tdiv size') = offset.tdiv size' := by
      obtain ⟨hpos, hlt⟩ := hoffset
      apply Int.bmod_eq_of_le
      · omega
      · omega
    have hmod : offset - offset.tdiv size' * size' = offset.tmod size' := by
      have hdiv := Int.mul_tdiv_add_tmod offset size'
      rw [mul_comm] at hdiv
      omega
    have hpos : 0 ≤ offset.tmod size' := Int.tmod_nonneg _ hoffset.1
    have hle : offset.tmod size' ≤ offset := by
      have hnat : (offset.tmod size').natAbs ≤ offset.natAbs := by
        rw [Int.natAbs_tmod]
        exact Nat.mod_le _ _
      have hoffset := hoffset.1
      omega
    rw [hwrap, hmod]
    exact ⟨hpos, hle.trans_lt hoffset.2⟩

theorem gmsChain_offset {follow : ℕ} {pType pType' : TypeSpec} {pDecl pDecl' : Declarator}
    {offset offset' : ℤ} {sv sv' : String} (hoffset : IsOffset offset)
    (h : gmsChain heap follow fuel pType pDecl offset sv = .ok (pType', pDecl', offset', sv')) :
    IsOffset offset' := by
  induction fuel generalizing pType pDecl offset sv with
  | zero => exact nomatch h
  | succ fuel ih =>
    obtain ⟨-, rest, text, hdims, hend | ⟨-, t, -, next, -, hnext⟩⟩ := gmsChain_ok heap h
    · cases hend.2
      exact gmsDims_offset hoffset hdims
    · exact ih (gmsDims_offset hoffset hdims) hnext

variable (hrec : ∀ s offset realoffset sv, IsOffset offset →
  Agrees (structRec s offset realoffset sv))

include hrec

theorem gmsTarget_agrees (pType : TypeSpec) (pointer : Bool) {offset : ℤ} (sv : String)
    (hoffset : IsOffset offset) : Agrees (gmsTarget structRec pType pointer offset sv) := by
  unfold gmsTarget
  split
  · exact hrec _ offset offset sv hoffset
  · intro info found h
    cases h
    refine ⟨gmsHit_ranks offset sv info, ?_⟩
    show Except.ok (gmsHit offset sv none) = _
    unfold gmsHit
    split_ifs <;> rfl

theorem gmsDeclared_agrees (pType : TypeSpec) (pDecl : Declarator) {offset : ℤ} (sv : String)
    (hoffset : IsOffset offset) (hle : pDecl.offset ≤ offset) :
    Agrees (gmsDeclared heap fuel structRec pType pDecl offset sv) := by
  intro info found h
  obtain ⟨⟨type, decl, rest, text⟩, hchain, h⟩ := bind_ok h
  have hstart : IsOffset (if 0 < pDecl.offset then offset - pDecl.offset else offset) := by
    split_ifs with hpos
    · exact ⟨by omega, by have := hoffset.2; omega⟩
    · exact hoffset
  have hrest := gmsChain_offset hstart hchain
  have hagrees := gmsTarget_agrees hrec type decl.pointer_flag text hrest info found h
  refine ⟨hagrees.1, ?_⟩
  unfold gmsDeclared
  dsimp only
  rw [hchain]
  exact hagrees.2

/-- What a declarator has at an offset does not depend on the lists. -/
theorem appendMemberString_agrees (pType : TypeSpec) {pDecl : Option Declarator} {offset : ℤ}
    (sv : String) (hoffset : IsOffset offset) (hle : ∀ d ∈ pDecl, d.offset ≤ offset)
    (htypedef : pDecl = none → ∀ t, (heap.typedefAt t).decl.offset ≤ 0) :
    Agrees (appendMemberString heap fuel structRec pType pDecl offset sv) := by
  unfold appendMemberString
  split
  · exact gmsDeclared_agrees hrec _ _ _ hoffset (hle _ rfl)
  · exact gmsDeclared_agrees hrec _ _ _ hoffset ((htypedef rfl _).trans hoffset.1)
  · exact gmsTarget_agrees hrec _ _ _ hoffset

end Append

section Loops
variable {isUnion : Bool} {loop : GmsLoopFn}

theorem loopAgrees_end : LoopAgrees isUnion fun b pInfo => .ok (.next b pInfo) := by
  intro info seen result h
  cases h
  refine .inl ⟨[], fun _ hout => absurd hout List.not_mem_nil, ?_, fun _ => rfl, ?_⟩
  · rw [List.argmax_nil, better_none_right]
    rfl
  · intro hbest
    rw [List.argmax_nil, better_none_right]
    unfold GmsBest.ended
    rw [if_neg hbest]

/-- A loop is left for a string that does not depend on the lists. -/
theorem loopAgrees_leave (hstruct : isUnion = false) {call : Option GMSInfo → Call GmsFound}
    (hcall : Agrees call) : LoopAgrees isUnion (fun _ pInfo => do
      let found ← call pInfo
      .ok (.leave found)) := by
  intro info seen result h
  obtain ⟨found, hfound, h⟩ := bind_ok h
  cases h
  obtain ⟨hranks, hsingle⟩ := hcall info found hfound
  refine .inr ⟨found, hstruct, hranks, rfl, fun _ => ?_⟩
  rw [hsingle]
  rfl

/-- A member that contains the offset is returned by a struct and ranked by a union. -/
theorem loopAgrees_member {call : Option GMSInfo → Call GmsFound} (hcall : Agrees call) :
    LoopAgrees isUnion (fun b pInfo => do
      let found ← call pInfo
      .ok (gmsMember isUnion found b)) := by
  cases isUnion with
  | false => exact @loopAgrees_leave false rfl call hcall
  | true =>
    intro info seen result h
    obtain ⟨found, hfound, h⟩ := bind_ok h
    obtain ⟨⟨outs, hranks⟩, hsingle⟩ := hcall info found hfound
    have htake : (GmsBest.of seen).take found.rval found.sv =
        .of (better outRank seen (outs.argmax outRank)) := by
      rw [take_of, hranks.best]
    refine .inl ⟨outs, hranks.proper, ?_, fun h => absurd h.symm Bool.false_ne_true, ?_⟩
    · -- with lists a hit does not end the loop
      cases h
      unfold gmsMember
      rw [if_pos rfl, hranks.pushed, htake]
      exact if_neg fun h => nomatch h.2
    · intro _
      rw [hsingle]
      show Except.ok (gmsMember true found.withoutInfo (.of seen)) = _
      unfold gmsMember GmsBest.ended GmsFound.withoutInfo
      rw [if_pos rfl]
      dsimp only
      rw [htake]
      simp only [and_true]

/-- The rest of a loop goes on from what the turn has found. -/
theorem loopAgrees_andThen {rest : GmsLoopFn} (hloop : LoopAgrees isUnion loop)
    (hrest : LoopAgrees isUnion rest) : LoopAgrees isUnion (fun b pInfo => do
      let result ← loop b pInfo
      result.andThen rest) := by
  intro info seen result h
  obtain ⟨turn, hturn, h⟩ := bind_ok h
  rcases hloop info seen turn hturn with ⟨outs, hturn⟩ | ⟨found, hturn⟩
  · rw [hturn.result_eq] at h
    rcases hrest _ _ result h with ⟨outs', hrest⟩ | ⟨found, hrest⟩
    · have hbest : better outRank seen ((outs ++ outs').argmax outRank) = better outRank
          (better outRank seen (outs.argmax outRank)) (outs'.argmax outRank) := by
        rw [argmax_append, better_assoc]
      refine .inl ⟨outs ++ outs', ?_, ?_, ?_, ?_⟩
      · intro out hout
        rcases List.mem_append.mp hout with hout | hout
        · exact hturn.proper out hout
        · exact hrest.proper out hout
      · rw [hrest.result_eq, hbest, pushAll_append]
      · intro hstruct
        rw [hturn.nothing hstruct, hrest.nothing hstruct]
        rfl
      · intro hseen
        rw [hturn.single hseen, call_bind_apply, hbest]
        unfold GmsBest.ended
        by_cases hhit : (GmsBest.of (better outRank seen (outs.argmax outRank))).best = .hit
        · -- the loop has ended at the hit, and the rest finds nothing better
          rw [if_pos hhit, better_hit hhit, if_pos hhit]
          rfl
        · rw [if_neg hhit]
          exact hrest.single hhit
    · refine .inr ⟨found, hrest.struct, ?_, hrest.result_eq, ?_⟩
      · obtain ⟨outs', hranks⟩ := hrest.ranks
        have hnothing := hturn.nothing hrest.struct
        rw [hnothing] at hranks
        exact ⟨outs', hranks⟩
      · intro hseen
        have hsame : better outRank seen (outs.argmax outRank) = seen := by
          rw [hturn.nothing hrest.struct, List.argmax_nil, better_none_right]
        have hrestSingle := hrest.single
        rw [hsame] at hrestSingle
        rw [hturn.single hseen, call_bind_apply, hsame]
        unfold GmsBest.ended
        rw [if_neg hseen]
        exact hrestSingle hseen
  · rw [hturn.result_eq] at h
    cases h
    refine .inr ⟨found, hturn.struct, hturn.ranks, rfl, fun hseen => ?_⟩
    rw [hturn.single hseen]
    rfl

/-- The part of a union starts where the union does; before the part of a struct is padding. -/
theorem gmsTurn_agrees {offset realoffset start size : ℤ} (sv : String) {visit rest : GmsLoopFn}
    (hstart : isUnion = true → start ≤ offset)
    (hvisit : start ≤ offset → LoopAgrees isUnion visit) (hrest : LoopAgrees isUnion rest) :
    LoopAgrees isUnion (gmsTurn offset realoffset sv start size visit rest) := by
  intro info seen result h
  unfold gmsTurn at h
  by_cases hpad : offset < start
  · have hstruct : isUnion = false := by
      apply Bool.eq_false_of_not_eq_true
      intro hunion
      exact absurd (hstart hunion) (not_le.mpr hpad)
    rw [if_pos hpad] at h
    cases h
    refine .inr ⟨_, hstruct, gmsPadRegion_ranks realoffset sv info, rfl, fun _ => ?_⟩
    unfold gmsTurn
    rw [if_pos hpad]
    rfl
  · have hturn (b : GmsBest) (pInfo : Option GMSInfo) : gmsTurn offset realoffset sv start size visit
        rest b pInfo = gmsCovers offset start size >>= fun covers =>
          if covers then (visit b pInfo >>= fun loop => loop.andThen rest) else rest b pInfo := by
      unfold gmsTurn
      rw [if_neg hpad]
    rw [if_neg hpad] at h
    obtain ⟨covers, hcovers, h⟩ := bind_ok h
    have hsame : ∀ b pInfo, gmsTurn offset realoffset sv start size visit rest b pInfo =
        if covers then (visit b pInfo >>= fun loop => loop.andThen rest) else rest b pInfo := by
      intro b pInfo
      rw [hturn, hcovers]
      rfl
    have hloop : LoopAgrees isUnion (fun b pInfo =>
        if covers then (visit b pInfo >>= fun loop => loop.andThen rest) else rest b pInfo) := by
      cases covers with
      | false => exact hrest
      | true => exact loopAgrees_andThen (hvisit (not_lt.mp hpad)) hrest
    have heq : gmsTurn offset realoffset sv start size visit rest = fun b pInfo =>
        if covers then (visit b pInfo >>= fun loop => loop.andThen rest) else rest b pInfo := by
      funext b pInfo
      exact hsame b pInfo
    rw [heq]
    exact hloop info seen result h

variable {heap : Heap} {fuel : ℕ} {structRec : GmsStructFn} {offset realoffset : ℤ} {sv : String}
  (hrec : ∀ s offset realoffset sv, IsOffset offset → Agrees (structRec s offset realoffset sv))
  (hoffset : IsOffset offset)

include hrec hoffset

theorem gmsDeclarators_agrees (pType : TypeSpec) {declarators : List Declarator}
    (hunion : isUnion = true → ∀ d ∈ declarators, d.offset ≤ 0) :
    LoopAgrees isUnion
      (gmsDeclarators heap fuel structRec isUnion offset realoffset sv pType declarators) := by
  induction declarators with
  | nil => exact loopAgrees_end
  | cons pDecl declarators ih =>
    apply gmsTurn_agrees
    · intro h
      exact (hunion h pDecl List.mem_cons_self).trans hoffset.1
    · intro hle
      apply loopAgrees_member
      apply appendMemberString_agrees hrec pType sv hoffset
      · intro d hd
        rw [← Option.some.inj hd]
        exact hle
      · intro h
        exact nomatch h
    · exact ih fun h d hd => hunion h d (List.mem_cons_of_mem _ hd)

theorem gmsUnnamed_agrees (pStructDecl : StructDeclaration) (hle : pStructDecl.offset ≤ offset)
    (hpos : 0 ≤ pStructDecl.offset) :
    LoopAgrees isUnion
      (gmsUnnamed heap fuel structRec isUnion offset realoffset sv pStructDecl) := by
  intro info seen result h
  obtain ⟨s, hs, h⟩ := bind_ok h
  have hinner : IsOffset (if isUnion then offset else offset - pStructDecl.offset) := by
    split_ifs
    · exact hoffset
    · exact ⟨by omega, by have := hoffset.2; omega⟩
  have hcall := hrec s _ realoffset sv hinner
  have heq : gmsUnnamed heap fuel structRec isUnion offset realoffset sv pStructDecl =
      (fun b pInfo => do
        let found ← structRec s (if isUnion then offset else offset - pStructDecl.offset)
          realoffset sv pInfo
        .ok (gmsMember isUnion found b)) := by
    funext b pInfo
    unfold gmsUnnamed
    rw [hs]
    rfl
  rw [heq]
  exact loopAgrees_member hcall info seen result h

theorem gmsDeclarations_agrees {declarations : List StructDeclaration}
    (hpos : ∀ pStructDecl ∈ declarations, 0 ≤ pStructDecl.offset)
    (hunion : isUnion = true → ∀ pStructDecl ∈ declarations,
      pStructDecl.offset ≤ 0 ∧ ∀ d ∈ pStructDecl.declarators.getD [], d.offset ≤ 0) :
    LoopAgrees isUnion
      (gmsDeclarations heap fuel structRec isUnion offset realoffset sv declarations) := by
  induction declarations with
  | nil => exact loopAgrees_end
  | cons pStructDecl declarations ih =>
    apply gmsTurn_agrees
    · intro h
      exact (hunion h pStructDecl List.mem_cons_self).1.trans hoffset.1
    · intro hle
      unfold gmsDeclaration
      cases hdecls : pStructDecl.declarators with
      | none => exact gmsUnnamed_agrees hrec hoffset pStructDecl hle (hpos _ List.mem_cons_self)
      | some declarators =>
        apply gmsDeclarators_agrees hrec hoffset
        intro h
        have hdeclarators := (hunion h pStructDecl List.mem_cons_self).2
        rw [hdecls] at hdeclarators
        exact hdeclarators
    · apply ih
      · exact fun d hd => hpos d (List.mem_cons_of_mem _ hd)
      · exact fun h d hd => hunion h d (List.mem_cons_of_mem _ hd)

omit hrec hoffset in
/-- The end of a compound: the best of a union, or padding if nothing has been found. -/
theorem gmsFinish_agrees (hloop : LoopAgrees isUnion loop) : Agrees (fun pInfo => do
    let result ← loop .start pInfo
    gmsFinish isUnion realoffset sv result) := by
  intro info found h
  obtain ⟨result, hresult, h⟩ := bind_ok h
  rcases hloop info none result hresult with ⟨outs, hnext⟩ | ⟨_, hleave⟩
  · have hsingle := hnext.single (by decide)
    rw [hnext.result_eq, better_none_left] at h
    rw [better_none_left] at hsingle
    cases hbest : outs.argmax outRank with
    | none =>
      have hempty : outs = [] := List.argmax_eq_none.mp hbest
      have hstart : (GmsBest.of none).ended = .next .start none := rfl
      rw [hbest] at h hsingle
      rw [hempty] at h
      have hpad : found = gmsPadRegion realoffset sv (some info) := by
        cases isUnion <;> exact (Except.ok.inj h).symm
      refine ⟨?_, ?_⟩
      · rw [hpad]
        exact gmsPadRegion_ranks realoffset sv info
      · show (loop (.of none) none >>= _) = _
        rw [hsingle, hstart, hpad]
        cases isUnion <;> rfl
    | some out =>
      have hne : outs ≠ [] := by
        rintro rfl
        exact nomatch hbest
      have hunion : isUnion = true := by
        apply Bool.eq_true_of_not_eq_false
        exact fun hstruct => hne (hnext.nothing hstruct)
      rw [hbest, hunion] at h
      rw [hbest] at hsingle
      have hfound : found = ⟨out.1, out.2, some (info.pushAll outs)⟩ := (Except.ok.inj h).symm
      have hout : out.1 ≠ .none := hnext.proper out (List.argmax_mem hbest)
      refine ⟨⟨outs, hnext.proper, ?_, ?_⟩, ?_⟩
      · rw [hfound]
      · rw [hfound, hbest]
        exact if_neg hout
      · show (loop (.of none) none >>= _) = _
        rw [hsingle, hfound, hunion]
        -- a union is left at a hit, and at its end otherwise
        unfold GmsBest.ended
        split_ifs <;> rfl
  · have hsingle := hleave.single (by decide)
    rw [hleave.result_eq] at h
    cases h
    refine ⟨hleave.ranks, ?_⟩
    show (loop (.of none) none >>= _) = _
    rw [hsingle]
    rfl

end Loops

/-- Members start at or behind the start of their compound, and those of a union with it. -/
structure Heap.Placed (heap : Heap) : Prop where
  declaration : ∀ s, ∀ pStructDecl ∈ (heap.structAt s).declarations.getD [], 0 ≤ pStructDecl.offset
  union : ∀ s, (heap.structAt s).kind = .union →
    ∀ pStructDecl ∈ (heap.structAt s).declarations.getD [],
      pStructDecl.offset ≤ 0 ∧ ∀ d ∈ pStructDecl.declarators.getD [], d.offset ≤ 0
  typedef : ∀ t, (heap.typedefAt t).decl.offset ≤ 0

section Strings
variable {heap : Heap}

theorem getMemberStringRec_agrees (hplaced : heap.Placed) (fuel s : ℕ) {offset : ℤ}
    (realoffset : ℤ) (sv : String) (hoffset : IsOffset offset) :
    Agrees (getMemberStringRec heap fuel s offset realoffset sv) := by
  induction fuel generalizing s offset realoffset sv with
  | zero => exact fun info found h => nomatch h
  | succ fuel ih =>
    unfold getMemberStringRec
    cases hdecls : (heap.structAt s).declarations with
    | none =>
      intro info found h
      cases h
      exact ⟨⟨[], fun _ hout => absurd hout List.not_mem_nil, rfl, rfl⟩, rfl⟩
    | some declarations =>
      apply gmsFinish_agrees
      have hmem : (heap.structAt s).declarations.getD [] = declarations := by
        rw [hdecls]
        rfl
      apply gmsDeclarations_agrees (fun s _ realoffset sv h => ih s realoffset sv h) hoffset
      · rw [← hmem]
        exact hplaced.declaration s
      · intro hunion
        rw [← hmem]
        exact hplaced.union s (of_decide_eq_true hunion)

theorem gmsRemainder_offset {pMI : MemberInfo} {offset offset' : ℤ} {sv : String}
    (hoffset : IsOffset offset) (h : gmsRemainder pMI offset = .ok (offset', sv)) :
    IsOffset offset' := by
  unfold gmsRemainder at h
  split at h
  · exact gmsDims_offset hoffset h
  · cases h
    exact hoffset

/-- The strings of a rank, in the order in which they were found. -/
def outsOf (outs : List GmsOut) (rval : GMSRV) : List String :=
  (outs.filter fun out => outRank out = rval.rank).map Prod.snd

theorem outsOf_cons (out : GmsOut) (outs : List GmsOut) (rval : GMSRV) :
    outsOf (out :: outs) rval = outsOf [out] rval ++ outsOf outs rval := by
  unfold outsOf
  rw [← List.map_append, ← List.filter_append, List.singleton_append]

theorem hit_pushAll (info : GMSInfo) (outs : List GmsOut) :
    (info.pushAll outs).hit = info.hit ++ outsOf outs .hit := by
  induction outs generalizing info with
  | nil => exact (List.append_nil _).symm
  | cons out outs ih =>
    have hpush : (info.push out).hit = info.hit ++ outsOf [out] .hit := by
      obtain ⟨rval, sv⟩ := out
      cases rval with
      | pad =>
        show (info.pushPad sv).hit = _
        unfold GMSInfo.pushPad
        split_ifs <;> exact (List.append_nil _).symm
      | hit => rfl
      | _ => exact (List.append_nil _).symm
    rw [outsOf_cons, ← List.append_assoc, ← hpush]
    exact ih (info.push out)

theorem off_pushAll (info : GMSInfo) (outs : List GmsOut) :
    (info.pushAll outs).off = info.off ++ outsOf outs .hitOff := by
  induction outs generalizing info with
  | nil => exact (List.append_nil _).symm
  | cons out outs ih =>
    have hpush : (info.push out).off = info.off ++ outsOf [out] .hitOff := by
      obtain ⟨rval, sv⟩ := out
      cases rval with
      | pad =>
        show (info.pushPad sv).off = _
        unfold GMSInfo.pushPad
        split_ifs <;> exact (List.append_nil _).symm
      | hitOff => rfl
      | _ => exact (List.append_nil _).symm
    rw [outsOf_cons, ← List.append_assoc, ← hpush]
    exact ih (info.push out)

/-- The table holds the strings of the list, each of which is there once. -/
structure GMSInfo.PadsOnce (info : GMSInfo) : Prop where
  keys : info.htpad = info.pad
  nodup : info.pad.Nodup

theorem push_padsOnce {info : GMSInfo} (hinfo : info.PadsOnce) (out : GmsOut) :
    (info.push out).PadsOnce ∧
      (info.push out).pad.head? = (info.pad ++ outsOf [out] .pad).head? := by
  obtain ⟨rval, sv⟩ := out
  cases rval with
  | pad =>
    show (info.pushPad sv).PadsOnce ∧ (info.pushPad sv).pad.head? = (info.pad ++ [sv]).head?
    unfold GMSInfo.pushPad
    by_cases hmem : sv ∈ info.htpad
    · rw [if_pos hmem]
      refine ⟨hinfo, ?_⟩
      -- the list is not empty, as the string is in it
      rw [hinfo.keys] at hmem
      rw [List.head?_append_of_ne_nil _ (List.ne_nil_of_mem hmem)]
    · rw [if_neg hmem]
      refine ⟨⟨?_, ?_⟩, rfl⟩
      · show info.htpad ++ [sv] = info.pad ++ [sv]
        rw [hinfo.keys]
      · rw [hinfo.keys] at hmem
        exact List.Nodup.append hinfo.nodup (List.nodup_singleton sv)
          (List.disjoint_singleton.mpr hmem)
  | _ =>
    refine ⟨⟨hinfo.keys, hinfo.nodup⟩, ?_⟩
    show info.pad.head? = (info.pad ++ []).head?
    rw [List.append_nil]

theorem pad_pushAll {info : GMSInfo} (hinfo : info.PadsOnce) (outs : List GmsOut) :
    (info.pushAll outs).PadsOnce ∧
      (info.pushAll outs).pad.head? = (info.pad ++ outsOf outs .pad).head? := by
  induction outs generalizing info with
  | nil =>
    refine ⟨hinfo, ?_⟩
    rw [show outsOf [] GMSRV.pad = [] from rfl, List.append_nil]
    rfl
  | cons out outs ih =>
    obtain ⟨hpush, hhead⟩ := push_padsOnce hinfo out
    obtain ⟨hall, hrest⟩ := ih hpush
    refine ⟨hall, ?_⟩
    calc ((info.push out).pushAll outs).pad.head?
        = ((info.push out).pad ++ outsOf outs .pad).head? := hrest
      _ = ((info.pad ++ outsOf [out] .pad) ++ outsOf outs .pad).head? := by
        rw [List.head?_append, hhead, ← List.head?_append]
      _ = (info.pad ++ outsOf (out :: outs) .pad).head? := by
        rw [outsOf_cons out outs, List.append_assoc]

/-- The best is the first of all that are listed, those of the highest rank before the others. -/
theorem argmax_outs {outs : List GmsOut} (hproper : ∀ out ∈ outs, out.1 ≠ .none) :
    (outs.argmax outRank).map Prod.snd =
      (outsOf outs .hit ++ (outsOf outs .hitOff ++ outsOf outs .pad)).head? := by
  have hranks : ∀ out ∈ outs,
      outRank out ∈ [GMSRV.hit.rank, GMSRV.hitOff.rank, GMSRV.pad.rank] := by
    rintro ⟨rval, sv⟩ hout
    have hne : rval ≠ .none := hproper _ hout
    show rval.rank ∈ _
    revert hne
    cases rval <;> decide
  rw [argmax_eq_head_byRank (by decide) hranks]
  unfold byRank outsOf
  rw [← List.head?_map, ← List.map_append, ← List.map_append, List.flatMap_cons,
    List.flatMap_cons, List.flatMap_cons, List.flatMap_nil, List.append_nil]

/-- `member` with an offset gives in scalar context the first of the strings that it gives in list
context, where no padding is listed twice. -/
theorem getMemberString_first (hplaced : heap.Placed) {fuel : ℕ} {pMI : MemberInfo} {offset : ℤ}
    {member : Option String} {info : GMSInfo} (hoffset : IsOffset offset)
    (h : getMemberString heap fuel pMI offset (some .empty) = .ok (member, some info)) :
    getMemberString heap fuel pMI offset none = .ok (member, none) ∧
      member = (info.hit ++ (info.off ++ info.pad)).head? ∧ info.pad.Nodup := by
  obtain ⟨⟨rest, sv⟩, hrest, h⟩ := bind_ok h
  obtain ⟨found, hfound, h⟩ := bind_ok h
  obtain ⟨hmember, hinfo⟩ := Prod.mk.inj (Except.ok.inj h)
  have hrec : ∀ s offset realoffset sv, IsOffset offset →
      Agrees (getMemberStringRec heap fuel s offset realoffset sv) :=
    fun s _ realoffset sv h => getMemberStringRec_agrees hplaced fuel s realoffset sv h
  have hagrees := @appendMemberString_agrees heap fuel _ hrec pMI.type none rest sv
    (gmsRemainder_offset hoffset hrest) (fun _ hd => nomatch hd) (fun _ => hplaced.typedef)
  obtain ⟨⟨outs, hranks⟩, hsingle⟩ := hagrees .empty found hfound
  have hpushed : info = GMSInfo.empty.pushAll outs := by
    rw [hranks.pushed] at hinfo
    exact (Option.some.inj hinfo).symm
  have hempty : GMSInfo.empty.PadsOnce := ⟨rfl, List.nodup_nil⟩
  obtain ⟨honce, hhead⟩ := pad_pushAll hempty outs
  refine ⟨?_, ?_, ?_⟩
  · unfold getMemberString
    rw [hrest, call_bind_apply]
    dsimp only
    rw [hsingle, call_bind_apply, ← hmember]
    rfl
  · have hbest : member = (outs.argmax outRank).map Prod.snd := by
      rw [← hranks.best, ← hmember]
      unfold GmsFound.out
      split_ifs <;> rfl
    rw [hbest, argmax_outs hranks.proper, hpushed, hit_pushAll, off_pushAll]
    show _ = (outsOf outs .hit ++ (outsOf outs .hitOff ++ _)).head?
    rw [List.head?_append, List.head?_append, List.head?_append, List.head?_append, hhead]
    rfl
  · rw [hpushed]
    exact honce.nodup

end Strings

/-- `struct { char c; int n; }` -/
def recordStruct : Struct :=
  { structOf "record" [{ declaration (.basic T_CHAR) [memberAt "c" 0 1 1] with offset := 0, size := 1 },
      { declaration (.basic T_INT) [memberAt "n" 4 4 4] with offset := 4, size := 4 }] with size := 8 }

/-- `union { int i; struct record r; short h[4]; }` -/
def variantUnion : Struct :=
  { structOf "variant" [
      { declaration (.basic T_INT) [memberAt "i" 0 4 4] with offset := 0, size := 4 },
      { declaration (.compound .struct 1) [memberAt "r" 0 8 8] with offset := 0, size := 8 },
      { declaration (.basic T_SHORT) [arrayAt "h" 0 8 2 [⟨4, false, false⟩]] with
        offset := 0, size := 8 }] with kind := .union, size := 8 }

def variantHeap : Heap where
  structAt
    | 0 => variantUnion
    | _ => recordStruct
  enumAt := (singleHeap recordStruct).enumAt
  typedefAt := (singleHeap recordStruct).typedefAt

def variantInfo : MemberInfo := ⟨.compound .union 0, none, none, 0, 0, 8⟩

theorem variantHeap_placed : variantHeap.Placed where
  declaration := by
    have hall : ∀ pStruct ∈ [variantUnion, recordStruct],
        ∀ pStructDecl ∈ pStruct.declarations.getD [], 0 ≤ pStructDecl.offset := by decide
    intro s
    cases s with
    | zero => exact hall variantUnion List.mem_cons_self
    | succ s => exact hall recordStruct (List.mem_cons_of_mem _ List.mem_cons_self)
  union := by
    intro s hunion
    cases s with
    | zero =>
      have hall : ∀ pStructDecl ∈ variantUnion.declarations.getD [], pStructDecl.offset ≤ 0 ∧
          ∀ d ∈ pStructDecl.declarators.getD [], d.offset ≤ 0 := by decide
      exact hall
    | succ s => exact CompoundKind.noConfusion hunion
  typedef := fun _ => (by decide : (-1 : ℤ) ≤ 0)

theorem getMemberString_first_variant :
    getMemberString variantHeap 3 variantInfo 2 none = .ok (some ".h[1]", none) ∧
      some ".h[1]" = ([".h[1]"] ++ ([".i+2"] ++ [".r+2"])).head? ∧ [".r+2"].Nodup :=
  @getMemberString_first variantHeap variantHeap_placed 3 variantInfo 2 _
    ⟨[".h[1]"], [".i+2"], [".r+2"], [".r+2"]⟩ ⟨by decide, by decide⟩ (by decide +kernel)

end ConvertBinaryC
