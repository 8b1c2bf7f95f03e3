import ConvertBinaryC.CBCOffsetWalk
import ConvertBinaryC.CBCOffsetRanking

/-! The strings of `get_member_string` are member expressions: `get_member` accepts each of them and
finds the offset that was asked for (`cbc/member.c`). -/
namespace ConvertBinaryC
open FoldRules

/-- Types whose members can be addressed by name: members lie where the layout can put them, no
two that a name can mean have the same one, and the search for a name comes to an end. -/
structure Heap.Addressable (heap : Heap) (fuel : ℕ) : Prop where
  placed : heap.Placed
  members : ∀ s, ∀ pStructDecl ∈ (heap.structAt s).declarations.getD [],
    ∀ d ∈ pStructDecl.declarators.getD [], 0 ≤ d.offset ∧ IsName d.identifier.toList
  sized : heap.Declarators Declarator.Sized
  visible : ∀ s, ∃ members : List VisibleMember, visibleMembers heap fuel s = members.map some ∧
    (members.map fun m => m.pDecl.identifier).Nodup

/-- A compound inside another one without a name of its own, with the offsets that lead to it. -/
inductive Inside (heap : Heap) : ℕ → List ℤ → ℕ → Prop
  | here (s : ℕ) : Inside heap s [] s
  | unnamed {s inner last fuel : ℕ} {pStructDecl : StructDeclaration} {offsets : List ℤ}
    (hdecl : pStructDecl ∈ (heap.structAt s).declarations.getD [])
    (hnone : pStructDecl.declarators = none)
    (hfollow : followTsptr heap fuel pStructDecl.type = .ok inner)
    (h : Inside heap inner offsets last) : Inside heap s (pStructDecl.offset :: offsets) last

section Inside
variable {heap : Heap} {fuel fuel' s last inner : ℕ} {offsets : List ℤ}

theorem Inside.snoc {pStructDecl : StructDeclaration} (h : Inside heap s offsets last)
    (hdecl : pStructDecl ∈ (heap.structAt last).declarations.getD [])
    (hnone : pStructDecl.declarators = none)
    (hfollow : followTsptr heap fuel pStructDecl.type = .ok inner) :
    Inside heap s (offsets ++ [pStructDecl.offset]) inner := by
  induction h with
  | here s => exact .unnamed hdecl hnone hfollow (.here inner)
  | unnamed hdecl' hnone' hfollow' _ ih => exact .unnamed hdecl' hnone' hfollow' (ih hdecl)

theorem Inside.nonneg (hplaced : heap.Placed) (h : Inside heap s offsets last) :
    ∀ offset ∈ offsets, 0 ≤ offset := by
  induction h with
  | here s => exact fun _ h => absurd h List.not_mem_nil
  | unnamed hdecl hnone hfollow _ ih =>
    intro offset hoffset
    rcases List.mem_cons.mp hoffset with rfl | hoffset
    · exact hplaced.declaration _ _ hdecl
    · exact ih offset hoffset

theorem followTypedef_unique {t : ℕ} {type type' : TypeSpec}
    (h : followTypedef heap fuel t = .ok type) (h' : followTypedef heap fuel' t = .ok type') :
    type = type' := by
  induction fuel generalizing t fuel' with
  | zero => exact nomatch h
  | succ fuel ih =>
    cases fuel' with
    | zero => exact nomatch h'
    | succ fuel' =>
      unfold followTypedef at h h'
      dsimp only at h h'
      cases htype : (heap.typedefAt t).type with
      | typedef t' =>
        rw [htype] at h h'
        dsimp only at h h'
        split_ifs at h h' with hplain
        · exact ih h h'
        · exact Except.ok.inj (h.symm.trans h')
      | _ =>
        rw [htype] at h h'
        exact Except.ok.inj (h.symm.trans h')

theorem followTsptr_unique {pTS : TypeSpec} {s s' : ℕ} (h : followTsptr heap fuel pTS = .ok s)
    (h' : followTsptr heap fuel' pTS = .ok s') : s = s' := by
  obtain ⟨type, htype, h⟩ := bind_ok h
  obtain ⟨type', htype', h'⟩ := bind_ok h'
  have hsame : type = type' := by
    cases pTS with
    | typedef t => exact followTypedef_unique htype htype'
    | _ =>
      cases htype
      cases htype'
      rfl
  rw [hsame] at h
  exact Except.ok.inj (h.symm.trans h')

/-- The members of a compound without a name are visible in the one around it. -/
theorem Inside.visible {pStructDecl : StructDeclaration} {declarators : List Declarator}
    {d : Declarator} (h : Inside heap s offsets last) (hgaps : none ∉ visibleMembers heap fuel s)
    (hdecl : pStructDecl ∈ (heap.structAt last).declarations.getD [])
    (hsome : pStructDecl.declarators = some declarators) (hd : d ∈ declarators) :
    some ⟨offsets ++ [d.offset], pStructDecl.type, d⟩ ∈ visibleMembers heap fuel s := by
  induction h generalizing fuel with
  | here s =>
    cases fuel with
    | zero => exact absurd (List.mem_singleton_self _) hgaps
    | succ fuel =>
      rw [visibleMembers_succ]
      apply List.mem_flatMap.mpr
      refine ⟨pStructDecl, hdecl, ?_⟩
      unfold declaredMembers
      rw [hsome]
      exact List.mem_map_of_mem hd
  | @unnamed s inner last fuelAt pUnnamed offsets hunnamed hnone hfollow _ ih =>
    cases fuel with
    | zero => exact absurd (List.mem_singleton_self _) hgaps
    | succ fuel =>
      rw [visibleMembers_succ] at hgaps ⊢
      have hentries : ∀ entry ∈ declaredMembers heap fuel pUnnamed, entry ≠ none := by
        rintro entry hentry rfl
        exact hgaps (List.mem_flatMap.mpr ⟨pUnnamed, hunnamed, hentry⟩)
      apply List.mem_flatMap.mpr
      refine ⟨pUnnamed, hunnamed, ?_⟩
      unfold declaredMembers at hentries ⊢
      rw [hnone] at hentries ⊢
      dsimp only at hentries ⊢
      cases hlast : followTsptr heap fuel pUnnamed.type with
      | error e =>
        rw [hlast] at hentries
        exact absurd rfl (hentries none (List.mem_singleton_self _))
      | ok found =>
        rw [hlast] at hentries
        obtain rfl := followTsptr_unique hlast hfollow
        have hinner : none ∉ visibleMembers heap fuel found := by
          intro hmem
          exact hentries none (List.mem_map.mpr ⟨none, hmem, rfl⟩) rfl
        exact List.mem_map.mpr ⟨_, ih hinner hdecl, rfl⟩

theorem offsetsFit_of_nonneg {offsets : List ℤ} (hpos : ∀ offset ∈ offsets, 0 ≤ offset)
    (hsum : offsets.sum < 2147483648) : OffsetsFit offsets ∧ 0 ≤ offsets.sum := by
  induction offsets with
  | nil => exact ⟨trivial, le_rfl⟩
  | cons offset offsets ih =>
    have hfirst : 0 ≤ offset := hpos offset List.mem_cons_self
    have hrest : ∀ offset ∈ offsets, 0 ≤ offset := fun o ho => hpos o (List.mem_cons_of_mem _ ho)
    rw [List.sum_cons] at hsum ⊢
    have hpart : 0 ≤ offsets.sum := List.sum_nonneg hrest
    refine ⟨?_, by omega⟩
    cases offsets with
    | nil => exact hfirst
    | cons next offsets => exact ⟨(ih hrest (by omega)).1, by omega, hsum⟩

/-- The search for the name of a member finds it, at the sum of the offsets that lead to it. -/
theorem Inside.search (haddr : heap.Addressable fuel) (h : Inside heap s offsets last)
    {pStructDecl : StructDeclaration} {declarators : List Declarator} {d : Declarator}
    (hdecl : pStructDecl ∈ (heap.structAt last).declarations.getD [])
    (hsome : pStructDecl.declarators = some declarators) (hd : d ∈ declarators)
    (hlt : offsets.sum + d.offset < 2147483648) :
    searchStructMember heap d.identifier fuel s =
      .ok (some ⟨offsets.sum + d.offset, pStructDecl.type, d⟩) := by
  obtain ⟨members, hvisible, hdistinct⟩ := haddr.visible s
  have hgaps : none ∉ visibleMembers heap fuel s := by
    rw [hvisible]
    intro hmem
    obtain ⟨m, -, hm⟩ := List.mem_map.mp hmem
    exact nomatch hm
  have hmem := h.visible hgaps hdecl hsome hd
  set m : VisibleMember := ⟨offsets ++ [d.offset], pStructDecl.type, d⟩ with hm
  rw [hvisible] at hmem
  obtain ⟨m', hm', heq⟩ := List.mem_map.mp hmem
  obtain rfl : m' = m := Option.some.inj heq
  have hfind : (visibleMembers heap fuel s).find? (stopsSearch d.identifier) = some (some m) := by
    rw [hvisible, List.find?_map]
    have hfound : members.find? (stopsSearch d.identifier ∘ some) = some m := by
      obtain ⟨before, after, rfl⟩ := List.append_of_mem hm'
      apply List.find?_eq_some_iff_append.mpr
      refine ⟨decide_eq_true rfl, before, after, rfl, ?_⟩
      intro other hother
      -- another member of the name before this one would be the same name twice
      rw [List.map_append, List.map_cons] at hdistinct
      have hne : other.pDecl.identifier ≠ m.pDecl.identifier := by
        intro hsame
        have hdisjoint := (List.nodup_append.mp hdistinct).2.2
        exact hdisjoint _ (List.mem_map_of_mem hother) _ List.mem_cons_self hsame
      show (!decide (other.pDecl.identifier = d.identifier)) = true
      rw [decide_eq_false hne]
      rfl
    rw [hfound]
    rfl
  have hstops := @searchStructMember_stops heap d.identifier fuel s
  rw [hfind] at hstops
  have hpos : ∀ offset ∈ m.offsets, 0 ≤ offset := by
    intro offset hoffset
    rcases List.mem_append.mp hoffset with hoffset | hoffset
    · exact h.nonneg haddr.placed offset hoffset
    · rw [List.mem_singleton.mp hoffset]
      apply (haddr.members last pStructDecl hdecl d _).1
      rw [hsome]
      exact hd
  have hsum : m.offsets.sum = offsets.sum + d.offset := by
    rw [hm, List.sum_append, List.sum_singleton]
  have hfit := offsetsFit_of_nonneg hpos (by rw [hsum]; exact hlt)
  obtain ⟨r, hr, hmax⟩ := (searchedOffset_iff m.offsets).mpr hfit.1
  have hresult : searchStructMember heap d.identifier fuel s = (searchedOffset m.offsets >>=
      fun offset => .ok (some ⟨max 0 offset, m.type, m.pDecl⟩)) := hstops
  rw [hresult, hr, call_bind_apply, hmax, hsum]

end Inside

/-- All strings that are listed. -/
def GMSInfo.All (P : String → Prop) (info : GMSInfo) : Prop :=
  ∀ sv ∈ info.hit ++ (info.off ++ info.pad), P sv

/-- What has been found and what is listed are strings of this kind. -/
structure GmsFound.Keeps (P : String → Prop) (found : GmsFound) : Prop where
  string : found.rval ≠ .none → P found.sv
  listed : ∀ info ∈ found.pInfo, info.All P

def GmsLoop.Keeps (P : String → Prop) : GmsLoop → Prop
  | .next b pInfo | .unionEnd b pInfo =>
    (∀ sv ∈ b.bestSV, P sv) ∧ ∀ info ∈ pInfo, info.All P
  | .leave found => found.Keeps P

/-- A call adds only strings of this kind. -/
def CallKeeps (P : String → Prop) (call : Option GMSInfo → Call GmsFound) : Prop :=
  ∀ pInfo found, (∀ info ∈ pInfo, info.All P) → call pInfo = .ok found → found.Keeps P

def LoopKeeps (P : String → Prop) (loop : GmsLoopFn) : Prop :=
  ∀ b pInfo result, (∀ sv ∈ b.bestSV, P sv) → (∀ info ∈ pInfo, info.All P) →
    loop b pInfo = .ok result → result.Keeps P

section Keeps
variable {P : String → Prop} {sv : String} {pInfo : Option GMSInfo}

theorem GMSInfo.All.pushed {info : GMSInfo} (h : info.All P) (hsv : P sv) :
    (info.pushHit sv).All P ∧ (info.pushOff sv).All P ∧ (info.pushPad sv).All P := by
  have hadded {hit off pad : List String} (hperm : ∀ s ∈ hit ++ (off ++ pad),
      s ∈ info.hit ++ (info.off ++ info.pad) ∨ s = sv) (htpad : List String) :
      GMSInfo.All P ⟨hit, off, pad, htpad⟩ := by
    intro s hs
    rcases hperm s hs with hs | rfl
    · exact h s hs
    · exact hsv
  have hpad : (info.pushPad sv).All P := by
    unfold GMSInfo.pushPad
    split_ifs
    · exact h
    · apply hadded
      intro s hs
      simp only [List.mem_append, List.mem_singleton] at hs ⊢
      tauto
  refine ⟨?_, ?_, hpad⟩
  · apply hadded
    intro s hs
    simp only [List.mem_append, List.mem_singleton] at hs ⊢
    tauto
  · apply hadded
    intro s hs
    simp only [List.mem_append, List.mem_singleton] at hs ⊢
    tauto

theorem gmsPadRegion_keeps {realoffset : ℤ} (hsv : P (sv ++ ("+" ++ toString realoffset)))
    (hinfo : ∀ info ∈ pInfo, info.All P) : (gmsPadRegion realoffset sv pInfo).Keeps P := by
  refine ⟨fun _ => hsv, ?_⟩
  intro info hmem
  obtain ⟨info', hmem', rfl⟩ := Option.map_eq_some_iff.mp hmem
  exact ((hinfo info' hmem').pushed hsv).2.2

theorem gmsHit_keeps {offset : ℤ} (hoff : 0 < offset → P (sv ++ ("+" ++ toString offset)))
    (hhit : ¬ 0 < offset → P sv) (hinfo : ∀ info ∈ pInfo, info.All P) :
    (gmsHit offset sv pInfo).Keeps P := by
  unfold gmsHit
  split_ifs with hpos
  · refine ⟨fun _ => hoff hpos, ?_⟩
    intro info hmem
    obtain ⟨info', hmem', rfl⟩ := Option.map_eq_some_iff.mp hmem
    exact ((hinfo info' hmem').pushed (hoff hpos)).2.1
  · refine ⟨fun _ => hhit hpos, ?_⟩
    intro info hmem
    obtain ⟨info', hmem', rfl⟩ := Option.map_eq_some_iff.mp hmem
    exact ((hinfo info' hmem').pushed (hhit hpos)).1

theorem gmsMember_keeps {isUnion : Bool} {found : GmsFound} {b : GmsBest} (hfound : found.Keeps P)
    (hb : ∀ sv ∈ b.bestSV, P sv) : (gmsMember isUnion found b).Keeps P := by
  unfold gmsMember
  cases isUnion with
  | false => exact hfound
  | true =>
    rw [if_pos rfl]
    dsimp only
    have hbest : ∀ sv ∈ (b.take found.rval found.sv).bestSV, P sv := by
      intro sv hsv
      unfold GmsBest.take at hsv
      split_ifs at hsv with hlt
      · obtain rfl := Option.some.inj hsv
        apply hfound.string
        -- nothing is ranked lower than `GMS_NONE`
        intro hnone
        rw [hnone] at hlt
        exact Nat.not_lt_zero _ hlt
      · exact hb sv hsv
    split_ifs
    · exact ⟨hbest, hfound.listed⟩
    · exact ⟨hbest, hfound.listed⟩

theorem loopKeeps_end : LoopKeeps P fun b pInfo => .ok (.next b pInfo) := by
  intro b pInfo result hb hinfo h
  cases h
  exact ⟨hb, hinfo⟩

theorem gmsTurn_keeps {offset realoffset start size : ℤ} {visit rest : GmsLoopFn}
    (hpad : P (sv ++ ("+" ++ toString realoffset))) (hvisit : start ≤ offset → LoopKeeps P visit)
    (hrest : LoopKeeps P rest) :
    LoopKeeps P (gmsTurn offset realoffset sv start size visit rest) := by
  intro b pInfo result hb hinfo h
  unfold gmsTurn at h
  by_cases hlt : offset < start
  · rw [if_pos hlt] at h
    cases h
    exact gmsPadRegion_keeps hpad hinfo
  · rw [if_neg hlt] at h
    obtain ⟨covers, -, h⟩ := bind_ok h
    cases covers with
    | false => exact hrest b pInfo result hb hinfo h
    | true =>
      obtain ⟨loop, hloop, h⟩ := bind_ok h
      have hturn := hvisit (not_lt.mp hlt) b pInfo loop hb hinfo hloop
      cases loop with
      | next b' pInfo' => exact hrest b' pInfo' result hturn.1 hturn.2 h
      | leave found =>
        cases h
        exact hturn
      | unionEnd b' pInfo' =>
        cases h
        exact hturn

theorem gmsFinish_keeps {isUnion : Bool} {realoffset : ℤ} {loop : GmsLoop} {found : GmsFound}
    (hpad : P (sv ++ ("+" ++ toString realoffset))) (hloop : loop.Keeps P)
    (h : gmsFinish isUnion realoffset sv loop = .ok found) : found.Keeps P := by
  cases loop with
  | leave left =>
    cases h
    exact hloop
  | next b pInfo =>
    unfold gmsFinish at h
    dsimp only at h
    cases hbest : b.bestSV with
    | none =>
      rw [hbest] at h
      have hfound : found = gmsPadRegion realoffset sv pInfo := by
        cases isUnion <;> exact (Except.ok.inj h).symm
      rw [hfound]
      exact gmsPadRegion_keeps hpad hloop.2
    | some bestSV =>
      rw [hbest] at h
      cases isUnion with
      | false =>
        cases h
        exact gmsPadRegion_keeps hpad hloop.2
      | true =>
        cases h
        exact ⟨fun _ => hloop.1 bestSV hbest, hloop.2⟩
  | unionEnd b pInfo =>
    unfold gmsFinish at h
    dsimp only at h
    split_ifs at h
    cases hbest : b.bestSV with
    | none =>
      rw [hbest] at h
      exact nomatch h
    | some bestSV =>
      rw [hbest] at h
      cases h
      exact ⟨fun _ => hloop.1 bestSV hbest, hloop.2⟩

end Keeps

/-- The walk from `st` over what a text was written for ends at the offset. -/
def ReachesOffset (heap : Heap) (fuel : ℕ) (flags : GmFlags) (st : GmState) (target : ℤ)
    (text : String) : Prop :=
  ∃ infos, text = memberText infos ∧ Spelled false infos ∧
    walkOffset heap fuel flags st (infos ++ [.finished]) = .ok target

/-- A text that leads to a state from which an offset is left to go. -/
def OnPath (heap : Heap) (fuel : ℕ) (flags : GmFlags) (start : GmState) (target : ℤ)
    (text : String) (st : GmState) (offset : ℤ) : Prop :=
  ∃ path, text = memberText path ∧ PathSteps path ∧ Leads heap fuel flags start path st ∧
    0 ≤ st.offset ∧ 0 ≤ offset ∧ st.offset + offset = target

/-- A state from which the members of a compound can be named. -/
def AtCompound (heap : Heap) (fuel : ℕ) (flags : GmFlags) (st : GmState) (s : ℕ) : Prop :=
  ∃ st', gmResolve heap fuel flags st = .ok st' ∧ st'.offset = st.offset ∧
    ∀ name, gmCompound st' name = .ok s

section Paths
variable {heap : Heap} {fuel : ℕ} {flags : GmFlags} {start st : GmState} {target offset : ℤ}
  {sv : String}

theorem OnPath.hit (h : OnPath heap fuel flags start target sv st 0) :
    ReachesOffset heap fuel flags start target sv := by
  obtain ⟨path, htext, hpath, hleads, -, -, hsum⟩ := h
  refine ⟨path, htext, ?_, ?_⟩
  · have hspelled := @PathSteps.spelled path [] hpath false fun _ => trivial
    rw [List.append_nil] at hspelled
    exact hspelled
  · rw [hleads [.finished], ← hsum, add_zero]
    rfl

/-- An offset at the end is added to the one that was reached. -/
theorem OnPath.plus (hflags : flags.Computes) (htarget : target < 2147483648)
    (h : OnPath heap fuel flags start target sv st offset) {st' : GmState}
    (hresolve : gmResolve heap fuel flags st = .ok st') (hsame : st'.offset = st.offset) :
    ReachesOffset heap fuel flags start target (sv ++ ("+" ++ toString offset)) := by
  obtain ⟨path, htext, hpath, hleads, hpos, hoffset, hsum⟩ := h
  refine ⟨path ++ [.offset offset], ?_, ?_, ?_⟩
  · rw [htext, memberText_append]
    rfl
  · exact hpath.spelled false fun _ => ⟨hoffset, ⟨by omega, by omega⟩, rfl⟩
  · have hint : int (st'.offset + offset) = .ok target :=
      int_ok_iff.mpr ⟨⟨by omega, by omega⟩, by omega⟩
    have hstep : gmStep heap fuel flags false st (.offset offset) =
        .ok { st' with offset := target } := by
      unfold gmStep
      rw [hresolve, call_bind_apply]
      dsimp only
      rw [hflags.offset, if_neg Bool.false_ne_true, hflags.computed, if_pos rfl, hint]
      rfl
    have hseen : MeWalkInfo.offset offset ≠ .finished := fun h => nomatch h
    rw [List.append_assoc, hleads, Leads.of_step hseen rfl hstep]
    rfl

theorem OnPath.chain (hflags : flags.Computes) (hsized : ∀ t, (heap.typedefAt t).decl.Sized)
    (htarget : target < 2147483648) {follow turns : ℕ} (hfollow : follow ≤ fuel)
    {pType pType' : TypeSpec} {pDecl pDecl' : Declarator} {rest : ℤ} {sv' : String}
    (h : OnPath heap fuel flags start target sv st offset) (hat : st.AtDeclarator pType pDecl)
    (hd : pDecl.Sized)
    (hchain : gmsChain heap follow turns pType pDecl offset sv = .ok (pType', pDecl', rest, sv')) :
    ∃ st', OnPath heap fuel flags start target sv' st' rest ∧ st'.Behind pType' pDecl' := by
  obtain ⟨path, htext, hpath, hleads, hpos, hoffset, hsum⟩ := h
  obtain ⟨path', st', hpath', htext', hleads', hbehind, hpos', hrest, hsum'⟩ :=
    leads_chain hflags hsized hfollow hat hd hoffset hpos (by rw [hsum]; exact htarget) hchain
  refine ⟨st', ⟨path ++ path', ?_, hpath.append hpath', hleads.trans hleads', hpos', hrest, ?_⟩,
    hbehind⟩
  · rw [htext', htext, memberText_append]
  · rw [hsum', hsum]

/-- A name leads from a compound to the member, and the offset into the member is left. -/
theorem OnPath.member (hflags : flags.Computes) (haddr : heap.Addressable fuel)
    (htarget : target < 2147483648) {s last : ℕ} {offsets : List ℤ} {realoffset : ℤ}
    (h : OnPath heap fuel flags start target sv st realoffset)
    (hat : AtCompound heap fuel flags st s) (hinside : Inside heap s offsets last)
    (hreal : offsets.sum + offset = realoffset) {pStructDecl : StructDeclaration}
    {declarators : List Declarator} {d : Declarator}
    (hdecl : pStructDecl ∈ (heap.structAt last).declarations.getD [])
    (hsome : pStructDecl.declarators = some declarators) (hd : d ∈ declarators)
    (hle : d.offset ≤ offset) :
    ∃ st', OnPath heap fuel flags start target (sv ++ ("." ++ d.identifier)) st'
      (offset - d.offset) ∧ st'.AtDeclarator pStructDecl.type d := by
  obtain ⟨path, htext, hpath, hleads, hpos, -, hsum⟩ := h
  obtain ⟨st', hresolve, hsame, hcompound⟩ := hat
  have hmem : d ∈ pStructDecl.declarators.getD [] := by
    rw [hsome]
    exact hd
  obtain ⟨hdpos, hname⟩ := haddr.members last pStructDecl hdecl d hmem
  have hoffsets : 0 ≤ offsets.sum := List.sum_nonneg (hinside.nonneg haddr.placed)
  have hsearch := hinside.search haddr hdecl hsome hd (by omega)
  have hint : int (st'.offset + (offsets.sum + d.offset)) =
      .ok (st'.offset + (offsets.sum + d.offset)) :=
    int_ok_iff.mpr ⟨⟨by omega, by omega⟩, rfl⟩
  have hstep : gmStep heap fuel flags false st (.compoundMember d.identifier true) =
      .ok { st' with
        pType := pStructDecl.type, pDecl := some d, pStruct := some s, name := some d.identifier,
        level := 0, offset := st'.offset + (offsets.sum + d.offset), size := d.size } := by
    unfold gmStep
    rw [hresolve, call_bind_apply]
    dsimp only
    unfold gmMember
    rw [hcompound]
    show (searchStructMember heap d.identifier fuel s >>= _) = _
    rw [hsearch, call_bind_apply]
    dsimp only
    rw [hflags.computed, if_pos rfl, if_pos rfl, hint, call_bind_apply]
  have hseen : MeWalkInfo.compoundMember d.identifier true ≠ .finished := fun h => nomatch h
  refine ⟨_, ⟨path ++ [.compoundMember d.identifier true], ?_, hpath.append (pathSteps_member hname),
    hleads.trans (Leads.of_step hseen rfl hstep), ?_, ?_, ?_⟩, ⟨rfl, rfl, rfl, rfl⟩⟩
  · rw [htext, memberText_append]
    rfl
  · show 0 ≤ st'.offset + (offsets.sum + d.offset)
    omega
  · omega
  · show st'.offset + (offsets.sum + d.offset) + (offset - d.offset) = target
    omega

/-- Behind the last dimension of a compound that is no pointer its members can be named. -/
theorem GmState.Behind.compound {kind : CompoundKind} {s : ℕ} {pDecl : Declarator}
    (h : st.Behind (.compound kind s) pDecl) (hpointer : pDecl.pointer_flag = false) :
    AtCompound heap fuel flags st s := by
  refine ⟨st, h.resolve, rfl, fun name => ?_⟩
  unfold gmCompound
  rw [h.decl, h.type]
  have hlevel : ¬ (some pDecl).any (fun pDecl => decide (st.level < pDecl.dims.length)) = true := by
    rw [Option.any_some, h.level, decide_eq_false (lt_irrefl _)]
    exact Bool.false_ne_true
  have hplain : ¬ (some pDecl).any Declarator.pointer_flag = true := by
    rw [Option.any_some, hpointer]
    exact Bool.false_ne_true
  rw [if_neg hlevel, if_neg hplain]

end Paths

/-- A search in a compound adds only strings that reach the offset. -/
def StructKeeps (heap : Heap) (fuel : ℕ) (flags : GmFlags) (start : GmState) (target : ℤ)
    (structRec : GmsStructFn) : Prop :=
  ∀ s offsets last offset realoffset sv st, Inside heap s offsets last →
    AtCompound heap fuel flags st s → OnPath heap fuel flags start target sv st realoffset →
    offsets.sum + offset = realoffset → 0 ≤ offset →
    CallKeeps (ReachesOffset heap fuel flags start target) (structRec last offset realoffset sv)

section Strings
variable {heap : Heap} {fuel : ℕ} {flags : GmFlags} {start st : GmState} {target offset : ℤ}
  {sv : String} {structRec : GmsStructFn} (hflags : flags.Computes)
  (haddr : heap.Addressable fuel) (htarget : target < 2147483648)
  (hrec : StructKeeps heap fuel flags start target structRec)
include hflags htarget hrec

theorem gmsTarget_keeps {pType : TypeSpec} {pointer : Bool}
    (hpath : OnPath heap fuel flags start target sv st offset)
    (hresolve : gmResolve heap fuel flags st = .ok st)
    (hcompound : ∀ kind s, pointer = false → pType = .compound kind s →
      AtCompound heap fuel flags st s) :
    CallKeeps (ReachesOffset heap fuel flags start target)
      (gmsTarget structRec pType pointer offset sv) := by
  unfold gmsTarget
  have hoffset : 0 ≤ offset := by
    obtain ⟨-, -, -, -, -, hoffset, -⟩ := hpath
    exact hoffset
  split
  · rename_i kind s
    apply hrec s [] s offset offset sv st (.here s) (hcompound kind s rfl rfl) hpath _ hoffset
    rw [List.sum_nil, zero_add]
  · intro pInfo found hinfo h
    cases h
    apply gmsHit_keeps
    · exact fun _ => hpath.plus hflags htarget hresolve rfl
    · intro hpos
      have hzero : offset = 0 := le_antisymm (not_lt.mp hpos) hoffset
      rw [hzero] at hpath
      exact hpath.hit
    · exact hinfo

include haddr

theorem gmsChain_keeps {follow turns : ℕ} (hfollow : follow ≤ fuel) {pType type : TypeSpec}
    {pDecl decl : Declarator} {rest : ℤ} {text : String} (hd : pDecl.Sized)
    (hpath : OnPath heap fuel flags start target sv st offset) (hat : st.AtDeclarator pType pDecl)
    (hchain : gmsChain heap follow turns pType pDecl offset sv = .ok (type, decl, rest, text)) :
    CallKeeps (ReachesOffset heap fuel flags start target)
      (gmsTarget structRec type decl.pointer_flag rest text) := by
  obtain ⟨st', hpath', hbehind⟩ :=
    hpath.chain hflags haddr.sized.typedef htarget hfollow hat hd hchain
  apply gmsTarget_keeps hflags htarget hrec hpath' hbehind.resolve
  intro kind s hpointer htype
  rw [htype] at hbehind
  exact hbehind.compound hpointer

theorem gmsDeclared_keeps {follow : ℕ} (hfollow : follow ≤ fuel) {pType : TypeSpec}
    {pDecl : Declarator} (hd : pDecl.Sized) {before : ℤ}
    (hbefore : (if 0 < pDecl.offset then before - pDecl.offset else before) = offset)
    (hpath : OnPath heap fuel flags start target sv st offset)
    (hat : st.AtDeclarator pType pDecl) :
    CallKeeps (ReachesOffset heap fuel flags start target)
      (gmsDeclared heap follow structRec pType pDecl before sv) := by
  intro pInfo found hinfo h
  unfold gmsDeclared at h
  dsimp only at h
  rw [hbefore] at h
  obtain ⟨⟨type, decl, rest, text⟩, hchain, h⟩ := bind_ok h
  exact gmsChain_keeps hflags haddr htarget hrec hfollow hd hpath hat hchain pInfo found hinfo h

variable {follow s last : ℕ} (hfollow : follow ≤ fuel) {offsets : List ℤ} {realoffset : ℤ}
  (hinside : Inside heap s offsets last) (hat : AtCompound heap fuel flags st s)
  (hpath : OnPath heap fuel flags start target sv st realoffset)
  (hreal : offsets.sum + offset = realoffset) {isUnion : Bool} {pStructDecl : StructDeclaration}
  (hdecl : pStructDecl ∈ (heap.structAt last).declarations.getD [])
include hfollow hinside hat hpath hreal hdecl

theorem gmsDeclarator_keeps {declarators : List Declarator} {d : Declarator}
    (hsome : pStructDecl.declarators = some declarators) (hd : d ∈ declarators)
    (hle : d.offset ≤ offset) : LoopKeeps (ReachesOffset heap fuel flags start target)
      (gmsDeclarator heap follow structRec isUnion offset sv pStructDecl.type d) := by
  intro b pInfo result hb hinfo h
  obtain ⟨found, hfound, h⟩ := bind_ok h
  cases h
  apply gmsMember_keeps _ hb
  have hmem : d ∈ pStructDecl.declarators.getD [] := by
    rw [hsome]
    exact hd
  obtain ⟨hdpos, hname⟩ := haddr.members last pStructDecl hdecl d hmem
  obtain ⟨st', hpath', hat'⟩ :=
    hpath.member hflags haddr htarget hat hinside hreal hdecl hsome hd hle
  have hnamed : d.identifier ≠ "" := by
    intro hempty
    obtain ⟨c, rest, hcons, -⟩ := hname
    rw [hempty] at hcons
    exact nomatch hcons
  unfold appendMemberString at hfound
  dsimp only at hfound
  rw [if_neg hnamed] at hfound
  have hbefore : (if 0 < d.offset then offset - d.offset else offset) = offset - d.offset := by
    split_ifs <;> omega
  exact gmsDeclared_keeps hflags haddr htarget hrec hfollow (haddr.sized.member last _ hdecl d hmem)
    hbefore hpath' hat' pInfo found hinfo hfound

theorem gmsDeclarators_keeps {declarators visited : List Declarator}
    (hsome : pStructDecl.declarators = some declarators) (hsub : visited ⊆ declarators)
    (hpad : ReachesOffset heap fuel flags start target (sv ++ ("+" ++ toString realoffset))) :
    LoopKeeps (ReachesOffset heap fuel flags start target)
      (gmsDeclarators heap follow structRec isUnion offset realoffset sv pStructDecl.type visited) := by
  induction visited with
  | nil => exact loopKeeps_end
  | cons d visited ih =>
    apply gmsTurn_keeps hpad
    · intro hle
      exact gmsDeclarator_keeps hflags haddr htarget hrec hfollow hinside hat hpath hreal hdecl hsome
        (hsub List.mem_cons_self) hle
    · exact ih fun d hd => hsub (List.mem_cons_of_mem _ hd)

omit hflags htarget hfollow in
/-- The compound of an unnamed member is searched for what is left behind the start of the
member, which for a union is the union. -/
theorem gmsUnnamed_keeps (hnone : pStructDecl.declarators = none)
    (hunion : isUnion = true → pStructDecl.offset ≤ 0) (hle : pStructDecl.offset ≤ offset) :
    LoopKeeps (ReachesOffset heap fuel flags start target)
      (gmsUnnamed heap follow structRec isUnion offset realoffset sv pStructDecl) := by
  intro b pInfo result hb hinfo h
  obtain ⟨inner, hinner, h⟩ := bind_ok h
  obtain ⟨found, hfound, h⟩ := bind_ok h
  cases h
  apply gmsMember_keeps _ hb
  have hpos : 0 ≤ pStructDecl.offset := haddr.placed.declaration last pStructDecl hdecl
  have hleft : (if isUnion then offset else offset - pStructDecl.offset) =
      offset - pStructDecl.offset := by
    cases isUnion with
    | false => rfl
    | true =>
      have hzero : pStructDecl.offset ≤ 0 := hunion rfl
      show offset = _
      omega
  rw [hleft] at hfound
  apply hrec s (offsets ++ [pStructDecl.offset]) inner _ realoffset sv st
    (hinside.snoc hdecl hnone hinner) hat hpath _ (by omega) pInfo found hinfo hfound
  rw [List.sum_append, List.sum_singleton]
  omega

end Strings

section Compounds
variable {heap : Heap} {fuel : ℕ} {flags : GmFlags} {start : GmState} {target : ℤ}

/-- Every string that is found or listed for a compound reaches the offset. -/
theorem getMemberStringRec_keeps (hflags : flags.Computes) (haddr : heap.Addressable fuel)
    (htarget : target < 2147483648) {turns : ℕ} (hturns : turns ≤ fuel) :
    StructKeeps heap fuel flags start target (getMemberStringRec heap turns) := by
  induction turns with
  | zero =>
    intro s offsets last offset realoffset sv st _ _ _ _ _ pInfo found _ h
    cases h
  | succ turns ih =>
    have hle : turns ≤ fuel := Nat.le_of_succ_le hturns
    have hrec := ih hle
    intro s offsets last offset realoffset sv st hinside hat hpath hreal hoffset pInfo found hinfo h
    have hpad : ReachesOffset heap fuel flags start target (sv ++ ("+" ++ toString realoffset)) := by
      obtain ⟨st', hresolve, hsame, -⟩ := hat
      exact hpath.plus hflags htarget hresolve hsame
    unfold getMemberStringRec at h
    dsimp only at h
    cases hdecls : (heap.structAt last).declarations with
    | none =>
      rw [hdecls] at h
      cases h
      exact ⟨fun hnone => absurd rfl hnone, hinfo⟩
    | some declarations =>
      rw [hdecls] at h
      obtain ⟨loop, hloop, h⟩ := bind_ok h
      apply gmsFinish_keeps hpad _ h
      have hmem : ∀ pStructDecl ∈ declarations,
          pStructDecl ∈ (heap.structAt last).declarations.getD [] := by
        rw [hdecls]
        exact fun _ h => h
      -- the declarations that are still to come are some of all of them
      have hvisit : ∀ visited ⊆ declarations, LoopKeeps (ReachesOffset heap fuel flags start target)
          (gmsDeclarations heap turns (getMemberStringRec heap turns)
            (decide ((heap.structAt last).kind = .union)) offset realoffset sv visited) := by
        intro visited hsub
        induction visited with
        | nil => exact loopKeeps_end
        | cons pStructDecl visited ihv =>
          have hdecl := hmem pStructDecl (hsub List.mem_cons_self)
          apply gmsTurn_keeps hpad
          · intro hle'
            unfold gmsDeclaration
            cases hdeclarators : pStructDecl.declarators with
            | none =>
              apply gmsUnnamed_keeps haddr hrec hinside hat hpath hreal hdecl hdeclarators _ hle'
              intro hunion
              exact (haddr.placed.union last (of_decide_eq_true hunion) _ hdecl).1
            | some declarators =>
              exact gmsDeclarators_keeps hflags haddr htarget hrec hle hinside hat hpath hreal hdecl
                hdeclarators (List.Subset.refl _) hpad
          · exact ihv fun d hd => hsub (List.mem_cons_of_mem _ hd)
      have hstart : ∀ sv ∈ GmsBest.start.bestSV, ReachesOffset heap fuel flags start target sv :=
        fun sv hsv => absurd hsv.symm (Option.some_ne_none sv)
      exact hvisit declarations (List.Subset.refl _) .start pInfo loop hstart hinfo hloop

end Compounds

/-- A type or member whose declarator is as large as its dimensions that are left say, and no
pointer to something that is searched. -/
structure MemberInfo.Whole (pMI : MemberInfo) : Prop where
  unindexed : pMI.pDecl = none → pMI.level = 0
  level : ∀ d ∈ pMI.pDecl, pMI.level ≤ d.dims.length
  sized : ∀ d ∈ pMI.pDecl, d.Sized
  size : ∀ d ∈ pMI.pDecl, levelSize d pMI.level = .ok (i32 pMI.size)
  nonneg : ∀ d ∈ pMI.pDecl, 0 ≤ i32 pMI.size
  target : ∀ d ∈ pMI.pDecl, d.pointer_flag = true →
    (∀ t, pMI.type ≠ .typedef t) ∧ ∀ kind s, pMI.type ≠ .compound kind s

section Member
variable {heap : Heap} {fuel : ℕ} {flags : GmFlags} {pMI : MemberInfo} {start : GmState}
  {target offset : ℤ}

/-- A chain that starts with a typedef starts with what `get_member` makes of it. -/
theorem gmsChain_typedef {follow turns t : ℕ} (hfollow : follow < fuel) {sv : String}
    {result : TypeSpec × Declarator × ℤ × String}
    (h : gmsChain heap follow turns (heap.typedefAt t).type (heap.typedefAt t).decl offset sv =
      .ok result) : ∃ turns' next, gmTypedefs heap fuel t = .ok next ∧
        gmsChain heap follow turns' next.1 next.2 offset sv = .ok result := by
  obtain ⟨fuel, rfl⟩ := Nat.exists_eq_succ_of_ne_zero (Nat.ne_of_gt (Nat.zero_lt_of_lt hfollow))
  cases turns with
  | zero => exact nomatch h
  | succ turns =>
    have hchain := h
    obtain ⟨-, rest, text, hdims, hnext⟩ := gmsChain_ok heap h
    by_cases hskip : (∃ t', (heap.typedefAt t).type = .typedef t') ∧
        (heap.typedefAt t).decl.pointer_flag = false ∧ (heap.typedefAt t).decl.isArray = false
    · -- a typedef that adds nothing is skipped by both
      obtain ⟨⟨t', htype⟩, hplain⟩ := hskip
      rcases hnext with ⟨hstop, -⟩ | ⟨-, t'', htype', next, hnext, hrest⟩
      · rcases hstop with hpointer | hother
        · rw [hpointer] at hplain
          exact absurd hplain.1.symm Bool.false_ne_true
        · exact absurd htype (hother t')
      · rw [htype] at htype'
        cases htype'
        have hnone : (heap.typedefAt t).decl.dims = [] := by
          by_contra hne
          have harray := Declarator.isArray_of_dims (List.length_pos_iff.mpr hne)
          rw [hplain.2] at harray
          exact Bool.false_ne_true harray
        rw [hnone] at hdims
        cases hdims
        refine ⟨turns, next, ?_, hrest⟩
        unfold gmTypedefs
        dsimp only
        rw [htype]
        dsimp only
        rw [if_pos hplain]
        exact gmTypedefs_mono (Nat.le_of_lt_succ hfollow) hnext
    · refine ⟨turns + 1, ((heap.typedefAt t).type, (heap.typedefAt t).decl), ?_, hchain⟩
      unfold gmTypedefs
      dsimp only
      split
      · rename_i t' htype
        rw [if_neg fun hplain => hskip ⟨⟨t', htype⟩, hplain⟩]
      · rfl

/-- Without a member that has no dot it does not matter whether the first may have none. -/
theorem gmWalk_dotted {infos : List MeWalkInfo} (h : Spelled false infos) (dotless : Bool)
    (st : GmState) : gmWalk heap fuel flags dotless st (infos ++ [.finished]) =
      gmWalk heap fuel flags false st (infos ++ [.finished]) := by
  cases infos with
  | nil => rfl
  | cons info infos =>
    have hstep : gmStep heap fuel flags dotless st info = gmStep heap fuel flags false st info := by
      cases info with
      | compoundMember name has_dot =>
        have hdot : has_dot = true := by
          apply Bool.eq_true_of_not_eq_false
          exact fun hfalse => absurd (h.2.1 hfalse) Bool.false_ne_true
        unfold gmStep gmMember
        rw [hdot]
        simp only [Bool.not_true, Bool.and_false]
      | _ => rfl
    rw [List.cons_append, gmWalk, gmWalk, hstep]

theorem Spelled.weaken {infos : List MeWalkInfo} (h : Spelled false infos) (first : Bool) :
    Spelled first infos := by
  cases infos with
  | nil => trivial
  | cons info infos =>
    cases info with
    | compoundMember name has_dot => exact ⟨h.1, fun hdot => absurd (h.2.1 hdot) Bool.false_ne_true, h.2.2⟩
    | arrayIndex index => exact h
    | offset n => exact h
    | _ => exact absurd h id

/-- A text that reaches an offset is accepted by `get_member`, which finds the offset. -/
theorem ReachesOffset.getMember (hstart : gmStart heap flags pMI = .ok start) {text : String}
    (h : ReachesOffset heap fuel flags start target text) :
    ∃ found, getMember heap fuel flags pMI text = .ok (some found) ∧ found.offset = target := by
  obtain ⟨infos, rfl, hspelled, hwalk⟩ := h
  obtain ⟨st, hst, hoffset⟩ := bind_ok hwalk
  have hexpr := memberExpr_memberText (hspelled.weaken true)
  refine ⟨⟨st.pType, st.pStruct, st.pDecl, st.level, st.offset, u32 st.size⟩, ?_,
    Except.ok.inj hoffset⟩
  unfold ConvertBinaryC.getMember
  dsimp only
  rw [hstart, call_bind_apply, hexpr, gmWalk_dotted hspelled, hst]

theorem appendMemberString_other {structRec : GmsStructFn} {sv : String} {pInfo : Option GMSInfo}
    {type : TypeSpec} (hother : ∀ t, type ≠ .typedef t) :
    appendMemberString heap fuel structRec type none offset sv pInfo =
      gmsTarget structRec type false offset sv pInfo := by
  cases type with
  | typedef t => exact absurd rfl (hother t)
  | _ => rfl

theorem onPath_nil (hpos : 0 ≤ start.offset) (hoffset : 0 ≤ offset)
    (hsum : start.offset + offset = target) :
    OnPath heap fuel flags start target "" start offset :=
  ⟨[], rfl, pathSteps_nil, Leads.refl start, hpos, hoffset, hsum⟩

variable (hflags : flags.Computes) (haddr : heap.Addressable fuel) {turns : ℕ}
  (hturns : turns < fuel) (hwhole : pMI.Whole) (hoffset : IsOffset offset)
include hflags haddr hturns hwhole hoffset

/-- What is found behind the dimensions that are written first. -/
theorem appendMemberString_keeps {st : GmState} {d : Declarator} {rest : ℤ} {sv : String}
    (hmem : pMI.pDecl = some d) (htype : st.pType = pMI.type) (hdecl : st.pDecl = some d)
    (hlevel : st.level = d.dims.length)
    (hpath : OnPath heap fuel flags start offset sv st rest) :
    CallKeeps (ReachesOffset heap fuel flags start offset)
      (appendMemberString heap turns (getMemberStringRec heap turns) pMI.type none rest sv) := by
  have hrec := @getMemberStringRec_keeps heap fuel flags start offset hflags haddr hoffset.2 turns
    hturns.le
  intro pInfo found hinfo h
  by_cases htypedef : ∃ t, pMI.type = .typedef t
  · obtain ⟨t, hpType⟩ := htypedef
    rw [hpType] at h htype
    have hpointer : d.pointer_flag = false := by
      apply Bool.eq_false_of_not_eq_true
      exact fun hpointer => (hwhole.target d hmem hpointer).1 t hpType
    have hbefore : ¬ 0 < (heap.typedefAt t).decl.offset := not_lt.mpr (haddr.placed.typedef t)
    unfold appendMemberString gmsDeclared at h
    dsimp only at h
    rw [if_neg hbefore] at h
    obtain ⟨⟨type, decl, left, text⟩, hchain, h⟩ := bind_ok h
    obtain ⟨turns', next, hnext, hchain⟩ := gmsChain_typedef hturns hchain
    have hleads := leads_typedef hflags haddr.sized.typedef hdecl htype hpointer hlevel hnext
    obtain ⟨path, htext, hpath, hlead, hpos, hrest, hsum⟩ := hpath
    have hlead' := hlead.trans hleads
    rw [List.append_nil] at hlead'
    exact gmsChain_keeps hflags haddr hoffset.2 hrec hturns.le
      (gmTypedefs_decl haddr.sized.typedef hnext) ⟨path, htext, hpath, hlead', hpos, hrest, hsum⟩
      ⟨rfl, rfl, rfl, rfl⟩ hchain pInfo found hinfo h
  · have hother : ∀ t, pMI.type ≠ .typedef t := fun t ht => htypedef ⟨t, ht⟩
    rw [appendMemberString_other hother] at h
    have hbehind : st.Behind pMI.type d := ⟨htype, hdecl, hlevel, .inr hother⟩
    apply gmsTarget_keeps hflags hoffset.2 hrec hpath hbehind.resolve _ pInfo found hinfo h
    intro kind s _ hcompound
    rw [hcompound] at hbehind
    apply hbehind.compound
    apply Bool.eq_false_of_not_eq_true
    intro hpointer
    exact (hwhole.target d hmem hpointer).2 kind s hcompound

/-- Without a declarator the text is empty before the members of the type. -/
theorem appendMemberString_keeps_type (hnone : pMI.pDecl = none) :
    ∃ start, gmStart heap flags pMI = .ok start ∧ CallKeeps (ReachesOffset heap fuel flags start offset)
      (appendMemberString heap turns (getMemberStringRec heap turns) pMI.type none offset "") := by
  have hlevel : pMI.level = 0 := hwhole.unindexed hnone
  have hstart : gmStart heap flags pMI = (gmStartSize flags (gmBase heap pMI).2 0 >>= fun size =>
      .ok ⟨(gmBase heap pMI).1, (gmBase heap pMI).2, none, none, 0, 0, size⟩) := by
    unfold gmStart
    rw [hlevel]
  by_cases htypedef : ∃ t, pMI.type = .typedef t
  · obtain ⟨t, hpType⟩ := htypedef
    have hbase : gmBase heap pMI = ((heap.typedefAt t).type, some (heap.typedefAt t).decl) := by
      unfold gmBase
      rw [hnone, hpType]
    have hsize : gmStartSize flags (some (heap.typedefAt t).decl) 0 =
        .ok (heap.typedefAt t).decl.size := by
      unfold gmStartSize
      rw [hflags.computed, if_pos rfl]
      rfl
    rw [hbase, hsize] at hstart
    refine ⟨_, hstart, ?_⟩
    have hrec := @getMemberStringRec_keeps heap fuel flags
      ⟨(heap.typedefAt t).type, some (heap.typedefAt t).decl, none, none, 0, 0,
        (heap.typedefAt t).decl.size⟩ offset hflags haddr hoffset.2 turns hturns.le
    rw [hpType]
    exact gmsDeclared_keeps hflags haddr hoffset.2 hrec hturns.le (haddr.sized.typedef t)
      (if_neg (not_lt.mpr (haddr.placed.typedef t))) (onPath_nil le_rfl hoffset.1 (zero_add offset))
      ⟨rfl, rfl, rfl, rfl⟩
  · have hother : ∀ t, pMI.type ≠ .typedef t := fun t ht => htypedef ⟨t, ht⟩
    have hbase : gmBase heap pMI = (pMI.type, none) := by
      unfold gmBase
      rw [hnone]
      split
      · rename_i t _ ht
        exact absurd ht (hother t)
      · rfl
    have hsize : gmStartSize flags none 0 = .ok (-1) := by
      unfold gmStartSize
      rw [hflags.computed, if_pos rfl]
    rw [hbase, hsize] at hstart
    refine ⟨_, hstart, ?_⟩
    have hrec := @getMemberStringRec_keeps heap fuel flags ⟨pMI.type, none, none, none, 0, 0, -1⟩
      offset hflags haddr hoffset.2 turns hturns.le
    have hself : gmResolve heap fuel flags ⟨pMI.type, none, none, none, 0, 0, -1⟩ =
        .ok ⟨pMI.type, none, none, none, 0, 0, -1⟩ := gmResolve_self fun d hd => nomatch hd
    have hcall : appendMemberString heap turns (getMemberStringRec heap turns) pMI.type none offset ""
        = gmsTarget (getMemberStringRec heap turns) pMI.type false offset "" := by
      funext pInfo
      exact appendMemberString_other hother
    rw [hcall]
    apply gmsTarget_keeps hflags hoffset.2 hrec (onPath_nil le_rfl hoffset.1 (zero_add offset)) hself
    intro kind s _ hcompound
    refine ⟨_, hself, rfl, fun name => ?_⟩
    unfold gmCompound
    rw [hcompound]
    rfl

/-- The start of `get_member` is where the strings of `get_member_string` lead from. -/
theorem getMemberString_keeps : ∃ start, gmStart heap flags pMI = .ok start ∧
    ∀ rest sv, gmsRemainder pMI offset = .ok (rest, sv) →
      CallKeeps (ReachesOffset heap fuel flags start offset)
        (appendMemberString heap turns (getMemberStringRec heap turns) pMI.type none rest sv) := by
  have hdecl : pMI.pDecl = none ∨ ∃ d, pMI.pDecl = some d := by
    cases pMI.pDecl with
    | none => exact .inl rfl
    | some d => exact .inr ⟨d, rfl⟩
  rcases hdecl with hnone | ⟨d, hsome⟩
  · obtain ⟨start, hstart, hkeeps⟩ :=
      appendMemberString_keeps_type hflags haddr hturns hwhole hoffset hnone
    refine ⟨start, hstart, fun rest sv hrest => ?_⟩
    unfold gmsRemainder at hrest
    rw [hnone] at hrest
    cases hrest
    exact hkeeps
  · have hbase : gmBase heap pMI = (pMI.type, some d) := by
      unfold gmBase
      rw [hsome]
    refine ⟨⟨pMI.type, some d, none, none, pMI.level, 0, i32 pMI.size⟩, ?_, ?_⟩
    · unfold gmStart gmStartSize
      dsimp only
      rw [hbase, hflags.computed, if_pos rfl]
      dsimp only
      rw [hwhole.size d hsome]
      rfl
    · intro rest sv hrest
      unfold gmsRemainder at hrest
      rw [hsome] at hrest
      have hsizeInt : IsInt (i32 pMI.size) := ⟨Int.le_bmod (by decide), Int.bmod_lt (by decide)⟩
      obtain ⟨path, st, hpath, htext, hleads, htype, hdecl, hlevel, hpos, hleft, hsum⟩ :=
        @leads_dims heap fuel flags d hflags (hwhole.sized d hsome) _
          ⟨pMI.type, some d, none, none, pMI.level, 0, i32 pMI.size⟩ offset rest "" sv rfl rfl
          (hwhole.level d hsome) (hwhole.nonneg d hsome) hsizeInt hoffset.1 le_rfl
          (by rw [zero_add]; exact hoffset.2) hrest
      apply appendMemberString_keeps hflags haddr hturns hwhole hoffset hsome htype hdecl hlevel
      refine ⟨path, ?_, hpath, hleads, hpos, hleft, ?_⟩
      · rw [htext, String.empty_append]
      · rw [hsum]
        exact zero_add offset

/-- `offsetof` is the inverse of `member`: every string that `member` finds or lists for an offset
is a member expression that leads to the offset. -/
theorem getMember_of_getMemberString {info info' : Option GMSInfo} {member : Option String}
    (hempty : ∀ i ∈ info, i = .empty)
    (h : getMemberString heap turns pMI offset info = .ok (member, info')) {text : String}
    (htext : text ∈ member ∨ ∃ i ∈ info', text ∈ i.hit ++ (i.off ++ i.pad)) :
    ∃ found, getMember heap fuel flags pMI text = .ok (some found) ∧ found.offset = offset := by
  obtain ⟨start, hstart, hkeeps⟩ := getMemberString_keeps hflags haddr hturns hwhole hoffset
  obtain ⟨⟨rest, sv⟩, hrest, h⟩ := bind_ok h
  obtain ⟨found, hfound, h⟩ := bind_ok h
  obtain ⟨hmember, hinfo⟩ := Prod.mk.inj (Except.ok.inj h)
  have hlists : ∀ i ∈ info, i.All (ReachesOffset heap fuel flags start offset) := by
    intro i hi sv hsv
    rw [hempty i hi] at hsv
    exact absurd hsv List.not_mem_nil
  have hfoundKeeps := hkeeps rest sv hrest info found hlists hfound
  rcases htext with htext | ⟨i, hi, htext⟩
  · rw [← hmember] at htext
    split_ifs at htext with hnone
    · exact nomatch htext
    · rw [← Option.some.inj htext]
      exact (hfoundKeeps.string hnone).getMember hstart
  · rw [← hinfo] at hi
    exact (hfoundKeeps.listed i hi text htext).getMember hstart

end Member

theorem variantHeap_sized : variantHeap.Declarators Declarator.Sized where
  member := by
    have hall : ∀ pStruct ∈ [variantUnion, recordStruct],
        ∀ pStructDecl ∈ pStruct.declarations.getD [], ∀ d ∈ pStructDecl.declarators.getD [],
          (d.ext ≠ .array [] ∧ IsInt d.size ∧ IsInt d.item_size) ∧
            ∀ pValue ∈ d.dims, 0 ≤ pValue.iv ∧ (pValue.undef = true → pValue.iv = 0) := by decide
    intro s pStructDecl hdecl d hd
    have hsized := hall (variantHeap.structAt s) (by cases s <;> simp [variantHeap]) pStructDecl hdecl d hd
    exact ⟨hsized.1, hsized.2⟩
  typedef := by
    have hdecl : (declNew "").Sized :=
      ⟨⟨by decide, by decide, by decide⟩, fun _ h => absurd h List.not_mem_nil⟩
    exact fun _ => hdecl

theorem variantHeap_addressable : variantHeap.Addressable 4 where
  placed := variantHeap_placed
  members := by
    have hnames : ∀ identifier ∈ ["i", "r", "h", "c", "n"], IsName identifier.toList := by
      have hletter (c : Char) (hc : isMemberStart c = true) : IsName [c] :=
        ⟨c, [], rfl, hc, fun _ h => absurd h List.not_mem_nil⟩
      intro identifier hmem
      simp only [List.mem_cons, List.not_mem_nil, or_false] at hmem
      rcases hmem with rfl | rfl | rfl | rfl | rfl <;> exact hletter _ (by decide)
    have hall : ∀ pStruct ∈ [variantUnion, recordStruct],
        ∀ pStructDecl ∈ pStruct.declarations.getD [], ∀ d ∈ pStructDecl.declarators.getD [],
          0 ≤ d.offset ∧ d.identifier ∈ ["i", "r", "h", "c", "n"] := by decide
    intro s pStructDecl hdecl d hd
    have hmember := hall (variantHeap.structAt s) (by cases s <;> simp [variantHeap]) pStructDecl
      hdecl d hd
    exact ⟨hmember.1, hnames _ hmember.2⟩
  sized := variantHeap_sized
  visible := by
    intro s
    cases s with
    | zero =>
      refine ⟨[⟨[0], .basic T_INT, memberAt "i" 0 4 4⟩, ⟨[0], .compound .struct 1, memberAt "r" 0 8 8⟩,
        ⟨[0], .basic T_SHORT, arrayAt "h" 0 8 2 [⟨4, false, false⟩]⟩], rfl, by decide⟩
    | succ s =>
      refine ⟨[⟨[0], .basic T_CHAR, memberAt "c" 0 1 1⟩, ⟨[4], .basic T_INT, memberAt "n" 4 4 4⟩],
        rfl, by decide⟩

theorem variantInfo_whole : variantInfo.Whole where
  unindexed := fun _ => rfl
  level := fun _ h => nomatch h
  sized := fun _ h => nomatch h
  size := fun _ h => nomatch h
  nonneg := fun _ h => nomatch h
  target := fun _ h => nomatch h

/-- `.h[1]` and the padding `.r+2` are at offset 2. -/
theorem getMember_of_getMemberString_variant :
    (∃ found, getMember variantHeap 4 .none variantInfo ".h[1]" = .ok (some found) ∧
      found.offset = 2) ∧
    ∃ found, getMember variantHeap 4 .none variantInfo ".r+2" = .ok (some found) ∧
      found.offset = 2 := by
  have hlisted : getMemberString variantHeap 3 variantInfo 2 (some .empty) =
      .ok (some ".h[1]", some ⟨[".h[1]"], [".i+2"], [".r+2"], [".r+2"]⟩) := by decide +kernel
  constructor
  · exact getMember_of_getMemberString ⟨rfl, rfl, rfl⟩ variantHeap_addressable (by decide)
      variantInfo_whole ⟨by decide, by decide⟩ (fun _ hi => (Option.some.inj hi).symm) hlisted
      (.inl rfl)
  · exact getMember_of_getMemberString ⟨rfl, rfl, rfl⟩ variantHeap_addressable (by decide)
      variantInfo_whole ⟨by decide, by decide⟩ (fun _ hi => (Option.some.inj hi).symm) hlisted
      (.inr ⟨_, rfl, by decide⟩)

end ConvertBinaryC
