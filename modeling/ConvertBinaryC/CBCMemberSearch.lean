import ConvertBinaryC.CBCMemberPlace
import ConvertBinaryC.CBCPackRules

/-! The search for a member: `search_struct_member` (`cbc/member.c`) stops at the first
visible member of a name, with an offset that is added up from the inside out. -/
namespace ConvertBinaryC
open FoldRules

/-- An error that is not reported. -/
def Unreported (e : Fault) : Prop := ∀ err, e ≠ .croak err

/-- The offset that `search_struct_member` adds up before it cuts off a negative one. -/
def searchedOffset : List ℤ → Call ℤ
  | [] => .ok 0
  | [offset] => .ok offset
  | offset :: offsets => do
    let inner ← searchedOffset offsets
    int (offset + max 0 inner)

/-- Every sum from the inside out is an int that is not negative. -/
def OffsetsFit : List ℤ → Prop
  | [] => True
  | [offset] => 0 ≤ offset
  | offset :: offsets => OffsetsFit offsets ∧ 0 ≤ offset + offsets.sum ∧
      offset + offsets.sum < 2147483648

section Offsets

/-- What is cut off only makes the offset larger. -/
theorem sum_le_searchedOffset {offsets : List ℤ} {r : ℤ} (h : searchedOffset offsets = .ok r) :
    offsets.sum ≤ r := by
  induction offsets generalizing r with
  | nil =>
    cases h
    exact le_rfl
  | cons offset offsets ih =>
    cases offsets with
    | nil =>
      cases h
      rw [List.sum_cons, List.sum_nil, add_zero]
    | cons next offsets =>
      obtain ⟨inner, hinner, h⟩ := bind_ok h
      have hsum : (next :: offsets).sum ≤ inner := ih hinner
      have hr : r = offset + max 0 inner := (int_ok_iff.mp h).2
      have hmax : inner ≤ max 0 inner := le_max_right 0 inner
      rw [List.sum_cons, hr]
      omega

theorem searchedOffset_iff (offsets : List ℤ) :
    (∃ r, searchedOffset offsets = .ok r ∧ max 0 r = offsets.sum) ↔ OffsetsFit offsets := by
  induction offsets with
  | nil => exact iff_of_true ⟨0, rfl, rfl⟩ trivial
  | cons offset offsets ih =>
    cases offsets with
    | nil =>
      rw [List.sum_cons, List.sum_nil, add_zero]
      constructor
      · rintro ⟨r, hr, hmax⟩
        cases hr
        exact max_eq_right_iff.mp hmax
      · intro hpos
        exact ⟨offset, rfl, max_eq_right hpos⟩
    | cons next offsets =>
      set rest := next :: offsets
      have hcons : (offset :: rest).sum = offset + rest.sum := List.sum_cons
      rw [hcons]
      constructor
      · rintro ⟨r, hr, hmax⟩
        obtain ⟨inner, hinner, hr⟩ := bind_ok hr
        obtain ⟨hint, hsum⟩ := int_ok_iff.mp hr
        have hle : rest.sum ≤ inner := sum_le_searchedOffset hinner
        have hbound : offset + max 0 inner < 2147483648 := hint.2
        -- a larger inner offset would stay larger
        have hexact : max 0 inner = rest.sum := by
          rw [hsum] at hmax
          omega
        refine ⟨ih.mp ⟨inner, hinner, hexact⟩, ?_, ?_⟩
        · have hpos : 0 ≤ max 0 r := le_max_left 0 r
          omega
        · omega
      · rintro ⟨hfit, hpos, hbound⟩
        obtain ⟨inner, hinner, hexact⟩ := ih.mpr hfit
        have hint : IsInt (offset + max 0 inner) := by
          rw [hexact]
          exact ⟨by omega, hbound⟩
        refine ⟨offset + max 0 inner, ?_, ?_⟩
        · show (searchedOffset rest >>= fun inner => int (offset + max 0 inner)) = _
          rw [hinner]
          exact int_ok_iff.mpr ⟨hint, rfl⟩
        · rw [hexact]
          exact max_eq_right hpos

end Offsets

section Search
variable {heap : Heap}

/-- The result of a search that stops at an entry, with what is done to the offset. -/
def StopsAt (adjust : ℤ → ℤ) (entry : Option (Option VisibleMember))
    (r : Call (Option FoundMember)) : Prop :=
  match entry with
  | none => r = .ok none
  | some none => ∃ e, r = .error e ∧ Unreported e
  | some (some m) => r = (searchedOffset m.offsets >>= fun offset =>
      .ok (some ⟨adjust offset, m.type, m.pDecl⟩))

theorem followTypedef_unreported {fuel t : ℕ} {e : Fault}
    (h : followTypedef heap fuel t = .error e) : Unreported e := by
  induction fuel generalizing t with
  | zero =>
    cases h
    exact fun err h => nomatch h
  | succ fuel ih =>
    unfold followTypedef at h
    dsimp only at h
    split at h
    · split_ifs at h
      exact ih h
    · exact nomatch h

theorem followTsptr_unreported {fuel : ℕ} {type : TypeSpec} {e : Fault}
    (h : followTsptr heap fuel type = .error e) : Unreported e := by
  have hfatal : Unreported (.fatal "Unnamed member was not struct or union") := by
    unfold Unreported
    simp
  cases type with
  | typedef t =>
    unfold followTsptr at h
    dsimp only at h
    cases hfollow : followTypedef heap fuel t with
    | error e' =>
      rw [hfollow] at h
      cases h
      exact followTypedef_unreported hfollow
    | ok pTS =>
      rw [hfollow] at h
      cases pTS with
      | compound kind s => cases h
      | _ =>
        cases h
        exact hfatal
  | compound kind s => cases h
  | _ =>
    cases h
    exact hfatal

/-- The entries that one declaration makes visible. -/
def declaredMembers (heap : Heap) (fuel : ℕ) (pStructDecl : StructDeclaration) :
    List (Option VisibleMember) :=
  match pStructDecl.declarators with
  | some declarators => declarators.map fun pDecl => some ⟨[pDecl.offset], pStructDecl.type, pDecl⟩
  | none =>
    match followTsptr heap fuel pStructDecl.type with
    | .ok s => (visibleMembers heap fuel s).map (Option.map (VisibleMember.behind pStructDecl.offset))
    | .error _ => [none]

theorem visibleMembers_succ (fuel s : ℕ) : visibleMembers heap (fuel + 1) s =
    ((heap.structAt s).declarations.getD []).flatMap (declaredMembers heap fuel) := rfl

theorem visibleMembers_offsets {fuel s : ℕ} {m : VisibleMember}
    (h : some m ∈ visibleMembers heap fuel s) : m.offsets ≠ [] := by
  induction fuel generalizing s m with
  | zero =>
    rw [visibleMembers, List.mem_singleton] at h
    exact nomatch h
  | succ fuel ih =>
    rw [visibleMembers_succ, List.mem_flatMap] at h
    obtain ⟨pStructDecl, -, hm⟩ := h
    unfold declaredMembers at hm
    split at hm
    · obtain ⟨pDecl, -, heq⟩ := List.mem_map.mp hm
      cases heq
      exact List.cons_ne_nil _ _
    · split at hm
      · obtain ⟨entry, -, heq⟩ := List.mem_map.mp hm
        obtain ⟨inner, -, rfl⟩ := Option.map_eq_some_iff.mp heq
        exact List.cons_ne_nil _ _
      · rw [List.mem_singleton] at hm
        exact nomatch hm

/-- `search_struct_member` stops at the first entry with the name or at a gap before it. -/
theorem searchDeclarations_stops {fuel : ℕ} {search : ℕ → Call (Option FoundMember)}
    (elem : String) (hsearch : ∀ s, StopsAt (max 0)
      ((visibleMembers heap fuel s).find? (stopsSearch elem)) (search s))
    (declarations : List StructDeclaration) :
    StopsAt id ((declarations.flatMap (declaredMembers heap fuel)).find? (stopsSearch elem))
      (searchDeclarations heap fuel search elem declarations) := by
  induction declarations with
  | nil => rfl
  | cons pStructDecl declarations ih =>
    rw [List.flatMap_cons, List.find?_append]
    unfold searchDeclarations declaredMembers
    cases hdecls : pStructDecl.declarators with
    | some declarators =>
      dsimp only
      rw [List.find?_map]
      have hname : (stopsSearch elem ∘ fun pDecl =>
          some (⟨[pDecl.offset], pStructDecl.type, pDecl⟩ : VisibleMember)) =
          fun pDecl => decide (pDecl.identifier = elem) := rfl
      rw [hname]
      cases declarators.find? fun pDecl => decide (pDecl.identifier = elem) with
      | some pDecl => rfl
      | none => exact ih
    | none =>
      dsimp only
      cases hfollow : followTsptr heap fuel pStructDecl.type with
      | error e =>
        -- the search ends at an unnamed member that is no compound
        exact ⟨e, rfl, followTsptr_unreported hfollow⟩
      | ok s =>
        have hinner := hsearch s
        have hname : (stopsSearch elem ∘ Option.map (VisibleMember.behind pStructDecl.offset)) =
            stopsSearch elem := by
          funext entry
          cases entry with
          | none => rfl
          | some m => rfl
        dsimp only
        rw [List.find?_map, hname]
        cases hfind : (visibleMembers heap fuel s).find? (stopsSearch elem) with
        | none =>
          rw [hfind] at hinner
          have hnone : search s = .ok none := hinner
          rw [call_bind_apply, hnone]
          exact ih
        | some entry =>
          rw [hfind] at hinner
          cases entry with
          | none =>
            obtain ⟨e, he, hunreported⟩ := hinner
            rw [call_bind_apply, he]
            exact ⟨e, rfl, hunreported⟩
          | some m =>
            have hfound : search s = (searchedOffset m.offsets >>= fun offset =>
              .ok (some ⟨max 0 offset, m.type, m.pDecl⟩)) := hinner
            have hne := visibleMembers_offsets (List.mem_of_find?_eq_some hfind)
            obtain ⟨offset, offsets, hcons⟩ := List.exists_cons_of_ne_nil hne
            rw [call_bind_apply, hfound]
            show _ = (searchedOffset (pStructDecl.offset :: m.offsets) >>= _)
            rw [hcons]
            show _ = ((searchedOffset (offset :: offsets) >>= fun inner =>
              int (pStructDecl.offset + max 0 inner)) >>= _)
            cases searchedOffset (offset :: offsets) with
            | error e => rfl
            | ok inner => rfl

theorem searchStructMember_stops (elem : String) (fuel s : ℕ) :
    StopsAt (max 0) ((visibleMembers heap fuel s).find? (stopsSearch elem))
      (searchStructMember heap elem fuel s) := by
  induction fuel generalizing s with
  | zero => exact ⟨.outOfFuel, rfl, fun err h => nomatch h⟩
  | succ fuel ih =>
    have hdecls := searchDeclarations_stops elem ih ((heap.structAt s).declarations.getD [])
    rw [visibleMembers_succ]
    unfold searchStructMember
    cases hfind : (((heap.structAt s).declarations.getD []).flatMap
        (declaredMembers heap fuel)).find? (stopsSearch elem) with
    | none =>
      rw [hfind] at hdecls
      have hnone : searchDeclarations heap fuel (searchStructMember heap elem fuel) elem
          ((heap.structAt s).declarations.getD []) = .ok none := hdecls
      rw [hnone]
      rfl
    | some entry =>
      rw [hfind] at hdecls
      cases entry with
      | none =>
        obtain ⟨e, he, hunreported⟩ := hdecls
        rw [he]
        exact ⟨e, rfl, hunreported⟩
      | some m =>
        have hfound : searchDeclarations heap fuel (searchStructMember heap elem fuel) elem
            ((heap.structAt s).declarations.getD []) = (searchedOffset m.offsets >>= fun offset =>
              .ok (some ⟨offset, m.type, m.pDecl⟩)) := hdecls
        rw [hfound]
        show _ = (searchedOffset m.offsets >>= _)
        cases searchedOffset m.offsets with
        | error e => rfl
        | ok offset => rfl

theorem visibleMembers_declarators {P : Declarator → Prop} (hP : heap.Declarators P)
    {fuel s : ℕ} {m : VisibleMember} (h : some m ∈ visibleMembers heap fuel s) : P m.pDecl := by
  induction fuel generalizing s m with
  | zero =>
    rw [visibleMembers, List.mem_singleton] at h
    exact nomatch h
  | succ fuel ih =>
    rw [visibleMembers_succ, List.mem_flatMap] at h
    obtain ⟨pStructDecl, hdecl, hm⟩ := h
    unfold declaredMembers at hm
    split at hm
    · rename_i declarators hdeclarators
      obtain ⟨pDecl, hmem, heq⟩ := List.mem_map.mp hm
      cases heq
      apply hP.member s pStructDecl hdecl
      rw [hdeclarators]
      exact hmem
    · split at hm
      · obtain ⟨entry, hentry, heq⟩ := List.mem_map.mp hm
        obtain ⟨inner, rfl, rfl⟩ := Option.map_eq_some_iff.mp heq
        show P inner.pDecl
        exact ih hentry
      · rw [List.mem_singleton] at hm
        exact nomatch hm

end Search

end ConvertBinaryC
