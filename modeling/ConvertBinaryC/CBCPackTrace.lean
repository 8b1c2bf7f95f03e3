import ConvertBinaryC.CBCPackRules

/-! What packing and unpacking do to the buffer, as the events of a run. -/
namespace ConvertBinaryC
open StateRules

/-- Between the two states the run did what has the property. -/
def Did (good : Event → Prop) (s t : PackInfo) : Prop :=
  ∃ events, t.trace = s.trace ++ events ∧ ∀ e ∈ events, good e

theorem Did.refl (good : Event → Prop) (s : PackInfo) : Did good s s :=
  ⟨[], (List.append_nil _).symm, fun _ h => nomatch h⟩

theorem Did.of_trace {good : Event → Prop} {s t : PackInfo} (h : t.trace = s.trace) :
    Did good s t := ⟨[], h.trans (List.append_nil _).symm, fun _ h => nomatch h⟩

theorem Did.one {good : Event → Prop} {s t : PackInfo} {e : Event} (h : t.trace = s.trace ++ [e])
    (he : good e) : Did good s t := by
  refine ⟨[e], h, ?_⟩
  intro e' hmem
  rwa [List.mem_singleton.mp hmem]

theorem Did.trans {good : Event → Prop} {s t u : PackInfo} (h : Did good s t) (h' : Did good t u) :
    Did good s u := by
  obtain ⟨events, hst, hgood⟩ := h
  obtain ⟨events', htu, hgood'⟩ := h'
  refine ⟨events ++ events', ?_, ?_⟩
  · rw [htu, hst, List.append_assoc]
  · intro e hmem
    rcases List.mem_append.mp hmem with hmem | hmem
    · exact hgood e hmem
    · exact hgood' e hmem

theorem Did.mono {good good' : Event → Prop} {s t : PackInfo} (h : Did good s t)
    (hgood : ∀ e, good e → good' e) : Did good' s t := by
  obtain ⟨events, hst, hevents⟩ := h
  exact ⟨events, hst, fun e hmem => hgood e (hevents e hmem)⟩

/-- `CHECK_BUFFER` only moves the position. -/
theorem checkBuffer_eq (size : ℤ) (s : PackInfo) :
    ∃ short pos, checkBuffer size s = .ok short { s with pos := pos } := by
  by_cases h : u64 (s.pos + size) > s.length
  · refine ⟨true, s.length, ?_⟩
    show (if _ then _ else _ : Pk Bool) s = _
    rw [if_pos h]
    rfl
  · refine ⟨false, s.pos, ?_⟩
    show (if _ then _ else _ : Pk Bool) s = _
    rw [if_neg h]
    rfl

/-- All declarators are fine. -/
theorem declarators_true (heap : Heap) : heap.Declarators fun _ => True :=
  ⟨fun _ _ _ _ _ => trivial, fun _ => trivial⟩

def Event.isGrow : Event → Bool
  | .grow .. => true
  | _ => false

/-- What is done has the property. -/
def didEffect (good : Event → Prop) : Effect Fault PackInfo where
  returns s t := Did good s t
  fails s _ t := Did good s t
  refl := Did.refl good
  trans := Did.trans
  absorb := Did.trans

section
variable {good : Event → Prop}

theorem did_emit {s : PackInfo} {e : Event} (h : good e) : (didEffect good).At (emit e) s :=
  Did.one rfl h

theorem did_lift {α : Type} (c : Call α) : (didEffect good).Holds (liftCall c) := by
  cases c with
  | ok a => exact Effect.holds_pure a
  | error e => exact fun s => Did.refl good s

/-- Also what a run did that failed. -/
theorem did_final {α : Type} {m : Pk α} (h : (didEffect good).Holds m) (s : PackInfo) :
    Did good s (finalState (m s)) := by
  have hs := h s
  unfold Effect.At at hs
  cases hm : m s with
  | ok a t =>
    rw [hm] at hs
    exact hs
  | error e t =>
    rw [hm] at hs
    exact hs

theorem did_indifferent (perl : Perl) : Indifferent (didEffect good) perl where
  pos x s := by
    show Did good s { s with pos := u64 x }
    exact Did.of_trace rfl
  parent h s := by
    show Did good s { s with parent := h }
    exact Did.of_trace rfl
  sub sub arg := by
    intro s
    apply Effect.At.get_bind
    have hset : (didEffect good).At (set { s with calls := s.calls + 1 } : Pk PUnit) s :=
      Effect.At.set (Did.of_trace rfl)
    apply hset.bind
    intro _ t _
    split
    · exact Effect.holds_pure _ t
    · exact Did.refl good t
  fault e _ s := Did.refl good s
  order _ _ := Did.of_trace rfl
  path _ _ := Did.of_trace rfl

theorem did_buffer (s : PackInfo) (buffer : Memory) (length cur : ℤ) :
    (didEffect good).returns s { s with buffer := buffer, length := length, cur := cur } :=
  Did.of_trace rfl

theorem did_packFormat (perl : Perl) (hgood : ∀ e, good e) (format : FormatTag) (size : ℤ)
    (flexible : Bool) (sv : SV) :
    (didEffect good).Holds (packFormat perl format size flexible sv) :=
  (did_indifferent perl).closed.packFormat did_buffer format sv (fun _ _ s => Did.refl good s)
    (fun _ _ => did_emit (hgood _)) fun _ _ => did_emit (hgood _)

/-- Packing adds to what was done. -/
theorem did_packClosed (perl : Perl) (cbc : CBC) (hgood : ∀ e, good e) :
    PackClosed (didEffect good) perl cbc fun _ => True where
  toClosed := (did_indifferent perl).closed
  grow _ _ := (did_indifferent perl).closed.grow did_buffer (did_emit (hgood _))
  store _ _ iv _ := (did_indifferent perl).closed.storeInt did_buffer iv (did_emit (hgood _))
  storeFloat _ flags v _ :=
    (did_indifferent perl).closed.storeFloatSv did_buffer flags v (did_emit (hgood _))
  elements _ _ _ _ _ _ _ := did_emit (hgood _)
  format _ _ _ _ _ _ := (did_indifferent perl).within _ (did_packFormat perl hgood _ _ _ _)
  declaratorFormat d _ _ _ _ := by
    apply (did_indifferent perl).within
    apply ((did_indifferent perl).closed.prepare (did_lift _)).bind
    rintro ⟨size, flexible⟩
    exact did_packFormat perl hgood _ _ _ _

section Unpack
variable (perl : Perl) (cbc : CBC) (hgood : ∀ e : Event, e.isGrow = false → good e)
include perl hgood

omit perl hgood in
theorem did_check (size : ℤ) : (didEffect good).Holds (checkBuffer size) := by
  intro s
  obtain ⟨short, pos, hcheck⟩ := checkBuffer_eq size s
  unfold Effect.At
  rw [hcheck]
  exact Did.of_trace rfl

theorem did_fetchInt (size : ℤ) (sign : Bool) (pBI : Option BitfieldInfo) :
    (didEffect good).Holds (fetchInt cbc size sign pBI) :=
  fun _ => (did_indifferent perl).closed.fetchInt sign (did_emit (hgood _ rfl))

theorem did_unpackFormat (format : FormatTag) (size : ℤ) (flexible : Bool) :
    (didEffect good).Holds (unpackFormat format size flexible) :=
  fun s => (did_indifferent perl).closed.unpackFormat format (fun _ _ => Did.refl good s)
    fun _ => did_emit (hgood _ rfl)

theorem did_head (d : Declarator) (dimension : ℕ) (dimtag : Option DimensionTag) :
    (didEffect good).Holds (unpackArrayHead perl d dimension dimtag) :=
  fun s => (did_indifferent perl).closed.head (fun _ => Did.refl _ s)
    fun _ _ _ _ _ _ _ => did_emit (hgood _ rfl)

/-- Unpacking does not make the buffer grow. -/
theorem did_unpackClosed : UnpackClosed (didEffect good) perl cbc fun _ => True where
  toClosed := (did_indifferent perl).closed
  check := did_check
  fetch := did_fetchInt perl cbc hgood
  fetchFloat _ flags _ :=
    (did_indifferent perl).closed.fetchFloatSv flags (did_emit (hgood _ rfl))
  enum := (did_indifferent perl).unpackEnum did_check (did_fetchInt perl cbc hgood)
    fun format size => did_unpackFormat perl hgood format size false
  head d dimension dimtag _ _ _ := did_head perl hgood d dimension dimtag
  format _ _ _ _ _ := (did_indifferent perl).within _ (did_unpackFormat perl hgood _ _ _)
  declaratorFormat d _ _ _ := by
    apply (did_indifferent perl).within
    apply ((did_indifferent perl).closed.prepare (did_lift _)).bind
    rintro ⟨size, flexible⟩
    exact did_unpackFormat perl hgood _ _ _

end Unpack

end

end ConvertBinaryC
