import ConvertBinaryC.CBCOption
import ConvertBinaryC.ScanRules

/-! Is an option that raises an error left alone? Most handlers check a value before they write. The
string lists, the options with three states and the properties of the engine in use do not. -/
namespace ConvertBinaryC
open FieldRules StateRules ScanRules

/-- The errors of Perl, which the caller can catch. -/
def Fault.IsRaised (e : Fault) : Prop := ∃ msg, e = .croak msg

variable {perl : Perl} {address : SV → IV} {cfg : Config} {sv_val : Option SV}

section Updates

theorem updateOpt_quiet {α : Type} [DecidableEq α] (config : RecordField Config α) (val : α) :
    Quiet Fault.IsRaised (updateOpt config val) := by
  refine quiet_get.bind fun cfg => ?_
  split_ifs
  · exact (quiet_set _).bind fun _ => quiet_pure true
  · exact quiet_pure false

theorem updateFlag_quiet (flag : RecordField Config Bool) (iv : ℤ) :
    Quiet Fault.IsRaised (updateFlag flag iv) := by
  refine quiet_get.bind fun cfg => ?_
  split_ifs
  · exact (quiet_set _).bind fun _ => quiet_pure true
  · exact quiet_pure false

theorem ofCall_atomic {α : Type} (c : Call α) (cfg : Config) :
    AtomicAt Fault.IsRaised (Setting.ofCall c) cfg := by
  cases c with
  | ok a => exact (quiet_pure a).atomicAt cfg
  | error e => exact atomicAt_throw e cfg

/-- A check before anything is written. -/
theorem checked_atomic {α β : Type} (c : Call α) {f : α → Setting β}
    (hf : ∀ a, Quiet Fault.IsRaised (f a)) (cfg : Config) :
    AtomicAt Fault.IsRaised (Setting.ofCall c >>= f) cfg :=
  (atomicAt_bind_iff hf).mpr (ofCall_atomic c cfg)

end Updates

section Handlers

theorem flagOption_atomic (name : String) (flag : RecordField Config Bool) :
    AtomicAt Fault.IsRaised (flagOption perl address name flag sv_val) cfg := by
  cases sv_val with
  | none => exact (quiet_pure false).atomicAt cfg
  | some sv =>
    unfold flagOption
    dsimp only
    split_ifs
    · exact atomicAt_throw _ cfg
    · exact (updateFlag_quiet flag _).atomicAt cfg

theorem ivalOption_atomic (name : String) (options : List ℤ) (config : RecordField LayoutParam ℤ) :
    AtomicAt Fault.IsRaised (ivalOption perl address name options config sv_val) cfg := by
  cases sv_val with
  | none => exact (quiet_pure false).atomicAt cfg
  | some sv => exact checked_atomic _ (updateOpt_quiet _) cfg

theorem disabledKeywords_atomic :
    AtomicAt Fault.IsRaised (disabledKeywords perl sv_val) cfg := by
  cases sv_val with
  | none => exact (quiet_pure false).atomicAt cfg
  | some sv =>
    cases sv with
    | av elems =>
      exact checked_atomic _ (fun _ => (quiet_modify _).bind fun _ => quiet_pure true) cfg
    | undef => exact atomicAt_throw _ cfg
    | scalar s => exact atomicAt_throw _ cfg
    | hv entries => exact atomicAt_throw _ cfg
    | ref id => exact atomicAt_throw _ cfg

theorem keywordMap_atomic : AtomicAt Fault.IsRaised (keywordMap perl sv_val) cfg := by
  cases sv_val with
  | none => exact (quiet_pure false).atomicAt cfg
  | some sv =>
    cases sv with
    | hv entries =>
      exact checked_atomic _ (fun _ => (quiet_modify _).bind fun _ => quiet_pure true) cfg
    | undef => exact atomicAt_throw _ cfg
    | scalar s => exact atomicAt_throw _ cfg
    | av elems => exact atomicAt_throw _ cfg
    | ref id => exact atomicAt_throw _ cfg

/-- The state of an option with three states is written before a reference is refused. -/
theorem tristateOption_atomic_iff {text : String} {state : RecordField Config Bool}
    {update : ℤ → Setting Bool} (hupdate : ∀ iv, Quiet Fault.IsRaised (update iv)) :
    AtomicAt Fault.IsRaised (tristateOption perl address text state update sv_val) cfg ↔
      ∀ sv, sv_val = some sv → sv.isRef = true → state.get cfg = true := by
  cases sv_val with
  | none => exact iff_of_true ((quiet_pure false).atomicAt cfg) fun _ h => nomatch h
  | some sv =>
    cases href : sv.isRef with
    | true =>
      have hdefined : sv.defined = true := by
        cases sv <;> first | rfl | exact nomatch href
      have hrun : AtomicAt Fault.IsRaised
          (tristateOption perl address text state update (some sv)) cfg ↔
            state.set cfg true = cfg := by
        have hset : (set (state.set cfg true) : Setting PUnit) cfg = .ok ⟨⟩ (state.set cfg true) :=
          rfl
        have hstep : tristateOption perl address text state update (some sv) cfg =
            (set (state.set cfg true) >>= fun _ => throw (.croak text) : Setting Bool) cfg := by
          unfold tristateOption
          dsimp only
          rw [hdefined, href]
          rfl
        unfold AtomicAt
        rw [hstep]
        exact atomicAt_throw_after (k := Fault.IsRaised) hset rfl ⟨text, rfl⟩
      rw [hrun, state.set_eq_self_iff]
      constructor
      · exact fun h _ _ _ => h
      · exact fun h => h sv rfl href
    | false =>
      refine iff_of_true ?_ fun sv' h href' => ?_
      · refine Quiet.atomicAt (quiet_get.bind fun cfg => (quiet_set _).bind fun _ => ?_) cfg
        rw [href, if_neg Bool.false_ne_true]
        split_ifs
        · exact (hupdate _).bind fun _ => quiet_pure _
        · exact quiet_pure _
      · cases h
        exact absurd (href.symm.trans href') Bool.false_ne_true

/-- A reference to an array. -/
def SV.isArray : SV → Bool
  | .av _ => true
  | _ => false

/-- A list is flushed before anything but an array is refused. -/
theorem handleStringList_atomic_iff {option : String} {list : RecordField Config (List String)} :
    AtomicAt Fault.IsRaised (handleStringList perl option list sv_val) cfg ↔
      ∀ sv, sv_val = some sv → sv.isArray = false → list.get cfg = [] := by
  cases sv_val with
  | none => exact iff_of_true ((quiet_pure false).atomicAt cfg) fun _ h => nomatch h
  | some sv =>
    have hflush : (modify fun cfg => list.set cfg [] : Setting PUnit) cfg =
        .ok ⟨⟩ (list.set cfg []) := rfl
    have hrefused {text : String} {f : PUnit → Setting Bool} (hsv : sv.isArray = false)
        (hf : f ⟨⟩ (list.set cfg []) = .error (.croak text) (list.set cfg [])) :
        AtomicAt Fault.IsRaised ((modify fun cfg => list.set cfg [] : Setting PUnit) >>= f) cfg ↔
          ∀ sv', some sv = some sv' → sv'.isArray = false → list.get cfg = [] := by
      rw [atomicAt_throw_after (k := Fault.IsRaised) hflush hf ⟨text, rfl⟩,
        list.set_eq_self_iff]
      constructor
      · exact fun h _ _ _ => h
      · exact fun h => h sv rfl hsv
    cases sv with
    | av elems =>
      refine iff_of_true ?_ fun sv' h hsv' => ?_
      · refine Quiet.atomicAt ((quiet_modify _).bind fun _ => ?_) cfg
        refine Quiet.bind (Quiet.forM fun elem _ => ?_) fun _ => quiet_pure true
        cases elem with
        | none =>
          rintro s e t h ⟨msg, rfl⟩
          exact nomatch h
        | some sv => exact quiet_modify _
      · cases h
        exact nomatch hsv'
    | undef => exact hrefused rfl rfl
    | scalar s => exact hrefused rfl rfl
    | hv entries => exact hrefused rfl rfl
    | ref id => exact hrefused rfl rfl

end Handlers

section Engines
variable {bl : BitfieldLayouter} {hv good rest : Hash} {key : String}

/-- The one option of an engine is the block size of the Simple class. -/
theorem option?_cases (h : (bl.option? key).isSome) :
    ∃ b, bl.blc = .simple b ∧ bl.option? key = some ⟨.blockSize, []⟩ := by
  unfold BitfieldLayouter.option? at *
  cases hprop : blProperty key with
  | none =>
    rw [hprop] at h
    exact nomatch h
  | some prop =>
    rw [hprop] at h
    cases hblc : bl.blc with
    | generic u =>
      rw [hblc] at h
      exact nomatch h
    | microsoft u =>
      rw [hblc] at h
      exact nomatch h
    | simple b =>
      rw [hblc] at h
      cases prop <;> first | exact ⟨b, rfl, rfl⟩ | exact nomatch h

/-- The layouter with another block size. -/
def BitfieldLayouter.withBlockSize (bl : BitfieldLayouter) (v : ℤ) : BitfieldLayouter :=
  (bl.setProperty .blockSize v).getD bl

theorem withBlockSize_option? (v : ℤ) : (bl.withBlockSize v).option? key = bl.option? key := by
  obtain ⟨blc, _, _, _, _⟩ := bl
  cases blc <;> rfl

theorem withBlockSize_withBlockSize (v w : ℤ) :
    (bl.withBlockSize v).withBlockSize w = bl.withBlockSize w := by
  obtain ⟨blc, _, _, _, _⟩ := bl
  cases blc <;> rfl

theorem withBlockSize_eq_self_iff {b : BLBlock} (hblc : bl.blc = .simple b) {v : ℤ} :
    bl.withBlockSize v = bl ↔ v = bl.getProperty .blockSize := by
  obtain ⟨blc, byte_order, max_align, align, offset⟩ := bl
  obtain rfl : blc = .simple b := hblc
  constructor
  · intro h
    have hsize := congrArg (fun bl => bl.getProperty .blockSize) h
    exact hsize
  · rintro rfl
    rfl

/-- An entry that does not name the engine is a setting. -/
def IsSetting (entry : String × SV) : Prop := keyText entry.1 ≠ "Engine"

instance : DecidablePred IsSetting := fun _ => inferInstanceAs (Decidable (_ ≠ _))

/-- Entries that are no settings are skipped. -/
theorem forM_settings : hv.forM (setBitfieldsEntry perl address) bl =
    (hv.filter (IsSetting ·)).forM (setBitfieldsEntry perl address) bl := by
  induction hv generalizing bl with
  | nil => rfl
  | cons e hv ih =>
    by_cases he : IsSetting e
    · have hfilter : (e :: hv).filter (IsSetting ·) = e :: hv.filter (IsSetting ·) :=
        List.filter_cons_of_pos (decide_eq_true he)
      rw [hfilter]
      show (setBitfieldsEntry perl address e >>= fun _ => hv.forM _) bl =
        (setBitfieldsEntry perl address e >>= fun _ => (hv.filter _).forM _) bl
      cases hrun : setBitfieldsEntry perl address e bl with
      | ok a t => rw [bind_of_ok hrun, bind_of_ok hrun, ih]
      | error err t => rw [bind_of_error hrun, bind_of_error hrun]
    · have hfilter : (e :: hv).filter (IsSetting ·) = hv.filter (IsSetting ·) :=
        List.filter_cons_of_neg fun h => he (of_decide_eq_true h)
      have hskip : setBitfieldsEntry perl address e bl = .ok ⟨⟩ bl :=
        congrFun (if_pos (not_not.mp he)) bl
      rw [hfilter, ← ih]
      show (setBitfieldsEntry perl address e >>= fun _ => hv.forM _) bl = _
      rw [bind_of_ok hskip]

/-- The layouter after the entries of a hash that are all options. -/
def lastBlockSize (perl : Perl) (address : SV → IV) (bl : BitfieldLayouter) (good : Hash) :
    BitfieldLayouter :=
  match good.getLast? with
  | none => bl
  | some entry => bl.withBlockSize (perl.ivOf address entry.2)

theorem setBitfieldsEntry_ok {entry : String × SV} (hkey : IsSetting entry)
    (h : (bl.option? (keyText entry.1)).isSome) :
    setBitfieldsEntry perl address entry bl =
      .ok ⟨⟩ (bl.withBlockSize (perl.ivOf address entry.2)) := by
  obtain ⟨b, hblc, hopt⟩ := option?_cases h
  have hset : bl.setProperty .blockSize (perl.ivOf address entry.2) =
      some (bl.withBlockSize (perl.ivOf address entry.2)) := by
    unfold BitfieldLayouter.withBlockSize BitfieldLayouter.setProperty
    rw [hblc]
    rfl
  unfold setBitfieldsEntry
  dsimp only
  rw [if_neg hkey, bind_of_ok (show (get : EStateM Fault BitfieldLayouter _) bl = .ok bl bl from rfl),
    hopt]
  dsimp only
  rw [if_neg (fun h => h.1 rfl), hset]
  rfl

/-- By induction on the entries: each sets the block size, and the last one stays. -/
theorem forM_options (hkeys : ∀ e ∈ good, IsSetting e)
    (hopts : ∀ e ∈ good, (bl.option? (keyText e.1)).isSome) :
    good.forM (setBitfieldsEntry perl address) bl = .ok ⟨⟩ (lastBlockSize perl address bl good) := by
  induction good generalizing bl with
  | nil => rfl
  | cons e good ih =>
    have hfirst := @setBitfieldsEntry_ok perl address bl e (hkeys e List.mem_cons_self)
      (hopts e List.mem_cons_self)
    have hrest := @ih (bl.withBlockSize (perl.ivOf address e.2))
      (fun d hd => hkeys d (List.mem_cons_of_mem e hd)) fun d hd => by
        rw [withBlockSize_option?]
        exact hopts d (List.mem_cons_of_mem e hd)
    show (setBitfieldsEntry perl address e >>= fun _ => good.forM _) bl = _
    rw [bind_of_ok hfirst, hrest]
    unfold lastBlockSize
    rw [List.getLast?_cons]
    cases hlast : good.getLast? with
    | none => rfl
    | some d =>
      dsimp only
      rw [withBlockSize_withBlockSize]
      rfl

theorem lastBlockSize_option? (good : Hash) :
    (lastBlockSize perl address bl good).option? key = bl.option? key := by
  unfold lastBlockSize
  cases good.getLast? with
  | none => rfl
  | some e => exact withBlockSize_option? _

/-- A key that is no option ends the run. -/
theorem forM_bad {entry : String × SV} (hkeys : ∀ e ∈ good ++ entry :: rest, IsSetting e)
    (hopts : ∀ e ∈ good, (bl.option? (keyText e.1)).isSome)
    (hbad : bl.option? (keyText entry.1) = none) :
    ∃ msg, (good ++ entry :: rest).forM (setBitfieldsEntry perl address) bl =
      .error (.croak msg) (lastBlockSize perl address bl good) := by
  have hgood := @forM_options perl address bl good
    (fun e he => hkeys e (List.mem_append_left _ he)) hopts
  have hentry : IsSetting entry := hkeys entry (by simp)
  obtain ⟨msg, hfirst⟩ : ∃ msg, setBitfieldsEntry perl address entry
      (lastBlockSize perl address bl good) =
        .error (.croak msg) (lastBlockSize perl address bl good) := by
    unfold setBitfieldsEntry
    dsimp only
    rw [if_neg hentry, bind_of_ok (show (get : EStateM Fault BitfieldLayouter _)
      (lastBlockSize perl address bl good) = .ok _ _ from rfl), lastBlockSize_option?, hbad]
    exact ⟨_, rfl⟩
  have hrest : (entry :: rest).forM (setBitfieldsEntry perl address)
      (lastBlockSize perl address bl good) =
        .error (.croak msg) (lastBlockSize perl address bl good) :=
    bind_of_error (f := fun _ => rest.forM (setBitfieldsEntry perl address)) hfirst
  have hsplit : (good ++ entry :: rest).forM (setBitfieldsEntry perl address) =
      good.forM (setBitfieldsEntry perl address) >>= fun _ =>
        (entry :: rest).forM (setBitfieldsEntry perl address) := List.forM_append
  exact ⟨msg, (congrFun hsplit bl).trans ((bind_of_ok hgood).trans hrest)⟩

/-- The last block size that is set before a key that is no option is another one. -/
def SetsBeforeFailing (perl : Perl) (address : SV → IV) (bl : BitfieldLayouter) (hv : Hash) :
    Prop :=
  ∃ good entry rest last, hv.filter (IsSetting ·) = good ++ entry :: rest ∧
    (∀ e ∈ good, (bl.option? (keyText e.1)).isSome) ∧ bl.option? (keyText entry.1) = none ∧
    good.getLast? = some last ∧ perl.ivOf address last.2 ≠ bl.getProperty .blockSize

/-- What an error leaves of the engine in use. -/
theorem forM_unchanged_iff :
    AtomicAt Fault.IsRaised (hv.forM (setBitfieldsEntry perl address)) bl ↔
      ¬SetsBeforeFailing perl address bl hv := by
  have hkeys : ∀ e ∈ hv.filter (IsSetting ·), IsSetting e :=
    fun e he => of_decide_eq_true (List.mem_filter.mp he).2
  unfold AtomicAt SetsBeforeFailing
  rw [forM_settings]
  generalize hv.filter (IsSetting ·) = settings at hkeys
  constructor
  · rintro hatomic ⟨good, entry, rest, last, rfl, hopts, hbad, hlast, hne⟩
    obtain ⟨msg, hrun⟩ := @forM_bad perl address bl good rest entry hkeys hopts hbad
    have hsame := hatomic _ _ hrun ⟨msg, rfl⟩
    obtain ⟨b, hblc, -⟩ := option?_cases (hopts last (List.mem_of_getLast? hlast))
    unfold lastBlockSize at hsame
    rw [hlast] at hsame
    exact hne ((withBlockSize_eq_self_iff hblc).mp hsame)
  · intro hnot e t hrun _
    obtain ⟨good, tail, rfl, hopts, hstops⟩ :=
      exists_run (fun e => (bl.option? (keyText e.1)).isSome) settings
    cases tail with
    | nil =>
      rw [List.append_nil] at *
      rw [forM_options hkeys hopts] at hrun
      exact nomatch hrun
    | cons entry rest =>
      have hbad : bl.option? (keyText entry.1) = none := by
        have hentry := hstops entry rfl
        rwa [Option.isSome_eq_false_iff, Option.isNone_iff_eq_none] at hentry
      obtain ⟨msg, hrun'⟩ := @forM_bad perl address bl good rest entry hkeys hopts hbad
      cases hrun'.symm.trans hrun
      unfold lastBlockSize
      cases hlast : good.getLast? with
      | none => rfl
      | some last =>
        obtain ⟨b, hblc, -⟩ := option?_cases (hopts last (List.mem_of_getLast? hlast))
        apply (withBlockSize_eq_self_iff hblc).mpr
        by_contra hne
        exact hnot ⟨good, entry, rest, last, rfl, hopts, hbad, hlast, hne⟩

theorem newEngine_none_iff : newEngine perl hv = .ok none ↔ hv.lookup "Engine" = none := by
  unfold newEngine
  cases hv.lookup "Engine" with
  | none => exact iff_of_true rfl rfl
  | some engine =>
    refine iff_of_false ?_ nofun
    dsimp only
    cases blCreateNamed (perl.textOf engine) with
    | none => exact nofun
    | some bl => exact nofun

/-- What happens once the engine is known. -/
theorem bitfieldsOption_run {bl_new : Option BitfieldLayouter} (h : newEngine perl hv = .ok bl_new) :
    bitfieldsOption perl address (some (.hv hv)) cfg =
      match hv.forM (setBitfieldsEntry perl address) (bl_new.getD cfg.bflayouter) with
      | .ok _ bl => .ok true { cfg with bflayouter := bl }
      | .error e bl => .error e (if bl_new.isSome then cfg else { cfg with bflayouter := bl }) := by
  unfold bitfieldsOption
  dsimp only
  rw [h]
  show (match hv.forM (setBitfieldsEntry perl address) (bl_new.getD cfg.bflayouter) with
    | .ok _ bl => _
    | .error e bl => _ : Setting Bool) cfg = _
  cases hv.forM (setBitfieldsEntry perl address) (bl_new.getD cfg.bflayouter) with
  | ok a bl => rfl
  | error e bl =>
    cases bl_new with
    | none => rfl
    | some bl' => rfl

/-- A new engine is dropped on an error; the one in use keeps what has been set. -/
theorem bitfieldsOption_atomic_iff :
    AtomicAt Fault.IsRaised (bitfieldsOption perl address sv_val) cfg ↔
      ∀ hv, sv_val = some (.hv hv) → hv.lookup "Engine" = none →
        ¬SetsBeforeFailing perl address cfg.bflayouter hv := by
  have hrefused {sv : SV} (hsv : ∀ hv, sv ≠ .hv hv)
      (hrun : bitfieldsOption perl address (some sv) =
        throw (.croak "Bitfields wants a hash reference")) :
      AtomicAt Fault.IsRaised (bitfieldsOption perl address (some sv)) cfg ↔
        ∀ hv, some sv = some (.hv hv) → hv.lookup "Engine" = none →
          ¬SetsBeforeFailing perl address cfg.bflayouter hv := by
    rw [hrun]
    exact iff_of_true (atomicAt_throw _ cfg) fun hv h => absurd (Option.some.inj h) (hsv hv)
  cases sv_val with
  | none => exact iff_of_true ((quiet_pure false).atomicAt cfg) fun _ h => nomatch h
  | some sv =>
    cases sv with
    | undef => exact hrefused nofun rfl
    | scalar s => exact hrefused nofun rfl
    | av elems => exact hrefused nofun rfl
    | ref id => exact hrefused nofun rfl
    | hv hv =>
      have hkept (hlookup : hv.lookup "Engine" ≠ none)
          (hatomic : AtomicAt Fault.IsRaised (bitfieldsOption perl address (some (.hv hv))) cfg) :
          AtomicAt Fault.IsRaised (bitfieldsOption perl address (some (.hv hv))) cfg ↔
            ∀ hv', some (SV.hv hv) = some (.hv hv') → hv'.lookup "Engine" = none →
              ¬SetsBeforeFailing perl address cfg.bflayouter hv' := by
        refine iff_of_true hatomic fun hv' h hnone => ?_
        cases h
        exact absurd hnone hlookup
      cases hengine : newEngine perl hv with
      | error e =>
        apply hkept
        · intro hnone
          exact nomatch (newEngine_none_iff.mpr hnone).symm.trans hengine
        · unfold bitfieldsOption
          dsimp only
          rw [hengine]
          exact atomicAt_throw e cfg
      | ok bl_new =>
        have hrun := @bitfieldsOption_run perl address cfg hv bl_new hengine
        cases bl_new with
        | some bl =>
          apply hkept
          · intro hnone
            exact nomatch (newEngine_none_iff.mpr hnone).symm.trans hengine
          · intro e t ht _
            rw [hrun] at ht
            cases hforM : hv.forM (setBitfieldsEntry perl address) bl with
            | ok a bl' =>
              rw [Option.getD_some, hforM] at ht
              exact nomatch ht
            | error e' bl' =>
              rw [Option.getD_some, hforM] at ht
              cases ht
              rfl
        | none =>
          have hlookup := newEngine_none_iff.mp hengine
          have hsame : AtomicAt Fault.IsRaised (bitfieldsOption perl address (some (.hv hv))) cfg ↔
              AtomicAt Fault.IsRaised (hv.forM (setBitfieldsEntry perl address)) cfg.bflayouter := by
            constructor
            · intro h e bl hforM he
              have herror : bitfieldsOption perl address (some (.hv hv)) cfg =
                  .error e { cfg with bflayouter := bl } := by
                rw [hrun, Option.getD_none, hforM]
                rfl
              exact congrArg Config.bflayouter (h e _ herror he)
            · intro h e t ht he
              rw [hrun, Option.getD_none] at ht
              cases hforM : hv.forM (setBitfieldsEntry perl address) cfg.bflayouter with
              | ok a bl =>
                rw [hforM] at ht
                exact nomatch ht
              | error e' bl =>
                rw [hforM] at ht
                cases ht
                rw [h e bl hforM he]
                rfl
          rw [hsame, forM_unchanged_iff]
          constructor
          · intro h hv' heq _
            cases heq
            exact h
          · exact fun h => h hv rfl hlookup

end Engines

section Options

/-- The value makes the handler raise an error after it has changed the configuration. -/
def ChangesBeforeError (perl : Perl) (address : SV → IV) (cfg : Config) (sv : SV) :
    ConfigOption → Prop
  | .includes => sv.isArray = false ∧ cfg.includes ≠ []
  | .defines => sv.isArray = false ∧ cfg.defines ≠ []
  | .asserts => sv.isArray = false ∧ cfg.assertions ≠ []
  | .hostedC => sv.isRef = true ∧ cfg.has_std_c_hosted = false
  | .stdCVersion => sv.isRef = true ∧ cfg.has_std_c = false
  | .bitfields => ∃ hv, sv = .hv hv ∧ hv.lookup "Engine" = none ∧
      SetsBeforeFailing perl address cfg.bflayouter hv
  | _ => False

theorem getStringOption_atomic {α : Type} [DecidableEq α] (name : String)
    (options : List (String × α)) (config : RecordField Config α) (sv : SV) :
    AtomicAt Fault.IsRaised
      (Setting.ofCall (getStringOption perl name options sv) >>= updateOpt config) cfg :=
  checked_atomic _ (updateOpt_quiet config) cfg

/-- For each option, the values that are refused only after a change. -/
theorem setOption_atomic_iff (cfgopt : ConfigOption) :
    AtomicAt Fault.IsRaised (setOption perl address cfgopt sv_val) cfg ↔
      ∀ sv, sv_val = some sv → ¬ChangesBeforeError perl address cfg sv cfgopt := by
  have hlist {option : String} {list : RecordField Config (List String)} :
      AtomicAt Fault.IsRaised (handleStringList perl option list sv_val) cfg ↔
        ∀ sv, sv_val = some sv → ¬(sv.isArray = false ∧ list.get cfg ≠ []) :=
    handleStringList_atomic_iff.trans (forall₂_congr fun _ _ => not_and_not_right.symm)
  have hstate {text : String} {state : RecordField Config Bool} {update : ℤ → Setting Bool}
      (hupdate : ∀ iv, Quiet Fault.IsRaised (update iv)) :
      AtomicAt Fault.IsRaised (tristateOption perl address text state update sv_val) cfg ↔
        ∀ sv, sv_val = some sv → ¬(sv.isRef = true ∧ state.get cfg = false) := by
    refine (tristateOption_atomic_iff hupdate).trans (forall₂_congr fun sv _ => ?_)
    rw [not_and, Bool.not_eq_false]
  cases cfgopt with
  | includes => exact hlist
  | defines => exact hlist
  | asserts => exact hlist
  | hostedC => exact hstate (updateFlag_quiet _)
  | stdCVersion => exact hstate (updateOpt_quiet _)
  | bitfields =>
    refine bitfieldsOption_atomic_iff.trans ⟨?_, ?_⟩
    · rintro h sv hsv ⟨hv, rfl, hlookup, hsets⟩
      exact h hv hsv hlookup hsets
    · exact fun h hv hsv hlookup hsets => h _ hsv ⟨hv, rfl, hlookup, hsets⟩
  | disabledKeywords => exact iff_of_true disabledKeywords_atomic fun _ _ h => h
  | keywordMap => exact iff_of_true keywordMap_atomic fun _ _ h => h
  | byteOrder =>
    refine iff_of_true ?_ fun _ _ h => h
    cases sv_val with
    | none => exact (quiet_pure false).atomicAt cfg
    | some sv => exact getStringOption_atomic _ _ _ sv
  | enumType =>
    refine iff_of_true ?_ fun _ _ h => h
    cases sv_val with
    | none => exact (quiet_pure false).atomicAt cfg
    | some sv => exact getStringOption_atomic _ _ _ sv
  | orderMembers => exact iff_of_true (flagOption_atomic _ _) fun _ _ h => h
  | warnings => exact iff_of_true (flagOption_atomic _ _) fun _ _ h => h
  | hasCPPComments => exact iff_of_true (flagOption_atomic _ _) fun _ _ h => h
  | hasMacroVAARGS => exact iff_of_true (flagOption_atomic _ _) fun _ _ h => h
  | unsignedChars => exact iff_of_true (flagOption_atomic _ _) fun _ _ h => h
  | unsignedBitfields => exact iff_of_true (flagOption_atomic _ _) fun _ _ h => h
  | pointerSize => exact iff_of_true (ivalOption_atomic _ _ _) fun _ _ h => h
  | enumSize => exact iff_of_true (ivalOption_atomic _ _ _) fun _ _ h => h
  | intSize => exact iff_of_true (ivalOption_atomic _ _ _) fun _ _ h => h
  | charSize => exact iff_of_true (ivalOption_atomic _ _ _) fun _ _ h => h
  | shortSize => exact iff_of_true (ivalOption_atomic _ _ _) fun _ _ h => h
  | longSize => exact iff_of_true (ivalOption_atomic _ _ _) fun _ _ h => h
  | longLongSize => exact iff_of_true (ivalOption_atomic _ _ _) fun _ _ h => h
  | floatSize => exact iff_of_true (ivalOption_atomic _ _ _) fun _ _ h => h
  | doubleSize => exact iff_of_true (ivalOption_atomic _ _ _) fun _ _ h => h
  | longDoubleSize => exact iff_of_true (ivalOption_atomic _ _ _) fun _ _ h => h
  | alignment => exact iff_of_true (ivalOption_atomic _ _ _) fun _ _ h => h
  | compoundAlignment => exact iff_of_true (ivalOption_atomic _ _ _) fun _ _ h => h

end Options

/-- An option that raises an error leaves the configuration as it was, except for the values that
are refused only after a change. -/
theorem handleOption_atomic_iff (perl : Perl) (address : SV → IV) (canRequire : String → Bool)
    (preferred : Option String) (opt : SV) (sv_val : Option SV) (cfg : Config) :
    AtomicAt Fault.IsRaised (handleOption perl address canRequire preferred opt sv_val) cfg ↔
      ∀ cfgopt sv, opt.isRef = false → getConfigOption (perl.textOf opt) = some cfgopt →
        sv_val = some sv → ¬ChangesBeforeError perl address cfg sv cfgopt := by
  unfold handleOption
  cases href : opt.isRef with
  | true => exact iff_of_true (atomicAt_throw _ cfg) fun _ _ h => nomatch h
  | false =>
    rw [if_neg Bool.false_ne_true]
    cases hopt : getConfigOption (perl.textOf opt) with
    | none => exact iff_of_true (atomicAt_throw _ cfg) fun _ _ _ h => nomatch h
    | some cfgopt =>
      have hrest (option_modified : Bool) := (quiet_get (k := Fault.IsRaised)).bind fun cfg : Config =>
        (quiet_set (postProcess canRequire preferred cfgopt sv_val cfg)).bind fun _ =>
          quiet_pure ((⟨option_modified, cfgopt.impactsLayout, cfgopt.impactsPreproc⟩ :
            HandleOptionResult), optionValue cfg cfgopt)
      dsimp only
      rw [atomicAt_bind_iff hrest, setOption_atomic_iff]
      constructor
      · rintro h cfgopt' sv - hcfgopt hsv
        cases hcfgopt
        exact h sv hsv
      · exact fun h sv hsv => h cfgopt sv rfl rfl hsv

/-- A configuration with an include path and the Simple class. -/
def includesSimple : Config where
  order_members := false
  ixhash := none
  enumType := .integer
  issue_warnings := false
  has_cpp_comments := true
  has_macro_vaargs := true
  unsigned_chars := false
  unsigned_bitfields := false
  has_std_c := false
  has_std_c_hosted := false
  is_std_c_hosted := false
  std_c_version := 0
  keywords := hasAllKeywords
  disabled_keywords := []
  includes := ["/usr/include"]
  defines := []
  assertions := []
  keyword_map := []
  layout := ⟨1, 1, 0, 0, 0, 0, 0, 0, 0, 0, 0, 0, .littleEndian⟩
  bflayouter := blCreateSimple

/-- A string is no list of paths, and `BlockSize` is set before the engine refuses `Size`. -/
theorem handleOption_not_atomic :
    (∃ msg cfg, handleOption slotPerl (fun _ => ⟨0, by decide⟩) (fun _ => false) none
        (newSVpv "Include") (some (newSVpv "inc")) includesSimple = .error (.croak msg) cfg ∧
      cfg.includes ≠ includesSimple.includes) ∧
    ∃ msg cfg, handleOption slotPerl (fun _ => ⟨0, by decide⟩) (fun _ => false) none
        (newSVpv "Bitfields") (some (.hv [("BlockSize", newSViv 2), ("Size", newSViv 2)]))
        includesSimple = .error (.croak msg) cfg ∧
      cfg.bflayouter ≠ includesSimple.bflayouter := by
  refine ⟨⟨_, { includesSimple with includes := [] }, rfl, nofun⟩, ⟨_, { includesSimple with
    bflayouter := blCreate (.simple ⟨2, 0, 0⟩) }, rfl, ?_⟩⟩
  show blCreate (.simple ⟨2, 0, 0⟩) ≠ blCreate (.simple ⟨4, 0, 0⟩)
  decide

end ConvertBinaryC
