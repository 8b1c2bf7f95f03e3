import ConvertBinaryC.ArenaRules
import ConvertBinaryC.CTLibMachine
import ConvertBinaryC.UtilHashRuns

/-! The files of a parse (`ctlib/fileinfo.c`, and the `CONTEXT` tokens of `c_lex`). The contexts of
enums, structs and unions point to them. -/
namespace ConvertBinaryC
open ArenaRules

/-- What `fstat` tells about a file. -/
structure FileStat where
  size : ℤ
  access_time : ℤ
  modify_time : ℤ
  change_time : ℤ
  deriving DecidableEq, Repr

structure FileInfo where
  valid : Bool
  stat : FileStat
  name : List UInt8
  deriving DecidableEq, Repr

/-- A name as the contexts have it. -/
def fileText (name : List UInt8) : String := String.ofList (name.map fun b => Char.ofNat b.toNat)

/-- `fileinfo_new`; without a file, or when `fstat` fails, the info is not valid. -/
def fileinfoNew (stat : Option FileStat) (name : List UInt8) : FileInfo :=
  ⟨stat.isSome, stat.getD ⟨0, 0, 0, 0⟩, name⟩

/-- The file infos in memory, their table, and the one that the lexer is in. -/
structure FileTables where
  infos : Arena FileInfo
  htFiles : HashState ℕ
  pFI : Option ℕ

/-- `HT_get` with the length of a name. -/
def FileTables.get (f : FileTables) (name : List UInt8) : Option ℕ :=
  f.htFiles.table.get name name.length 0

/-- The `CONTEXT` token of `c_lex`. -/
def FileTables.context (f : FileTables) (name : List UInt8) (stat : Option FileStat) :
    Call FileTables :=
  match f.get name with
  | some pFI => .ok { f with pFI := some pFI }
  | none => do
    let pFI := f.infos.count
    let (_, htFiles) ← f.htFiles.step (.store name name.length 0 (some pFI))
    .ok ⟨f.infos.alloc (fileinfoNew stat name), htFiles, some pFI⟩

/-- `BUFFER_NAME` -/
def bufferName : List UInt8 := [91, 98, 117, 102, 102, 101, 114, 93]

/-- The end of `parse_buffer` for a string; it does not check what `HT_get` finds. -/
def FileTables.invalidate (f : FileTables) : Call FileTables :=
  match f.htFiles.table.get bufferName 0 0 with
  | some pFI => .ok { f with infos := f.infos.set pFI { f.infos.get pFI with valid := false } }
  | none => .error .undefinedBehaviour

/-- `HT_new_ex` with the size 3, for the files of a new database. -/
def newFiles : HashTable ℕ where
  count := 0
  size := 3
  flags := htAutogrow
  bmask := bucketMask 3
  root _ := []

section Files
variable {f g : FileTables} {m : HashMap ℕ}

/-- The table stands for a map from the names of the files to their infos. -/
structure FileTables.Sound (f : FileTables) (m : HashMap ℕ) : Prop where
  represents : f.htFiles.Represents hashData m
  entry : ∀ name v, m.lookup name = some v →
    ∃ p, v = some p ∧ p < f.infos.count ∧ (f.infos.get p).name = name

/-- The map holds the info. -/
def Listed (m : HashMap ℕ) (p : ℕ) : Prop := ∃ name, m.lookup name = some (some p)

theorem hashArgs_name (name : List UInt8) :
    hashArgs name name.length 0 = (hashData name, name) := by
  unfold hashArgs
  rw [if_pos rfl, List.take_length]
  cases name with
  | nil => rfl
  | cons c name => rfl

theorem FileTables.Sound.found (h : f.Sound m) {name key : List UInt8} {keylen : ℕ}
    (hargs : hashArgs key keylen 0 = (hashData name, name)) :
    f.htFiles.table.get key keylen 0 = (m.lookup name).join := by
  have hhonest : (hashArgs key keylen 0).1 = hashData (hashArgs key keylen 0).2 := by
    rw [hargs]
  have hget := h.represents.get_eq hhonest
  rw [hargs] at hget
  exact hget

theorem FileTables.Sound.get_eq (h : f.Sound m) (name : List UInt8) :
    f.get name = (m.lookup name).join := h.found (hashArgs_name name)

theorem FileTables.Sound.listed_of_get (h : f.Sound m) {name : List UInt8} {p : ℕ}
    (hget : f.get name = some p) : Listed m p := by
  rw [h.get_eq, Option.join_eq_some_iff] at hget
  exact ⟨name, hget⟩

theorem FileTables.Sound.lookup_none (h : f.Sound m) {name : List UInt8}
    (hget : f.get name = none) : m.lookup name = none := by
  rw [h.get_eq] at hget
  cases hlookup : m.lookup name with
  | none => rfl
  | some v =>
    obtain ⟨p, rfl, _⟩ := h.entry name v hlookup
    rw [hlookup] at hget
    cases hget

theorem FileTables.Sound.lt (h : f.Sound m) {p : ℕ} (hp : Listed m p) : p < f.infos.count := by
  obtain ⟨name, hname⟩ := hp
  obtain ⟨q, hq, hlt, _⟩ := h.entry name _ hname
  cases hq
  exact hlt

/-- One name has one info. -/
theorem FileTables.Sound.lookup_name (h : f.Sound m) {p : ℕ} (hp : Listed m p) :
    m.lookup (f.infos.get p).name = some (some p) := by
  obtain ⟨name, hname⟩ := hp
  obtain ⟨q, hq, _, hget⟩ := h.entry name _ hname
  cases hq
  rwa [hget]

/-- What the other state keeps of the infos that are there. -/
structure FileTables.Keeps (f g : FileTables) (m m' : HashMap ℕ) : Prop where
  listed : ∀ p, Listed m p → Listed m' p
  name : ∀ p, Listed m p → (g.infos.get p).name = (f.infos.get p).name

theorem FileTables.Sound.context (h : f.Sound m) {name : List UInt8} {stat : Option FileStat}
    (hcontext : f.context name stat = .ok g) :
    ∃ m', g.Sound m' ∧ f.Keeps g m m' ∧ ∀ p, g.pFI = some p → Listed m' p := by
  unfold FileTables.context at hcontext
  cases hget : f.get name with
  | some pFI =>
    rw [hget] at hcontext
    cases hcontext
    refine ⟨m, ⟨h.represents, h.entry⟩, ⟨fun _ hp => hp, fun _ _ => rfl⟩, ?_⟩
    intro p hp
    cases hp
    exact h.listed_of_get hget
  | none =>
    have hlookup := h.lookup_none hget
    have hhonest : (hashArgs name name.length 0).1 = hashData (hashArgs name name.length 0).2 := by
      rw [hashArgs_name]
    obtain ⟨r, htFiles, m', hstep, ⟨_, hinsert⟩, hrep⟩ :=
      @HashState.Represents.store _ _ _ _ h.represents _ _ _ (some f.infos.count) hhonest
    rw [hashArgs_name] at hinsert
    obtain ⟨rfl, _⟩ := hinsert (Finmap.lookup_eq_none.mp hlookup)
    rw [hget] at hcontext
    change ((f.htFiles.step _) >>= fun r => .ok _) = Except.ok g at hcontext
    rw [hstep] at hcontext
    cases hcontext
    have hlisted (p : ℕ) (hp : Listed m p) : Listed (m.insert name (some f.infos.count)) p := by
      obtain ⟨name', hname'⟩ := hp
      refine ⟨name', ?_⟩
      rw [Finmap.lookup_insert_of_ne, hname']
      rintro rfl
      rw [hlookup] at hname'
      cases hname'
    refine ⟨_, ⟨hrep, ?_⟩, ⟨hlisted, ?_⟩, ?_⟩
    · intro name' v hv
      by_cases hname : name' = name
      · subst hname
        rw [Finmap.lookup_insert] at hv
        cases hv
        exact ⟨_, rfl, Nat.lt_succ_self _, congrArg FileInfo.name (Arena.alloc_get_new _ _)⟩
      · rw [Finmap.lookup_insert_of_ne _ hname] at hv
        obtain ⟨p, rfl, hlt, hget⟩ := h.entry name' v hv
        refine ⟨p, rfl, Nat.lt_succ_of_lt hlt, ?_⟩
        rw [← hget]
        exact congrArg FileInfo.name (Arena.alloc_get_old hlt)
    · intro p hp
      exact congrArg FileInfo.name (Arena.alloc_get_old (h.lt hp))
    · intro p hp
      cases hp
      exact ⟨name, Finmap.lookup_insert _⟩

theorem FileTables.Sound.invalidate (h : f.Sound m) (hinvalidate : f.invalidate = .ok g) :
    g.Sound m ∧ f.Keeps g m m ∧ g.pFI = f.pFI := by
  unfold FileTables.invalidate at hinvalidate
  cases hget : f.htFiles.table.get bufferName 0 0 with
  | none =>
    rw [hget] at hinvalidate
    cases hinvalidate
  | some pFI =>
    rw [hget] at hinvalidate
    cases hinvalidate
    have hname (p : ℕ) : ((f.infos.set pFI { f.infos.get pFI with valid := false }).get p).name =
        (f.infos.get p).name := by
      by_cases hp : p = pFI
      · rw [hp, Arena.set_get_self]
      · rw [Arena.set_get_of_ne _ _ hp]
    refine ⟨⟨h.represents, ?_⟩, ⟨fun _ hp => hp, fun p _ => hname p⟩, rfl⟩
    intro name v hv
    obtain ⟨p, rfl, hlt, hget⟩ := h.entry name v hv
    exact ⟨p, rfl, hlt, (hname p).trans hget⟩

end Files

end ConvertBinaryC
