import ConvertBinaryC.CTLibMachine

/-! The hash tables of `util/hash.c`: buckets of chains sorted by hash sum, key length
and key, which grow and shrink inside the calls that store and remove. -/
namespace ConvertBinaryC

/-- `struct _hashNode`. A node is told from others by where it lives; the length of the
key is the length of the list. `none` is a NULL pointer. -/
structure HashNode (V : Type) where
  address : ℕ
  hash : UInt64
  key : List UInt8
  pObj : Option V
  deriving DecidableEq, Repr

/-- `struct _hashTable`. The buckets from `2 ^ size` on are not allocated. -/
structure HashTable (V : Type) where
  count : ℤ
  size : ℕ
  flags : UInt64
  bmask : UInt64
  root : ℕ → List (HashNode V)

def maxHashTableSize : ℕ := 16

def htAutogrow : UInt64 := 1

def htAutoshrink : UInt64 := 2

def autosizeDyades : ℤ := 3

/-- The mixing of one character, which is signed, in `HASH_DATA` and `HASH_STR_LEN`. -/
def hashChar (hash : UInt64) (c : UInt8) : UInt64 :=
  let hash := hash + c.toInt8.toInt64.toUInt64
  let hash := hash + hash <<< 10
  hash ^^^ hash >>> 6

def hashData (key : List UInt8) : UInt64 :=
  let hash := key.foldl hashChar 0
  let hash := hash + hash <<< 3
  let hash := hash ^^^ hash >>> 11
  hash + hash <<< 15

/-- The hash sum and the key that a call works with: a hash sum of zero is computed, and
only then a key length of zero as well. -/
def hashArgs (key : List UInt8) (keylen : ℕ) (hash : UInt64) : UInt64 × List UInt8 :=
  if hash = 0 then
    let key := if keylen = 0 then key.takeWhile (· ≠ 0) else key.take keylen
    (hashData key, key)
  else (hash, key.take keylen)

def cmpHash (a b : UInt64) : ℤ := if a = b then 0 else if a < b then -1 else 1

/-- The sign of `memcmp` on two keys of one length. -/
def memcmp : List UInt8 → List UInt8 → ℤ
  | a :: as, b :: bs => if a = b then memcmp as bs else a.toNat - b.toNat
  | _, _ => 0

variable {V : Type}

/-- `ENTRY_FOUND`: the entry is found where the comparison gives zero. -/
def entryCmp (hash : UInt64) (key : List UInt8) (n : HashNode V) : ℤ :=
  if cmpHash hash n.hash ≠ 0 then cmpHash hash n.hash
  else if key.length ≠ n.key.length then key.length - n.key.length
  else memcmp key n.key

/-- `count >> amount` in `int`, which is defined for amounts inside its width only. -/
def shiftCount (count amount : ℤ) : Call ℤ :=
  if 0 ≤ amount ∧ amount < 32 then .ok (count / 2 ^ amount.toNat) else .error .undefinedBehaviour

def HashTable.bucket (t : HashTable V) (hash : UInt64) : ℕ := (hash &&& t.bmask).toNat

def bucketMask (size : ℕ) : UInt64 := UInt64.ofNat (2 ^ size - 1)

/-- The nodes in the order of the buckets and chains. -/
def HashTable.nodes (t : HashTable V) : List (HashNode V) :=
  (List.range (2 ^ t.size)).flatMap t.root

/-- The walk of `ht_grow` through one chain: nodes with a bit of `mask` set go to the end
of their new bucket. -/
def distribute (mask bmask : UInt64) (root : ℕ → List (HashNode V)) :
    List (HashNode V) → List (HashNode V) × (ℕ → List (HashNode V))
  | [] => ([], root)
  | n :: rest =>
    if n.hash &&& mask ≠ 0 then
      let new := (n.hash &&& bmask).toNat
      distribute mask bmask (Function.update root new (root new ++ [n])) rest
    else
      let (kept, root) := distribute mask bmask root rest
      (n :: kept, root)

def splitBucket (mask bmask : UInt64) (root : ℕ → List (HashNode V)) (b : ℕ) :
    ℕ → List (HashNode V) :=
  let (kept, root) := distribute mask bmask root (root b)
  Function.update root b kept

/-- `ht_grow`. -/
def HashTable.grow (t : HashTable V) (size : ℕ) : HashTable V :=
  let bmask := bucketMask size
  let mask := UInt64.ofNat ((2 ^ (size - t.size) - 1) <<< t.size)
  let cleared b := if 2 ^ t.size ≤ b ∧ b < 2 ^ size then [] else t.root b
  { t with
    size := size, bmask := bmask
    root := (List.range (2 ^ t.size)).foldl (splitBucket mask bmask) cleared }

/-- The sorted insertion of one node in `ht_shrink`. -/
def reinsert (bmask : UInt64) (root : ℕ → List (HashNode V)) (node : HashNode V) :
    ℕ → List (HashNode V) :=
  let b := (node.hash &&& bmask).toNat
  let advances n := decide (0 ≤ entryCmp node.hash node.key n)
  Function.update root b ((root b).takeWhile advances ++ node :: (root b).dropWhile advances)

def mergeBucket (bmask : UInt64) (buckets : ℕ) (root : ℕ → List (HashNode V)) (b : ℕ) :
    ℕ → List (HashNode V) :=
  (root (buckets + b)).foldl (reinsert bmask) root

/-- `ht_shrink`. -/
def HashTable.shrink (t : HashTable V) (size : ℕ) : HashTable V :=
  let bmask := bucketMask size
  { t with
    size := size, bmask := bmask
    root := (List.range (2 ^ t.size - 2 ^ size)).foldl (mergeBucket bmask (2 ^ size)) t.root }

/-- `CHECK_AUTOGROW`. -/
def HashTable.checkAutogrow (t : HashTable V) : Call (HashTable V) := do
  if t.flags &&& htAutogrow ≠ 0 then
    if t.size < maxHashTableSize then
      let load ← shiftCount t.count (t.size + autosizeDyades)
      if load > 0 then .ok (t.grow (t.size + 1)) else .ok t
    else .ok t
  else .ok t

/-- `CHECK_AUTOSHRINK`. -/
def HashTable.checkAutoshrink (t : HashTable V) : Call (HashTable V) := do
  if t.flags &&& htAutoshrink ≠ 0 then
    if t.size > 1 then
      let load ← shiftCount t.count (t.size - autosizeDyades)
      if load = 0 then .ok (t.shrink (t.size - 1)) else .ok t
    else .ok t
  else .ok t

/-- `HT_new_ex`. -/
def HashTable.new (size : ℤ) (flags : UInt64) : Option (HashTable V) :=
  if size ≤ 0 ∨ size > maxHashTableSize then none
  else some
    { count := 0, size := size.toNat, flags := flags, bmask := bucketMask size.toNat
      root := fun _ => [] }

/-- `HT_flush`, with the objects that the destructor is called for. -/
def HashTable.flush (t : HashTable V) : List (Option V) × HashTable V :=
  if t.count = 0 then ([], t)
  else (t.nodes.map HashNode.pObj,
    { t with count := 0, root := fun b => if b < 2 ^ t.size then [] else t.root b })

/-- `HT_clone`. The copy of a node is allocated at an address that no node has. -/
def HashTable.clone (t : HashTable V) (fresh : ℕ) (func : Option (Option V → Option V)) :
    Option (HashTable V) :=
  let copy n : HashNode V :=
    { n with address := fresh + n.address, pObj := (func.getD id) n.pObj }
  (HashTable.new t.size t.flags).map fun clone =>
    if t.count > 0 then
      { clone with
        count := t.count
        root := fun b => if b < 2 ^ t.size then (t.root b).map copy else [] }
    else clone

/-- `HT_resize`. -/
def HashTable.resize (t : HashTable V) (size : ℤ) : ℤ × HashTable V :=
  if size ≤ 0 ∨ size > maxHashTableSize then (0, t)
  else if size = t.size then (0, t)
  else if size > t.size then (1, t.grow size.toNat)
  else (1, t.shrink size.toNat)

/-- The rest of the chain where the walk for a key stops. -/
def HashTable.walk (t : HashTable V) (hash : UInt64) (key : List UInt8) : List (HashNode V) :=
  (t.root (t.bucket hash)).dropWhile fun n => decide (0 < entryCmp hash key n)

/-- What the walk passed. -/
def HashTable.passed (t : HashTable V) (hash : UInt64) (key : List UInt8) : List (HashNode V) :=
  (t.root (t.bucket hash)).takeWhile fun n => decide (0 < entryCmp hash key n)

/-- The node that the walk for a key stops at, if the key is its own. -/
def HashTable.found (t : HashTable V) (hash : UInt64) (key : List UInt8) : Option (HashNode V) :=
  (t.walk hash key).head?.filter fun n => decide (entryCmp hash key n = 0)

/-- The table with another count and with another chain in one bucket. -/
def HashTable.rechain (t : HashTable V) (b : ℕ) (count : ℤ) (chain : List (HashNode V)) :
    HashTable V :=
  { t with count := count, root := Function.update t.root b chain }

/-- The walk and the insertion in `HT_store` and `HT_storenode`. -/
def HashTable.link (t : HashTable V) (node : HashNode V) : ℤ × HashTable V :=
  match t.found node.hash node.key with
  | some _ => (0, t)
  | none =>
    (t.count + 1, t.rechain (t.bucket node.hash) (t.count + 1)
      (t.passed node.hash node.key ++ node :: t.walk node.hash node.key))

/-- `HT_storenode`. -/
def HashTable.storenode (t : HashTable V) (node : HashNode V) (pObj : Option V) :
    Call (ℤ × HashTable V) := do
  let t ← t.checkAutogrow
  .ok (t.link { node with pObj := pObj })

/-- `HT_store`, with the address of the node that it allocates. -/
def HashTable.store (t : HashTable V) (address : ℕ) (key : List UInt8) (keylen : ℕ) (hash : UInt64)
    (pObj : Option V) : Call (ℤ × HashTable V) := do
  let (hash, key) := hashArgs key keylen hash
  let t ← t.checkAutogrow
  .ok (t.link ⟨address, hash, key, pObj⟩)

/-- The unlinking of a node in `HT_fetchnode` and `HT_rmnode`, which look for the node
itself and not for its key. -/
def HashTable.unlink (t : HashTable V) (node : HashNode V) : Call (Option V × HashTable V) := do
  let b := t.bucket node.hash
  if (t.root b).any fun n => n.address = node.address then
    let t ← HashTable.checkAutoshrink <|
      t.rechain b (t.count - 1) ((t.root b).eraseP fun n => n.address = node.address)
    .ok (node.pObj, t)
  else .ok (none, t)

/-- `HT_fetch`. -/
def HashTable.fetch (t : HashTable V) (key : List UInt8) (keylen : ℕ) (hash : UInt64) :
    Call (Option V × HashTable V) := do
  if t.count = 0 then .ok (none, t)
  else
    let (hash, key) := hashArgs key keylen hash
    match t.found hash key with
    | none => .ok (none, t)
    | some n =>
      let t ← HashTable.checkAutoshrink <|
        t.rechain (t.bucket hash) (t.count - 1) (t.passed hash key ++ (t.walk hash key).tail)
      .ok (n.pObj, t)

/-- `HT_get`. -/
def HashTable.get (t : HashTable V) (key : List UInt8) (keylen : ℕ) (hash : UInt64) : Option V :=
  if t.count = 0 then none
  else
    let (hash, key) := hashArgs key keylen hash
    match t.found hash key with
    | none => none
    | some n => n.pObj

/-- `HT_exists`. -/
def HashTable.exists (t : HashTable V) (key : List UInt8) (keylen : ℕ) (hash : UInt64) : ℤ :=
  if t.count = 0 then 0
  else
    let (hash, key) := hashArgs key keylen hash
    match t.found hash key with
    | none => 0
    | some _ => 1

/-- `HashIterator`. -/
structure HashIterator (V : Type) where
  pNode : List (HashNode V)
  pBucket : ℕ
  remain : ℕ

/-- `HI_init`. -/
def HashTable.iterator (t : HashTable V) : HashIterator V where
  remain := 2 ^ t.size
  pBucket := 1
  pNode := t.root 0

/-- The loop of `HI_next` over the buckets that remain. -/
def nextNode (root : ℕ → List (HashNode V)) :
    ℕ → ℕ → List (HashNode V) → Option (HashNode V × HashIterator V)
  | 0, _, _ => none
  | remain + 1, pBucket, n :: rest => some (n, ⟨rest, pBucket, remain + 1⟩)
  | remain + 1, pBucket, [] =>
    if remain > 0 then nextNode root remain (pBucket + 1) (root pBucket) else none

/-- `HI_next`. -/
def HashTable.next (t : HashTable V) (it : HashIterator V) :
    Option (HashNode V × HashIterator V) :=
  nextNode t.root it.remain it.pBucket it.pNode

/-- A table and the nodes outside it that its user holds. -/
structure HashState (V : Type) where
  table : HashTable V
  loose : List (HashNode V)
  fresh : ℕ

def HashState.held (s : HashState V) : List (HashNode V) := s.loose ++ s.table.nodes

/-- The calls that the user of a table makes. -/
inductive HashCall (V : Type) where
  | newNode (key : List UInt8) (keylen : ℕ) (hash : UInt64)
  | store (key : List UInt8) (keylen : ℕ) (hash : UInt64) (pObj : Option V)
  | storenode (node : ℕ) (pObj : Option V)
  | fetchnode (node : ℕ)
  | rmnode (node : ℕ)
  | fetch (key : List UInt8) (keylen : ℕ) (hash : UInt64)
  | get (key : List UInt8) (keylen : ℕ) (hash : UInt64)
  | exists (key : List UInt8) (keylen : ℕ) (hash : UInt64)
  | resize (size : ℤ)
  | flush
  | clone (func : Option (Option V → Option V))

inductive HashResult (V : Type) where
  | int (value : ℤ)
  | ptr (pObj : Option V)
  | node (address : ℕ)
  | destroyed (objects : List (Option V))
  | table (clone : Option (HashTable V))

/-- The node behind a pointer that the user holds. -/
def HashState.deref (s : HashState V) (node : ℕ) : Call (HashNode V) :=
  match s.held.find? fun n => n.address = node with
  | some n => .ok n
  | none => .error .undefinedBehaviour

def HashState.step (s : HashState V) : HashCall V → Call (HashResult V × HashState V)
  | .newNode key keylen hash =>
    let (hash, key) := hashArgs key keylen hash
    .ok (.node s.fresh,
      { s with loose := ⟨s.fresh, hash, key, none⟩ :: s.loose, fresh := s.fresh + 1 })
  | .store key keylen hash pObj => do
    let (r, t) ← s.table.store s.fresh key keylen hash pObj
    .ok (.int r, { s with table := t, fresh := s.fresh + 1 })
  | .storenode node pObj => do
    let n ← s.deref node
    let (r, t) ← s.table.storenode n pObj
    let loose := if r = 0 then s.loose else s.loose.filter fun m => m.address ≠ node
    .ok (.int r, { s with table := t, loose := loose })
  | .fetchnode node => do
    let n ← s.deref node
    let (r, t) ← s.table.unlink n
    let found := (s.table.root (s.table.bucket n.hash)).any fun m => m.address = node
    let loose := if found then { n with pObj := none } :: s.loose else s.loose
    .ok (.ptr r, { s with table := t, loose := loose })
  | .rmnode node => do
    let n ← s.deref node
    let (r, t) ← s.table.unlink n
    .ok (.ptr r, { s with table := t })
  | .fetch key keylen hash => do
    let (r, t) ← s.table.fetch key keylen hash
    .ok (.ptr r, { s with table := t })
  | .get key keylen hash => .ok (.ptr (s.table.get key keylen hash), s)
  | .exists key keylen hash => .ok (.int (s.table.exists key keylen hash), s)
  | .resize size =>
    let (r, t) := s.table.resize size
    .ok (.int r, { s with table := t })
  | .flush =>
    let (objects, t) := s.table.flush
    .ok (.destroyed objects, { s with table := t })
  | .clone func =>
    .ok (.table (s.table.clone s.fresh func), { s with fresh := 2 * s.fresh })

end ConvertBinaryC
