import ConvertBinaryC.UtilListWalk

/-! The calls of `util/list.c` that add, remove and look up elements, its iterators and
`LL_clone`, and what these calls do to a sequence. -/
namespace ConvertBinaryC

variable {A O : Type}

/-- The allocator finds an address that is not allocated, or none. -/
structure Allocator (A : Type) where
  find : (A → Bool) → Option A
  fresh : ∀ live a, find live = some a → live a = false

/-- The values of an `int`. -/
def CInt : Type := { x : ℤ // IsInt x }

namespace ListHeap
variable [DecidableEq A] (h : ListHeap A O)

/-- Without memory the program ends. -/
def outOfMemory : Fault := .fatal "out of memory!"

/-- `AllocF` -/
def alloc (m : Allocator A) : Call (A × ListHeap A O) :=
  match m.find h.live with
  | none => .error outOfMemory
  | some a => .ok (a, { h with live := Function.update h.live a true })

def setObj (a : A) (pObj : O) : Call (ListHeap A O) :=
  if h.live a then .ok { h with pObj := Function.update h.pObj a (some pObj) }
  else .error .undefinedBehaviour

/-- `Extract` -/
def extract (list pLink : A) : Call (Option O × ListHeap A O) := do
  let pObj ← h.read h.pObj pLink
  let before ← h.prev pLink
  let after ← h.next pLink
  let h ← h.setNext before after
  let after ← h.next pLink
  let before ← h.prev pLink
  let h ← h.setPrev after before
  let size ← h.read h.size list
  let size ← int (size - 1)
  let h ← h.setSize list size
  let h ← h.free pLink
  .ok (pObj, h)

/-- `Insert` -/
def insert (m : Allocator A) (list pLink : A) (pObj : O) : Call (ListHeap A O) := do
  let (pLinkNew, h) ← h.alloc m
  let h ← h.setObj pLinkNew pObj
  let before ← h.prev pLink
  let h ← h.setPrev pLinkNew before
  let h ← h.setNext pLinkNew pLink
  let before ← h.prev pLink
  let h ← h.setNext before pLinkNew
  let h ← h.setPrev pLink pLinkNew
  let size ← h.read h.size list
  let size ← int (size + 1)
  h.setSize list size

/-- `LL_new` with its allocation -/
def newList (m : Allocator A) : Call (A × ListHeap A O) := do
  let (list, h) ← h.alloc m
  .ok (list, h.llNew list)

/-- `LL_push` -/
def llPush (m : Allocator A) (list : Option A) (pObj : Option O) : Call (ListHeap A O) :=
  match list, pObj with
  | some list, some pObj => h.insert m list list pObj
  | _, _ => .ok h

/-- `LL_pop` -/
def llPop (list : Option A) : Call (Option O × ListHeap A O) :=
  match list with
  | none => .ok (none, h)
  | some list => do
    let size ← h.read h.size list
    if size = 0 then .ok (none, h)
    else do
      let pLink ← h.prev list
      h.extract list pLink

/-- `LL_unshift` -/
def llUnshift (m : Allocator A) (list : Option A) (pObj : Option O) : Call (ListHeap A O) :=
  match list, pObj with
  | some list, some pObj => do
    let pLink ← h.next list
    h.insert m list pLink pObj
  | _, _ => .ok h

/-- `LL_shift` -/
def llShift (list : Option A) : Call (Option O × ListHeap A O) :=
  match list with
  | none => .ok (none, h)
  | some list => do
    let size ← h.read h.size list
    if size = 0 then .ok (none, h)
    else do
      let pLink ← h.next list
      h.extract list pLink

/-- The link before which `LL_insert` inserts. -/
def insertLink (list : A) (item : ℤ) : Call (Option A) :=
  if item < 0 then
    if item = -1 then .ok (some list)
    else do
      let item ← int (item + 1)
      h.getLink list item
  else do
    let size ← h.read h.size list
    if item = size then .ok (some list) else h.getLink list item

/-- `LL_insert` -/
def llInsert (m : Allocator A) (list : Option A) (item : ℤ) (pObj : Option O) :
    Call (ListHeap A O) :=
  match list, pObj with
  | some list, some pObj => do
    match ← h.insertLink list item with
    | none => .ok h
    | some pLink => h.insert m list pLink pObj
  | _, _ => .ok h

/-- `LL_extract` -/
def llExtract (list : Option A) (item : ℤ) : Call (Option O × ListHeap A O) :=
  match list with
  | none => .ok (none, h)
  | some list => do
    let size ← h.read h.size list
    if size = 0 then .ok (none, h)
    else do
      match ← h.getLink list item with
      | none => .ok (none, h)
      | some pLink => h.extract list pLink

/-- `LL_get` -/
def llGet (list : Option A) (item : ℤ) : Call (Option O) :=
  match list with
  | none => .ok none
  | some list => do
    let size ← h.read h.size list
    if size = 0 then .ok none
    else do
      match ← h.getLink list item with
      | none => .ok none
      | some pLink => h.read h.pObj pLink

/-- The loop of `LL_flush`, and the objects that it hands to the destructor. -/
def flushLoop : ℕ → Option A → ListHeap A O → Call (List O × ListHeap A O)
  | 0, _, _ => .error .outOfFuel
  | turns + 1, list, h => do
    let (pObj, h) ← h.llShift list
    match pObj with
    | none => .ok ([], h)
    | some pObj => do
      let (pObjs, h) ← flushLoop turns list h
      .ok (pObj :: pObjs, h)

/-- `LL_flush` -/
def llFlush (turns : ℕ) (list : Option A) : Call (List O × ListHeap A O) :=
  match list with
  | none => .ok ([], h)
  | some list => flushLoop turns (some list) h

end ListHeap

/-- `ListIterator` -/
structure ListIterator (A : Type) where
  list : Option A
  cur : A

namespace ListHeap
variable [DecidableEq A] (h : ListHeap A O)

/-- `LI_init` -/
def liInit (it : ListIterator A) (list : Option A) : ListIterator A :=
  match list with
  | none => { it with list := none }
  | some list => ⟨some list, list⟩

/-- `LI_next` -/
def liNext (it : ListIterator A) : Call (Bool × ListIterator A) :=
  match it.list with
  | none => .ok (false, it)
  | some list => do
    let cur ← h.next it.cur
    .ok (decide (cur ≠ list), { it with cur := cur })

/-- `LI_prev` -/
def liPrev (it : ListIterator A) : Call (Bool × ListIterator A) :=
  match it.list with
  | none => .ok (false, it)
  | some list => do
    let cur ← h.prev it.cur
    .ok (decide (cur ≠ list), { it with cur := cur })

/-- `LI_curr` -/
def liCurr (it : ListIterator A) : Call (Option O) :=
  match it.list with
  | none => .ok none
  | some _ => h.read h.pObj it.cur

/-- A loop over an iterator, until there is no other element or until an object is missing. -/
def iterate (move : ListIterator A → Call (Bool × ListIterator A)) :
    ℕ → ListIterator A → Call (List O)
  | 0, _ => .error .outOfFuel
  | turns + 1, it => do
    let (more, it) ← move it
    if more then do
      match ← h.liCurr it with
      | none => .ok []
      | some pObj => do
        let pObjs ← iterate move turns it
        .ok (pObj :: pObjs)
    else .ok []

/-- What `LL_clone` pushes for an object. -/
def cloned (func : Option (O → Option O)) (pObj : O) : Option O :=
  match func with
  | none => some pObj
  | some func => func pObj

/-- The loop of `LL_clone`. -/
def cloneLoop (m : Allocator A) (func : Option (O → Option O)) (clone : A) :
    ℕ → ListIterator A → ListHeap A O → Call (ListHeap A O)
  | 0, _, _ => .error .outOfFuel
  | turns + 1, it, h => do
    let (more, it) ← h.liNext it
    if more then do
      match ← h.liCurr it with
      | none => .ok h
      | some pObj => do
        let h ← h.llPush m (some clone) (cloned func pObj)
        cloneLoop m func clone turns it h
    else .ok h

/-- `LL_clone`; the iterator is not initialized before. -/
def llClone (m : Allocator A) (turns : ℕ) (it : ListIterator A) (list : Option A)
    (func : Option (O → Option O)) : Call (Option A × ListHeap A O) :=
  match list with
  | none => .ok (none, h)
  | some list => do
    let (clone, h) ← h.newList m
    let h ← cloneLoop m func clone turns (liInit it (some list)) h
    .ok (some clone, h)

end ListHeap

/-- A call that changes or looks up a list, with objects that are not null. -/
inductive ListCall (O : Type) where
  | push (pObj : O)
  | pop
  | unshift (pObj : O)
  | shift
  | insert (item : CInt) (pObj : O)
  | extract (item : CInt)
  | get (item : CInt)
  | flush

namespace ListCall

/-- The call on a list, and the objects that it returns or hands to the destructor. -/
def run [DecidableEq A] (m : Allocator A) (turns : ℕ) (list : A) (h : ListHeap A O) :
    ListCall O → Call (List O × ListHeap A O)
  | push pObj => do
    let h ← h.llPush m (some list) (some pObj)
    .ok ([], h)
  | pop => do
    let (pObj, h) ← h.llPop (some list)
    .ok (pObj.toList, h)
  | unshift pObj => do
    let h ← h.llUnshift m (some list) (some pObj)
    .ok ([], h)
  | shift => do
    let (pObj, h) ← h.llShift (some list)
    .ok (pObj.toList, h)
  | insert item pObj => do
    let h ← h.llInsert m (some list) item.1 (some pObj)
    .ok ([], h)
  | extract item => do
    let (pObj, h) ← h.llExtract (some list) item.1
    .ok (pObj.toList, h)
  | get item => do
    let pObj ← h.llGet (some list) item.1
    .ok (pObj.toList, h)
  | flush => h.llFlush turns (some list)

/-- The place among `count` ones that an index means, which counts from the end if it is
negative. -/
def place (count : ℕ) (item : ℤ) : Option ℕ :=
  if -(count : ℤ) ≤ item ∧ item < count then
    some (if item < 0 then item + count else item).toNat
  else none

/-- What the call does to a sequence. -/
def apply (xs : List O) : ListCall O → List O × List O
  | push pObj => ([], xs ++ [pObj])
  | pop => (xs.getLast?.toList, xs.dropLast)
  | unshift pObj => ([], pObj :: xs)
  | shift => (xs.head?.toList, xs.tail)
  | insert item pObj =>
    match place (xs.length + 1) item.1 with
    | none => ([], xs)
    | some i => ([], xs.take i ++ pObj :: xs.drop i)
  | extract item =>
    match place xs.length item.1 with
    | none => ([], xs)
    | some i => (xs[i]?.toList, xs.take i ++ xs.drop (i + 1))
  | get item =>
    match place xs.length item.1 with
    | none => ([], xs)
    | some i => (xs[i]?.toList, xs)
  | flush => (xs, [])

/-- The list does not outgrow an int, and the index can be negated. -/
def Safe (xs : List O) : ListCall O → Prop
  | push _ | unshift _ => xs.length < 2147483647
  | insert item _ => place (xs.length + 1) item.1 ≠ none → xs.length < 2147483647
  | extract item | get item => xs = [] ∨ item.1 ≠ -2147483648
  | _ => True

end ListCall
end ConvertBinaryC
