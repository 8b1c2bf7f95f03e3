import ConvertBinaryC.CTLibMachine
import ConvertBinaryC.RingRules

/-! The linked lists of `util/list.c`: rings of links through the link that is part of the
list's own structure, and the call that moves links between them. -/
namespace ConvertBinaryC

open RingRules

variable {A O : Type} [DecidableEq A]

/-- The memory that holds lists and links. A list has the address of its own link, which
is the only one without an object; `live` tells which addresses are allocated. -/
structure ListHeap (A O : Type) where
  links : Links A
  pObj : A → Option O
  size : A → ℤ
  live : A → Bool

namespace ListHeap
variable (h : ListHeap A O)

/-- Reading a field of a link. -/
def read {B : Type} (field : A → B) (a : A) : Call B :=
  if h.live a then .ok (field a) else .error .undefinedBehaviour

def next (a : A) : Call A := h.read h.links.next a

def prev (a : A) : Call A := h.read h.links.prev a

def setNext (a v : A) : Call (ListHeap A O) :=
  if h.live a then .ok { h with links := ⟨Function.update h.links.next a v, h.links.prev⟩ }
  else .error .undefinedBehaviour

def setPrev (a v : A) : Call (ListHeap A O) :=
  if h.live a then .ok { h with links := ⟨h.links.next, Function.update h.links.prev a v⟩ }
  else .error .undefinedBehaviour

def setSize (a : A) (size : ℤ) : Call (ListHeap A O) :=
  if h.live a then .ok { h with size := Function.update h.size a size }
  else .error .undefinedBehaviour

def free (a : A) : Call (ListHeap A O) :=
  if h.live a then .ok { h with live := Function.update h.live a false }
  else .error .undefinedBehaviour

/-- `LL_new`, when the allocator returns `list`. -/
def llNew (list : A) : ListHeap A O where
  links := ⟨Function.update h.links.next list list, Function.update h.links.prev list list⟩
  pObj := Function.update h.pObj list none
  size := Function.update h.size list 0
  live := Function.update h.live list true

def followNext : ℕ → A → Call A
  | 0, pLink => .ok pLink
  | n + 1, pLink => do
    let pLink ← h.next pLink
    followNext n pLink

def followPrev : ℕ → A → Call A
  | 0, pLink => .ok pLink
  | n + 1, pLink => do
    let pLink ← h.prev pLink
    followPrev n pLink

/-- `GetLink` -/
def getLink (list : A) (item : ℤ) : Call (Option A) := do
  let size ← h.read h.size list
  if item < 0 then do
    let back ← int (-item)
    if size < back then .ok none
    else do
      let pLink ← h.followPrev back.toNat list
      .ok (some pLink)
  else if size ≤ item then .ok none
  else do
    let pLink ← h.followNext (item.toNat + 1) list
    .ok (some pLink)

/-- The loop of `LL_splice` that counts the links to extract and finds the last one. -/
def extent (length size : ℤ) (pLast : A) : Call (ℤ × A) :=
  if size + 1 < length then do
    let after ← h.next pLast
    let pObj ← h.read h.pObj after
    if pObj.isSome then extent length (size + 1) after else .ok (size + 1, pLast)
  else .ok (size + 1, pLast)
termination_by (length - size).toNat
decreasing_by omega

/-- The links from `pLink` to `pLast` become those of `nlist`. The result is the link that
followed them. -/
def extractLinks (nlist pLink pLast : A) : Call (A × ListHeap A O) := do
  let before ← h.prev pLink
  let after ← h.next pLast
  let h ← h.setNext before after
  let after ← h.next pLast
  let before ← h.prev pLink
  let h ← h.setPrev after before
  let h ← h.setNext nlist pLink
  let h ← h.setPrev nlist pLast
  let h ← h.setPrev pLink nlist
  let after ← h.next pLast
  let h ← h.setNext pLast nlist
  .ok (after, h)

/-- The links of `rlist` are put before `pLast`. -/
def insertLinks (rlist pLast : A) : Call (ListHeap A O) := do
  let pLink ← h.prev pLast
  let first ← h.next rlist
  let h ← h.setPrev first pLink
  let last ← h.prev rlist
  let h ← h.setNext last pLast
  let first ← h.next rlist
  let h ← h.setNext pLink first
  let last ← h.prev rlist
  h.setPrev pLast last

/-- The part of `LL_splice` that removes links. -/
def spliceOut (nlist list pLink : A) (length : ℤ) : Call (A × ListHeap A O) :=
  if 0 < length then do
    let (count, pLast) ← h.extent length 0 pLink
    let h ← h.setSize nlist count
    let (pLink, h) ← h.extractLinks nlist pLink pLast
    let size ← h.read h.size list
    let size ← int (size - count)
    let h ← h.setSize list size
    .ok (pLink, h)
  else .ok (pLink, h)

/-- The part that inserts the replacement and destroys it. -/
def spliceIn (list pLink : A) (rlist : Option A) : Call (ListHeap A O) :=
  match rlist with
  | none => .ok h
  | some rlist => do
    let h ← h.insertLinks rlist pLink
    let size ← h.read h.size list
    let more ← h.read h.size rlist
    let size ← int (size + more)
    let h ← h.setSize list size
    h.free rlist

/-- The link at the offset, which is the list's own one at the end. -/
def startLink (list : A) (size offset : ℤ) : Call (Option A) :=
  if offset = size then .ok (some list) else h.getLink list offset

/-- A negative length stands for all remaining elements. -/
def fullLength (size offset length : ℤ) : Call ℤ :=
  if length < 0 then (if offset < 0 then int (-offset) else int (size - offset))
  else .ok length

/-- `LL_splice`, where `nlist` is what the allocator returns for the new list. -/
def llSplice (nlist : A) (list : Option A) (offset length : ℤ) (rlist : Option A) :
    Call (Option A × ListHeap A O) :=
  match list with
  | none => .ok (none, h)
  | some list => do
    let size ← h.read h.size list
    let pLink ← h.startLink list size offset
    match pLink with
    | none => .ok (none, h)
    | some pLink => do
      let h := h.llNew nlist
      let length ← fullLength size offset length
      let (pLink, h) ← h.spliceOut nlist list pLink length
      let h ← h.spliceIn list pLink rlist
      .ok (some nlist, h)

end ListHeap
end ConvertBinaryC
