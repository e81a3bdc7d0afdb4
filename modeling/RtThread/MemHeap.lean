import Mathlib.Logic.Function.Basic
import RtThread.Kernel

/-! The memory heap (memheap.c): rt_memheap_init, rt_memheap_alloc, rt_memheap_realloc and
rt_memheap_free, each one called when the lock is free. Item headers, links and the data
of the callers are words of one memory, so that a header written over data or over another
header destroys it. The pool lies inside of the address space. -/
namespace RtThread.MemHeap

def rtMemheapMagic : Nat := 0x1ea01ea0
def rtMemheapMask : Nat := 0xfffffffe
def rtMemheapUsed : Nat := 0x01
def rtMemheapMinialloc : Nat := 12
def rtMemheapSize : Nat := 24

/-- What rt_memheap_init fixes: the address of the control block, the pool, and the
address of the header of the free list, which lies in the control block. -/
structure Region where
  self : Nat
  startAddr : Nat
  poolSize : Nat
  freeList : Nat

structure Memheap extends Region where
  availableSize : Nat
  maxUsedSize : Nat
  mem : Nat → Nat

namespace Memheap

/- The six words of the item at `x`. -/
def magic (h : Memheap) (x : Nat) : Nat := h.mem x
def poolPtr (h : Memheap) (x : Nat) : Nat := h.mem (x + 4)
def next (h : Memheap) (x : Nat) : Nat := h.mem (x + 8)
def prev (h : Memheap) (x : Nat) : Nat := h.mem (x + 12)
def nextFree (h : Memheap) (x : Nat) : Nat := h.mem (x + 16)
def prevFree (h : Memheap) (x : Nat) : Nat := h.mem (x + 20)

def put (h : Memheap) (a v : Nat) : Memheap := { h with mem := Function.update h.mem a v }

def setMagic (h : Memheap) (x v : Nat) : Memheap := h.put x v
def setPoolPtr (h : Memheap) (x v : Nat) : Memheap := h.put (x + 4) v
def setNext (h : Memheap) (x v : Nat) : Memheap := h.put (x + 8) v
def setPrev (h : Memheap) (x v : Nat) : Memheap := h.put (x + 12) v
def setNextFree (h : Memheap) (x v : Nat) : Memheap := h.put (x + 16) v
def setPrevFree (h : Memheap) (x v : Nat) : Memheap := h.put (x + 20) v

def setItem (h : Memheap) (x magic next prev nextFree prevFree : Nat) : Memheap :=
  let h := (h.setMagic x magic).setPoolPtr x h.self
  let h := (h.setNext x next).setPrev x prev
  (h.setNextFree x nextFree).setPrevFree x prevFree

def isUsed (h : Memheap) (x : Nat) : Bool := h.magic x &&& rtMemheapUsed ≠ 0

def memitemSize (h : Memheap) (x : Nat) : Nat := sub32 (sub32 (h.next x) x) rtMemheapSize

def unlinkFree (h : Memheap) (x : Nat) : Memheap :=
  let h := h.setPrevFree (h.nextFree x) (h.prevFree x)
  h.setNextFree (h.prevFree x) (h.nextFree x)

def insertFree (h : Memheap) (x : Nat) : Memheap :=
  let h := h.setNextFree x (h.nextFree h.freeList)
  let h := h.setPrevFree x h.freeList
  let h := h.setPrevFree (h.nextFree h.freeList) x
  h.setNextFree h.freeList x

/-- A free item at `y` inside of the one at `x`, which ends there. -/
def buildItem (h : Memheap) (x y : Nat) : Memheap :=
  let h := h.setMagic y rtMemheapMagic
  let h := h.setPoolPtr y h.self
  let h := h.setPrev y x
  let h := h.setNext y (h.next x)
  let h := h.setPrev (h.next x) y
  h.setNext x y

/-- The item at `x` takes in the free one at `y` behind it. -/
def absorb (h : Memheap) (x y : Nat) : Memheap :=
  let h := h.setPrev (h.next y) x
  let h := h.setNext x (h.next y)
  h.unlinkFree y

def takeRoom (h : Memheap) (n : Nat) : Memheap :=
  let available := sub32 h.availableSize n
  let used := sub32 h.poolSize available
  { h with availableSize := available, maxUsedSize := if h.maxUsedSize < used then used else h.maxUsedSize }

def giveRoom (h : Memheap) (n : Nat) : Memheap :=
  { h with availableSize := (h.availableSize + n) % 2 ^ 32 }

end Memheap

open Memheap

def rtMemheapInit (mem : Nat → Nat) (self freeHeader startAddr size : Nat) : Memheap :=
  let poolSize := rtAlignDown size
  let available := sub32 poolSize (2 * rtMemheapSize)
  let h : Memheap := {
    self := self, startAddr := startAddr, poolSize := poolSize, freeList := freeHeader
    availableSize := available, maxUsedSize := sub32 poolSize available, mem := mem }
  let item := freeHeader
  let h := h.setItem item rtMemheapMagic 0 0 item item
  let item := startAddr
  let h := h.setItem item rtMemheapMagic 0 0 item item
  let h := h.setNext item (item + available + rtMemheapSize)
  let h := h.setPrev item (h.next item)
  let h := h.insertFree item
  h.setItem (h.next item) (rtMemheapMagic ||| rtMemheapUsed) startAddr startAddr 0 0

/-- The search of rt_memheap_alloc with `header_ptr` and `free_size`, `none` if it has not
ended when the fuel has. -/
def searchFree (h : Memheap) (size : Nat) : Nat → Nat → Nat → Option (Nat × Nat)
  | fuel, headerPtr, freeSize =>
    if headerPtr ≠ h.freeList ∧ freeSize < size then
      match fuel with
      | 0 => none
      | fuel + 1 =>
        let freeSize := h.memitemSize headerPtr
        searchFree h size fuel (if freeSize < size then h.nextFree headerPtr else headerPtr) freeSize
    else some (headerPtr, freeSize)

def claimItem (h : Memheap) (x freeSize size : Nat) : Memheap :=
  let h :=
    if size + rtMemheapSize + rtMemheapMinialloc ≤ freeSize then
      let newPtr := x + size + rtMemheapSize
      let h := (h.buildItem x newPtr).unlinkFree x
      let h := (h.setNextFree x 0).setPrevFree x 0
      (h.insertFree newPtr).takeRoom (size + rtMemheapSize)
    else
      let h := (h.takeRoom freeSize).unlinkFree x
      (h.setNextFree x 0).setPrevFree x 0
  h.setMagic x (h.magic x ||| rtMemheapUsed)

/-- The size that is really asked for. -/
def itemRequest (size : Nat) : Nat :=
  let size := rtAlign size
  if size < rtMemheapMinialloc then rtMemheapMinialloc else size

/-- RT_NULL is 0. The free list is shorter than the pool, so the search has fuel enough. -/
def rtMemheapAlloc (h : Memheap) (size : Nat) : Option (Memheap × Nat) :=
  let size := itemRequest size
  if size < h.availableSize then
    (searchFree h size (h.poolSize + 1) (h.nextFree h.freeList) 0).map (fun r =>
      if size ≤ r.2 then (claimItem h r.1 r.2 size, r.1 + rtMemheapSize) else (h, 0))
  else some (h, 0)

/-- The merge with the previous neighbour in rt_memheap_free. -/
def mergeLeft (h : Memheap) (x : Nat) : Memheap × Nat :=
  let h := h.giveRoom rtMemheapSize
  let h := h.setNext (h.prev x) (h.next x)
  let h := h.setPrev (h.next x) (h.prev x)
  (h, h.prev x)

/-- The merge with the next neighbour in rt_memheap_free. -/
def mergeRight (h : Memheap) (x : Nat) : Memheap :=
  if h.isUsed (h.next x) then h
  else
    let h := h.giveRoom rtMemheapSize
    h.absorb x (h.next x)

/-- The part of rt_memheap_free behind its checks, for the item at `x`. -/
def releaseItem (h : Memheap) (x : Nat) : Memheap :=
  let h := h.setMagic x (h.magic x &&& rtMemheapMask)
  let h := h.giveRoom (h.memitemSize x)
  if h.isUsed (h.prev x) then (mergeRight h x).insertFree x
  else
    let r := mergeLeft h x
    mergeRight r.1 r.2

/- Nothing is said about an item whose header names another heap. -/
def rtMemheapFree (h : Memheap) (ptr : Nat) : Option Memheap :=
  if ptr = 0 then some h
  else
    let x := ptr - rtMemheapSize
    if h.magic x &&& rtMemheapMask = rtMemheapMagic ∧ h.isUsed x ∧
        h.magic (h.next x) &&& rtMemheapMask = rtMemheapMagic ∧ h.poolPtr x = h.self then
      some (releaseItem h x)
    else none

def expandItem (h : Memheap) (x oldsize newsize : Nat) : Memheap :=
  let nextPtr := h.next x
  let h := (h.takeRoom (sub32 newsize oldsize)).unlinkFree nextPtr
  let h := h.setPrev (h.next nextPtr) (h.prev nextPtr)
  let h := h.setNext (h.prev nextPtr) (h.next nextPtr)
  let nextPtr := x + rtMemheapSize + newsize
  (h.buildItem x nextPtr).insertFree nextPtr

/- Sizes are multiples of four, so whole words are copied. -/
def rtMemcpy (h : Memheap) (dst src n : Nat) : Memheap :=
  { h with mem := fun a => if dst ≤ a ∧ a < dst + n then h.mem (src + (a - dst)) else h.mem a }

def moveItem (h : Memheap) (ptr oldsize newsize : Nat) : Option (Memheap × Nat) :=
  (rtMemheapAlloc h newsize).bind (fun r =>
    if r.2 = 0 then some r
    else (rtMemheapFree (rtMemcpy r.1 r.2 ptr (min oldsize newsize)) ptr).map (fun h => (h, r.2)))

/-- The merge of a new item with the next neighbour in rt_memheap_realloc. -/
def mergeCut (h : Memheap) (newPtr : Nat) : Memheap :=
  if h.isUsed (h.next newPtr) then h
  else
    let freePtr := h.next newPtr
    { h with availableSize := sub32 h.availableSize (h.memitemSize freePtr) }.absorb newPtr freePtr

def shrinkItem (h : Memheap) (x newsize : Nat) : Memheap :=
  let newPtr := x + newsize + rtMemheapSize
  let h := (mergeCut (h.buildItem x newPtr) newPtr).insertFree newPtr
  h.giveRoom (h.memitemSize newPtr)

def rtMemheapRealloc (h : Memheap) (ptr newsize : Nat) : Option (Memheap × Nat) :=
  if newsize = 0 then (rtMemheapFree h ptr).map (fun h => (h, 0))
  else
    let newsize := itemRequest newsize
    if ptr = 0 then rtMemheapAlloc h newsize
    else
      let x := ptr - rtMemheapSize
      let oldsize := h.memitemSize x
      if oldsize < newsize then
        let nextPtr := h.next x
        if nextPtr ≤ x then none
        else if h.isUsed nextPtr = false ∧
            (newsize + rtMemheapMinialloc) % 2 ^ 32 < (h.memitemSize nextPtr + oldsize) % 2 ^ 32 then
          some (expandItem h x oldsize newsize, ptr)
        else moveItem h ptr oldsize newsize
      else if oldsize ≤ newsize + rtMemheapSize + rtMemheapMinialloc then some (h, ptr)
      else some (shrinkItem h x newsize, ptr)

end RtThread.MemHeap
