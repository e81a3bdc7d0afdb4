import Mathlib.Algebra.Order.Ring.Int
import Mathlib.Logic.Function.Basic

/-! The slab allocator on 32-bit addresses: its pages, zones and chunks are linked through the memory
that they manage. Each function runs with the heap locked. -/
namespace RtThread.Slab

def rtMmPageSize : Nat := 4096
def zallocSlabMagic : Nat := 0x51ab51ab
def zallocZoneLimit : Nat := 16 * 1024
def zallocMinZoneSize : Nat := 32 * 1024
def zallocMaxZoneSize : Nat := 128 * 1024
def nzones : Nat := 72
def zoneReleaseThresh : Nat := 2
def minChunkSize : Nat := 8
def sizeofSlabZone : Nat := 36
def sizeofMemusage : Nat := 4

def pageTypeFree : Nat := 0
def pageTypeSmall : Nat := 1
def pageTypeLarge : Nat := 2

def rtAlign (size align : Nat) : Nat := (size + (align - 1)) % 2 ^ 32 / align * align
def rtAlignDown (size align : Nat) : Nat := size / align * align

/-- `word a` is the word at the address `a`; 0 is the null pointer. -/
structure Heap where
  word : Nat → Nat
  heapStart : Nat
  heapEnd : Nat
  memusage : Nat
  rtPageList : Nat
  zoneArray : Nat → Nat
  zoneFree : Nat
  zoneFreeCnt : Nat
  zoneSize : Nat
  zoneLimit : Nat
  zonePageCnt : Nat

namespace Heap
variable (s : Heap)

def put (a v : Nat) : Heap := { s with word := Function.update s.word a v }

/-- The fields of an rt_page_head. -/
def next (b : Nat) : Nat := s.word b
def page (b : Nat) : Nat := s.word (b + 4)
def setNext (b v : Nat) : Heap := s.put b v
def setPage (b v : Nat) : Heap := s.put (b + 4) v

/-- The fields of a slab_zone. -/
def zMagic (z : Nat) : Nat := s.word z
def zNfree (z : Nat) : Nat := s.word (z + 4)
def zNmax (z : Nat) : Nat := s.word (z + 8)
def zNext (z : Nat) : Nat := s.word (z + 12)
def zBaseptr (z : Nat) : Nat := s.word (z + 16)
def zUindex (z : Nat) : Nat := s.word (z + 20)
def zChunksize (z : Nat) : Nat := s.word (z + 24)
def zZoneindex (z : Nat) : Nat := s.word (z + 28)
def zFreechunk (z : Nat) : Nat := s.word (z + 32)

/-- The entry of an address in memusage: the page type in two bits, and the size in thirty. -/
def btokup (addr : Nat) : Nat := s.memusage + (addr - s.heapStart) / rtMmPageSize * sizeofMemusage
def kupType (kup : Nat) : Nat := s.word kup % 4
def kupSize (kup : Nat) : Nat := s.word kup / 4
def setKup (kup type size : Nat) : Heap := s.put kup (type + 4 * (size % 2 ^ 30))

/-- `*prev`, where `prev` is &rt_page_list or the next field of a page head. -/
def pageSlot : Option Nat → Nat
  | none => s.rtPageList
  | some b => s.next b

def setPageSlot (prev : Option Nat) (v : Nat) : Heap :=
  match prev with
  | none => { s with rtPageList := v }
  | some b => s.setNext b v

/-- No more runs than pages are linked. -/
def listFuel : Nat := (s.heapEnd - s.heapStart) / rtMmPageSize + 1

end Heap

def pageAllocLoop (npages : Nat) : Nat → Heap → Option Nat → Option (Heap × Nat)
  | 0, _, _ => none
  | fuel + 1, s, prev =>
    let b := s.pageSlot prev
    if b = 0 then some (s, 0)
    else if npages < s.page b then
      let n := b + npages * rtMmPageSize
      let s := s.setNext n (s.next b)
      let s := s.setPage n (s.page b - npages)
      some (s.setPageSlot prev n, b)
    else if s.page b = npages then some (s.setPageSlot prev (s.next b), b)
    else pageAllocLoop npages fuel s (some b)

/-- The address of the pages, or 0. -/
def rtPageAlloc (s : Heap) (npages : Nat) : Option (Heap × Nat) :=
  if npages = 0 then some (s, 0) else pageAllocLoop npages s.listFuel s none

/-- What follows the loop of rt_page_free. -/
def pageInsert (s : Heap) (prev : Option Nat) (n b npages : Nat) : Heap :=
  let s := s.setPage n npages
  let s := s.setNext n b
  s.setPageSlot prev n

/-- A failed assertion gives no result. -/
def pageFreeLoop (n npages : Nat) : Nat → Heap → Option Nat → Option Heap
  | 0, _, _ => none
  | fuel + 1, s, prev =>
    let b := s.pageSlot prev
    if b = 0 then some (pageInsert s prev n b npages)
    else if ¬(0 < s.page b ∧ (n < b ∨ b + s.page b * rtMmPageSize ≤ n)) then none
    else if b + s.page b * rtMmPageSize = n then
      let s := s.setPage b (s.page b + npages)
      if b + s.page b * rtMmPageSize = s.next b then
        let s := s.setPage b (s.page b + s.page (s.next b))
        some (s.setNext b (s.next (s.next b)))
      else some s
    else if b = n + npages * rtMmPageSize then
      let s := s.setPage n (s.page b + npages)
      let s := s.setNext n (s.next b)
      some (s.setPageSlot prev n)
    else if n + npages * rtMmPageSize < b then some (pageInsert s prev n b npages)
    else pageFreeLoop n npages fuel s (some b)

def rtPageFree (s : Heap) (addr npages : Nat) : Option Heap :=
  if addr ≠ 0 ∧ addr % rtMmPageSize = 0 ∧ npages ≠ 0 then pageFreeLoop addr npages s.listFuel s none
  else none

def rtPageInit (s : Heap) (addr npages : Nat) : Option Heap :=
  if addr ≠ 0 ∧ npages ≠ 0 then rtPageFree { s with rtPageList := 0 } addr npages else none

/-- The zone size doubles from 32K to 128K at most. -/
def growZone (limsize : Nat) : Nat → Nat → Nat
  | 0, zoneSize => zoneSize
  | fuel + 1, zoneSize =>
    if zoneSize < zallocMaxZoneSize ∧ zoneSize * 2 < limsize / 1024 then growZone limsize fuel (zoneSize * 2)
    else zoneSize

/-- The static variables are zero before; it leaves them so where the heap is empty. -/
def rtSystemHeapInit (word : Nat → Nat) (beginAddr endAddr : Nat) : Option Heap :=
  let heapStart := rtAlign beginAddr rtMmPageSize
  let heapEnd := rtAlignDown endAddr rtMmPageSize
  if heapEnd ≤ heapStart then none
  else
    let limsize := heapEnd - heapStart
    let npages := limsize / rtMmPageSize
    let zoneSize := growZone limsize 2 zallocMinZoneSize
    let zoneLimit := if zallocZoneLimit < zoneSize / 4 then zallocZoneLimit else zoneSize / 4
    let s : Heap := ⟨word, heapStart, heapEnd, 0, 0, fun _ => 0, 0, 0, zoneSize, zoneLimit, zoneSize / rtMmPageSize⟩
    (rtPageInit s heapStart npages).bind (fun s =>
      let limsize := rtAlign (npages * sizeofMemusage) rtMmPageSize
      (rtPageAlloc s (limsize / rtMmPageSize)).map (fun r => { r.1 with memusage := r.2 }))

/-- The size of a chunk, and the zone index. -/
def zoneindex (n : Nat) : Nat × Nat :=
  if n < 128 then
    let n := rtAlign n 8
    (n, n / 8 - 1)
  else if n < 256 then
    let n := rtAlign n 16
    (n, n / 16 + 7)
  else if n < 8192 then
    if n < 512 then
      let n := rtAlign n 32
      (n, n / 32 + 15)
    else if n < 1024 then
      let n := rtAlign n 64
      (n, n / 64 + 23)
    else if n < 2048 then
      let n := rtAlign n 128
      (n, n / 128 + 31)
    else if n < 4096 then
      let n := rtAlign n 256
      (n, n / 256 + 39)
    else
      let n := rtAlign n 512
      (n, n / 512 + 47)
  else if n < 16384 then
    let n := rtAlign n 1024
    (n, n / 1024 + 55)
  else (n, 0)

def mallocLarge (s : Heap) (size : Nat) : Option (Heap × Nat) :=
  let size := rtAlign size rtMmPageSize
  (rtPageAlloc s (size / rtMmPageSize)).map (fun r =>
    if r.2 = 0 then (r.1, 0)
    else (r.1.setKup (r.1.btokup r.2) pageTypeLarge (size / rtMmPageSize), r.2))

def takeChunk (s : Heap) (zi z size : Nat) : Option (Heap × Nat) :=
  if s.zNfree z = 0 then none
  else
    let s := s.put (z + 4) (s.zNfree z - 1)
    let s :=
      if s.zNfree z = 0 then
        { s with zoneArray := Function.update s.zoneArray zi (s.zNext z) }.put (z + 12) 0
      else s
    if s.zUindex z + 1 ≠ s.zNmax z then
      let s := s.put (z + 20) (s.zUindex z + 1)
      some (s, s.zBaseptr z + s.zUindex z * size)
    else
      let chunk := s.zFreechunk z
      some (s.put (z + 32) (s.word chunk), chunk)

/-- Where the chunks of a zone begin. -/
def zoneOffset (size : Nat) : Nat :=
  if (size ||| (size - 1)) + 1 = size <<< 1 then rtAlign sizeofSlabZone size
  else rtAlign sizeofSlabZone minChunkSize

def setupZone (s : Heap) (zi z size : Nat) : Heap :=
  let s := (List.range (sizeofSlabZone / 4)).foldl (fun s i => s.put (z + i * 4) 0) s
  let off := zoneOffset size
  let s := s.put z zallocSlabMagic
  let s := s.put (z + 28) zi
  let s := s.put (z + 8) ((s.zoneSize - off) / size)
  let s := s.put (z + 4) (s.zNmax z - 1)
  let s := s.put (z + 16) (z + off)
  let s := s.put (z + 20) 0
  let s := s.put (z + 24) size
  let s := s.put (z + 12) (s.zoneArray zi)
  { s with zoneArray := Function.update s.zoneArray zi z }

def markZone (s : Heap) (z : Nat) : Heap :=
  (List.range s.zonePageCnt).foldl (fun s off => s.setKup (s.btokup z + off * sizeofMemusage) pageTypeSmall off) s

/-- A zone for a chunk size that has none with a free chunk. -/
def mallocZone (s : Heap) (zi size : Nat) : Option (Heap × Nat) :=
  let chunkOf (s : Heap) (z : Nat) : Heap × Nat :=
    let s := setupZone s zi z size
    (s, s.zBaseptr z + s.zUindex z * size)
  let z := s.zoneFree
  if z ≠ 0 then some (chunkOf { s with zoneFree := s.zNext z, zoneFreeCnt := s.zoneFreeCnt - 1 } z)
  else
    (rtPageAlloc s (s.zoneSize / rtMmPageSize)).map (fun r =>
      if r.2 = 0 then (r.1, 0) else chunkOf (markZone r.1 r.2) r.2)

def rtMalloc (s : Heap) (size : Nat) : Option (Heap × Nat) :=
  if size = 0 then some (s, 0)
  else if s.zoneLimit ≤ size then mallocLarge s size
  else
    let (size, zi) := zoneindex size
    if nzones ≤ zi then none
    else
      let z := s.zoneArray zi
      if z ≠ 0 then takeChunk s zi z size else mallocZone s zi size

/-- `*pz`, where `pz` is the place in the zone array or the next field of a zone. -/
def Heap.zoneSlot (s : Heap) (zi : Nat) : Option Nat → Nat
  | none => s.zoneArray zi
  | some y => s.zNext y

def Heap.setZoneSlot (s : Heap) (zi : Nat) (pz : Option Nat) (v : Nat) : Heap :=
  match pz with
  | none => { s with zoneArray := Function.update s.zoneArray zi v }
  | some y => s.put (y + 12) v

/-- A zone goes out of the zone array. -/
def unlinkZone (zi z : Nat) : Nat → Heap → Option Nat → Option Heap
  | 0, _, _ => none
  | fuel + 1, s, pz =>
    if s.zoneSlot zi pz = z then some (s.setZoneSlot zi pz (s.zNext z))
    else unlinkZone zi z fuel s (some (s.zoneSlot zi pz))

def releaseZone (s : Heap) : Option Heap :=
  let z := s.zoneFree
  let s := { s with zoneFree := s.zNext z, zoneFreeCnt := s.zoneFreeCnt - 1 }
  let s := (List.range s.zonePageCnt).foldl
    (fun s i => s.setKup (s.btokup z + i * sizeofMemusage) pageTypeFree 0) s
  rtPageFree s z (s.zoneSize / rtMmPageSize)

/-- A wholly free zone goes to the free zones. -/
def retireZone (s : Heap) (z : Nat) : Option Heap :=
  (unlinkZone (s.zZoneindex z) z s.listFuel s none).bind (fun s =>
    let s := s.put z 0xffffffff
    let s := s.put (z + 12) s.zoneFree
    let s := { s with zoneFree := z, zoneFreeCnt := s.zoneFreeCnt + 1 }
    if zoneReleaseThresh < s.zoneFreeCnt then releaseZone s else some s)

def freeChunk (s : Heap) (z ptr : Nat) : Option Heap :=
  let s := s.put ptr (s.zFreechunk z)
  let s := s.put (z + 32) ptr
  let nfree := s.zNfree z
  let s := s.put (z + 4) (nfree + 1)
  let zi := s.zZoneindex z
  let s :=
    if nfree = 0 then
      let s := s.put (z + 12) (s.zoneArray zi)
      { s with zoneArray := Function.update s.zoneArray zi z }
    else s
  if s.zNfree z = s.zNmax z ∧ (s.zNext z ≠ 0 ∨ s.zoneArray zi ≠ z) then retireZone s z else some s

def pageOf (ptr : Nat) : Nat := rtAlignDown ptr rtMmPageSize

def rtFree (s : Heap) (ptr : Nat) : Option Heap :=
  if ptr = 0 then some s
  else
    let kup := s.btokup (pageOf ptr)
    if s.kupType kup = pageTypeLarge then
      let size := s.kupSize kup
      rtPageFree (s.setKup kup (s.kupType kup) 0) ptr size
    else
      let z := pageOf ptr - s.kupSize kup * rtMmPageSize
      if s.zMagic z ≠ zallocSlabMagic then none else freeChunk s z ptr

end RtThread.Slab
