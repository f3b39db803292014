/-
# The in-memory cache

`InMemoryCache` is an adaptive replacement cache over entries of different sizes. Two
resident lists hold what was used once and more than once, and for each a phantom list
remembers the keys evicted from it. Two maps lead from a key to its node in a list.

A node is named by an identity that stands for a `std::list` iterator. What would be
undefined behaviour or a failed check in the code is an error here: the back of an empty
list, `at()` of a missing key, an iterator that is not in the list it is used on, and a
size that would drop below zero. Sizes are natural numbers: the bytes that are counted
are in memory or were, and evictions keep their sum far from the end of `std::size_t`.
-/

import Yadcc.Lib.Checked
import Yadcc.Lib.UnorderedMap

namespace Yadcc.Cache

open Yadcc.Lib

/-! ## Data -/

/-- The four lists: entries used once, entries used more often, and what was evicted
from either. -/
inductive ListId
  | hitOnce
  | hitOncePhantom
  | moreThanOnce
  | moreThanOncePhantom
  deriving DecidableEq

/-- The number that tells the phantom lists apart: 1 for `hitOncePhantom`, 2 for
`moreThanOncePhantom`. -/
inductive PhantomIndex
  | one
  | two
  deriving DecidableEq

def PhantomIndex.list : PhantomIndex → ListId
  | .one => .hitOncePhantom
  | .two => .moreThanOncePhantom

/-- The identity of a list node. -/
abbrev EntryIterator := ℕ

structure Node where
  iter : EntryIterator
  key : String
  size : ℕ
  deriving DecidableEq

/-- A list, front first, with its size in bytes. -/
structure CacheList where
  size : ℕ
  list : List Node

/-- The content of a buffer; how it is cut into blocks does not show. -/
abbrev Buffer := List UInt8

structure CacheEntry where
  buffer : Buffer
  belongingList : Option ListId
  entryIter : EntryIterator

structure InMemoryCache where
  maxSizeInBytes : ℕ
  adaptiveSizeOfOnce : ℕ
  lists : ListId → CacheList
  nextIter : EntryIterator
  memoryBufferMapper : UnorderedMap String CacheEntry
  phantomEntryMapper : UnorderedMap String (PhantomIndex × EntryIterator)
  hits : ℕ
  misses : ℕ

/-- How `adaptive_size_of_once_` moves on a phantom hit, given the size of the new buffer
and the sizes of the two phantom lists. The code computes in floating point and clamps
the result; all that is used of it is that the target stays within the maximum. -/
structure AdaptiveUpdate where
  update : (maxSize : ℕ) → PhantomIndex → (bufferSize once moreThanOnce adaptive : ℕ) → ℕ
  le_max : ∀ maxSize i bufferSize once moreThanOnce adaptive, adaptive ≤ maxSize →
    update maxSize i bufferSize once moreThanOnce adaptive ≤ maxSize

/-- The update of the code, with exact quotients in place of the floating-point ones: the
target grows with a hit in the first phantom list and shrinks with one in the second, the
more so the larger the other list is. -/
def ratioUpdate : AdaptiveUpdate where
  update maxSize i bufferSize once moreThanOnce adaptive :=
    match i with
    | .one =>
        let step := if once < moreThanOnce then bufferSize * moreThanOnce / once else bufferSize
        min (adaptive + step) maxSize
    | .two =>
        let step := if moreThanOnce < once then bufferSize * once / moreThanOnce else bufferSize
        if step < adaptive then adaptive - step else 0
  le_max maxSize i bufferSize once moreThanOnce adaptive h := by
    have hstep : ∀ step, (if step < adaptive then adaptive - step else 0) ≤ maxSize := by
      intro step
      split
      · exact (Nat.sub_le _ _).trans h
      · exact Nat.zero_le _
    cases i with
    | one => exact Nat.min_le_right _ _
    | two => exact hstep _

inductive CacheFault
  | emptyBack
  | missingKey
  | danglingIterator
  | sizeUnderflow
  | diverged
  deriving DecidableEq

namespace InMemoryCache

/-- A new cache. -/
def empty (maxSize : ℕ) : InMemoryCache where
  maxSizeInBytes := maxSize
  adaptiveSizeOfOnce := 0
  lists _ := ⟨0, []⟩
  nextIter := 0
  memoryBufferMapper := ∅
  phantomEntryMapper := ∅
  hits := 0
  misses := 0

/-- The size field of a list. -/
def sizeOf (c : InMemoryCache) (l : ListId) : ℕ := (c.lists l).size

def setList (c : InMemoryCache) (l : ListId) (list : CacheList) : InMemoryCache :=
  { c with lists := Function.update c.lists l list }

/-- All nodes of the four lists, as many as a loop can go through. -/
def nodeCount (c : InMemoryCache) : ℕ :=
  (c.lists .hitOnce).list.length + (c.lists .hitOncePhantom).list.length +
    (c.lists .moreThanOnce).list.length + (c.lists .moreThanOncePhantom).list.length

/-! ## Moving nodes -/

/-- The node that an iterator into a list points at. -/
def nodeAt (c : InMemoryCache) (l : ListId) (iter : EntryIterator) : Except CacheFault Node :=
  match (c.lists l).list.find? fun node => node.iter == iter with
  | none => .error .danglingIterator
  | some node => .ok node

def lower (size by' : ℕ) : Except CacheFault ℕ :=
  if size < by' then .error .sizeUnderflow else .ok (size - by')

/-- Take a node out of a list that is charged `size` for it. -/
def eraseNode (l : ListId) (iter : EntryIterator) (size : ℕ) (c : InMemoryCache) :
    Except CacheFault InMemoryCache := do
  let rest ← lower (c.sizeOf l) size
  return c.setList l ⟨rest, (c.lists l).list.eraseP fun node => node.iter == iter⟩

/-- Put a new node at the front of a list. -/
def emplaceFront (l : ListId) (key : String) (size : ℕ) (c : InMemoryCache) : InMemoryCache :=
  { c.setList l ⟨c.sizeOf l + size, ⟨c.nextIter, key, size⟩ :: (c.lists l).list⟩ with
    nextIter := c.nextIter + 1 }

/-- Move an entry from the list it is in, if any, to the front of `dst`. A key that is
in a phantom list is charged the size remembered there. -/
def unsafePutEntryIntoList (key : String) (entry : CacheEntry) (dst : ListId)
    (c : InMemoryCache) : Except CacheFault (CacheEntry × InMemoryCache) := do
  let c ←
    match entry.belongingList with
    | none => pure c
    | some l => do
        let node ← c.nodeAt l entry.entryIter
        let size ←
          match c.phantomEntryMapper.lookup key with
          | some (i, iter) => do
              let remembered ← c.nodeAt i.list iter
              pure remembered.size
          | none => pure node.size
        eraseNode l entry.entryIter size c
  return ({ entry with belongingList := some dst, entryIter := c.nextIter },
    c.emplaceFront dst key entry.buffer.length)

/-- Remember a key that was resident as a phantom. -/
def turnPhantom (key : String) (i : PhantomIndex) (iter : EntryIterator) (c : InMemoryCache) :
    InMemoryCache :=
  { c with
    phantomEntryMapper := c.phantomEntryMapper.insert key (i, iter)
    memoryBufferMapper := c.memoryBufferMapper.erase key }

/-- Move the last entry of a resident list to a phantom list. -/
def evictToPhantom (src : ListId) (i : PhantomIndex) (c : InMemoryCache) :
    Except CacheFault InMemoryCache :=
  match (c.lists src).list.getLast? with
  | none => .error .emptyBack
  | some node =>
      match c.memoryBufferMapper.lookup node.key with
      | none => .error .missingKey
      | some entry => do
          let (entry, c) ← unsafePutEntryIntoList node.key entry i.list c
          return c.turnPhantom node.key i entry.entryIter

def evictHitOnceToPhantom : InMemoryCache → Except CacheFault InMemoryCache :=
  evictToPhantom .hitOnce .one

def evictMoreThanOnceToPhantom : InMemoryCache → Except CacheFault InMemoryCache :=
  evictToPhantom .moreThanOnce .two

/-- Evict one entry of the resident list that is over its share. -/
def unsafeAdaptiveAdjust (i : PhantomIndex) (c : InMemoryCache) :
    Except CacheFault InMemoryCache :=
  if c.adaptiveSizeOfOnce < c.sizeOf .hitOnce ∨
      (i = .two ∧ c.adaptiveSizeOfOnce ≤ c.sizeOf .hitOnce) then
    if c.sizeOf .hitOnce ≠ 0 then c.evictHitOnceToPhantom else .ok c
  else
    let adaptiveSizeOfT2 := c.maxSizeInBytes - c.adaptiveSizeOfOnce
    if c.sizeOf .moreThanOnce ≠ 0 ∧ adaptiveSizeOfT2 ≤ c.sizeOf .moreThanOnce then
      c.evictMoreThanOnceToPhantom
    else .ok c

/-! ## Evicting -/

def popBack (l : ListId) (c : InMemoryCache) : Except CacheFault InMemoryCache :=
  match (c.lists l).list.getLast? with
  | none => .error .emptyBack
  | some _ => .ok (c.setList l ⟨c.sizeOf l, (c.lists l).list.dropLast⟩)

/-- Charge off the last node of a list, without taking it out yet. -/
def chargeOffBack (l : ListId) (c : InMemoryCache) :
    Except CacheFault (Node × InMemoryCache) :=
  match (c.lists l).list.getLast? with
  | none => .error .emptyBack
  | some node => do
      let rest ← lower (c.sizeOf l) node.size
      return (node, c.setList l ⟨rest, (c.lists l).list⟩)

def forgetPhantom (key : String) (c : InMemoryCache) : InMemoryCache :=
  { c with phantomEntryMapper := c.phantomEntryMapper.erase key }

def forgetBuffer (key : String) (c : InMemoryCache) : InMemoryCache :=
  { c with memoryBufferMapper := c.memoryBufferMapper.erase key }

/-- One iteration of `UnsafeTryEvict`. A phantom list may grow at its front before the
last node goes. -/
def tryEvictOnce (l : ListId) (inMemory : Bool) (s : ℕ × InMemoryCache) :
    Except CacheFault (ℕ × InMemoryCache) := do
  let (node, c) ← chargeOffBack l s.2
  let c ← if inMemory then pure (forgetBuffer node.key c)
    else unsafeAdaptiveAdjust .one (forgetPhantom node.key c)
  return (s.1 - node.size, ← popBack l c)

/-- Evict from the back of a list until the desired number of bytes is free. The result
is how many bytes are still missing. -/
def unsafeTryEvict (l : ListId) (desiredByteSize : ℕ) (inMemory : Bool) (c : InMemoryCache) :
    Except CacheFault (ℕ × InMemoryCache) :=
  whileLoop (fun s => s.1 != 0 && s.2.sizeOf l != 0) (tryEvictOnce l inMemory) .diverged
    c.nodeCount (desiredByteSize, c)

/-- Forget the last key of a phantom list. -/
def dropPhantomBack (l : ListId) (c : InMemoryCache) : Except CacheFault InMemoryCache := do
  let (node, c) ← chargeOffBack l c
  popBack l (forgetPhantom node.key c)

/-- Forget keys of a phantom list until it fits together with its resident list. -/
def evictPhantomOverflow (resident phantom : ListId) (c : InMemoryCache) :
    Except CacheFault InMemoryCache :=
  whileLoop (fun c => decide (c.maxSizeInBytes < c.sizeOf resident + c.sizeOf phantom))
    (dropPhantomBack phantom) .diverged c.nodeCount c

def evictResidentOverflow (c : InMemoryCache) : Except CacheFault InMemoryCache :=
  whileLoop (fun c => decide (c.maxSizeInBytes < c.sizeOf .hitOnce + c.sizeOf .moreThanOnce))
    (fun c => if c.adaptiveSizeOfOnce < c.sizeOf .hitOnce then c.evictHitOnceToPhantom
      else c.evictMoreThanOnceToPhantom) .diverged c.nodeCount c

def evictMemoryOverflow (c : InMemoryCache) : Except CacheFault InMemoryCache := do
  let c ← evictResidentOverflow c
  let c ← evictPhantomOverflow .hitOnce .hitOncePhantom c
  evictPhantomOverflow .moreThanOnce .moreThanOncePhantom c

/-! ## Storing -/

/-- Replace the content of a resident entry. -/
def unsafeOverwrite (key : String) (buffer : Buffer) (c : InMemoryCache) :
    Except CacheFault InMemoryCache :=
  match c.memoryBufferMapper.lookup key with
  | none => .error .missingKey
  | some entry =>
      match entry.belongingList with
      | none => .error .danglingIterator
      | some l => do
          let node ← c.nodeAt l entry.entryIter
          let rest ← lower (c.sizeOf l) node.size
          let list := (c.lists l).list.map fun n =>
            if n.iter = entry.entryIter then { n with size := buffer.length } else n
          let c := c.setList l ⟨rest + buffer.length, list⟩
          let c :=
            { c with memoryBufferMapper := c.memoryBufferMapper.insert key { entry with buffer } }
          if node.size < buffer.length then c.evictMemoryOverflow else return c

/-- Store an entry whose key is in a phantom list. -/
def unsafeCacheInPhantom (rule : AdaptiveUpdate) (i : PhantomIndex) (key : String)
    (entry : CacheEntry) (c : InMemoryCache) : Except CacheFault InMemoryCache := do
  let adaptiveSizeOfOnce := rule.update c.maxSizeInBytes i entry.buffer.length
    (c.sizeOf .hitOncePhantom) (c.sizeOf .moreThanOncePhantom) c.adaptiveSizeOfOnce
  let c ← unsafeAdaptiveAdjust i { c with adaptiveSizeOfOnce }
  let (entry, c) ← unsafePutEntryIntoList key entry .moreThanOnce c
  return forgetPhantom key
    { c with memoryBufferMapper := c.memoryBufferMapper.insert key entry }

/-- Evict phantoms first: they take no memory. -/
def evictPhantomsForMiss (i : PhantomIndex) (remainingSize : ℕ) (c : InMemoryCache) :
    Except CacheFault (ℕ × InMemoryCache) :=
  if 0 < c.sizeOf i.list then unsafeTryEvict i.list remainingSize false c
  else .ok (remainingSize, c)

/-- If that is not enough, evict the resident entries too. -/
def evictResidentsForMiss (l : ListId) (remainingSize : ℕ) (c : InMemoryCache) :
    Except CacheFault (ℕ × InMemoryCache) :=
  if remainingSize ≠ 0 then unsafeTryEvict l remainingSize true c
  else .ok (remainingSize, c)

/-- The first part of `UnsafeCacheIfMiss`: make room in the lists of what was used once.
The result is how many bytes are still missing. -/
def evictOnceForMiss (remainingSize : ℕ) (c : InMemoryCache) :
    Except CacheFault (ℕ × InMemoryCache) :=
  if c.maxSizeInBytes < c.sizeOf .hitOnce + c.sizeOf .hitOncePhantom + remainingSize then do
    let (remainingSize, c) ← evictPhantomsForMiss .one remainingSize c
    evictResidentsForMiss .hitOnce remainingSize c
  else .ok (remainingSize, c)

/-- The second part: make room in the lists of what was used more often. -/
def evictMoreThanOnceForMiss (remainingSize : ℕ) (c : InMemoryCache) :
    Except CacheFault InMemoryCache :=
  let total := c.sizeOf .hitOnce + c.sizeOf .moreThanOnce + c.sizeOf .hitOncePhantom +
    c.sizeOf .moreThanOncePhantom + remainingSize
  if remainingSize ≠ 0 ∧ c.maxSizeInBytes < total then
    if 2 * c.maxSizeInBytes ≤ total then do
      let (remainingSize, c) ← evictPhantomsForMiss .two remainingSize c
      let (_, c) ← evictResidentsForMiss .moreThanOnce remainingSize c
      return c
    else unsafeAdaptiveAdjust .one c
  else .ok c

/-- Both parts, when the resident lists would overflow. -/
def evictForMiss (size : ℕ) (c : InMemoryCache) : Except CacheFault InMemoryCache :=
  if c.maxSizeInBytes < c.sizeOf .hitOnce + c.sizeOf .moreThanOnce + size then do
    let (remainingSize, c) ← evictOnceForMiss size c
    evictMoreThanOnceForMiss remainingSize c
  else .ok c

/-- Store an entry that is in none of the lists. -/
def unsafeCacheIfMiss (key : String) (entry : CacheEntry) (c : InMemoryCache) :
    Except CacheFault InMemoryCache := do
  let c ← evictForMiss entry.buffer.length c
  let (entry, c) ← unsafePutEntryIntoList key entry .hitOnce c
  return { c with memoryBufferMapper := c.memoryBufferMapper.insert key entry }

/-! ## Operations -/

/-- Store an entry that is not resident, by where its key is remembered. -/
def unsafeCache (rule : AdaptiveUpdate) (key : String) (buffer : Buffer) (c : InMemoryCache) :
    Except CacheFault InMemoryCache :=
  match c.phantomEntryMapper.lookup key with
  | some (i, iter) =>
      unsafeCacheInPhantom rule i key ⟨buffer, some i.list, iter⟩ c
  | none => unsafeCacheIfMiss key ⟨buffer, none, 0⟩ c

def put (rule : AdaptiveUpdate) (key : String) (buffer : Buffer) (c : InMemoryCache) :
    Except CacheFault (Bool × InMemoryCache) :=
  if c.maxSizeInBytes < buffer.length then .ok (false, c)
  else
    match c.memoryBufferMapper.lookup key with
    | some _ => do return (true, ← unsafeOverwrite key buffer c)
    | none => do
        let c ← unsafeCache rule key buffer c
        return (true, ← evictMemoryOverflow c)

def tryGet (key : String) (c : InMemoryCache) :
    Except CacheFault (Option Buffer × InMemoryCache) :=
  match c.memoryBufferMapper.lookup key with
  | none => .ok (none, { c with misses := c.misses + 1 })
  | some entry => do
      let (entry, c) ← unsafePutEntryIntoList key entry .moreThanOnce c
      return (some entry.buffer,
        { c with
          memoryBufferMapper := c.memoryBufferMapper.insert key entry
          hits := c.hits + 1 })

/-- Drop one resident entry; phantom lists are not looked at. -/
def removeKey (key : String) (c : InMemoryCache) : Except CacheFault InMemoryCache :=
  match c.memoryBufferMapper.lookup key with
  | none => .ok c
  | some entry =>
      match entry.belongingList with
      | none => .error .danglingIterator
      | some l => do
          let rest ← lower (c.sizeOf l) entry.buffer.length
          let list := (c.lists l).list.filter fun node => node.key != key
          return forgetBuffer key (c.setList l ⟨rest, list⟩)

def remove (keys : List String) (c : InMemoryCache) : Except CacheFault InMemoryCache :=
  keys.foldlM (fun c key => removeKey key c) c

def getKeys (c : InMemoryCache) : List String := c.memoryBufferMapper.keys

/-- A call on the cache. -/
inductive Op
  | put (rule : AdaptiveUpdate) (key : String) (buffer : Buffer)
  | tryGet (key : String)
  | remove (keys : List String)

inductive Reply
  | stored (ok : Bool)
  | got (buffer : Option Buffer)
  | removed
  deriving DecidableEq

def apply (c : InMemoryCache) : Op → Except CacheFault (Reply × InMemoryCache)
  | .put rule key buffer => do
      let (ok, c) ← put rule key buffer c
      return (.stored ok, c)
  | .tryGet key => do
      let (buffer, c) ← tryGet key c
      return (.got buffer, c)
  | .remove keys => do return (.removed, ← remove keys c)

end InMemoryCache

end Yadcc.Cache
