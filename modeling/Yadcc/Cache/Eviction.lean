/-
# Evictions of the in-memory cache

Each way of evicting has one specification: on a well formed cache it succeeds, the
result is well formed again, and no resident entry changes, though some may be gone. An
eviction from a phantom list adjusts the resident lists before the evicted node leaves
its own list; the node is at the back and the adjustment works at the front, so both
orders come to the same.
-/

import Yadcc.Cache.CacheLists

namespace Yadcc.Cache

open Yadcc.Lib

namespace InMemoryCache

variable {c c' : InMemoryCache}

/-! ## Single steps as equations -/

theorem unsafePutEntryIntoList_new (key : String) (buffer : Buffer) (iter : EntryIterator)
    (dst : ListId) : unsafePutEntryIntoList key ⟨buffer, none, iter⟩ dst c
      = .ok (⟨buffer, some dst, c.nextIter⟩, c.emplaceFront dst key buffer.length) := rfl

/-- An entry that is in a list moves. If its key is a phantom, it is that phantom's node. -/
theorem unsafePutEntryIntoList_move {l : ListId} {node : Node}
    (hnode : c.nodeAt l node.iter = .ok node) (hsize : node.size ≤ c.sizeOf l)
    (hphantom : ∀ i iter, c.phantomEntryMapper.lookup node.key = some (i, iter) →
      i.list = l ∧ iter = node.iter) (buffer : Buffer) (dst : ListId) :
    unsafePutEntryIntoList node.key ⟨buffer, some l, node.iter⟩ dst c
      = .ok (⟨buffer, some dst, c.nextIter⟩, c.moveNode l node dst buffer.length) := by
  have herase : eraseNode l node.iter node.size c = .ok (c.dropNode l node) := by
    unfold eraseNode lower
    rw [if_neg (by omega)]
    rfl
  unfold unsafePutEntryIntoList
  cases hlookup : c.phantomEntryMapper.lookup node.key with
  | none =>
      simp only [hnode, ok_bind, pure_eq_ok, herase]
      rfl
  | some found =>
      obtain ⟨i, iter⟩ := found
      obtain ⟨rfl, rfl⟩ := hphantom i iter hlookup
      simp only [hnode, ok_bind, pure_eq_ok, herase]
      rfl

/-- The state after the last node of `src` has become a phantom. -/
def evicted (src : ListId) (i : PhantomIndex) (node : Node) (size : ℕ) (c : InMemoryCache) :
    InMemoryCache :=
  (c.moveNode src node i.list size).turnPhantom node.key i c.nextIter

theorem evictToPhantom_eq {src : ListId} {node : Node} {buffer : Buffer}
    (hback : (c.lists src).list.getLast? = some node)
    (hentry : c.memoryBufferMapper.lookup node.key = some ⟨buffer, some src, node.iter⟩)
    (hnode : c.nodeAt src node.iter = .ok node) (hsize : node.size ≤ c.sizeOf src)
    (hphantom : c.phantomEntryMapper.lookup node.key = none) (i : PhantomIndex) :
    evictToPhantom src i c = .ok (c.evicted src i node buffer.length) := by
  have hmove := unsafePutEntryIntoList_move hnode hsize
    (fun i iter h => by rw [hphantom] at h; cases h) buffer i.list
  unfold evictToPhantom
  simp only [hback, hentry, hmove]
  rfl

theorem popBack_eq {l : ListId} {node : Node} (hback : (c.lists l).list.getLast? = some node) :
    popBack l c = .ok (c.setList l ⟨c.sizeOf l, (c.lists l).list.dropLast⟩) := by
  unfold popBack
  rw [hback]

theorem chargeOffBack_eq {l : ListId} {node : Node}
    (hback : (c.lists l).list.getLast? = some node) (hsize : node.size ≤ c.sizeOf l) :
    chargeOffBack l c = .ok (node, c.setList l ⟨c.sizeOf l - node.size, (c.lists l).list⟩) := by
  unfold chargeOffBack lower
  simp only [hback, if_neg (Nat.not_lt.mpr hsize)]
  rfl

/-! ## A node that is charged off but still there -/

/-- Put a node behind a list, without charging it. -/
def withBack (l : ListId) (node : Node) (c : InMemoryCache) : InMemoryCache :=
  c.setList l ⟨c.sizeOf l, (c.lists l).list ++ [node]⟩

theorem withBack_lists (l l' : ListId) (node : Node) : (c.withBack l node).lists l' =
    if l' = l then ⟨c.sizeOf l, (c.lists l).list ++ [node]⟩ else c.lists l' :=
  setList_lists ..

@[simp]
theorem withBack_sizeOf (l l' : ListId) (node : Node) :
    (c.withBack l node).sizeOf l' = c.sizeOf l' := by
  unfold sizeOf
  rw [withBack_lists]
  split
  · next h => rw [h]; rfl
  · rfl

theorem ext_lists {c c' : InMemoryCache} (hlists : ∀ l, c'.lists l = c.lists l)
    (hmax : c'.maxSizeInBytes = c.maxSizeInBytes)
    (hadaptive : c'.adaptiveSizeOfOnce = c.adaptiveSizeOfOnce) (hnext : c'.nextIter = c.nextIter)
    (hmemory : c'.memoryBufferMapper = c.memoryBufferMapper)
    (hphantom : c'.phantomEntryMapper = c.phantomEntryMapper) (hhits : c'.hits = c.hits)
    (hmisses : c'.misses = c.misses) : c' = c := by
  cases c
  cases c'
  simp only at hlists hmax hadaptive hnext hmemory hphantom hhits hmisses
  subst hmax hadaptive hnext hmemory hphantom hhits hmisses
  congr 1
  funext l
  exact hlists l

/-- Popping a charged-off node undoes its presence. -/
theorem popBack_withBack (l : ListId) (node : Node) :
    popBack l (c.withBack l node) = .ok c := by
  have hback : ((c.withBack l node).lists l).list.getLast? = some node := by
    rw [withBack_lists, if_pos rfl]
    simp
  rw [popBack_eq hback]
  congr 1
  refine ext_lists (fun l' => ?_) rfl rfl rfl rfl rfl rfl rfl
  rw [setList_lists]
  split
  · next h =>
      subst h
      rw [withBack_sizeOf, withBack_lists, if_pos rfl]
      simp [sizeOf]
  · next h => rw [withBack_lists, if_neg h]

theorem nodeAt_withBack {l src : ListId} (h : src ≠ l) (node : Node) (iter : EntryIterator) :
    (c.withBack l node).nodeAt src iter = c.nodeAt src iter := by
  unfold InMemoryCache.nodeAt
  rw [withBack_lists, if_neg h]

theorem evicted_lists {src : ListId} {i : PhantomIndex} (h : src ≠ i.list) (n : Node)
    (size : ℕ) (l : ListId) : (c.evicted src i n size).lists l =
      if l = i.list then
        ⟨c.sizeOf i.list + size, ⟨c.nextIter, n.key, size⟩ :: (c.lists i.list).list⟩
      else if l = src then
        ⟨c.sizeOf src - n.size, (c.lists src).list.eraseP fun m => m.iter == n.iter⟩
      else c.lists l := by
  change (c.moveNode src n i.list size).lists l = _
  unfold moveNode sizeOf
  rw [emplaceFront_lists]
  split
  · unfold sizeOf
    rw [dropNode_lists, if_neg h.symm]
    rfl
  · rw [dropNode_lists]
    rfl

/-- Evicting puts its new phantom at the front, so it commutes with a node at the back. -/
theorem evicted_withBack {l src : ListId} {i : PhantomIndex} (h : src ≠ l) (hi : src ≠ i.list)
    (node n : Node) (size : ℕ) : (c.withBack l node).evicted src i n size
      = (c.evicted src i n size).withBack l node := by
  refine ext_lists (fun l' => ?_) rfl rfl rfl rfl rfl rfl rfl
  have hnext : (c.withBack l node).nextIter = c.nextIter := rfl
  simp only [withBack_lists, evicted_lists hi, sizeOf, hnext]
  by_cases hl : l' = l
  · subst hl
    by_cases heq : l' = i.list
    · subst heq
      simp
    · simp [heq, h.symm]
  · by_cases heq : l' = i.list
    · subst heq
      simp [hl]
    · simp [hl, heq, h]

/-! ## One eviction -/

/-- No resident entry has changed or come, though some may be gone, and no key has
appeared. -/
structure Shrinks (c c' : InMemoryCache) : Prop where
  max_eq : c'.maxSizeInBytes = c.maxSizeInBytes
  memory : ∀ key entry, c'.memoryBufferMapper.lookup key = some entry →
    ∃ entry', c.memoryBufferMapper.lookup key = some entry' ∧ entry'.buffer = entry.buffer
  absent : ∀ key, At c key .absent → At c' key .absent

theorem Shrinks.refl (c : InMemoryCache) : Shrinks c c :=
  ⟨rfl, fun _ entry h => ⟨entry, h, rfl⟩, fun _ h => h⟩

theorem Shrinks.trans {c c' c'' : InMemoryCache} (h : Shrinks c c') (h' : Shrinks c' c'') :
    Shrinks c c'' := by
  refine ⟨h'.max_eq.trans h.max_eq, fun key entry hentry => ?_,
    fun key hkey => h'.absent key (h.absent key hkey)⟩
  obtain ⟨entry', hentry', heq⟩ := h'.memory key entry hentry
  obtain ⟨entry'', hentry'', heq'⟩ := h.memory key entry' hentry'
  exact ⟨entry'', hentry'', heq'.trans heq⟩

theorem Resident.ne_phantom {l : ListId} (h : Resident l) (i : PhantomIndex) : l ≠ i.list := by
  rcases h with rfl | rfl
  · cases i with
    | one => decide
    | two => decide
  · cases i with
    | one => decide
    | two => decide

/-- A resident node is what the memory map says of its key. -/
theorem WellFormed.resident_of_mem (hc : WellFormed c) {l : ListId} (hl : Resident l)
    {node : Node} (hnode : node ∈ (c.lists l).list) : Only c l node ∧
    c.phantomEntryMapper.lookup node.key = none ∧ ∃ buffer,
      c.memoryBufferMapper.lookup node.key = some ⟨buffer, some l, node.iter⟩ ∧
      node.size = buffer.length := by
  obtain ⟨honly, ⟨buffer, -, hplace, hentry, hsize⟩ | ⟨i, rfl, -⟩⟩ := hc.place_of_mem hnode
  · exact ⟨honly, hplace.2.1, buffer, hentry, hsize⟩
  · exact absurd rfl (hl.ne_phantom i)

section Evict

variable {src : ListId} {node : Node}

theorem WellFormed.evictToPhantom_eq (hc : WellFormed c) (hsrc : Resident src)
    (hback : (c.lists src).list.getLast? = some node) (i : PhantomIndex) :
    evictToPhantom src i c = .ok (c.evicted src i node node.size) := by
  have hnode := List.mem_of_getLast? hback
  obtain ⟨-, hphantom, buffer, hentry, hsize⟩ := hc.resident_of_mem hsrc hnode
  rw [hsize]
  exact InMemoryCache.evictToPhantom_eq hback hentry (hc.listed.nodeAt hnode)
    (hc.listed.size_le hnode) hphantom i

theorem WellFormed.evicted (hc : WellFormed c) (hsrc : Resident src)
    (hnode : node ∈ (c.lists src).list) (i : PhantomIndex) :
    WellFormed (c.evicted src i node node.size) := by
  obtain ⟨honly, -, buffer, hentry, hsize⟩ := hc.resident_of_mem hsrc hnode
  have hlisted := hc.listed.moveNode hnode i.list node.size
  refine hc.replace node.key (.phantom i node.size)
    ⟨hlisted.sized, hlisted.distinct, hlisted.fresh⟩ hc.adaptive_le
    (fun k hk => AList.lookup_erase_ne hk) (fun k hk => AList.lookup_insert_ne hk)
    (fun l n hn => hc.listed.mem_moveNode_of_ne hnode hn) ?_
  exact ⟨AList.lookup_erase _ _, c.nextIter, AList.lookup_insert _,
    honly.moveNode hc.listed i.list node.size⟩

/-- Every key but the evicted one keeps its place. -/
theorem At.evicted (hc : WellFormed c) (hnode : node ∈ (c.lists src).list) (i : PhantomIndex)
    {key : String} (hkey : key ≠ node.key) {place : Place} (h : At c key place) :
    At (c.evicted src i node node.size) key place := by
  refine h.congr (AList.lookup_erase_ne hkey) (AList.lookup_insert_ne hkey) fun l n hn => ?_
  exact hc.listed.mem_moveNode_of_ne hnode (by rw [hn]; exact hkey)

theorem Shrinks.evicted (hc : WellFormed c)
    (hnode : node ∈ (c.lists src).list) (i : PhantomIndex) :
    Shrinks c (c.evicted src i node node.size) := by
  refine ⟨rfl, fun key entry hentry => ⟨entry, ?_, rfl⟩, fun key hkey => ?_⟩
  · change (c.memoryBufferMapper.erase node.key).lookup key = some entry at hentry
    rw [AList.lookup_erase_eq] at hentry
    split at hentry
    · cases hentry
    · exact hentry
  · refine hkey.evicted hc hnode i ?_
    rintro rfl
    exact hkey.2.2 src node hnode rfl

theorem sizeOf_evicted (hsrc : Resident src) (i : PhantomIndex) (size : ℕ) (l : ListId) :
    (c.evicted src i node size).sizeOf l = if l = i.list then c.sizeOf i.list + size
      else if l = src then c.sizeOf src - node.size else c.sizeOf l := by
  unfold sizeOf
  rw [evicted_lists (hsrc.ne_phantom i)]
  split_ifs
  · rfl
  · rfl
  · rfl

theorem length_evicted (hsrc : Resident src) (hnode : node ∈ (c.lists src).list)
    (i : PhantomIndex) (size : ℕ) (l : ListId) :
    ((c.evicted src i node size).lists l).list.length =
      if l = i.list then (c.lists i.list).list.length + 1
      else if l = src then (c.lists src).list.length - 1 else (c.lists l).list.length := by
  rw [evicted_lists (hsrc.ne_phantom i)]
  split_ifs
  · rfl
  · exact List.length_eraseP_of_mem hnode (by simp)
  · rfl

theorem nodeCount_evicted (hsrc : Resident src) (hnode : node ∈ (c.lists src).list)
    (i : PhantomIndex) (size : ℕ) : (c.evicted src i node size).nodeCount = c.nodeCount := by
  have hlength := length_evicted hsrc hnode i size
  have hpos := List.length_pos_of_mem hnode
  unfold nodeCount
  simp only [hlength]
  rcases hsrc with rfl | rfl
  · cases i with
    | one => simp [PhantomIndex.list]; omega
    | two => simp [PhantomIndex.list]; omega
  · cases i with
    | one => simp [PhantomIndex.list]; omega
    | two => simp [PhantomIndex.list]; omega

end Evict

/-- What a step may do that does not store anything: shrink, and keep all phantoms. -/
structure Adjusts (c c' : InMemoryCache) : Prop extends Shrinks c c' where
  phantom : ∀ key found, c.phantomEntryMapper.lookup key = some found →
    c'.phantomEntryMapper.lookup key = some found
  nodeCount_eq : c'.nodeCount = c.nodeCount

theorem Adjusts.refl (c : InMemoryCache) : Adjusts c c :=
  ⟨.refl c, fun _ _ h => h, rfl⟩

theorem Adjusts.evicted (hc : WellFormed c) {src : ListId} {node : Node} (hsrc : Resident src)
    (hnode : node ∈ (c.lists src).list) (i : PhantomIndex) :
    Adjusts c (c.evicted src i node node.size) := by
  refine ⟨.evicted hc hnode i, fun key found hkey => ?_,
    nodeCount_evicted hsrc hnode i node.size⟩
  have hne : key ≠ node.key := by
    rintro rfl
    cases (hc.resident_of_mem hsrc hnode).2.1.symm.trans hkey
  exact (AList.lookup_insert_ne hne).trans hkey

/-- What an adjustment does: nothing, or one eviction from a resident list. -/
theorem unsafeAdaptiveAdjust_cases (hc : WellFormed c) (i : PhantomIndex) :
    (unsafeAdaptiveAdjust i c = .ok c ∧
      ∀ l node, unsafeAdaptiveAdjust i (c.withBack l node) = .ok (c.withBack l node)) ∨
    ∃ src j node, Resident src ∧ (c.lists src).list.getLast? = some node ∧
      unsafeAdaptiveAdjust i c = evictToPhantom src j c ∧
      ∀ l n, unsafeAdaptiveAdjust i (c.withBack l n) = evictToPhantom src j (c.withBack l n) := by
  have hback : ∀ l n, (c.withBack l n).adaptiveSizeOfOnce = c.adaptiveSizeOfOnce ∧
      (c.withBack l n).maxSizeInBytes = c.maxSizeInBytes := fun _ _ => ⟨rfl, rfl⟩
  unfold unsafeAdaptiveAdjust
  simp only [withBack_sizeOf, hback]
  by_cases honce : c.adaptiveSizeOfOnce < c.sizeOf .hitOnce ∨
      (i = .two ∧ c.adaptiveSizeOfOnce ≤ c.sizeOf .hitOnce)
  · simp only [if_pos honce]
    by_cases hsize : c.sizeOf .hitOnce ≠ 0
    · obtain ⟨node, hnode⟩ := hc.listed.exists_back hsize
      simp only [if_pos hsize]
      exact .inr ⟨.hitOnce, .one, node, .inl rfl, hnode, rfl, fun _ _ => rfl⟩
    · simp only [if_neg hsize]
      exact .inl ⟨trivial, fun _ _ => trivial⟩
  · simp only [if_neg honce]
    by_cases hmore : c.sizeOf .moreThanOnce ≠ 0 ∧
        c.maxSizeInBytes - c.adaptiveSizeOfOnce ≤ c.sizeOf .moreThanOnce
    · obtain ⟨node, hnode⟩ := hc.listed.exists_back hmore.1
      simp only [if_pos hmore]
      exact .inr ⟨.moreThanOnce, .two, node, .inr rfl, hnode, rfl, fun _ _ => rfl⟩
    · simp only [if_neg hmore]
      exact .inl ⟨trivial, fun _ _ => trivial⟩

theorem unsafeAdaptiveAdjust_ok (hc : WellFormed c) (i : PhantomIndex) :
    ∃ c', unsafeAdaptiveAdjust i c = .ok c' ∧ WellFormed c' ∧ Adjusts c c' := by
  rcases unsafeAdaptiveAdjust_cases hc i with ⟨hadjust, -⟩ | ⟨src, j, node, hsrc, hback, hadjust, -⟩
  · exact ⟨c, hadjust, hc, .refl c⟩
  · have hnode := List.mem_of_getLast? hback
    refine ⟨_, hadjust.trans (hc.evictToPhantom_eq hsrc hback j), hc.evicted hsrc hnode j,
      .evicted hc hsrc hnode j⟩

/-- An adjustment works around a charged-off node at the back of a phantom list. -/
theorem unsafeAdaptiveAdjust_withBack (hc : WellFormed c) (i j : PhantomIndex) (n : Node) :
    unsafeAdaptiveAdjust i (c.withBack j.list n)
      = (unsafeAdaptiveAdjust i c).map (withBack j.list n) := by
  rcases unsafeAdaptiveAdjust_cases hc i with
    ⟨hadjust, hadjust'⟩ | ⟨src, k, node, hsrc, hback, hadjust, hadjust'⟩
  · rw [hadjust, hadjust']
    rfl
  · have hne := hsrc.ne_phantom j
    have hnode := List.mem_of_getLast? hback
    obtain ⟨-, hphantom, buffer, hentry, hsize⟩ := hc.resident_of_mem hsrc hnode
    have hback' : ((c.withBack j.list n).lists src).list.getLast? = some node := by
      rw [withBack_lists, if_neg hne, hback]
    have hevict' : evictToPhantom src k (c.withBack j.list n)
        = .ok ((c.withBack j.list n).evicted src k node buffer.length) := by
      refine InMemoryCache.evictToPhantom_eq hback' hentry ?_ ?_ hphantom k
      · rw [nodeAt_withBack hne]
        exact hc.listed.nodeAt hnode
      · rw [withBack_sizeOf]
        exact hc.listed.size_le hnode
    rw [hadjust, hadjust', hc.evictToPhantom_eq hsrc hback k, hevict', ← hsize,
      evicted_withBack hne (hsrc.ne_phantom k)]
    rfl

/-! ## Dropping the last node of a list -/

/-- The state after the last phantom of a list is forgotten. -/
def droppedPhantom (l : ListId) (node : Node) (c : InMemoryCache) : InMemoryCache :=
  forgetPhantom node.key (c.dropNode l node)

/-- The state after the last resident entry of a list is forgotten. -/
def droppedBuffer (l : ListId) (node : Node) (c : InMemoryCache) : InMemoryCache :=
  forgetBuffer node.key (c.dropNode l node)

section Drop

variable {l : ListId} {node : Node}

/-- A list whose last node is charged off is the rest of the list with the node behind. -/
theorem chargedOff_eq (hc : Listed c) (hback : (c.lists l).list.getLast? = some node) :
    c.setList l ⟨c.sizeOf l - node.size, (c.lists l).list⟩
      = (c.dropNode l node).withBack l node := by
  refine ext_lists (fun l' => ?_) rfl rfl rfl rfl rfl rfl rfl
  obtain ⟨front, hsplit⟩ := List.getLast?_eq_some_iff.mp hback
  rw [setList_lists, withBack_lists]
  split
  · unfold sizeOf
    rw [dropNode_lists, if_pos rfl, hc.eraseP_back hback, hsplit]
    simp [sizeOf]
  · next h => rw [dropNode_lists, if_neg h]

theorem dropPhantomBack_eq (hc : Listed c) (hback : (c.lists l).list.getLast? = some node) :
    dropPhantomBack l c = .ok (c.droppedPhantom l node) := by
  have hnode := List.mem_of_getLast? hback
  unfold dropPhantomBack
  rw [chargeOffBack_eq hback (hc.size_le hnode), ok_bind, chargedOff_eq hc hback]
  change popBack l ((c.droppedPhantom l node).withBack l node) = _
  exact popBack_withBack l node

theorem tryEvictOnce_memory (hc : Listed c) (hback : (c.lists l).list.getLast? = some node)
    (desired : ℕ) :
    tryEvictOnce l true (desired, c) = .ok (desired - node.size, c.droppedBuffer l node) := by
  have hnode := List.mem_of_getLast? hback
  have hpop : popBack l (forgetBuffer node.key ((c.dropNode l node).withBack l node))
      = .ok (c.droppedBuffer l node) := by
    change popBack l ((c.droppedBuffer l node).withBack l node) = _
    exact popBack_withBack l node
  unfold tryEvictOnce
  simp only [chargeOffBack_eq hback (hc.size_le hnode), ok_bind, chargedOff_eq hc hback,
    if_true, pure_eq_ok, hpop]

/-- The adjustment in the middle of an eviction may as well come after it. -/
theorem tryEvictOnce_phantom (hc : Listed c) {i : PhantomIndex}
    (hback : (c.lists i.list).list.getLast? = some node)
    (hdropped : WellFormed (c.droppedPhantom i.list node)) (desired : ℕ) :
    tryEvictOnce i.list false (desired, c) =
      (unsafeAdaptiveAdjust .one (c.droppedPhantom i.list node)).map
        fun c' => (desired - node.size, c') := by
  have hnode := List.mem_of_getLast? hback
  have hadjust : unsafeAdaptiveAdjust .one
      (forgetPhantom node.key ((c.dropNode i.list node).withBack i.list node))
        = (unsafeAdaptiveAdjust .one (c.droppedPhantom i.list node)).map (withBack i.list node) :=
    unsafeAdaptiveAdjust_withBack hdropped .one i node
  unfold tryEvictOnce
  simp only [chargeOffBack_eq hback (hc.size_le hnode), ok_bind, chargedOff_eq hc hback,
    Bool.false_eq_true, if_false, hadjust]
  cases unsafeAdaptiveAdjust .one (c.droppedPhantom i.list node) with
  | error fault => rfl
  | ok c' =>
      simp only [Except.map, ok_bind, popBack_withBack, pure_eq_ok]

theorem nodeCount_dropNode (hnode : node ∈ (c.lists l).list) :
    (c.dropNode l node).nodeCount + 1 = c.nodeCount := by
  have hlength : ∀ l', ((c.dropNode l node).lists l').list.length
      = if l' = l then (c.lists l).list.length - 1 else (c.lists l').list.length := by
    intro l'
    rw [dropNode_lists]
    split
    · exact List.length_eraseP_of_mem hnode (by simp)
    · rfl
  have hpos := List.length_pos_of_mem hnode
  unfold nodeCount
  simp only [hlength]
  cases l with
  | hitOnce => simp; omega
  | hitOncePhantom => simp; omega
  | moreThanOnce => simp; omega
  | moreThanOncePhantom => simp; omega

/-- The nodes of other keys stay. -/
theorem mem_dropNode_of_ne (hc : Listed c) (hnode : node ∈ (c.lists l).list) {l' : ListId}
    {n : Node} (hkey : n.key ≠ node.key) :
    n ∈ ((c.dropNode l node).lists l').list ↔ n ∈ (c.lists l').list := by
  rw [hc.mem_dropNode hnode]
  constructor
  · exact And.left
  · intro hn
    refine ⟨hn, ?_⟩
    rintro ⟨-, rfl⟩
    exact hkey rfl

/-- The key of a dropped node is nowhere. -/
theorem Only.not_mem_dropNode (hc : Listed c) (h : Only c l node) {l' : ListId} {n : Node}
    (hn : n ∈ ((c.dropNode l node).lists l').list) : n.key ≠ node.key := by
  intro hkey
  obtain ⟨hmem, hne⟩ := (hc.mem_dropNode h.1).mp hn
  exact hne (h.2 l' n hmem hkey)

theorem WellFormed.droppedPhantom (hc : WellFormed c) {i : PhantomIndex}
    (hnode : node ∈ (c.lists i.list).list) :
    WellFormed (c.droppedPhantom i.list node) ∧ Shrinks c (c.droppedPhantom i.list node) := by
  obtain ⟨honly, ⟨buffer, hl, -⟩ | ⟨j, -, hplace⟩⟩ := hc.place_of_mem hnode
  · exact absurd rfl (hl.ne_phantom i)
  have hlisted := hc.listed.dropNode hnode
  have habsent : At (c.droppedPhantom i.list node) node.key .absent :=
    ⟨hplace.1, AList.lookup_erase _ _, fun l n hn => honly.not_mem_dropNode hc.listed hn⟩
  constructor
  · exact hc.replace node.key .absent ⟨hlisted.sized, hlisted.distinct, hlisted.fresh⟩
      hc.adaptive_le (fun k _ => rfl) (fun k hk => AList.lookup_erase_ne hk)
      (fun l n hn => mem_dropNode_of_ne hc.listed hnode hn) habsent
  · refine ⟨rfl, fun key entry hentry => ⟨entry, hentry, rfl⟩, fun key hkey => ?_⟩
    by_cases heq : key = node.key
    · rw [heq]
      exact habsent
    · exact hkey.congr rfl (AList.lookup_erase_ne heq) fun l n hn =>
        mem_dropNode_of_ne hc.listed hnode (by rw [hn]; exact heq)

theorem WellFormed.droppedBuffer (hc : WellFormed c) (hl : Resident l)
    (hnode : node ∈ (c.lists l).list) :
    WellFormed (c.droppedBuffer l node) ∧ Shrinks c (c.droppedBuffer l node) := by
  obtain ⟨honly, hphantom, -⟩ := hc.resident_of_mem hl hnode
  have hlisted := hc.listed.dropNode hnode
  have habsent : At (c.droppedBuffer l node) node.key .absent :=
    ⟨AList.lookup_erase _ _, hphantom, fun l n hn => honly.not_mem_dropNode hc.listed hn⟩
  constructor
  · exact hc.replace node.key .absent ⟨hlisted.sized, hlisted.distinct, hlisted.fresh⟩
      hc.adaptive_le (fun k hk => AList.lookup_erase_ne hk) (fun k _ => rfl)
      (fun l n hn => mem_dropNode_of_ne hc.listed hnode hn) habsent
  · refine ⟨rfl, fun key entry hentry => ⟨entry, ?_, rfl⟩, fun key hkey => ?_⟩
    · change (c.memoryBufferMapper.erase node.key).lookup key = some entry at hentry
      rw [AList.lookup_erase_eq] at hentry
      split at hentry
      · cases hentry
      · exact hentry
    · by_cases heq : key = node.key
      · rw [heq]
        exact habsent
      · exact hkey.congr (AList.lookup_erase_ne heq) rfl fun l n hn =>
          mem_dropNode_of_ne hc.listed hnode (by rw [hn]; exact heq)

end Drop

/-! ## Loops -/

/-- Which lists `UnsafeTryEvict` is called on, and how. -/
inductive Evictable : ListId → Bool → Prop
  | memory {l : ListId} : Resident l → Evictable l true
  | phantom (i : PhantomIndex) : Evictable i.list false

/-- One iteration of an eviction keeps the invariant and takes one node away. -/
theorem tryEvictOnce_ok {l : ListId} {inMemory : Bool} (hl : Evictable l inMemory)
    (hc : WellFormed c) (desired : ℕ) (hsize : c.sizeOf l ≠ 0) :
    ∃ desired' c', tryEvictOnce l inMemory (desired, c) = .ok (desired', c') ∧
      WellFormed c' ∧ Shrinks c c' ∧ c'.nodeCount < c.nodeCount := by
  obtain ⟨node, hback⟩ := hc.listed.exists_back hsize
  have hnode := List.mem_of_getLast? hback
  have hcount := nodeCount_dropNode hnode
  cases hl with
  | memory hl =>
      obtain ⟨hdropped, hshrinks⟩ := hc.droppedBuffer hl hnode
      refine ⟨_, _, tryEvictOnce_memory hc.listed hback desired, hdropped, hshrinks, ?_⟩
      change (c.dropNode l node).nodeCount < c.nodeCount
      omega
  | phantom i =>
      obtain ⟨hdropped, hshrinks⟩ := hc.droppedPhantom hnode
      obtain ⟨c', hadjust, hc', hadjusts⟩ := unsafeAdaptiveAdjust_ok hdropped .one
      refine ⟨desired - node.size, c', ?_, hc', hshrinks.trans hadjusts.toShrinks, ?_⟩
      · rw [tryEvictOnce_phantom hc.listed hback hdropped, hadjust]
        rfl
      · rw [hadjusts.nodeCount_eq]
        change (c.dropNode i.list node).nodeCount < c.nodeCount
        omega

theorem unsafeTryEvict_ok {l : ListId} {inMemory : Bool} (hl : Evictable l inMemory)
    (hc : WellFormed c) (desired : ℕ) :
    ∃ remaining c', unsafeTryEvict l desired inMemory c = .ok (remaining, c') ∧
      WellFormed c' ∧ Shrinks c c' := by
  have hbody : ∀ s : ℕ × InMemoryCache, (WellFormed s.2 ∧ Shrinks c s.2) →
      (s.1 != 0 && s.2.sizeOf l != 0) = true →
      ∃ s', tryEvictOnce l inMemory s = .ok s' ∧ (WellFormed s'.2 ∧ Shrinks c s'.2) ∧
        s'.2.nodeCount < s.2.nodeCount := by
    rintro ⟨desired, s⟩ ⟨hs, hshrinks⟩ hcond
    simp only [Bool.and_eq_true, bne_iff_ne] at hcond
    obtain ⟨desired', s', hstep, hs', hshrinks', hcount⟩ := tryEvictOnce_ok hl hs desired hcond.2
    exact ⟨_, hstep, ⟨hs', hshrinks.trans hshrinks'⟩, hcount⟩
  obtain ⟨⟨remaining, c'⟩, hloop, ⟨hc', hshrinks⟩, -⟩ :=
    whileLoop_ok .diverged hbody c.nodeCount (desired, c) ⟨hc, .refl c⟩ le_rfl
  exact ⟨remaining, c', hloop, hc', hshrinks⟩

/-- Which list the resident loop evicts from, and to which phantom list. -/
inductive Picked (c : InMemoryCache) : ListId → PhantomIndex → Prop
  | once : c.adaptiveSizeOfOnce < c.sizeOf .hitOnce → Picked c .hitOnce .one
  | moreThanOnce : c.sizeOf .hitOnce ≤ c.adaptiveSizeOfOnce → Picked c .moreThanOnce .two

theorem Picked.resident {src : ListId} {i : PhantomIndex} (h : Picked c src i) :
    Resident src := by
  cases h with
  | once _ => exact .inl rfl
  | moreThanOnce _ => exact .inr rfl

/-- While the resident lists do not fit, the list that is picked has a size: a first list
within its target leaves the excess to the second. -/
theorem WellFormed.exists_picked (hc : WellFormed c)
    (hover : c.maxSizeInBytes < c.sizeOf .hitOnce + c.sizeOf .moreThanOnce) :
    ∃ src i node, Picked c src i ∧ (c.lists src).list.getLast? = some node ∧
      (if c.adaptiveSizeOfOnce < c.sizeOf .hitOnce then c.evictHitOnceToPhantom
        else c.evictMoreThanOnceToPhantom) = .ok (c.evicted src i node node.size) := by
  have hadaptive := hc.adaptive_le
  by_cases honce : c.adaptiveSizeOfOnce < c.sizeOf .hitOnce
  · obtain ⟨node, hback⟩ := hc.listed.exists_back (l := .hitOnce) (by omega)
    refine ⟨.hitOnce, .one, node, .once honce, hback, ?_⟩
    rw [if_pos honce]
    exact hc.evictToPhantom_eq (.inl rfl) hback .one
  · obtain ⟨node, hback⟩ := hc.listed.exists_back (l := .moreThanOnce) (by omega)
    refine ⟨.moreThanOnce, .two, node, .moreThanOnce (by omega), hback, ?_⟩
    rw [if_neg honce]
    exact hc.evictToPhantom_eq (.inr rfl) hback .two

/-- What every eviction of the resident loop keeps holds at its end, when the resident
lists fit. -/
theorem evictResidentOverflow_rule {I : InMemoryCache → Prop} (hc : WellFormed c) (hI : I c)
    (hstep : ∀ s src i node, WellFormed s → I s →
      s.maxSizeInBytes < s.sizeOf .hitOnce + s.sizeOf .moreThanOnce → Picked s src i →
      (s.lists src).list.getLast? = some node → I (s.evicted src i node node.size)) :
    ∃ c', evictResidentOverflow c = .ok c' ∧ WellFormed c' ∧ I c' ∧
      c'.sizeOf .hitOnce + c'.sizeOf .moreThanOnce ≤ c'.maxSizeInBytes := by
  have hbody : ∀ s : InMemoryCache, (WellFormed s ∧ I s) →
      decide (s.maxSizeInBytes < s.sizeOf .hitOnce + s.sizeOf .moreThanOnce) = true →
      ∃ s', (if s.adaptiveSizeOfOnce < s.sizeOf .hitOnce then s.evictHitOnceToPhantom
          else s.evictMoreThanOnceToPhantom) = .ok s' ∧ (WellFormed s' ∧ I s') ∧
        (s'.lists .hitOnce).list.length + (s'.lists .moreThanOnce).list.length
          < (s.lists .hitOnce).list.length + (s.lists .moreThanOnce).list.length := by
    rintro s ⟨hs, hIs⟩ hcond
    have hover := of_decide_eq_true hcond
    obtain ⟨src, i, node, hpicked, hback, hevict⟩ := hs.exists_picked hover
    have hnode := List.mem_of_getLast? hback
    have hpos := List.length_pos_of_mem hnode
    have hresident := hpicked.resident
    refine ⟨_, hevict, ⟨hs.evicted hresident hnode i,
      hstep s src i node hs hIs hover hpicked hback⟩, ?_⟩
    rw [length_evicted hresident hnode, length_evicted hresident hnode]
    cases hpicked with
    | once _ => simp [PhantomIndex.list]; omega
    | moreThanOnce _ => simp [PhantomIndex.list]; omega
  obtain ⟨c', hloop, ⟨hc', hIc'⟩, hcond⟩ :=
    whileLoop_ok .diverged hbody c.nodeCount c ⟨hc, hI⟩ (by unfold nodeCount; omega)
  exact ⟨c', hloop, hc', hIc', by simpa using hcond⟩

theorem evictResidentOverflow_ok (hc : WellFormed c) :
    ∃ c', evictResidentOverflow c = .ok c' ∧ WellFormed c' ∧ Shrinks c c' ∧
      c'.sizeOf .hitOnce + c'.sizeOf .moreThanOnce ≤ c'.maxSizeInBytes :=
  evictResidentOverflow_rule hc (.refl c) fun _ _ i _ hs hshrinks _ _ hback =>
    hshrinks.trans (.evicted hs (List.mem_of_getLast? hback) i)

/-- Phantoms go until their list fits together with the resident one, which fits alone.
The other lists keep their sizes. -/
theorem evictPhantomOverflow_ok (hc : WellFormed c) {resident : ListId} {i : PhantomIndex}
    (hresident : Resident resident) (hfits : c.sizeOf resident ≤ c.maxSizeInBytes) :
    ∃ c', evictPhantomOverflow resident i.list c = .ok c' ∧ WellFormed c' ∧ Shrinks c c' ∧
      c'.memoryBufferMapper = c.memoryBufferMapper ∧
      (∀ l, l ≠ i.list → c'.sizeOf l = c.sizeOf l) ∧
      c'.sizeOf resident + c'.sizeOf i.list ≤ c'.maxSizeInBytes := by
  have hne := hresident.ne_phantom i
  have hbody : ∀ s : InMemoryCache,
      (WellFormed s ∧ Shrinks c s ∧ s.memoryBufferMapper = c.memoryBufferMapper ∧
        ∀ l, l ≠ i.list → s.sizeOf l = c.sizeOf l) →
      decide (s.maxSizeInBytes < s.sizeOf resident + s.sizeOf i.list) = true →
      ∃ s', dropPhantomBack i.list s = .ok s' ∧
        (WellFormed s' ∧ Shrinks c s' ∧ s'.memoryBufferMapper = c.memoryBufferMapper ∧
          ∀ l, l ≠ i.list → s'.sizeOf l = c.sizeOf l) ∧
        s'.nodeCount < s.nodeCount := by
    rintro s ⟨hs, hshrinks, hmemory, hsizes⟩ hcond
    have hover := of_decide_eq_true hcond
    have hsize : s.sizeOf i.list ≠ 0 := by
      have hresident := hsizes resident hne
      have hmax := hshrinks.max_eq
      omega
    obtain ⟨node, hback⟩ := hs.listed.exists_back hsize
    have hnode := List.mem_of_getLast? hback
    obtain ⟨hdropped, hshrinks'⟩ := hs.droppedPhantom hnode
    refine ⟨_, dropPhantomBack_eq hs.listed hback,
      ⟨hdropped, hshrinks.trans hshrinks', hmemory, fun l hl => ?_⟩, ?_⟩
    · rw [← hsizes l hl]
      change (s.dropNode i.list node).sizeOf l = _
      unfold sizeOf
      rw [dropNode_lists, if_neg hl]
    · have hcount := nodeCount_dropNode hnode
      change (s.dropNode i.list node).nodeCount < s.nodeCount
      omega
  obtain ⟨c', hloop, ⟨hc', hshrinks, hmemory, hsizes⟩, hcond⟩ :=
    whileLoop_ok .diverged hbody c.nodeCount c ⟨hc, .refl c, rfl, fun _ _ => rfl⟩ le_rfl
  exact ⟨c', hloop, hc', hshrinks, hmemory, hsizes, by simpa using hcond⟩

/-- The byte bounds of the cache between calls. -/
structure Bounded (c : InMemoryCache) : Prop where
  resident : c.sizeOf .hitOnce + c.sizeOf .moreThanOnce ≤ c.maxSizeInBytes
  once : c.sizeOf .hitOnce + c.sizeOf .hitOncePhantom ≤ c.maxSizeInBytes
  total : c.sizeOf .hitOnce + c.sizeOf .moreThanOnce + c.sizeOf .hitOncePhantom +
    c.sizeOf .moreThanOncePhantom ≤ 2 * c.maxSizeInBytes

/-- What is resident at the end is decided by the resident loop; the loops after it forget
phantoms only. -/
theorem evictMemoryOverflow_eq (hc : WellFormed c) {c₁ : InMemoryCache}
    (hresident : evictResidentOverflow c = .ok c₁) :
    ∃ c', evictMemoryOverflow c = .ok c' ∧ WellFormed c' ∧ Shrinks c c' ∧ Bounded c' ∧
      c'.memoryBufferMapper = c₁.memoryBufferMapper := by
  obtain ⟨c₁', hresident', hc₁, hshrinks₁, hfits⟩ := evictResidentOverflow_ok hc
  cases hresident.symm.trans hresident'
  obtain ⟨c₂, honce, hc₂, hshrinks₂, hmemory₂, hsizes₂, hfits₂⟩ :=
    evictPhantomOverflow_ok (i := .one) hc₁ (.inl rfl) (by omega)
  have h₂ := hsizes₂ .hitOnce (by decide)
  have h₂' := hsizes₂ .moreThanOnce (by decide)
  have hmax₂ := hshrinks₂.max_eq
  obtain ⟨c₃, hmore, hc₃, hshrinks₃, hmemory₃, hsizes₃, hfits₃⟩ :=
    evictPhantomOverflow_ok (i := .two) hc₂ (.inr rfl) (by omega)
  have h₃ := hsizes₃ .hitOnce (by decide)
  have h₃' := hsizes₃ .moreThanOnce (by decide)
  have h₃'' := hsizes₃ .hitOncePhantom (by decide)
  have hmax₃ := hshrinks₃.max_eq
  refine ⟨c₃, ?_, hc₃, (hshrinks₁.trans hshrinks₂).trans hshrinks₃, ⟨?_, ?_, ?_⟩,
    hmemory₃.trans hmemory₂⟩
  · unfold evictMemoryOverflow
    rw [hresident, ok_bind]
    change (evictPhantomOverflow .hitOnce PhantomIndex.one.list c₁ >>= _) = _
    rw [honce, ok_bind]
    exact hmore
  · omega
  · simp only [PhantomIndex.list] at hfits₂
    omega
  · simp only [PhantomIndex.list] at hfits₂ hfits₃
    omega

theorem evictMemoryOverflow_ok (hc : WellFormed c) :
    ∃ c', evictMemoryOverflow c = .ok c' ∧ WellFormed c' ∧ Shrinks c c' ∧ Bounded c' := by
  obtain ⟨c₁, hresident, -⟩ := evictResidentOverflow_ok hc
  obtain ⟨c', hevict, hc', hshrinks, hbounded, -⟩ := evictMemoryOverflow_eq hc hresident
  exact ⟨c', hevict, hc', hshrinks, hbounded⟩

end InMemoryCache

end Yadcc.Cache
