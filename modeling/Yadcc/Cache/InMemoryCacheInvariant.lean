/-
# What every call on the in-memory cache preserves

A call succeeds on a well formed cache that keeps its byte bounds, and leaves such a
cache. A put holds the new buffer or none under its key, and no call changes the buffer
of another key.
-/

import Yadcc.Cache.Eviction

namespace Yadcc.Cache

open Yadcc.Lib

namespace InMemoryCache

variable {c c' : InMemoryCache}

/-! ## Storing -/

/-- The cache holds the new buffer under its key, or nothing, and otherwise only what it
held before. -/
def Stores (key : String) (buffer : Buffer) (c c' : InMemoryCache) : Prop :=
  ∀ k entry, c'.memoryBufferMapper.lookup k = some entry →
    (k = key ∧ entry.buffer = buffer) ∨
      ∃ entry', k ≠ key ∧ c.memoryBufferMapper.lookup k = some entry' ∧
        entry'.buffer = entry.buffer

theorem Stores.shrinks {key : String} {buffer : Buffer} {c c' c'' : InMemoryCache}
    (h : Stores key buffer c c') (h' : Shrinks c' c'') : Stores key buffer c c'' := by
  intro k entry hentry
  obtain ⟨entry', hentry', heq⟩ := h'.memory k entry hentry
  rcases h k entry' hentry' with ⟨hk, hbuffer⟩ | ⟨entry'', hk, hentry'', heq'⟩
  · exact .inl ⟨hk, heq.symm.trans hbuffer⟩
  · exact .inr ⟨entry'', hk, hentry'', heq'.trans heq⟩

theorem Shrinks.stores {key : String} {buffer : Buffer} {c c' c'' : InMemoryCache}
    (h : Shrinks c c') (h' : Stores key buffer c' c'') : Stores key buffer c c'' := by
  intro k entry hentry
  rcases h' k entry hentry with hnew | ⟨entry', hk, hentry', heq⟩
  · exact .inl hnew
  · obtain ⟨entry'', hentry'', heq'⟩ := h.memory k entry' hentry'
    exact .inr ⟨entry'', hk, hentry'', heq'.trans heq⟩

/-- An insertion into the memory map stores, whatever happens to the lists. -/
theorem stores_insert {key : String} (entry : CacheEntry)
    (h : c'.memoryBufferMapper = c.memoryBufferMapper.insert key entry) :
    Stores key entry.buffer c c' := by
  intro k found hfound
  rw [h, AList.lookup_insert_eq] at hfound
  split at hfound
  · next hk =>
      cases hfound
      exact .inl ⟨hk, rfl⟩
  · next hk => exact .inr ⟨found, hk, hfound, rfl⟩

/-- What the memory map says of a resident key. -/
theorem WellFormed.resident_of_lookup (hc : WellFormed c) {key : String} {entry : CacheEntry}
    (h : c.memoryBufferMapper.lookup key = some entry) : ∃ l, Resident l ∧
      entry.belongingList = some l ∧ c.phantomEntryMapper.lookup key = none ∧
      Only c l ⟨entry.entryIter, key, entry.buffer.length⟩ := by
  obtain ⟨place, hplace⟩ := hc.placed key
  cases place with
  | absent => cases hplace.1.symm.trans h
  | resident l buffer =>
      obtain ⟨hl, hp, iter, hm, honly⟩ := hplace
      cases hm.symm.trans h
      exact ⟨l, hl, rfl, hp, honly⟩
  | phantom i size => cases hplace.1.symm.trans h

/-- What the phantom map says of a phantom key. -/
theorem WellFormed.phantom_of_lookup (hc : WellFormed c) {key : String} {i : PhantomIndex}
    {iter : EntryIterator} (h : c.phantomEntryMapper.lookup key = some (i, iter)) :
    c.memoryBufferMapper.lookup key = none ∧ ∃ size, Only c i.list ⟨iter, key, size⟩ := by
  obtain ⟨place, hplace⟩ := hc.placed key
  cases place with
  | absent => cases hplace.2.1.symm.trans h
  | resident l buffer => cases hplace.2.1.symm.trans h
  | phantom j size =>
      obtain ⟨hm, iter', hp, honly⟩ := hplace
      cases hp.symm.trans h
      exact ⟨hm, size, honly⟩

theorem WellFormed.absent_of_lookup (hc : WellFormed c) {key : String}
    (hmemory : c.memoryBufferMapper.lookup key = none)
    (hphantom : c.phantomEntryMapper.lookup key = none) : At c key .absent := by
  obtain ⟨place, hplace⟩ := hc.placed key
  cases place with
  | absent => exact hplace
  | resident l buffer =>
      obtain ⟨-, -, iter, hm, -⟩ := hplace
      cases hm.symm.trans hmemory
  | phantom i size =>
      obtain ⟨-, iter, hp, -⟩ := hplace
      cases hp.symm.trans hphantom

/-- The state after the node of a key has moved to a resident list and its entry is on
file. -/
def promoted (l : ListId) (node : Node) (dst : ListId) (buffer : Buffer) (c : InMemoryCache) :
    InMemoryCache :=
  forgetPhantom node.key
    { c.moveNode l node dst buffer.length with
      memoryBufferMapper := c.memoryBufferMapper.insert node.key ⟨buffer, some dst, c.nextIter⟩ }

theorem WellFormed.promoted (hc : WellFormed c) {l : ListId} {node : Node} (honly : Only c l node)
    {dst : ListId} (hdst : Resident dst) (buffer : Buffer) :
    WellFormed (c.promoted l node dst buffer) := by
  have hlisted := hc.listed.moveNode honly.1 dst buffer.length
  refine hc.replace node.key (.resident dst buffer)
    ⟨hlisted.sized, hlisted.distinct, hlisted.fresh⟩ hc.adaptive_le
    (fun k hk => AList.lookup_insert_ne hk) (fun k hk => AList.lookup_erase_ne hk)
    (fun l' n hn => hc.listed.mem_moveNode_of_ne honly.1 hn) ?_
  exact ⟨hdst, AList.lookup_erase _ _, c.nextIter, AList.lookup_insert _,
    honly.moveNode hc.listed dst buffer.length⟩

/-- The state after the adaptive target has moved on a phantom hit. -/
def adapted (rule : AdaptiveUpdate) (i : PhantomIndex) (size : ℕ) (c : InMemoryCache) :
    InMemoryCache :=
  { c with
    adaptiveSizeOfOnce := rule.update c.maxSizeInBytes i size (c.sizeOf .hitOncePhantom)
      (c.sizeOf .moreThanOncePhantom) c.adaptiveSizeOfOnce }

theorem WellFormed.adapted (hc : WellFormed c) (rule : AdaptiveUpdate) (i : PhantomIndex)
    (size : ℕ) : WellFormed (c.adapted rule i size) := by
  refine ⟨⟨hc.listed.sized, hc.listed.distinct, hc.listed.fresh⟩, fun k => ?_,
    rule.le_max _ _ _ _ _ _ hc.adaptive_le⟩
  obtain ⟨place, hplace⟩ := hc.placed k
  exact ⟨place, hplace.congr rfl rfl fun _ _ _ => Iff.rfl⟩

/-- A key that was a phantom moves to the list of what was used more often, once the
adjustment is over. -/
theorem unsafeCacheInPhantom_eq (hc : WellFormed c) (rule : AdaptiveUpdate) {key : String}
    {i : PhantomIndex} {iter : EntryIterator}
    (hphantom : c.phantomEntryMapper.lookup key = some (i, iter)) (buffer : Buffer) :
    ∃ c₁ size, unsafeAdaptiveAdjust i (c.adapted rule i buffer.length) = .ok c₁ ∧
      WellFormed c₁ ∧ Adjusts (c.adapted rule i buffer.length) c₁ ∧
      Only c₁ i.list ⟨iter, key, size⟩ ∧
      unsafeCacheInPhantom rule i key ⟨buffer, some i.list, iter⟩ c
        = .ok (c₁.promoted i.list ⟨iter, key, size⟩ .moreThanOnce buffer) := by
  obtain ⟨c₁, hadjust, hc₁, hadjusts⟩ :=
    unsafeAdaptiveAdjust_ok (hc.adapted rule i buffer.length) i
  have hphantom₁ := hadjusts.phantom key _ hphantom
  obtain ⟨hmemory₁, size, honly⟩ := hc₁.phantom_of_lookup hphantom₁
  have hmove := unsafePutEntryIntoList_move (hc₁.listed.nodeAt honly.1)
    (hc₁.listed.size_le honly.1) (fun j iter' h => by
      cases hphantom₁.symm.trans h
      exact ⟨rfl, rfl⟩) buffer .moreThanOnce
  refine ⟨c₁, size, hadjust, hc₁, hadjusts, honly, ?_⟩
  unfold adapted at hadjust
  unfold unsafeCacheInPhantom
  simp only at hmove
  simp only [hadjust, ok_bind, hmove, pure_eq_ok]
  rfl

theorem unsafeCacheInPhantom_ok (hc : WellFormed c) (rule : AdaptiveUpdate) {key : String}
    {i : PhantomIndex} {iter : EntryIterator}
    (hphantom : c.phantomEntryMapper.lookup key = some (i, iter)) (buffer : Buffer) :
    ∃ c', unsafeCacheInPhantom rule i key ⟨buffer, some i.list, iter⟩ c = .ok c' ∧
      WellFormed c' ∧ Stores key buffer c c' ∧ c'.maxSizeInBytes = c.maxSizeInBytes := by
  obtain ⟨c₁, size, -, hc₁, hadjusts, honly, hcache⟩ :=
    unsafeCacheInPhantom_eq hc rule hphantom buffer
  refine ⟨_, hcache, hc₁.promoted honly (.inr rfl) buffer, ?_, hadjusts.max_eq⟩
  have hstores : Stores key buffer c₁ (c₁.promoted i.list ⟨iter, key, size⟩ .moreThanOnce buffer) :=
    stores_insert ⟨buffer, some .moreThanOnce, c₁.nextIter⟩ rfl
  intro k entry hentry
  exact hadjusts.toShrinks.stores hstores k entry hentry

theorem evictPhantomsForMiss_ok (hc : WellFormed c) (i : PhantomIndex) (size : ℕ) :
    ∃ remaining c', evictPhantomsForMiss i size c = .ok (remaining, c') ∧ WellFormed c' ∧
      Shrinks c c' := by
  unfold evictPhantomsForMiss
  split
  · exact unsafeTryEvict_ok (.phantom i) hc size
  · exact ⟨size, c, rfl, hc, .refl c⟩

theorem evictResidentsForMiss_ok (hc : WellFormed c) {l : ListId} (hl : Resident l) (size : ℕ) :
    ∃ remaining c', evictResidentsForMiss l size c = .ok (remaining, c') ∧ WellFormed c' ∧
      Shrinks c c' := by
  unfold evictResidentsForMiss
  split
  · exact unsafeTryEvict_ok (.memory hl) hc size
  · exact ⟨size, c, rfl, hc, .refl c⟩

theorem evictOnceForMiss_ok (hc : WellFormed c) (size : ℕ) :
    ∃ remaining c', evictOnceForMiss size c = .ok (remaining, c') ∧ WellFormed c' ∧
      Shrinks c c' := by
  unfold evictOnceForMiss
  split
  · obtain ⟨remaining, c₁, hphantoms, hc₁, hshrinks₁⟩ := evictPhantomsForMiss_ok hc .one size
    obtain ⟨remaining', c₂, hresidents, hc₂, hshrinks₂⟩ :=
      evictResidentsForMiss_ok hc₁ (.inl rfl) remaining
    refine ⟨remaining', c₂, ?_, hc₂, hshrinks₁.trans hshrinks₂⟩
    rw [hphantoms, ok_bind]
    exact hresidents
  · exact ⟨size, c, rfl, hc, .refl c⟩

theorem evictMoreThanOnceForMiss_ok (hc : WellFormed c) (size : ℕ) :
    ∃ c', evictMoreThanOnceForMiss size c = .ok c' ∧ WellFormed c' ∧ Shrinks c c' := by
  unfold evictMoreThanOnceForMiss
  dsimp only
  split
  · split
    · obtain ⟨remaining, c₁, hphantoms, hc₁, hshrinks₁⟩ := evictPhantomsForMiss_ok hc .two size
      obtain ⟨remaining', c₂, hresidents, hc₂, hshrinks₂⟩ :=
        evictResidentsForMiss_ok hc₁ (.inr rfl) remaining
      refine ⟨c₂, ?_, hc₂, hshrinks₁.trans hshrinks₂⟩
      rw [hphantoms, ok_bind]
      dsimp only
      rw [hresidents, ok_bind]
      rfl
    · obtain ⟨c', hadjust, hc', hadjusts⟩ := unsafeAdaptiveAdjust_ok hc .one
      exact ⟨c', hadjust, hc', hadjusts.toShrinks⟩
  · exact ⟨c, rfl, hc, .refl c⟩

theorem evictForMiss_ok (hc : WellFormed c) (size : ℕ) :
    ∃ c', evictForMiss size c = .ok c' ∧ WellFormed c' ∧ Shrinks c c' := by
  unfold evictForMiss
  split
  · obtain ⟨remaining, c₁, honce, hc₁, hshrinks₁⟩ := evictOnceForMiss_ok hc size
    obtain ⟨c₂, hmore, hc₂, hshrinks₂⟩ := evictMoreThanOnceForMiss_ok hc₁ remaining
    refine ⟨c₂, ?_, hc₂, hshrinks₁.trans hshrinks₂⟩
    rw [honce, ok_bind]
    exact hmore
  · exact ⟨c, rfl, hc, .refl c⟩

/-- The state after an absent key got a node in the first list. -/
def cached (key : String) (buffer : Buffer) (c : InMemoryCache) : InMemoryCache :=
  { c.emplaceFront .hitOnce key buffer.length with
    memoryBufferMapper :=
      c.memoryBufferMapper.insert key ⟨buffer, some .hitOnce, c.nextIter⟩ }

theorem WellFormed.cached (hc : WellFormed c) {key : String} (habsent : At c key .absent)
    (buffer : Buffer) : WellFormed (c.cached key buffer) := by
  have hlisted := hc.listed.emplaceFront .hitOnce key buffer.length
  have hsame : ∀ l n, n.key ≠ key →
      (n ∈ ((c.cached key buffer).lists l).list ↔ n ∈ (c.lists l).list) := by
    intro l n hn
    change n ∈ ((c.emplaceFront .hitOnce key buffer.length).lists l).list ↔ _
    rw [mem_emplaceFront]
    refine or_iff_right ?_
    rintro ⟨-, rfl⟩
    exact hn rfl
  refine hc.replace key (.resident .hitOnce buffer)
    ⟨hlisted.sized, hlisted.distinct, hlisted.fresh⟩ hc.adaptive_le
    (fun k hk => AList.lookup_insert_ne hk) (fun _ _ => rfl) hsame ?_
  refine ⟨.inl rfl, habsent.2.1, c.nextIter, AList.lookup_insert _,
    mem_emplaceFront.mpr (.inl ⟨rfl, rfl⟩), fun l n hn hkey => ?_⟩
  rcases mem_emplaceFront.mp hn with hnew | hold
  · exact hnew
  · exact absurd hkey (habsent.2.2 l n hold)

theorem unsafeCacheIfMiss_eq {c₁ : InMemoryCache} (key : String) {buffer : Buffer}
    (hevict : evictForMiss buffer.length c = .ok c₁) :
    unsafeCacheIfMiss key ⟨buffer, none, 0⟩ c = .ok (c₁.cached key buffer) := by
  unfold unsafeCacheIfMiss
  rw [hevict, ok_bind, unsafePutEntryIntoList_new, ok_bind]
  rfl

theorem unsafeCacheIfMiss_ok (hc : WellFormed c) {key : String} (habsent : At c key .absent)
    (buffer : Buffer) : ∃ c', unsafeCacheIfMiss key ⟨buffer, none, 0⟩ c = .ok c' ∧
      WellFormed c' ∧ Stores key buffer c c' ∧ c'.maxSizeInBytes = c.maxSizeInBytes := by
  obtain ⟨c₁, hevict, hc₁, hshrinks⟩ := evictForMiss_ok hc buffer.length
  exact ⟨c₁.cached key buffer, unsafeCacheIfMiss_eq key hevict,
    hc₁.cached (hshrinks.absent key habsent) buffer,
    hshrinks.stores (stores_insert ⟨buffer, some .hitOnce, c₁.nextIter⟩ rfl), hshrinks.max_eq⟩

theorem unsafeCache_ok (hc : WellFormed c) (rule : AdaptiveUpdate) {key : String}
    (hmemory : c.memoryBufferMapper.lookup key = none) (buffer : Buffer) :
    ∃ c', unsafeCache rule key buffer c = .ok c' ∧ WellFormed c' ∧ Stores key buffer c c' ∧
      c'.maxSizeInBytes = c.maxSizeInBytes := by
  unfold unsafeCache
  cases hphantom : c.phantomEntryMapper.lookup key with
  | none => exact unsafeCacheIfMiss_ok hc (hc.absent_of_lookup hmemory hphantom) buffer
  | some found => exact unsafeCacheInPhantom_ok hc rule hphantom buffer

/-! ## Overwriting -/

/-- Change the size of a node. -/
def resize (l : ListId) (node : Node) (size : ℕ) (c : InMemoryCache) : InMemoryCache :=
  c.setList l ⟨c.sizeOf l - node.size + size,
    (c.lists l).list.map fun n => if n.iter = node.iter then { n with size } else n⟩

theorem sizeOf_resize (l l' : ListId) (node : Node) (size : ℕ) :
    (c.resize l node size).sizeOf l' =
      if l' = l then c.sizeOf l - node.size + size else c.sizeOf l' := by
  unfold resize sizeOf
  rw [setList_lists]
  split
  · rfl
  · rfl

/-- One size in a list of distinct nodes changes, and the sum with it. -/
theorem sum_resize {node : Node} (size : ℕ) : ∀ {list : List Node},
    (list.map Node.iter).Nodup → node ∈ list →
    ((list.map fun n => if n.iter = node.iter then { n with size } else n).map Node.size).sum
        + node.size = (list.map Node.size).sum + size
  | [], _, h => by cases h
  | n :: list, hdistinct, hmem => by
      rw [List.map_cons, List.nodup_cons] at hdistinct
      obtain ⟨hhead, hdistinct⟩ := hdistinct
      by_cases hn : n.iter = node.iter
      · have hrest : ∀ m ∈ list, m.iter ≠ node.iter := by
          intro m hm heq
          exact hhead (hn ▸ heq ▸ List.mem_map_of_mem hm)
        have hnode : n = node := by
          rcases List.mem_cons.mp hmem with rfl | hmem
          · rfl
          · exact absurd rfl (hrest node hmem)
        have hsame : (list.map fun n => if n.iter = node.iter then { n with size } else n)
            = list := by
          conv_rhs => rw [← List.map_id list]
          exact List.map_congr_left fun m hm => if_neg (hrest m hm)
        simp only [List.map_cons, hsame, List.sum_cons, hnode, if_true]
        omega
      · have hmem : node ∈ list := by
          rcases List.mem_cons.mp hmem with rfl | hmem
          · exact absurd rfl hn
          · exact hmem
        have hrest := sum_resize size hdistinct hmem
        simp only [List.map_cons, if_neg hn, List.sum_cons]
        omega

theorem mem_resize {l l' : ListId} {node n : Node} {size : ℕ} :
    n ∈ ((c.resize l node size).lists l').list ↔
      (l' ≠ l ∧ n ∈ (c.lists l').list) ∨ (l' = l ∧ ∃ m ∈ (c.lists l).list,
        (if m.iter = node.iter then { m with size } else m) = n) := by
  unfold resize
  rw [setList_lists]
  split
  · next h => simp [h]
  · next h => simp [h]

theorem Listed.resize (hc : Listed c) {l : ListId} {node : Node} (hnode : node ∈ (c.lists l).list)
    (size : ℕ) : Listed (c.resize l node size) := by
  have hsize := hc.size_le hnode
  have hiter : ∀ m : Node, (if m.iter = node.iter then { m with size } else m).iter = m.iter := by
    intro m
    split
    · rfl
    · rfl
  refine ⟨fun l' => ?_, fun l' => ?_, fun l' n hn => ?_⟩
  · unfold sizeOf InMemoryCache.resize
    rw [setList_lists]
    split
    · have hsum := sum_resize size (hc.distinct l) hnode
      have := hc.sized l
      dsimp only
      omega
    · exact hc.sized l'
  · unfold InMemoryCache.resize
    rw [setList_lists]
    split
    · have hmap : ((c.lists l).list.map fun n => if n.iter = node.iter then { n with size }
          else n).map Node.iter = (c.lists l).list.map Node.iter := by
        rw [List.map_map]
        exact List.map_congr_left fun m _ => hiter m
      dsimp only
      rw [hmap]
      exact hc.distinct l
    · exact hc.distinct l'
  · rcases mem_resize.mp hn with ⟨-, hn⟩ | ⟨rfl, m, hm, rfl⟩
    · exact hc.fresh l' n hn
    · rw [hiter m]
      exact hc.fresh l' m hm

/-- The state after the buffer of a resident entry was replaced. -/
def overwritten (l : ListId) (node : Node) (buffer : Buffer) (c : InMemoryCache) :
    InMemoryCache :=
  { c.resize l node buffer.length with
    memoryBufferMapper := c.memoryBufferMapper.insert node.key ⟨buffer, some l, node.iter⟩ }

theorem WellFormed.overwritten (hc : WellFormed c) {l : ListId} (hl : Resident l) {node : Node}
    (hphantom : c.phantomEntryMapper.lookup node.key = none) (honly : Only c l node)
    (buffer : Buffer) : WellFormed (c.overwritten l node buffer) := by
  have hlisted := hc.listed.resize honly.1 buffer.length
  have hsame : ∀ l' n, n.key ≠ node.key →
      (n ∈ ((c.overwritten l node buffer).lists l').list ↔ n ∈ (c.lists l').list) := by
    intro l' n hn
    refine mem_resize.trans ?_
    constructor
    · rintro (⟨-, hn⟩ | ⟨rfl, m, hm, rfl⟩)
      · exact hn
      · by_cases hiter : m.iter = node.iter
        · cases hc.listed.eq_of_iter hm honly.1 hiter
          rw [if_pos rfl] at hn
          exact absurd rfl hn
        · rw [if_neg hiter]
          exact hm
    · intro hmem
      by_cases hlist : l' = l
      · subst hlist
        refine .inr ⟨rfl, n, hmem, if_neg fun hiter => ?_⟩
        exact hn (congrArg Node.key (hc.listed.eq_of_iter hmem honly.1 hiter))
      · exact .inl ⟨hlist, hmem⟩
  refine hc.replace node.key (.resident l buffer)
    ⟨hlisted.sized, hlisted.distinct, hlisted.fresh⟩ hc.adaptive_le
    (fun k hk => AList.lookup_insert_ne hk) (fun _ _ => rfl) hsame ?_
  refine ⟨hl, hphantom, node.iter, AList.lookup_insert _,
    mem_resize.mpr (.inr ⟨rfl, node, honly.1, if_pos rfl⟩), fun l' n hn hkey => ?_⟩
  rcases mem_resize.mp hn with ⟨hne, hn⟩ | ⟨rfl, m, hm, rfl⟩
  · exact absurd (honly.2 l' n hn hkey).1 hne
  · by_cases hiter : m.iter = node.iter
    · cases hc.listed.eq_of_iter hm honly.1 hiter
      exact ⟨rfl, if_pos rfl⟩
    · rw [if_neg hiter] at hkey
      exact absurd (congrArg Node.iter (honly.2 l' m hm hkey).2) hiter

theorem Bounded.of_le (hc : Bounded c) (hle : ∀ l, c'.sizeOf l ≤ c.sizeOf l)
    (hmax : c'.maxSizeInBytes = c.maxSizeInBytes) : Bounded c' := by
  have honce := hle .hitOnce
  have hmore := hle .moreThanOnce
  have honcePhantom := hle .hitOncePhantom
  have hmorePhantom := hle .moreThanOncePhantom
  obtain ⟨hresident, hfirst, htotal⟩ := hc
  constructor
  · omega
  · omega
  · omega

/-- Overwriting changes one size in the list the entry is in, and evicts if it grew. -/
theorem unsafeOverwrite_eq (hc : WellFormed c) {key : String} {entry : CacheEntry}
    (hentry : c.memoryBufferMapper.lookup key = some entry) (buffer : Buffer) :
    ∃ l, Resident l ∧ entry.belongingList = some l ∧
      Only c l ⟨entry.entryIter, key, entry.buffer.length⟩ ∧
      WellFormed (c.overwritten l ⟨entry.entryIter, key, entry.buffer.length⟩ buffer) ∧
      unsafeOverwrite key buffer c = if entry.buffer.length < buffer.length then
        evictMemoryOverflow (c.overwritten l ⟨entry.entryIter, key, entry.buffer.length⟩ buffer)
        else .ok (c.overwritten l ⟨entry.entryIter, key, entry.buffer.length⟩ buffer) := by
  obtain ⟨l, hl, hlist, hphantom, honly⟩ := hc.resident_of_lookup hentry
  have hsize := hc.listed.size_le honly.1
  refine ⟨l, hl, hlist, honly, hc.overwritten hl hphantom honly buffer, ?_⟩
  unfold unsafeOverwrite lower
  simp only [hentry, hlist, hc.listed.nodeAt honly.1, ok_bind, if_neg (Nat.not_lt.mpr hsize)]
  rfl

/-- Without growth every list is at most as big as before. -/
theorem Bounded.overwritten (hc : Bounded c) {l : ListId} {node : Node} {buffer : Buffer}
    (hsize : node.size ≤ c.sizeOf l) (hle : buffer.length ≤ node.size) :
    Bounded (c.overwritten l node buffer) := by
  refine hc.of_le (fun l' => ?_) rfl
  change (c.resize l node buffer.length).sizeOf l' ≤ _
  rw [sizeOf_resize]
  split
  · next h =>
      subst h
      omega
  · exact le_rfl

/-- Overwriting with a buffer that is not bigger keeps the byte bounds; with a bigger one
they are restored. -/
theorem unsafeOverwrite_ok (hc : WellFormed c) (hbounded : Bounded c) {key : String}
    {entry : CacheEntry} (hentry : c.memoryBufferMapper.lookup key = some entry)
    (buffer : Buffer) : ∃ c', unsafeOverwrite key buffer c = .ok c' ∧ WellFormed c' ∧
      Stores key buffer c c' ∧ Bounded c' ∧ c'.maxSizeInBytes = c.maxSizeInBytes := by
  obtain ⟨l, hl, -, honly, hwritten, hstep⟩ := unsafeOverwrite_eq hc hentry buffer
  have hstores : Stores key buffer c
      (c.overwritten l ⟨entry.entryIter, key, entry.buffer.length⟩ buffer) :=
    stores_insert ⟨buffer, some l, entry.entryIter⟩ rfl
  rw [hstep]
  by_cases hbigger : entry.buffer.length < buffer.length
  · rw [if_pos hbigger]
    obtain ⟨c', hevict, hc', hshrinks, hbounded'⟩ := evictMemoryOverflow_ok hwritten
    exact ⟨c', hevict, hc', hstores.shrinks hshrinks, hbounded', hshrinks.max_eq⟩
  · rw [if_neg hbigger]
    exact ⟨_, rfl, hwritten, hstores,
      hbounded.overwritten (hc.listed.size_le honly.1) (Nat.not_lt.mp hbigger), rfl⟩

/-! ## Calls -/

/-- Between calls the cache is well formed and within its bounds. -/
structure Invariant (c : InMemoryCache) : Prop extends WellFormed c, Bounded c

theorem put_ok (hc : Invariant c) (rule : AdaptiveUpdate) (key : String) (buffer : Buffer) :
    ∃ c', put rule key buffer c = .ok (decide (buffer.length ≤ c.maxSizeInBytes), c') ∧
      Invariant c' ∧ c'.maxSizeInBytes = c.maxSizeInBytes ∧
      if buffer.length ≤ c.maxSizeInBytes then Stores key buffer c c' else c' = c := by
  unfold put
  by_cases hsize : c.maxSizeInBytes < buffer.length
  · have hnot := Nat.not_le.mpr hsize
    refine ⟨c, ?_, hc, rfl, ?_⟩
    · rw [if_pos hsize, decide_eq_false hnot]
    · rw [if_neg hnot]
  · have hle := Nat.not_lt.mp hsize
    rw [if_neg hsize, decide_eq_true hle]
    simp only [if_pos hle]
    cases hlookup : c.memoryBufferMapper.lookup key with
    | some entry =>
        obtain ⟨c', hwrite, hc', hstores, hbounded, hmax⟩ :=
          unsafeOverwrite_ok hc.toWellFormed hc.toBounded hlookup buffer
        refine ⟨c', ?_, ⟨hc', hbounded⟩, hmax, hstores⟩
        simp only [hwrite, ok_bind]
        rfl
    | none =>
        obtain ⟨c₁, hcache, hc₁, hstores, hmax⟩ :=
          unsafeCache_ok hc.toWellFormed rule hlookup buffer
        obtain ⟨c₂, hevict, hc₂, hshrinks, hbounded⟩ := evictMemoryOverflow_ok hc₁
        refine ⟨c₂, ?_, ⟨hc₂, hbounded⟩, hshrinks.max_eq.trans hmax, hstores.shrinks hshrinks⟩
        simp only [hcache, hevict, ok_bind]
        rfl

/-- The buffers of two caches agree. -/
def SameBuffers (c c' : InMemoryCache) : Prop :=
  ∀ key, (c'.memoryBufferMapper.lookup key).map CacheEntry.buffer
    = (c.memoryBufferMapper.lookup key).map CacheEntry.buffer

theorem forgetPhantom_eq {key : String} (h : c.phantomEntryMapper.lookup key = none) :
    forgetPhantom key c = c := by
  unfold forgetPhantom
  rw [AList.erase_of_lookup_none h]

/-- The counters do not matter to the invariant. -/
theorem Invariant.counted (hc : Invariant c) (hits misses : ℕ) :
    Invariant { c with hits, misses } := by
  refine ⟨⟨⟨hc.listed.sized, hc.listed.distinct, hc.listed.fresh⟩, fun k => ?_, hc.adaptive_le⟩,
    ⟨hc.resident, hc.once, hc.total⟩⟩
  obtain ⟨place, hplace⟩ := hc.placed k
  exact ⟨place, hplace.congr rfl rfl fun _ _ _ => Iff.rfl⟩

/-- A hit only moves bytes to the list of what was used more often. -/
theorem Bounded.promoted (hc : Bounded c) {l : ListId} (hl : Resident l) {node : Node}
    {buffer : Buffer} (hnode : node.size = buffer.length) (hsize : node.size ≤ c.sizeOf l) :
    Bounded (c.promoted l node .moreThanOnce buffer) := by
  have hsizes : ∀ l', (c.promoted l node .moreThanOnce buffer).sizeOf l' =
      (if l' = l then c.sizeOf l - node.size else c.sizeOf l') +
        if l' = .moreThanOnce then buffer.length else 0 :=
    fun l' => sizeOf_moveNode l l' .moreThanOnce node buffer.length
  have hmax : (c.promoted l node .moreThanOnce buffer).maxSizeInBytes = c.maxSizeInBytes := rfl
  obtain ⟨hresident, honce, htotal⟩ := hc
  rcases hl with rfl | rfl
  · constructor
    · simp [hsizes]; omega
    · simp [hsizes]; omega
    · simp [hsizes]; omega
  · constructor
    · simp [hsizes]; omega
    · simp [hsizes]; omega
    · simp [hsizes]; omega

theorem tryGet_ok (hc : Invariant c) (key : String) :
    ∃ c', tryGet key c = .ok ((c.memoryBufferMapper.lookup key).map CacheEntry.buffer, c') ∧
      Invariant c' ∧ c'.maxSizeInBytes = c.maxSizeInBytes ∧ SameBuffers c c' := by
  unfold tryGet
  cases hlookup : c.memoryBufferMapper.lookup key with
  | none => exact ⟨_, rfl, hc.counted c.hits (c.misses + 1), rfl, fun _ => rfl⟩
  | some entry =>
      obtain ⟨l, hl, hlist, hphantom, honly⟩ := hc.resident_of_lookup hlookup
      let node : Node := ⟨entry.entryIter, key, entry.buffer.length⟩
      have hsize := hc.listed.size_le honly.1
      have hentry : entry = ⟨entry.buffer, some l, node.iter⟩ := by
        rw [← hlist]
      have hmove : unsafePutEntryIntoList key entry .moreThanOnce c
          = .ok (⟨entry.buffer, some .moreThanOnce, c.nextIter⟩,
            c.moveNode l node .moreThanOnce entry.buffer.length) := by
        rw [hentry]
        exact unsafePutEntryIntoList_move (hc.listed.nodeAt honly.1) hsize
          (fun i iter h => by cases hphantom.symm.trans h) entry.buffer .moreThanOnce
      have hpromoted : Invariant (c.promoted l node .moreThanOnce entry.buffer) :=
        ⟨hc.toWellFormed.promoted honly (.inr rfl) entry.buffer,
          hc.toBounded.promoted hl rfl hsize⟩
      refine ⟨_, ?_, hpromoted.counted (c.hits + 1) c.misses, rfl, fun k => ?_⟩
      · have hforget : c.promoted l node .moreThanOnce entry.buffer
            = { c.moveNode l node .moreThanOnce entry.buffer.length with
              memoryBufferMapper := c.memoryBufferMapper.insert key
                ⟨entry.buffer, some .moreThanOnce, c.nextIter⟩ } := forgetPhantom_eq hphantom
        rw [hforget]
        simp only [hmove, ok_bind]
        rfl
      · change ((c.memoryBufferMapper.insert key _).lookup k).map _ = _
        rw [AList.lookup_insert_eq]
        split
        · next h => rw [h, hlookup]; rfl
        · rfl

/-- The only node of a key is what removing by key takes out. -/
theorem Only.filter_eq (hc : Listed c) {l : ListId} {node : Node} (h : Only c l node) :
    ((c.lists l).list.filter fun n => n.key != node.key)
      = (c.lists l).list.eraseP fun n => n.iter == node.iter := by
  rw [hc.eraseP_eq h.1, (hc.nodup l).erase_eq_filter]
  refine List.filter_congr fun n hn => ?_
  rw [Bool.eq_iff_iff, bne_iff_ne, bne_iff_ne, not_iff_not]
  constructor
  · intro hkey
    exact (h.2 l n hn hkey).2
  · rintro rfl
    rfl

theorem removeKey_ok (hc : Invariant c) (key : String) :
    ∃ c', removeKey key c = .ok c' ∧ Invariant c' ∧ Shrinks c c' := by
  unfold removeKey
  cases hlookup : c.memoryBufferMapper.lookup key with
  | none => exact ⟨c, rfl, hc, .refl c⟩
  | some entry =>
      obtain ⟨l, hl, hlist, -, honly⟩ := hc.resident_of_lookup hlookup
      have hsize := hc.listed.size_le honly.1
      obtain ⟨hdropped, hshrinks⟩ := hc.toWellFormed.droppedBuffer hl honly.1
      refine ⟨_, ?_, ⟨hdropped, hc.toBounded.of_le (fun l' => ?_) rfl⟩, hshrinks⟩
      · have hfilter := honly.filter_eq hc.listed
        unfold lower
        simp only [hlist, if_neg (Nat.not_lt.mpr hsize), ok_bind]
        dsimp only at hfilter
        rw [hfilter]
        rfl
      · change (c.dropNode l _).sizeOf l' ≤ c.sizeOf l'
        rw [sizeOf_dropNode]
        split
        · next h =>
            subst h
            exact Nat.sub_le _ _
        · exact le_rfl

theorem remove_ok (keys : List String) : ∀ {c : InMemoryCache}, Invariant c →
    ∃ c', remove keys c = .ok c' ∧ Invariant c' ∧ Shrinks c c' := by
  induction keys with
  | nil =>
      intro c hc
      exact ⟨c, rfl, hc, .refl c⟩
  | cons key keys ih =>
      intro c hc
      obtain ⟨c₁, hfirst, hc₁, hshrinks₁⟩ := removeKey_ok hc key
      obtain ⟨c₂, hrest, hc₂, hshrinks₂⟩ := ih hc₁
      refine ⟨c₂, ?_, hc₂, hshrinks₁.trans hshrinks₂⟩
      unfold remove
      rw [List.foldlM_cons, hfirst, ok_bind]
      exact hrest

theorem apply_ok (hc : Invariant c) (op : Op) : ∃ reply c', apply c op = .ok (reply, c') ∧
    Invariant c' ∧ c'.maxSizeInBytes = c.maxSizeInBytes := by
  cases op with
  | put rule key buffer =>
      obtain ⟨c', hput, hc', hmax, -⟩ := put_ok hc rule key buffer
      refine ⟨.stored (decide (buffer.length ≤ c.maxSizeInBytes)), c', ?_, hc', hmax⟩
      simp only [InMemoryCache.apply, hput, ok_bind]
      rfl
  | tryGet key =>
      obtain ⟨c', hget, hc', hmax, -⟩ := tryGet_ok hc key
      refine ⟨.got ((c.memoryBufferMapper.lookup key).map CacheEntry.buffer), c', ?_, hc', hmax⟩
      simp only [InMemoryCache.apply, hget, ok_bind]
      rfl
  | remove keys =>
      obtain ⟨c', hremove, hc', hshrinks⟩ := remove_ok keys hc
      refine ⟨.removed, c', ?_, hc', hshrinks.max_eq⟩
      simp only [InMemoryCache.apply, hremove, ok_bind]
      rfl

theorem Invariant.empty (maxSize : ℕ) : Invariant (empty maxSize) := by
  have hlists : ∀ l, (InMemoryCache.empty maxSize).sizeOf l = 0 := fun _ => rfl
  refine ⟨⟨⟨fun _ => rfl, fun _ => List.nodup_nil, fun l n hn => by cases hn⟩,
    fun key => ⟨.absent, rfl, rfl, fun l n hn => by cases hn⟩, Nat.zero_le _⟩, ?_⟩
  constructor
  · simp [hlists]
  · simp [hlists]
  · simp [hlists]

/-! ## Runs -/

/-- Make calls one after the other. -/
def applyAll : List Op → InMemoryCache → Except CacheFault (List Reply × InMemoryCache)
  | [], c => .ok ([], c)
  | op :: ops, c => do
      let (reply, c) ← apply c op
      let (replies, c) ← applyAll ops c
      return (reply :: replies, c)

theorem applyAll_ok (ops : List Op) : ∀ {c : InMemoryCache}, Invariant c →
    ∃ replies c', applyAll ops c = .ok (replies, c') ∧ Invariant c' ∧
      c'.maxSizeInBytes = c.maxSizeInBytes := by
  induction ops with
  | nil =>
      intro c hc
      exact ⟨[], c, rfl, hc, rfl⟩
  | cons op ops ih =>
      intro c hc
      obtain ⟨reply, c₁, hfirst, hc₁, hmax₁⟩ := apply_ok hc op
      obtain ⟨replies, c₂, hrest, hc₂, hmax₂⟩ := ih hc₁
      refine ⟨reply :: replies, c₂, ?_, hc₂, hmax₂.trans hmax₁⟩
      unfold applyAll
      rw [hfirst, ok_bind]
      dsimp only
      rw [hrest, ok_bind]
      rfl

theorem applyAll_length : ∀ {ops : List Op} {c c' : InMemoryCache} {replies : List Reply},
    applyAll ops c = .ok (replies, c') → replies.length = ops.length
  | [], _, _, _, h => by
      cases h
      rfl
  | op :: ops, c, c', replies, h => by
      unfold applyAll at h
      obtain ⟨⟨reply, c₁⟩, -, h⟩ := bind_eq_ok.mp h
      obtain ⟨⟨replies', c₂⟩, hrest, h⟩ := bind_eq_ok.mp h
      cases h
      rw [List.length_cons, List.length_cons, applyAll_length hrest]

/-- The keys in two lists. -/
def keysOf (c : InMemoryCache) (l l' : ListId) : List String :=
  ((c.lists l).list ++ (c.lists l').list).map Node.key

/-- What the size fields, the lists and the two maps owe to each other. -/
structure Coherent (c : InMemoryCache) : Prop where
  sized : ∀ l, c.sizeOf l = ((c.lists l).list.map Node.size).sum
  residentDistinct : (c.keysOf .hitOnce .moreThanOnce).Nodup
  residentKeys : ∀ key, key ∈ c.keysOf .hitOnce .moreThanOnce ↔ key ∈ c.memoryBufferMapper
  phantomDistinct : (c.keysOf .hitOncePhantom .moreThanOncePhantom).Nodup
  phantomKeys : ∀ key,
    key ∈ c.keysOf .hitOncePhantom .moreThanOncePhantom ↔ key ∈ c.phantomEntryMapper
  disjoint : ∀ key, key ∈ c.memoryBufferMapper → key ∉ c.phantomEntryMapper
  residentNode : ∀ key entry, c.memoryBufferMapper.lookup key = some entry →
    ∃ l, Resident l ∧ entry.belongingList = some l ∧
      c.nodeAt l entry.entryIter = .ok ⟨entry.entryIter, key, entry.buffer.length⟩
  phantomNode : ∀ key i iter, c.phantomEntryMapper.lookup key = some (i, iter) →
    ∃ size, c.nodeAt i.list iter = .ok ⟨iter, key, size⟩

theorem mem_keysOf {l l' : ListId} {key : String} : key ∈ c.keysOf l l' ↔
    ∃ node, (node ∈ (c.lists l).list ∨ node ∈ (c.lists l').list) ∧ node.key = key := by
  unfold keysOf
  rw [List.mem_map]
  simp only [List.mem_append]

/-- No key is in two lists or twice in one. -/
theorem WellFormed.keysOf_nodup (hc : WellFormed c) {l l' : ListId} (h : l ≠ l') :
    (c.keysOf l l').Nodup := by
  have hnodes : ((c.lists l).list ++ (c.lists l').list).Nodup := by
    refine List.nodup_append.mpr ⟨hc.listed.nodup l, hc.listed.nodup l', ?_⟩
    rintro n hn m hm rfl
    exact h ((hc.place_of_mem hm).1.2 l n hn rfl).1
  refine hnodes.map_on fun n hn m hm hkey => ?_
  have hboth : ∃ k, m ∈ (c.lists k).list := by
    rcases List.mem_append.mp hm with hm | hm
    · exact ⟨l, hm⟩
    · exact ⟨l', hm⟩
  obtain ⟨k, hm⟩ := hboth
  have honly := (hc.place_of_mem hm).1
  rcases List.mem_append.mp hn with hn | hn
  · exact (honly.2 l n hn hkey).2
  · exact (honly.2 l' n hn hkey).2

theorem WellFormed.residentKeys (hc : WellFormed c) (key : String) :
    key ∈ c.keysOf .hitOnce .moreThanOnce ↔ key ∈ c.memoryBufferMapper := by
  rw [mem_keysOf, ← AList.lookup_isSome]
  constructor
  · rintro ⟨node, hnode | hnode, rfl⟩
    · obtain ⟨-, -, buffer, hentry, -⟩ := hc.resident_of_mem (.inl rfl) hnode
      rw [hentry]
      rfl
    · obtain ⟨-, -, buffer, hentry, -⟩ := hc.resident_of_mem (.inr rfl) hnode
      rw [hentry]
      rfl
  · intro hkey
    obtain ⟨entry, hentry⟩ := Option.isSome_iff_exists.mp hkey
    obtain ⟨l, hl, -, -, honly⟩ := hc.resident_of_lookup hentry
    rcases hl with rfl | rfl
    · exact ⟨_, .inl honly.1, rfl⟩
    · exact ⟨_, .inr honly.1, rfl⟩

theorem WellFormed.phantomKeys (hc : WellFormed c) (key : String) :
    key ∈ c.keysOf .hitOncePhantom .moreThanOncePhantom ↔ key ∈ c.phantomEntryMapper := by
  have hmem : ∀ (i : PhantomIndex) (node : Node), node ∈ (c.lists i.list).list →
      (c.phantomEntryMapper.lookup node.key).isSome := by
    intro i node hnode
    obtain ⟨-, ⟨_, hl, -⟩ | ⟨j, -, hplace⟩⟩ := hc.place_of_mem hnode
    · exact absurd rfl (hl.ne_phantom i)
    · obtain ⟨-, iter, hp, -⟩ := hplace
      rw [hp]
      rfl
  rw [mem_keysOf, ← AList.lookup_isSome]
  constructor
  · rintro ⟨node, hnode | hnode, rfl⟩
    · exact hmem .one node hnode
    · exact hmem .two node hnode
  · intro hkey
    obtain ⟨⟨i, iter⟩, hfound⟩ := Option.isSome_iff_exists.mp hkey
    obtain ⟨-, size, honly⟩ := hc.phantom_of_lookup hfound
    cases i with
    | one => exact ⟨_, .inl honly.1, rfl⟩
    | two => exact ⟨_, .inr honly.1, rfl⟩

theorem WellFormed.coherent (hc : WellFormed c) : Coherent c where
  sized := hc.listed.sized
  residentDistinct := hc.keysOf_nodup (by decide)
  residentKeys := hc.residentKeys
  phantomDistinct := hc.keysOf_nodup (by decide)
  phantomKeys := hc.phantomKeys
  disjoint key hmemory hphantom := by
    obtain ⟨entry, hentry⟩ := Option.isSome_iff_exists.mp (AList.lookup_isSome.mpr hmemory)
    obtain ⟨-, -, -, hnone, -⟩ := hc.resident_of_lookup hentry
    exact AList.lookup_eq_none.mp hnone hphantom
  residentNode key entry hentry := by
    obtain ⟨l, hl, hlist, -, honly⟩ := hc.resident_of_lookup hentry
    exact ⟨l, hl, hlist, hc.listed.nodeAt honly.1⟩
  phantomNode key i iter hfound := by
    obtain ⟨-, size, honly⟩ := hc.phantom_of_lookup hfound
    exact ⟨size, hc.listed.nodeAt honly.1⟩

/-- Whatever is put, got and removed, and however the adaptive target moves, every call
returns, and afterwards the lists, the size fields and the maps agree and the byte bounds
hold. -/
theorem applyAll_coherent (maxSize : ℕ) (ops : List Op) :
    ∃ replies c, applyAll ops (empty maxSize) = .ok (replies, c) ∧
      replies.length = ops.length ∧ Coherent c ∧
      c.sizeOf .hitOnce + c.sizeOf .moreThanOnce ≤ maxSize ∧
      c.sizeOf .hitOnce + c.sizeOf .hitOncePhantom ≤ maxSize ∧
      c.sizeOf .hitOnce + c.sizeOf .moreThanOnce + c.sizeOf .hitOncePhantom +
        c.sizeOf .moreThanOncePhantom ≤ 2 * maxSize := by
  obtain ⟨replies, c, hrun, hc, hmax⟩ := applyAll_ok ops (.empty maxSize)
  have hmax : c.maxSizeInBytes = maxSize := hmax
  refine ⟨replies, c, hrun, applyAll_length hrun, hc.coherent, ?_⟩
  rw [← hmax]
  exact ⟨hc.resident, hc.once, hc.total⟩

/-- A cache of two bytes: the second key evicts the first to a phantom list, and its
return brings it back as used more than once. -/
example : (applyAll [.put ratioUpdate "a" [1, 2], .put ratioUpdate "b" [3],
      .put ratioUpdate "a" [4, 5], .tryGet "a", .tryGet "b"] (empty 2)).map Prod.fst
    = .ok [.stored true, .stored true, .stored true, .got (some [4, 5]), .got none] := by
  decide

end InMemoryCache

end Yadcc.Cache
