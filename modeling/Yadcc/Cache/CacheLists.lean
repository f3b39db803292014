/-
# The four lists of the in-memory cache and where a key is

Whatever the cache does, it does with two moves on its lists: a node leaves the list it
is in, and a new node comes to the front of a list. `Listed` is what a list owes to
itself under these moves. The abstract state of the cache is the place of every key: a
key is absent, resident with a buffer, or remembered as a phantom with a size. `At` says
how a place is represented by the two maps and the lists.
-/

import Yadcc.Cache.InMemoryCache

namespace Yadcc.Cache

open Yadcc.Lib

namespace InMemoryCache

variable {c c' : InMemoryCache}

/-! ## Lists -/

/-- Size fields are right, no two nodes of a list are the same, and the next identity is
not taken. -/
structure Listed (c : InMemoryCache) : Prop where
  sized : ∀ l, c.sizeOf l = ((c.lists l).list.map Node.size).sum
  distinct : ∀ l, ((c.lists l).list.map Node.iter).Nodup
  fresh : ∀ l, ∀ n ∈ (c.lists l).list, n.iter < c.nextIter

/-- Take a node out of a list together with its size. -/
def dropNode (l : ListId) (node : Node) (c : InMemoryCache) : InMemoryCache :=
  c.setList l ⟨c.sizeOf l - node.size, (c.lists l).list.eraseP fun n => n.iter == node.iter⟩

@[simp]
theorem setList_lists (c : InMemoryCache) (l l' : ListId) (list : CacheList) :
    (c.setList l list).lists l' = if l' = l then list else c.lists l' := by
  simp [setList, Function.update_apply]

@[simp]
theorem dropNode_lists (c : InMemoryCache) (l l' : ListId) (node : Node) :
    (c.dropNode l node).lists l' = if l' = l then
      ⟨c.sizeOf l - node.size, (c.lists l).list.eraseP fun n => n.iter == node.iter⟩
    else c.lists l' :=
  setList_lists ..

@[simp]
theorem emplaceFront_lists (c : InMemoryCache) (l l' : ListId) (key : String) (size : ℕ) :
    (c.emplaceFront l key size).lists l' = if l' = l then
      ⟨c.sizeOf l + size, ⟨c.nextIter, key, size⟩ :: (c.lists l).list⟩
    else c.lists l' :=
  setList_lists ..

theorem sizeOf_dropNode (c : InMemoryCache) (l l' : ListId) (node : Node) :
    (c.dropNode l node).sizeOf l' =
      if l' = l then c.sizeOf l - node.size else c.sizeOf l' := by
  unfold sizeOf
  rw [dropNode_lists]
  split
  · rfl
  · rfl

/-- In a list of distinct nodes an identity determines the node. -/
theorem Listed.eq_of_iter (hc : Listed c) {l : ListId} {n n' : Node}
    (hn : n ∈ (c.lists l).list) (hn' : n' ∈ (c.lists l).list) (h : n.iter = n'.iter) : n = n' :=
  List.inj_on_of_nodup_map (hc.distinct l) hn hn' h

theorem Listed.nodup (hc : Listed c) (l : ListId) : (c.lists l).list.Nodup :=
  (hc.distinct l).of_map

/-- Erasing by identity is erasing the node. -/
theorem Listed.eraseP_eq (hc : Listed c) {l : ListId} {node : Node}
    (hnode : node ∈ (c.lists l).list) :
    ((c.lists l).list.eraseP fun n => n.iter == node.iter) = (c.lists l).list.erase node := by
  rw [List.erase_eq_eraseP]
  have hcongr : ∀ list : List Node, (∀ n ∈ list, n ∈ (c.lists l).list) →
      (list.eraseP fun n => n.iter == node.iter) = list.eraseP fun n => node == n := by
    intro list
    induction list with
    | nil => intro _; rfl
    | cons n list ih =>
        intro hmem
        have hhead : (n.iter == node.iter) = (node == n) := by
          rw [Bool.eq_iff_iff, beq_iff_eq, beq_iff_eq]
          constructor
          · intro h
            exact (hc.eq_of_iter (hmem n List.mem_cons_self) hnode h).symm
          · rintro rfl
            rfl
        rw [List.eraseP_cons, List.eraseP_cons, hhead,
          ih fun m hm => hmem m (List.mem_cons_of_mem _ hm)]
  exact hcongr _ fun n hn => hn

theorem Listed.size_le (hc : Listed c) {l : ListId} {node : Node}
    (hnode : node ∈ (c.lists l).list) : node.size ≤ c.sizeOf l := by
  rw [hc.sized l]
  exact List.single_le_sum (by simp) _ (List.mem_map_of_mem hnode)

theorem Listed.nodeAt (hc : Listed c) {l : ListId} {node : Node}
    (hnode : node ∈ (c.lists l).list) : c.nodeAt l node.iter = .ok node := by
  unfold InMemoryCache.nodeAt
  cases hfind : (c.lists l).list.find? fun n => n.iter == node.iter with
  | none =>
      have := List.find?_eq_none.mp hfind node hnode
      simp at this
  | some found =>
      have hfound := List.mem_of_find?_eq_some hfind
      have hiter : found.iter = node.iter := by simpa using List.find?_some hfind
      rw [hc.eq_of_iter hfound hnode hiter]

/-- Which nodes are left after one is taken out. -/
theorem Listed.mem_dropNode (hc : Listed c) {l l' : ListId} {node n : Node}
    (hnode : node ∈ (c.lists l).list) :
    n ∈ ((c.dropNode l node).lists l').list ↔
      n ∈ (c.lists l').list ∧ ¬(l' = l ∧ n = node) := by
  rw [dropNode_lists]
  split
  · next h =>
      subst h
      rw [hc.eraseP_eq hnode, (hc.nodup l').mem_erase_iff]
      simp [and_comm]
  · next h => simp [h]

theorem Listed.dropNode (hc : Listed c) {l : ListId} {node : Node}
    (hnode : node ∈ (c.lists l).list) : Listed (c.dropNode l node) := by
  refine ⟨fun l' => ?_, fun l' => ?_, fun l' n hn => ?_⟩
  · unfold InMemoryCache.sizeOf
    rw [dropNode_lists]
    split
    · next h =>
        subst h
        have hsum : node.size + (((c.lists l').list.erase node).map Node.size).sum
            = ((c.lists l').list.map Node.size).sum := List.sum_map_erase Node.size hnode
        simp only [hc.eraseP_eq hnode, hc.sized]
        omega
    · exact hc.sized l'
  · rw [dropNode_lists]
    split
    · next h =>
        subst h
        exact (hc.distinct l').sublist (List.eraseP_sublist.map _)
    · exact hc.distinct l'
  · exact hc.fresh l' n ((hc.mem_dropNode hnode).mp hn).1

theorem mem_emplaceFront {l l' : ListId} {key : String} {size : ℕ} {n : Node} :
    n ∈ ((c.emplaceFront l key size).lists l').list ↔
      (l' = l ∧ n = ⟨c.nextIter, key, size⟩) ∨ n ∈ (c.lists l').list := by
  rw [emplaceFront_lists]
  split
  · next h => simp [h]
  · next h => simp [h]

theorem Listed.emplaceFront (hc : Listed c) (l : ListId) (key : String) (size : ℕ) :
    Listed (c.emplaceFront l key size) := by
  refine ⟨fun l' => ?_, fun l' => ?_, fun l' n hn => ?_⟩
  · unfold InMemoryCache.sizeOf
    rw [emplaceFront_lists]
    split
    · next h =>
        subst h
        simp only [hc.sized, List.map_cons, List.sum_cons]
        omega
    · exact hc.sized l'
  · rw [emplaceFront_lists]
    split
    · next h =>
        subst h
        rw [List.map_cons, List.nodup_cons]
        refine ⟨?_, hc.distinct l'⟩
        intro hmem
        obtain ⟨n, hn, heq⟩ := List.mem_map.mp hmem
        exact absurd heq (hc.fresh l' n hn).ne
    · exact hc.distinct l'
  · change n.iter < c.nextIter + 1
    rcases mem_emplaceFront.mp hn with ⟨-, rfl⟩ | hn
    · exact Nat.lt_succ_self _
    · exact Nat.lt_succ_of_lt (hc.fresh l' n hn)

/-- A list with a size is not empty. -/
theorem Listed.exists_back (hc : Listed c) {l : ListId} (h : c.sizeOf l ≠ 0) :
    ∃ node, (c.lists l).list.getLast? = some node := by
  cases hlist : (c.lists l).list with
  | nil =>
      rw [hc.sized l, hlist] at h
      exact absurd rfl h
  | cons n list => exact ⟨_, List.getLast?_eq_some_getLast (List.cons_ne_nil n list)⟩

/-- Taking out the last node by identity is popping it. -/
theorem Listed.eraseP_back (hc : Listed c) {l : ListId} {node : Node}
    (hback : (c.lists l).list.getLast? = some node) :
    ((c.lists l).list.eraseP fun n => n.iter == node.iter) = (c.lists l).list.dropLast := by
  have hnode : node ∈ (c.lists l).list := List.mem_of_getLast? hback
  obtain ⟨front, hsplit⟩ := List.getLast?_eq_some_iff.mp hback
  have hfront : node ∉ front := by
    have hnodup := hc.nodup l
    rw [hsplit] at hnodup
    intro hmem
    exact (List.nodup_append.mp hnodup).2.2 node hmem node (List.mem_singleton_self _) rfl
  rw [hc.eraseP_eq hnode, hsplit, List.erase_append_right _ hfront]
  simp

/-! ## Places -/

/-- Where a key is. -/
inductive Place
  | absent
  | resident (l : ListId) (buffer : Buffer)
  | phantom (i : PhantomIndex) (size : ℕ)

/-- The resident lists. -/
def Resident (l : ListId) : Prop := l = .hitOnce ∨ l = .moreThanOnce

/-- A node is the only one with its key, over all lists. -/
def Only (c : InMemoryCache) (l : ListId) (node : Node) : Prop :=
  node ∈ (c.lists l).list ∧
    ∀ l' n, n ∈ (c.lists l').list → n.key = node.key → l' = l ∧ n = node

/-- How a place is represented. -/
def At (c : InMemoryCache) (key : String) : Place → Prop
  | .absent => c.memoryBufferMapper.lookup key = none ∧
      c.phantomEntryMapper.lookup key = none ∧
      ∀ l, ∀ n ∈ (c.lists l).list, n.key ≠ key
  | .resident l buffer => Resident l ∧ c.phantomEntryMapper.lookup key = none ∧
      ∃ iter, c.memoryBufferMapper.lookup key = some ⟨buffer, some l, iter⟩ ∧
        Only c l ⟨iter, key, buffer.length⟩
  | .phantom i size => c.memoryBufferMapper.lookup key = none ∧
      ∃ iter, c.phantomEntryMapper.lookup key = some (i, iter) ∧
        Only c i.list ⟨iter, key, size⟩

/-- The invariant of the cache. -/
structure WellFormed (c : InMemoryCache) : Prop where
  listed : Listed c
  placed : ∀ key, ∃ place, At c key place
  adaptive_le : c.adaptiveSizeOfOnce ≤ c.maxSizeInBytes

theorem Only.congr {l : ListId} {node : Node} (h : Only c l node)
    (hsame : ∀ l' n, n.key = node.key → (n ∈ (c'.lists l').list ↔ n ∈ (c.lists l').list)) :
    Only c' l node := by
  refine ⟨(hsame l node rfl).mpr h.1, fun l' n hn hkey => ?_⟩
  exact h.2 l' n ((hsame l' n hkey).mp hn) hkey

/-- The place of a key depends only on its entries in the maps and its nodes. -/
theorem At.congr {key : String} {place : Place} (h : At c key place)
    (hmemory : c'.memoryBufferMapper.lookup key = c.memoryBufferMapper.lookup key)
    (hphantom : c'.phantomEntryMapper.lookup key = c.phantomEntryMapper.lookup key)
    (hsame : ∀ l n, n.key = key → (n ∈ (c'.lists l).list ↔ n ∈ (c.lists l).list)) :
    At c' key place := by
  cases place with
  | absent =>
      obtain ⟨hm, hp, hn⟩ := h
      refine ⟨hmemory.trans hm, hphantom.trans hp, fun l n hmem hkey => ?_⟩
      exact hn l n ((hsame l n hkey).mp hmem) hkey
  | resident l buffer =>
      obtain ⟨hl, hp, iter, hm, honly⟩ := h
      exact ⟨hl, hphantom.trans hp, iter, hmemory.trans hm, honly.congr hsame⟩
  | phantom i size =>
      obtain ⟨hm, iter, hp, honly⟩ := h
      exact ⟨hmemory.trans hm, iter, hphantom.trans hp, honly.congr hsame⟩

/-- A key has one place. -/
theorem At.unique {key : String} {place place' : Place} (h : At c key place)
    (h' : At c key place') : place = place' := by
  cases place with
  | absent =>
      cases place' with
      | absent => rfl
      | resident l buffer =>
          obtain ⟨-, -, iter, hm, -⟩ := h'
          cases h.1.symm.trans hm
      | phantom i size =>
          obtain ⟨-, iter, hp, -⟩ := h'
          cases h.2.1.symm.trans hp
  | resident l buffer =>
      obtain ⟨-, hp, iter, hm, -⟩ := h
      cases place' with
      | absent => cases h'.1.symm.trans hm
      | resident l' buffer' =>
          obtain ⟨-, -, iter', hm', -⟩ := h'
          cases hm.symm.trans hm'
          rfl
      | phantom i size => cases h'.1.symm.trans hm
  | phantom i size =>
      obtain ⟨hm, iter, hp, honly⟩ := h
      cases place' with
      | absent => cases h'.2.1.symm.trans hp
      | resident l buffer =>
          obtain ⟨-, hp', -⟩ := h'
          cases hp'.symm.trans hp
      | phantom i' size' =>
          obtain ⟨-, iter', hp', honly'⟩ := h'
          cases hp.symm.trans hp'
          obtain ⟨-, heq⟩ := honly.2 _ _ honly'.1 rfl
          cases heq
          rfl

/-- A change at one key keeps the invariant if the key has a place afterwards. -/
theorem WellFormed.replace (hc : WellFormed c) (key : String) (place : Place)
    (hlisted : Listed c')
    (hadaptive : c'.adaptiveSizeOfOnce ≤ c'.maxSizeInBytes)
    (hmemory : ∀ k, k ≠ key → c'.memoryBufferMapper.lookup k = c.memoryBufferMapper.lookup k)
    (hphantom : ∀ k, k ≠ key → c'.phantomEntryMapper.lookup k = c.phantomEntryMapper.lookup k)
    (hsame : ∀ l n, n.key ≠ key → (n ∈ (c'.lists l).list ↔ n ∈ (c.lists l).list))
    (hplace : At c' key place) : WellFormed c' := by
  refine ⟨hlisted, fun k => ?_, hadaptive⟩
  by_cases hk : k = key
  · subst hk
    exact ⟨place, hplace⟩
  · obtain ⟨place', hplace'⟩ := hc.placed k
    refine ⟨place', hplace'.congr (hmemory k hk) (hphantom k hk) fun l n hn => ?_⟩
    exact hsame l n (by rw [hn]; exact hk)

/-- The place of the key of a node. -/
theorem WellFormed.place_of_mem (hc : WellFormed c) {l : ListId} {node : Node}
    (hnode : node ∈ (c.lists l).list) : Only c l node ∧
    ((∃ buffer, Resident l ∧ At c node.key (.resident l buffer) ∧
        c.memoryBufferMapper.lookup node.key = some ⟨buffer, some l, node.iter⟩ ∧
        node.size = buffer.length) ∨
      ∃ i, l = i.list ∧ At c node.key (.phantom i node.size)) := by
  obtain ⟨place, hplace⟩ := hc.placed node.key
  cases place with
  | absent => exact absurd rfl (hplace.2.2 l node hnode)
  | resident l' buffer =>
      obtain ⟨hl', hp, iter, hm, honly⟩ := hplace
      obtain ⟨rfl, heq⟩ := honly.2 l node hnode rfl
      have hiter : node.iter = iter := congrArg Node.iter heq
      have hsize : node.size = buffer.length := congrArg Node.size heq
      refine ⟨heq ▸ honly, .inl ⟨buffer, hl', ⟨hl', hp, iter, hm, honly⟩, ?_, hsize⟩⟩
      rw [hm, hiter]
  | phantom i size =>
      obtain ⟨hm, iter, hp, honly⟩ := hplace
      obtain ⟨rfl, heq⟩ := honly.2 l node hnode rfl
      have hsize : node.size = size := congrArg Node.size heq
      refine ⟨heq ▸ honly, .inr ⟨i, rfl, ?_⟩⟩
      rw [hsize]
      exact ⟨hm, iter, hp, honly⟩

/-! ## Moving a node -/

/-- Take a node out of one list and put a new one for its key at the front of another. -/
def moveNode (l : ListId) (node : Node) (dst : ListId) (size : ℕ) (c : InMemoryCache) :
    InMemoryCache :=
  (c.dropNode l node).emplaceFront dst node.key size

theorem Listed.moveNode (hc : Listed c) {l : ListId} {node : Node}
    (hnode : node ∈ (c.lists l).list) (dst : ListId) (size : ℕ) :
    Listed (c.moveNode l node dst size) :=
  (hc.dropNode hnode).emplaceFront dst node.key size

theorem Listed.mem_moveNode (hc : Listed c) {l l' dst : ListId} {node n : Node} {size : ℕ}
    (hnode : node ∈ (c.lists l).list) :
    n ∈ ((c.moveNode l node dst size).lists l').list ↔
      (l' = dst ∧ n = ⟨c.nextIter, node.key, size⟩) ∨
        (n ∈ (c.lists l').list ∧ ¬(l' = l ∧ n = node)) := by
  unfold InMemoryCache.moveNode
  rw [mem_emplaceFront, hc.mem_dropNode hnode]
  rfl

/-- The new node is the only one of its key, if the old one was. -/
theorem Only.moveNode (hc : Listed c) {l : ListId} {node : Node} (h : Only c l node)
    (dst : ListId) (size : ℕ) :
    Only (c.moveNode l node dst size) dst ⟨c.nextIter, node.key, size⟩ := by
  refine ⟨(hc.mem_moveNode h.1).mpr (.inl ⟨rfl, rfl⟩), fun l' n hn hkey => ?_⟩
  rcases (hc.mem_moveNode h.1).mp hn with hnew | ⟨hold, hne⟩
  · exact hnew
  · exact absurd (h.2 l' n hold hkey) hne

/-- The nodes of other keys stay. -/
theorem Listed.mem_moveNode_of_ne (hc : Listed c) {l l' dst : ListId} {node n : Node} {size : ℕ}
    (hnode : node ∈ (c.lists l).list) (hkey : n.key ≠ node.key) :
    n ∈ ((c.moveNode l node dst size).lists l').list ↔ n ∈ (c.lists l').list := by
  rw [hc.mem_moveNode hnode]
  constructor
  · rintro (⟨-, rfl⟩ | ⟨hn, -⟩)
    · exact absurd rfl hkey
    · exact hn
  · intro hn
    refine .inr ⟨hn, ?_⟩
    rintro ⟨-, rfl⟩
    exact hkey rfl

theorem sizeOf_moveNode (l l' dst : ListId) (node : Node) (size : ℕ) :
    (c.moveNode l node dst size).sizeOf l' =
      (if l' = l then c.sizeOf l - node.size else c.sizeOf l') +
        if l' = dst then size else 0 := by
  unfold moveNode InMemoryCache.sizeOf
  rw [emplaceFront_lists]
  by_cases hdst : l' = dst
  · subst hdst
    by_cases hl : l' = l
    · subst hl
      simp [InMemoryCache.sizeOf]
    · simp [InMemoryCache.sizeOf, hl]
  · by_cases hl : l' = l
    · subst hl
      simp [InMemoryCache.sizeOf, hdst]
    · simp [hdst, hl]

end InMemoryCache

end Yadcc.Cache
