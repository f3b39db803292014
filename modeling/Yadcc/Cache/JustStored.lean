/-
# What becomes of an entry that was just stored

A put ends with evictions that go on until the resident lists fit, and nothing exempts
the entry it was made for. Whether that entry is reached depends only on the bytes up to
it in its list, on the adaptive target and on the other resident list. The cache it is
reached in has the same entry reported as stored.
-/

import Yadcc.Cache.InMemoryCacheInvariant

namespace Yadcc.Cache

open Yadcc.Lib

namespace InMemoryCache

variable {c c' : InMemoryCache}

/-! ## Bytes of a list -/

def bytesOf (list : List Node) : ℕ := (list.map Node.size).sum

/-- The bytes in front of a key. -/
def aheadOf (key : String) (list : List Node) : ℕ :=
  bytesOf (list.takeWhile fun node => node.key != key)

/-- The bytes that are left when a list is cut from the back until they are within a
target. -/
def keepWithin : ℕ → List Node → ℕ
  | _, [] => 0
  | target, node :: list =>
      if node.size ≤ target then node.size + keepWithin (target - node.size) list else 0

@[simp]
theorem bytesOf_nil : bytesOf [] = 0 := rfl

@[simp]
theorem bytesOf_cons (node : Node) (list : List Node) :
    bytesOf (node :: list) = node.size + bytesOf list := rfl

@[simp]
theorem bytesOf_append (front back : List Node) :
    bytesOf (front ++ back) = bytesOf front + bytesOf back := by
  simp [bytesOf]

theorem Listed.bytesOf_eq (hc : Listed c) (l : ListId) : bytesOf (c.lists l).list = c.sizeOf l :=
  (hc.sized l).symm

theorem keepWithin_of_le {list : List Node} : ∀ {target : ℕ}, bytesOf list ≤ target →
    keepWithin target list = bytesOf list := by
  induction list with
  | nil =>
      intro target _
      rfl
  | cons node list ih =>
      intro target h
      rw [bytesOf_cons] at h
      rw [keepWithin, if_pos (by omega), ih (by omega), bytesOf_cons]

/-- A node that goes beyond the target does not count. -/
theorem keepWithin_append {node : Node} {front : List Node} : ∀ {target : ℕ},
    target < bytesOf (front ++ [node]) →
    keepWithin target (front ++ [node]) = keepWithin target front := by
  induction front with
  | nil =>
      intro target h
      simp only [List.nil_append, bytesOf_cons, bytesOf_nil, Nat.add_zero] at h
      simp [keepWithin, Nat.not_le.mpr h]
  | cons first front ih =>
      intro target h
      rw [List.cons_append, bytesOf_cons] at h
      rw [List.cons_append, keepWithin, keepWithin]
      by_cases hfirst : first.size ≤ target
      · rw [if_pos hfirst, if_pos hfirst, ih (by omega)]
      · rw [if_neg hfirst, if_neg hfirst]

theorem keepWithin_le_bytesOf {list : List Node} : ∀ {target : ℕ},
    keepWithin target list ≤ bytesOf list := by
  induction list with
  | nil =>
      intro target
      exact le_rfl
  | cons node list ih =>
      intro target
      rw [keepWithin, bytesOf_cons]
      split
      · exact Nat.add_le_add_left ih _
      · exact Nat.zero_le _

theorem aheadOf_split {key : String} {front back : List Node} {node : Node}
    (hnode : node.key = key) (hfront : ∀ n ∈ front, n.key ≠ key) :
    aheadOf key (front ++ node :: back) = bytesOf front := by
  unfold aheadOf
  rw [List.takeWhile_append_of_pos fun n hn => bne_iff_ne.mpr (hfront n hn),
    List.takeWhile_cons_of_neg (by simp [hnode]), List.append_nil]

/-! ## Who is spared -/

/-- An entry is spared by the resident loop when the bytes of its list up to it, `upTo`,
stay. The first list loses entries down to the target only; the second one is touched once
the first is within its target. -/
def Spared (c : InMemoryCache) : ListId → ℕ → Prop
  | .hitOnce, upTo => upTo ≤ c.adaptiveSizeOfOnce ∨
      upTo + c.sizeOf .moreThanOnce ≤ c.maxSizeInBytes
  | .moreThanOnce, upTo =>
      keepWithin c.adaptiveSizeOfOnce (c.lists .hitOnce).list + upTo ≤ c.maxSizeInBytes
  | _, _ => False

instance (c : InMemoryCache) (upTo : ℕ) : ∀ l, Decidable (c.Spared l upTo)
  | .hitOnce => inferInstanceAs (Decidable (_ ∨ _))
  | .moreThanOnce => inferInstanceAs (Decidable (_ ≤ _))
  | .hitOncePhantom => .isFalse id
  | .moreThanOncePhantom => .isFalse id

/-- A list up to a node. -/
def Held (c : InMemoryCache) (l : ListId) (front : List Node) (node : Node) : Prop :=
  ∃ back, (c.lists l).list = front ++ node :: back

theorem Held.mem {l : ListId} {front : List Node} {node : Node} (h : Held c l front node) :
    node ∈ (c.lists l).list := by
  obtain ⟨back, h⟩ := h
  rw [h]
  simp

theorem Held.bytes_le (hc : Listed c) {l : ListId} {front : List Node} {node : Node}
    (h : Held c l front node) : bytesOf front + node.size ≤ c.sizeOf l := by
  obtain ⟨back, h⟩ := h
  rw [← hc.bytesOf_eq, h, bytesOf_append, bytesOf_cons]
  omega

/-- When the resident lists fit, everyone is spared. -/
theorem spared_of_fits (hc : Listed c) {l : ListId} (hl : Resident l) {front : List Node}
    {node : Node} (h : Held c l front node)
    (hfits : c.sizeOf .hitOnce + c.sizeOf .moreThanOnce ≤ c.maxSizeInBytes) :
    c.Spared l (bytesOf front + node.size) := by
  have hupTo := h.bytes_le hc
  rcases hl with rfl | rfl
  · exact .inr (by omega)
  · have hkeep : keepWithin c.adaptiveSizeOfOnce (c.lists .hitOnce).list ≤ c.sizeOf .hitOnce := by
      rw [← hc.bytesOf_eq]
      exact keepWithin_le_bytesOf
    change _ + _ ≤ _
    omega

section Evict

variable {src l : ListId} {i : PhantomIndex} {n node : Node} {front : List Node}

theorem evicted_list_src (hc : WellFormed c) (hsrc : Resident src)
    (hback : (c.lists src).list.getLast? = some n) :
    ((c.evicted src i n n.size).lists src).list = (c.lists src).list.dropLast := by
  rw [evicted_lists (hsrc.ne_phantom i), if_neg (hsrc.ne_phantom i), if_pos rfl]
  exact hc.listed.eraseP_back hback

theorem evicted_list_of_ne (hsrc : Resident src) (hl : Resident l) (hne : l ≠ src) :
    ((c.evicted src i n n.size).lists l).list = (c.lists l).list := by
  rw [evicted_lists (hsrc.ne_phantom i), if_neg (hl.ne_phantom i), if_neg hne]

/-- Whether an entry is spared does not change as long as it is not the one that goes. -/
theorem spared_evicted (hc : WellFormed c) (hpicked : Picked c src i)
    (hback : (c.lists src).list.getLast? = some n) (hl : Resident l)
    (hheld : Held c l front node) :
    (c.evicted src i n n.size).Spared l (bytesOf front + node.size) ↔
      c.Spared l (bytesOf front + node.size) := by
  have hupTo := hheld.bytes_le hc.listed
  have hmax : (c.evicted src i n n.size).maxSizeInBytes = c.maxSizeInBytes := rfl
  have hadaptive : (c.evicted src i n n.size).adaptiveSizeOfOnce = c.adaptiveSizeOfOnce := rfl
  obtain ⟨rest, hsplit⟩ := List.getLast?_eq_some_iff.mp hback
  cases hpicked with
  | once honce =>
      rcases hl with rfl | rfl
      · -- the second list and the target are as before
        have hmore : (c.evicted .hitOnce .one n n.size).sizeOf .moreThanOnce
            = c.sizeOf .moreThanOnce := sizeOf_evicted (.inl rfl) .one n.size .moreThanOnce
        simp only [Spared, hmax, hadaptive, hmore]
      · -- what goes is beyond the target
        have hlist := evicted_list_src (i := .one) hc (.inl rfl) hback
        rw [← hc.listed.bytesOf_eq, hsplit] at honce
        simp only [Spared, hmax, hadaptive, hlist, hsplit, List.dropLast_concat,
          keepWithin_append honce]
  | moreThanOnce honce =>
      rcases hl with rfl | rfl
      · -- the first list is within its target
        have hle : bytesOf front + node.size ≤ c.adaptiveSizeOfOnce := by omega
        exact ⟨fun _ => .inl hle, fun _ => .inl hle⟩
      · have hlist : ((c.evicted .moreThanOnce .two n n.size).lists .hitOnce).list
            = (c.lists .hitOnce).list :=
          evicted_list_of_ne (i := .two) (.inr rfl) (.inl rfl) (by decide)
        simp only [Spared, hmax, hadaptive, hlist]

/-- An entry that goes while the resident lists do not fit was not spared. -/
theorem not_spared_of_back (hc : WellFormed c) (hpicked : Picked c src i)
    (hover : c.maxSizeInBytes < c.sizeOf .hitOnce + c.sizeOf .moreThanOnce)
    (hlist : (c.lists src).list = front ++ [node]) :
    ¬ c.Spared src (bytesOf front + node.size) := by
  have hupTo : bytesOf front + node.size = c.sizeOf src := by
    rw [← hc.listed.bytesOf_eq, hlist, bytesOf_append, bytesOf_cons, bytesOf_nil, Nat.add_zero]
  rw [hupTo]
  cases hpicked with
  | once honce =>
      rintro (hspared | hspared)
      · omega
      · omega
  | moreThanOnce honce =>
      have hkeep : keepWithin c.adaptiveSizeOfOnce (c.lists .hitOnce).list = c.sizeOf .hitOnce := by
        rw [keepWithin_of_le (by rw [hc.listed.bytesOf_eq]; exact honce), hc.listed.bytesOf_eq]
      intro hspared
      have hspared : _ + _ ≤ c.maxSizeInBytes := hspared
      omega

end Evict

/-- Where the resident loop is with an entry: it is there and as well off as at the start,
or gone and was not spared. -/
def Tracked (l : ListId) (front : List Node) (node : Node) (c s : InMemoryCache) : Prop :=
  (Held s l front node ∧
    (s.Spared l (bytesOf front + node.size) ↔ c.Spared l (bytesOf front + node.size))) ∨
  (s.memoryBufferMapper.lookup node.key = none ∧ ¬ c.Spared l (bytesOf front + node.size))

theorem Tracked.evicted {l : ListId} (hl : Resident l) {front : List Node} {node : Node}
    {s : InMemoryCache} {src : ListId} {i : PhantomIndex} {n : Node} (hs : WellFormed s)
    (h : Tracked l front node c s)
    (hover : s.maxSizeInBytes < s.sizeOf .hitOnce + s.sizeOf .moreThanOnce)
    (hpicked : Picked s src i) (hback : (s.lists src).list.getLast? = some n) :
    Tracked l front node c (s.evicted src i n n.size) := by
  have hmemory : (s.evicted src i n n.size).memoryBufferMapper
      = s.memoryBufferMapper.erase n.key := rfl
  have hsrc := hpicked.resident
  rcases h with ⟨hheld, hsame⟩ | ⟨hgone, hnot⟩
  · have hkeeps := spared_evicted hs hpicked hback hl hheld
    obtain ⟨back, hlist⟩ := hheld
    by_cases heq : l = src
    · subst heq
      cases back using List.reverseRecOn with
      | nil =>
          -- the entry is the last one
          rw [hlist, List.getLast?_concat] at hback
          cases hback
          refine .inr ⟨?_, fun hspared => ?_⟩
          · rw [hmemory]
            exact AList.lookup_erase _ _
          · exact not_spared_of_back hs hpicked hover hlist (hsame.mpr hspared)
      | append_singleton back last =>
          refine .inl ⟨⟨back, ?_⟩, hkeeps.trans hsame⟩
          rw [evicted_list_src hs hl hback, hlist, ← List.cons_append, ← List.append_assoc,
            List.dropLast_concat]
    · refine .inl ⟨⟨back, ?_⟩, hkeeps.trans hsame⟩
      rw [evicted_list_of_ne hsrc hl heq, hlist]
  · refine .inr ⟨?_, hnot⟩
    rw [hmemory, AList.lookup_erase_eq]
    split
    · rfl
    · exact hgone

/-- After the evictions of a put an entry is resident if and only if it was spared. -/
theorem evictMemoryOverflow_resident (hc : WellFormed c) {l : ListId} (hl : Resident l)
    {front : List Node} {node : Node} (hheld : Held c l front node)
    (hevict : evictMemoryOverflow c = .ok c') :
    (c'.memoryBufferMapper.lookup node.key).isSome ↔
      c.Spared l (bytesOf front + node.size) := by
  obtain ⟨c₁, hresident, hc₁, htracked, hfits⟩ :=
    evictResidentOverflow_rule (I := Tracked l front node c) hc (.inl ⟨hheld, Iff.rfl⟩)
      fun s src i n hs h hover hpicked hback => h.evicted hl hs hover hpicked hback
  obtain ⟨c₂, hevict', -, -, -, hmemory⟩ := evictMemoryOverflow_eq hc hresident
  cases hevict.symm.trans hevict'
  rw [hmemory]
  rcases htracked with ⟨hheld₁, hsame⟩ | ⟨hgone, hnot⟩
  · obtain ⟨-, -, buffer, hentry, -⟩ := hc₁.resident_of_mem hl hheld₁.mem
    rw [hentry, ← hsame]
    exact iff_of_true rfl (spared_of_fits hc₁.listed hl hheld₁ hfits)
  · rw [hgone]
    exact iff_of_false (by simp) hnot

/-! ## Where a put leaves its entry -/

/-- An entry in a list, by the bytes in front of it. -/
theorem Only.held (hc : WellFormed c) {l : ListId} {node : Node} (h : Only c l node) :
    ∃ front, Held c l front node ∧ aheadOf node.key (c.lists l).list = bytesOf front := by
  obtain ⟨front, back, hlist⟩ := List.append_of_mem h.1
  refine ⟨front, ⟨back, hlist⟩, ?_⟩
  rw [hlist]
  refine aheadOf_split rfl fun n hn hkey => ?_
  have hmem : n ∈ (c.lists l).list := by
    rw [hlist]
    exact List.mem_append_left _ hn
  have hnodup := hc.listed.nodup l
  rw [hlist] at hnodup
  exact (List.nodup_append.mp hnodup).2.2 n hn node List.mem_cons_self (h.2 l n hmem hkey).2

/-- Overwriting leaves the entry where it is in its list. -/
theorem Held.overwritten (hc : Listed c) {l : ListId} {front : List Node} {node : Node}
    (h : Held c l front node) (buffer : Buffer) :
    Held (c.overwritten l node buffer) l front { node with size := buffer.length } := by
  obtain ⟨back, hlist⟩ := h
  have hdistinct := hc.distinct l
  rw [hlist, List.map_append, List.map_cons] at hdistinct
  have hfront : ∀ n ∈ front, n.iter ≠ node.iter := fun n hn =>
    (List.nodup_append.mp hdistinct).2.2 n.iter (List.mem_map_of_mem hn) node.iter
      List.mem_cons_self
  have hsame : (front.map fun n => if n.iter = node.iter then { n with size := buffer.length }
      else n) = front :=
    (List.map_congr_left (g := id) fun n hn => if_neg (hfront n hn)).trans (List.map_id front)
  refine ⟨back.map fun n => if n.iter = node.iter then { n with size := buffer.length } else n, ?_⟩
  change ((c.resize l node buffer.length).lists l).list = _
  unfold resize
  rw [setList_lists, if_pos rfl]
  dsimp only
  rw [hlist, List.map_append, List.map_cons, if_pos rfl, hsame]

theorem spared_overwritten {l : ListId} (hl : Resident l) (node : Node) (buffer : Buffer)
    (upTo : ℕ) : (c.overwritten l node buffer).Spared l upTo ↔ c.Spared l upTo := by
  have hlists : ∀ l', l' ≠ l → (c.overwritten l node buffer).lists l' = c.lists l' := by
    intro l' h
    change (c.resize l node buffer.length).lists l' = _
    unfold resize
    rw [setList_lists, if_neg h]
  have hmax : (c.overwritten l node buffer).maxSizeInBytes = c.maxSizeInBytes := rfl
  have hadaptive : (c.overwritten l node buffer).adaptiveSizeOfOnce = c.adaptiveSizeOfOnce := rfl
  rcases hl with rfl | rfl
  · simp only [Spared, sizeOf, hmax, hadaptive, hlists .moreThanOnce (by decide)]
  · simp only [Spared, hmax, hadaptive, hlists .hitOnce (by decide)]

/-- A bigger buffer is evicted as if it had been there all along; one that is not bigger
stays. -/
theorem unsafeOverwrite_resident (hc : Invariant c) {key : String} {entry : CacheEntry}
    (hentry : c.memoryBufferMapper.lookup key = some entry) {buffer : Buffer}
    (hwrite : unsafeOverwrite key buffer c = .ok c') : ∃ l, entry.belongingList = some l ∧
      ((c'.memoryBufferMapper.lookup key).isSome ↔
        c.Spared l (aheadOf key (c.lists l).list + buffer.length)) := by
  obtain ⟨l, hl, hlist, honly, hwritten, hstep⟩ :=
    unsafeOverwrite_eq hc.toWellFormed hentry buffer
  refine ⟨l, hlist, ?_⟩
  obtain ⟨front, hheld, hahead⟩ := honly.held hc.toWellFormed
  have hheld' := hheld.overwritten hc.listed buffer
  have hspared := spared_overwritten (c := c) hl ⟨entry.entryIter, key, entry.buffer.length⟩
    buffer (bytesOf front + buffer.length)
  dsimp only at hahead
  rw [hahead, ← hspared]
  rw [hstep] at hwrite
  split at hwrite
  · exact evictMemoryOverflow_resident hwritten hl hheld' hwrite
  · next hbigger =>
      cases hwrite
      have hbounded := hc.toBounded.overwritten (hc.listed.size_le honly.1) (Nat.not_lt.mp hbigger)
      refine iff_of_true ?_ (spared_of_fits hwritten.listed hl hheld' hbounded.resident)
      change ((c.memoryBufferMapper.insert key _).lookup key).isSome
      rw [AList.lookup_insert]
      rfl

/-- The bytes that the first list keeps, once the adjustment for a phantom hit is over. -/
def keptOnce (c : InMemoryCache) (i : PhantomIndex) : ℕ :=
  if i = .two ∧ c.sizeOf .hitOnce = c.adaptiveSizeOfOnce then
    bytesOf (c.lists .hitOnce).list.dropLast
  else keepWithin c.adaptiveSizeOfOnce (c.lists .hitOnce).list

/-- An adjustment evicts from the first list only what is over the target, but on a hit in
the second phantom list also one entry of a list that is just at it. -/
theorem keepWithin_adjusted (hc : WellFormed c) {i : PhantomIndex}
    (hadjust : unsafeAdaptiveAdjust i c = .ok c') :
    keepWithin c'.adaptiveSizeOfOnce (c'.lists .hitOnce).list = c.keptOnce i := by
  have hbytes := hc.listed.bytesOf_eq .hitOnce
  unfold unsafeAdaptiveAdjust at hadjust
  unfold keptOnce
  split at hadjust
  · next hcond =>
      by_cases hsize : c.sizeOf .hitOnce ≠ 0
      · rw [if_pos hsize] at hadjust
        obtain ⟨node, hback⟩ := hc.listed.exists_back hsize
        obtain ⟨rest, hsplit⟩ := List.getLast?_eq_some_iff.mp hback
        cases hadjust.symm.trans (hc.evictToPhantom_eq (.inl rfl) hback .one)
        rw [evicted_list_src hc (.inl rfl) hback]
        change keepWithin c.adaptiveSizeOfOnce _ = _
        split
        · next hat =>
            refine keepWithin_of_le ?_
            rw [hsplit, bytesOf_append] at hbytes
            rw [hsplit, List.dropLast_concat]
            omega
        · next hnot =>
            have hlt : c.adaptiveSizeOfOnce < c.sizeOf .hitOnce := by
              rcases hcond with h | ⟨hi, hle⟩
              · exact h
              · exact lt_of_le_of_ne hle fun heq => hnot ⟨hi, heq.symm⟩
            rw [← hbytes, hsplit] at hlt
            rw [hsplit, List.dropLast_concat, keepWithin_append hlt]
      · rw [if_neg hsize] at hadjust
        cases hadjust
        have hempty : bytesOf (c.lists .hitOnce).list = 0 := by omega
        have hdrop : bytesOf (c.lists .hitOnce).list.dropLast = 0 := by
          have hsum := List.Sublist.sum_le_sum
            ((List.dropLast_sublist (c.lists .hitOnce).list).map Node.size) (by simp)
          exact Nat.le_zero.mp (hsum.trans_eq hempty)
        rw [keepWithin_of_le (by omega), hempty, hdrop, ite_self]
  · next hcond =>
      have hle : c.sizeOf .hitOnce ≤ c.adaptiveSizeOfOnce := by omega
      have hnot : ¬(i = .two ∧ c.sizeOf .hitOnce = c.adaptiveSizeOfOnce) := by
        rintro ⟨hi, heq⟩
        exact hcond (.inr ⟨hi, heq.ge⟩)
      rw [if_neg hnot]
      dsimp only at hadjust
      split at hadjust
      · next hmore =>
          obtain ⟨node, hback⟩ := hc.listed.exists_back hmore.1
          cases hadjust.symm.trans (hc.evictToPhantom_eq (.inr rfl) hback .two)
          rw [evicted_list_of_ne (.inr rfl) (.inl rfl) (by decide)]
          rfl
      · cases hadjust
        rfl

/-- Whether an entry that a put is about to store will still be there when the put is over:
by where its key is, and for a key that is nowhere after room was made for it. -/
def survives (rule : AdaptiveUpdate) (key : String) (buffer : Buffer) (c : InMemoryCache) :
    Bool :=
  match c.memoryBufferMapper.lookup key with
  | some entry =>
      match entry.belongingList with
      | some l => decide (c.Spared l (aheadOf key (c.lists l).list + buffer.length))
      | none => false
  | none =>
      match c.phantomEntryMapper.lookup key with
      | some (i, _) =>
          decide ((c.adapted rule i buffer.length).keptOnce i + buffer.length ≤ c.maxSizeInBytes)
      | none =>
          match evictForMiss buffer.length c with
          | .ok c => decide (c.Spared .hitOnce buffer.length)
          | .error _ => false

/-- A phantom comes back at the front of the second list. -/
theorem unsafeCacheInPhantom_resident (hc : WellFormed c) (rule : AdaptiveUpdate) {key : String}
    {i : PhantomIndex} {iter : EntryIterator}
    (hphantom : c.phantomEntryMapper.lookup key = some (i, iter)) {buffer : Buffer}
    {c₁ : InMemoryCache}
    (hcache : unsafeCacheInPhantom rule i key ⟨buffer, some i.list, iter⟩ c = .ok c₁)
    (hevict : evictMemoryOverflow c₁ = .ok c') :
    (c'.memoryBufferMapper.lookup key).isSome ↔
      (c.adapted rule i buffer.length).keptOnce i + buffer.length ≤ c.maxSizeInBytes := by
  obtain ⟨c₂, size, hadjust, hc₂, hadjusts, honly, hcache'⟩ :=
    unsafeCacheInPhantom_eq hc rule hphantom buffer
  cases hcache.symm.trans hcache'
  have hmore : ListId.moreThanOnce ≠ i.list := Resident.ne_phantom (.inr rfl) i
  have honce : ListId.hitOnce ≠ i.list := Resident.ne_phantom (.inl rfl) i
  have hheld : Held (c₂.promoted i.list ⟨iter, key, size⟩ .moreThanOnce buffer) .moreThanOnce []
      ⟨c₂.nextIter, key, buffer.length⟩ := by
    refine ⟨(c₂.lists .moreThanOnce).list, ?_⟩
    change ((c₂.moveNode i.list _ _ _).lists _).list = _
    unfold moveNode
    rw [emplaceFront_lists, if_pos rfl, dropNode_lists, if_neg hmore]
    rfl
  have hkept : ((c₂.promoted i.list ⟨iter, key, size⟩ .moreThanOnce buffer).lists .hitOnce).list
      = (c₂.lists .hitOnce).list := by
    change ((c₂.moveNode i.list _ _ _).lists _).list = _
    unfold moveNode
    rw [emplaceFront_lists, if_neg (by decide), dropNode_lists, if_neg honce]
  have hkeep := keepWithin_adjusted (hc.adapted rule i buffer.length) hadjust
  have hmax : c₂.maxSizeInBytes = c.maxSizeInBytes := hadjusts.max_eq
  have hresident := evictMemoryOverflow_resident (hc₂.promoted honly (.inr rfl) buffer)
    (.inr rfl) hheld hevict
  refine hresident.trans ?_
  change keepWithin c₂.adaptiveSizeOfOnce _ + _ ≤ c₂.maxSizeInBytes ↔ _
  rw [hkept, hkeep, hmax, bytesOf_nil, Nat.zero_add]

/-- A new entry comes to the front of the first list, after room was made for it. -/
theorem unsafeCacheIfMiss_resident (hc : WellFormed c) {key : String}
    (habsent : At c key .absent) {buffer : Buffer} {c₁ : InMemoryCache}
    (hcache : unsafeCacheIfMiss key ⟨buffer, none, 0⟩ c = .ok c₁)
    (hevict : evictMemoryOverflow c₁ = .ok c') :
    ∃ c₂, evictForMiss buffer.length c = .ok c₂ ∧
      ((c'.memoryBufferMapper.lookup key).isSome ↔ c₂.Spared .hitOnce buffer.length) := by
  obtain ⟨c₂, hroom, hc₂, hshrinks⟩ := evictForMiss_ok hc buffer.length
  refine ⟨c₂, hroom, ?_⟩
  cases hcache.symm.trans (unsafeCacheIfMiss_eq key hroom)
  have hlists : ∀ l, (c₂.cached key buffer).lists l
      = (c₂.emplaceFront .hitOnce key buffer.length).lists l := fun _ => rfl
  have hheld : Held (c₂.cached key buffer) .hitOnce [] ⟨c₂.nextIter, key, buffer.length⟩ := by
    refine ⟨(c₂.lists .hitOnce).list, ?_⟩
    rw [hlists, emplaceFront_lists, if_pos rfl]
    rfl
  have hmore : (c₂.cached key buffer).sizeOf .moreThanOnce = c₂.sizeOf .moreThanOnce := by
    unfold sizeOf
    rw [hlists, emplaceFront_lists, if_neg (by decide)]
  have hresident := evictMemoryOverflow_resident
    (hc₂.cached (hshrinks.absent key habsent) buffer) (.inl rfl) hheld hevict
  refine hresident.trans ?_
  change _ ≤ c₂.adaptiveSizeOfOnce ∨ _ ≤ c₂.maxSizeInBytes ↔ _ ≤ _ ∨ _
  rw [hmore, bytesOf_nil, Nat.zero_add]

theorem put_resident (hc : Invariant c) (rule : AdaptiveUpdate) {key : String} {buffer : Buffer}
    (hput : put rule key buffer c = .ok (true, c')) :
    (c'.memoryBufferMapper.lookup key).isSome ↔ survives rule key buffer c = true := by
  unfold put at hput
  split at hput
  · cases hput
  · unfold survives
    cases hlookup : c.memoryBufferMapper.lookup key with
    | some entry =>
        simp only [hlookup] at hput ⊢
        obtain ⟨c₁, hwrite, h⟩ := bind_eq_ok.mp hput
        cases h
        obtain ⟨l, hlist, hresident⟩ := unsafeOverwrite_resident hc hlookup hwrite
        rw [hlist]
        exact hresident.trans decide_eq_true_iff.symm
    | none =>
        simp only [hlookup] at hput ⊢
        obtain ⟨c₁, hcache, hput⟩ := bind_eq_ok.mp hput
        obtain ⟨c₂, hevict, h⟩ := bind_eq_ok.mp hput
        cases h
        unfold unsafeCache at hcache
        cases hphantom : c.phantomEntryMapper.lookup key with
        | some found =>
            simp only [hphantom] at hcache ⊢
            exact (unsafeCacheInPhantom_resident hc.toWellFormed rule hphantom hcache
              hevict).trans decide_eq_true_iff.symm
        | none =>
            simp only [hphantom] at hcache ⊢
            obtain ⟨c₃, hroom, hresident⟩ := unsafeCacheIfMiss_resident hc.toWellFormed
              (hc.absent_of_lookup hlookup hphantom) hcache hevict
            rw [hroom]
            exact hresident.trans decide_eq_true_iff.symm

/-- What a get finds under the key of a put is what was put. -/
theorem tryGet_put_iff (hc : Invariant c) (rule : AdaptiveUpdate) {key : String} {buffer : Buffer}
    (hput : put rule key buffer c = .ok (true, c')) :
    (∃ c'', tryGet key c' = .ok (some buffer, c'')) ↔
      (c'.memoryBufferMapper.lookup key).isSome := by
  obtain ⟨c₁, hput', hc', -, hstores⟩ := put_ok hc rule key buffer
  have heq := hput.symm.trans hput'
  injection heq with heq
  injection heq with hle heq
  subst heq
  rw [if_pos (of_decide_eq_true hle.symm)] at hstores
  obtain ⟨c₂, hget, -⟩ := tryGet_ok hc' key
  cases hlookup : c'.memoryBufferMapper.lookup key with
  | none =>
      rw [hlookup] at hget
      refine iff_of_false ?_ (by simp)
      rintro ⟨c₃, hget'⟩
      cases hget.symm.trans hget'
  | some entry =>
      rw [hlookup] at hget
      refine iff_of_true ⟨c₂, ?_⟩ rfl
      rcases hstores key entry hlookup with ⟨-, hbuffer⟩ | ⟨entry', hne, -⟩
      · rw [hget, ← hbuffer]
        rfl
      · exact absurd rfl hne

/-- In every cache that calls can lead to, a put that reports its entry as stored has it
found by a get right after it if and only if the evictions at its end spare the entry. -/
theorem retained_iff (maxSize : ℕ) (ops : List Op) (replies : List Reply) (c c' : InMemoryCache)
    (rule : AdaptiveUpdate) (key : String) (buffer : Buffer)
    (hrun : applyAll ops (empty maxSize) = .ok (replies, c))
    (hput : put rule key buffer c = .ok (true, c')) :
    (∃ c'', tryGet key c' = .ok (some buffer, c'')) ↔ survives rule key buffer c = true := by
  obtain ⟨replies', c₁, hrun', hc, -⟩ := applyAll_ok ops (.empty maxSize)
  cases hrun.symm.trans hrun'
  exact (tryGet_put_iff hc rule hput).trans (put_resident hc rule hput)

/-- Nine of ten bytes are used more than once, and two new ones are stored with success and
gone; so is the older of two entries used once when it is overwritten with a bigger buffer. -/
theorem own_victim :
    (applyAll [.put ratioUpdate "a" [1, 2, 3, 4, 5, 6, 7, 8, 9], .tryGet "a",
        .put ratioUpdate "x" [1, 2], .tryGet "x"] (empty 10)).map Prod.fst
      = .ok [.stored true, .got (some [1, 2, 3, 4, 5, 6, 7, 8, 9]), .stored true, .got none] ∧
    (applyAll [.put ratioUpdate "a" [1], .put ratioUpdate "b" [1, 2, 3, 4, 5],
        .put ratioUpdate "a" [1, 2, 3, 4, 5, 6, 7, 8, 9], .tryGet "a"] (empty 10)).map Prod.fst
      = .ok [.stored true, .stored true, .stored true, .got none] := by
  decide

/-- Nine of ten bytes used more than once. -/
def almostFull : InMemoryCache :=
  match applyAll [.put ratioUpdate "a" [1, 2, 3, 4, 5, 6, 7, 8, 9], .tryGet "a"] (empty 10) with
  | .ok (_, c) => c
  | .error _ => empty 10

/-- The last byte is enough for an entry of one. -/
theorem retained_of_fitting : ∃ c', put ratioUpdate "x" [1] almostFull = .ok (true, c') ∧
    ∃ c'', tryGet "x" c' = .ok (some [1], c'') := by
  have hrun : applyAll [.put ratioUpdate "a" [1, 2, 3, 4, 5, 6, 7, 8, 9], .tryGet "a"] (empty 10)
      = .ok ([.stored true, .got (some [1, 2, 3, 4, 5, 6, 7, 8, 9])], almostFull) := rfl
  refine ⟨_, rfl, ?_⟩
  exact (retained_iff 10 _ _ almostFull _ ratioUpdate "x" [1] hrun rfl).mpr (by decide)

end InMemoryCache

end Yadcc.Cache
