/-
# Consistent hashing

Directories are spread over a ring of 32-bit hashes, each as many virtual nodes, in
proportion to its weight. A hash belongs to the first node at or above it, or to the first
node of all.
-/

import Yadcc.Lib.UnorderedMap

namespace Yadcc

/-- A virtual node: its hash, and its directory. -/
abbrev VirtualNode := UInt32 × String

/-- `std::sort` by hash. Nodes of one hash come in any order. -/
structure RingSort (sort : List VirtualNode → List VirtualNode) : Prop where
  perm : ∀ nodes, (sort nodes).Perm nodes
  sorted : ∀ nodes, (sort nodes).Pairwise fun x y => x.1 ≤ y.1

def kVirtualNodeFactor : ℕ := 100

/-- How many nodes a directory is to have, a 64-bit product. -/
def virtualNodeSize (weight : ℕ) : ℕ := weight * kVirtualNodeFactor % 2 ^ 64

/-- The nodes of one directory. The loop has a 32-bit counter, so that it does not end
(`none`) when there are to be more. -/
def virtualNodes (hashFunc : String → UInt64) (dir : String) (weight : ℕ) :
    Option (List VirtualNode) :=
  if virtualNodeSize weight < 2 ^ 32 then
    some ((List.range (virtualNodeSize weight)).map fun i =>
      ((hashFunc (dir ++ "#VN" ++ toString i)).toUInt32, dir))
  else none

structure ConsistentHash where
  hashRing : List VirtualNode
  deriving DecidableEq

namespace ConsistentHash

/-- Directories come in the order of their names. -/
def new (sort : List VirtualNode → List VirtualNode) (hashFunc : String → UInt64)
    (weightedDirs : UnorderedMap String ℕ) : Option ConsistentHash :=
  let dirs := weightedDirs.entries.mergeSort fun x y => decide (x.1 ≤ y.1)
  (dirs.mapM fun e => virtualNodes hashFunc e.1 e.2).map fun nodes => ⟨sort nodes.flatten⟩

/-- The ring is checked not to be empty. -/
def getNode (ring : ConsistentHash) (hash : UInt32) : Option String :=
  match ring.hashRing.find? fun node => !decide (node.1 < hash) with
  | some node => some node.2
  | none => ring.hashRing.head?.map Prod.snd

theorem getNode_isSome {ring : ConsistentHash} (h : ring.hashRing ≠ []) (hash : UInt32) :
    (ring.getNode hash).isSome := by
  unfold getNode
  split
  · rfl
  · rw [Option.isSome_map]
    exact List.isSome_head?.mpr h

/-- A hash belongs to the directory of some node. -/
theorem getNode_mem {ring : ConsistentHash} {hash : UInt32} {dir : String}
    (h : ring.getNode hash = some dir) : ∃ node ∈ ring.hashRing, node.2 = dir := by
  unfold getNode at h
  split at h
  · next node hfind =>
      exact ⟨node, List.mem_of_find?_eq_some hfind, Option.some.inj h⟩
  · obtain ⟨node, hhead, hdir⟩ := Option.map_eq_some_iff.mp h
    exact ⟨node, List.mem_of_mem_head? hhead, hdir⟩

/-! ## The nodes of the ring -/

theorem mapM_isSome_iff {α β : Type} {f : α → Option β} {as : List α} :
    (as.mapM f).isSome ↔ ∀ a ∈ as, (f a).isSome := by
  induction as with
  | nil => simp
  | cons a as ih =>
      rw [List.mapM_cons, List.forall_mem_cons, ← ih]
      cases f a with
      | none => simp
      | some b =>
          cases as.mapM f with
          | none => simp
          | some bs => simp

theorem mem_of_mapM {α β : Type} {f : α → Option β} {as : List α} {bs : List β}
    (h : as.mapM f = some bs) {b : β} : b ∈ bs ↔ ∃ a ∈ as, f a = some b := by
  induction as generalizing bs with
  | nil =>
      cases h
      simp
  | cons a as ih =>
      rw [List.mapM_cons] at h
      obtain ⟨b', hb, hrest⟩ := Option.bind_eq_some_iff.mp h
      obtain ⟨rest, hmap, hcons⟩ := Option.bind_eq_some_iff.mp hrest
      cases hcons
      rw [List.mem_cons, ih hmap, List.exists_mem_cons_iff, hb, Option.some.injEq]
      constructor
      · rintro (rfl | h)
        · exact .inl rfl
        · exact .inr h
      · rintro (rfl | h)
        · exact .inl rfl
        · exact .inr h

theorem virtualNodes_cases {hashFunc : String → UInt64} {dir : String} {weight : ℕ}
    {nodes : List VirtualNode} (h : virtualNodes hashFunc dir weight = some nodes) :
    (∀ node ∈ nodes, node.2 = dir) ∧ (virtualNodeSize weight ≠ 0 → nodes ≠ []) := by
  unfold virtualNodes at h
  split at h
  · cases h
    constructor
    · intro node hmem
      obtain ⟨i, -, rfl⟩ := List.mem_map.mp hmem
      rfl
    · intro hweight hnil
      rw [List.map_eq_nil_iff, List.range_eq_nil] at hnil
      exact hweight hnil
  · cases h

variable {sort : List VirtualNode → List VirtualNode} {hashFunc : String → UInt64}
  {weightedDirs : UnorderedMap String ℕ} {ring : ConsistentHash}

/-- The ring has the nodes of the directories, and no others. -/
theorem mem_hashRing (hsort : RingSort sort)
    (h : ConsistentHash.new sort hashFunc weightedDirs = some ring) {node : VirtualNode} :
    node ∈ ring.hashRing ↔ ∃ dir weight nodes, weightedDirs.lookup dir = some weight ∧
      virtualNodes hashFunc dir weight = some nodes ∧ node ∈ nodes := by
  obtain ⟨lists, hmap, hring⟩ := Option.map_eq_some_iff.mp h
  rw [← hring, (hsort.perm _).mem_iff, List.mem_flatten]
  constructor
  · rintro ⟨nodes, hnodes, hnode⟩
    obtain ⟨e, he, hvirtual⟩ := (mem_of_mapM hmap).mp hnodes
    have hlookup := AList.lookup_eq_some_iff.mpr ((List.mergeSort_perm _ _).mem_iff.mp he)
    exact ⟨e.1, e.2, nodes, hlookup, hvirtual, hnode⟩
  · rintro ⟨dir, weight, nodes, hlookup, hvirtual, hnode⟩
    refine ⟨nodes, (mem_of_mapM hmap).mpr ⟨⟨dir, weight⟩, ?_, hvirtual⟩, hnode⟩
    exact (List.mergeSort_perm _ _).mem_iff.mpr (AList.lookup_eq_some_iff.mp hlookup)

/-- A hash belongs to a directory that has a weight. -/
theorem lookup_of_getNode (hsort : RingSort sort)
    (h : ConsistentHash.new sort hashFunc weightedDirs = some ring) {hash : UInt32}
    {dir : String} (hnode : ring.getNode hash = some dir) : (weightedDirs.lookup dir).isSome := by
  obtain ⟨node, hmem, rfl⟩ := getNode_mem hnode
  obtain ⟨dir, weight, nodes, hlookup, hvirtual, hin⟩ := (mem_hashRing hsort h).mp hmem
  rw [(virtualNodes_cases hvirtual).1 node hin, hlookup]
  rfl

/-- The ring is built when no directory has too many nodes. -/
theorem new_isSome_iff : (ConsistentHash.new sort hashFunc weightedDirs).isSome ↔
    ∀ dir weight, weightedDirs.lookup dir = some weight → virtualNodeSize weight < 2 ^ 32 := by
  have hvirtual : ∀ dir weight, (virtualNodes hashFunc dir weight).isSome ↔
      virtualNodeSize weight < 2 ^ 32 := by
    intro dir weight
    unfold virtualNodes
    split
    · next hlt => exact iff_of_true rfl hlt
    · next hlt => exact iff_of_false Bool.false_ne_true hlt
  unfold ConsistentHash.new
  rw [Option.isSome_map, mapM_isSome_iff]
  constructor
  · intro h dir weight hlookup
    have hsome := h ⟨dir, weight⟩
      ((List.mergeSort_perm _ _).mem_iff.mpr (AList.lookup_eq_some_iff.mp hlookup))
    exact (hvirtual dir weight).mp hsome
  · intro h e he
    have hmem := (List.mergeSort_perm _ _).mem_iff.mp he
    exact (hvirtual e.1 e.2).mpr (h e.1 e.2 (AList.lookup_eq_some_iff.mpr hmem))

/-- Some directory has the hash, if there is one with a node. -/
theorem getNode_of_new (hsort : RingSort sort)
    (h : ConsistentHash.new sort hashFunc weightedDirs = some ring) {dir : String} {weight : ℕ}
    (hdir : weightedDirs.lookup dir = some weight) (hweight : virtualNodeSize weight ≠ 0)
    (hash : UInt32) :
    (ring.getNode hash).isSome := by
  apply getNode_isSome
  have hlt : virtualNodeSize weight < 2 ^ 32 :=
    new_isSome_iff.mp (Option.isSome_iff_exists.mpr ⟨ring, h⟩) dir weight hdir
  obtain ⟨nodes, hvirtual⟩ : ∃ nodes, virtualNodes hashFunc dir weight = some nodes :=
    ⟨_, if_pos hlt⟩
  obtain ⟨node, hnode⟩ := List.exists_mem_of_ne_nil nodes ((virtualNodes_cases hvirtual).2 hweight)
  exact List.ne_nil_of_mem
    ((mem_hashRing hsort h).mpr ⟨dir, weight, nodes, hdir, hvirtual, hnode⟩)

end ConsistentHash

end Yadcc
