/-
# Adding a directory to a ring

A hash belongs to the virtual node that is nearest to it, going around the ring. With one
more directory the nearest node is one of the new directory or was the nearest before. But
nodes are sorted by their hash alone: when several directories have a node at the nearest
hash, the one that comes first after sorting has it, and the sort of the larger ring may
put another one first.
-/

import Yadcc.Common.ConsistentHash

namespace Yadcc

namespace ConsistentHash

/-! ## The nearest node -/

/-- How far a node is from a hash, going around the ring. -/
def distance (hash : UInt32) (node : VirtualNode) : UInt32 := node.1 - hash

/-- A node such that no other is nearer. -/
structure Nearest (nodes : VirtualNode → Prop) (hash : UInt32) (node : VirtualNode) : Prop where
  mem : nodes node
  le : ∀ other, nodes other → distance hash node ≤ distance hash other

theorem toNat_distance (hash : UInt32) (node : VirtualNode) :
    (distance hash node).toNat = (2 ^ 32 - hash.toNat + node.1.toNat) % 2 ^ 32 :=
  UInt32.toNat_sub node.1 hash

/-- On one side of the hash the order is the order of hashes. -/
theorem distance_le {hash : UInt32} {x y : VirtualNode} (hle : x.1 ≤ y.1)
    (hside : hash ≤ x.1 ∨ y.1 < hash) : distance hash x ≤ distance hash y := by
  rw [UInt32.le_iff_toNat_le, toNat_distance, toNat_distance]
  rw [UInt32.le_iff_toNat_le, UInt32.lt_iff_toNat_lt] at hside
  rw [UInt32.le_iff_toNat_le] at hle
  have hx := x.1.toNat_lt
  have hy := y.1.toNat_lt
  have hh := hash.toNat_lt
  omega

/-- What is below the hash is reached last. -/
theorem distance_le_below {hash : UInt32} {x y : VirtualNode} (hx : hash ≤ x.1)
    (hy : y.1 < hash) : distance hash x ≤ distance hash y := by
  rw [UInt32.le_iff_toNat_le, toNat_distance, toNat_distance]
  rw [UInt32.le_iff_toNat_le] at hx
  rw [UInt32.lt_iff_toNat_lt] at hy
  have hx' := x.1.toNat_lt
  have hh := hash.toNat_lt
  omega

theorem hash_eq_of_distance {hash : UInt32} {x y : VirtualNode}
    (h : distance hash x = distance hash y) : x.1 = y.1 := by
  have hnat := congrArg UInt32.toNat h
  rw [toNat_distance, toNat_distance] at hnat
  apply UInt32.toNat_inj.mp
  have hx := x.1.toNat_lt
  have hy := y.1.toNat_lt
  have hh := hash.toNat_lt
  omega

theorem Nearest.hash_eq {nodes : VirtualNode → Prop} {hash : UInt32} {x y : VirtualNode}
    (hx : Nearest nodes hash x) (hy : Nearest nodes hash y) : x.1 = y.1 :=
  hash_eq_of_distance (UInt32.le_antisymm (hx.le y hy.mem) (hy.le x hx.mem))

/-- A hash belongs to the first of the nearest nodes in the order of the ring. -/
theorem getNode_first {ring : ConsistentHash} {hash : UInt32} {dir : String}
    (hsorted : ring.hashRing.Pairwise fun x y => x.1 ≤ y.1) (h : ring.getNode hash = some dir) :
    ∃ node, Nearest (· ∈ ring.hashRing) hash node ∧ node.2 = dir ∧
      ∀ r : VirtualNode → VirtualNode → Prop, ring.hashRing.Pairwise r →
        ∀ other ∈ ring.hashRing, other.1 = node.1 → other = node ∨ r node other := by
  unfold getNode at h
  cases hfind : ring.hashRing.find? fun node => !decide (node.1 < hash) with
  | some node =>
      rw [hfind] at h
      obtain ⟨hnode, before, after, hring, hbefore⟩ := List.find?_eq_some_iff_append.mp hfind
      have hle : hash ≤ node.1 := by simpa using hnode
      have hbelow : ∀ other ∈ before, other.1 < hash := by simpa using hbefore
      refine ⟨node, ⟨List.mem_of_find?_eq_some hfind, ?_⟩, Option.some.inj h, ?_⟩
      · intro other hother
        rw [hring, List.mem_append] at hother
        rcases hother with hother | hother
        · exact distance_le_below hle (hbelow other hother)
        · rw [hring, List.pairwise_append, List.pairwise_cons] at hsorted
          rcases List.mem_cons.mp hother with rfl | hother
          · exact UInt32.le_refl _
          · exact distance_le (hsorted.2.1.1 other hother) (.inl hle)
      · intro r hpairwise other hother heq
        rw [hring, List.mem_append] at hother
        rcases hother with hother | hother
        · have hlt := hbelow other hother
          rw [heq] at hlt
          exact absurd hlt (UInt32.not_lt.mpr hle)
        · rw [hring, List.pairwise_append, List.pairwise_cons] at hpairwise
          rcases List.mem_cons.mp hother with rfl | hother
          · exact .inl rfl
          · exact .inr (hpairwise.2.1.1 other hother)
  | none =>
      rw [hfind] at h
      have hbelow : ∀ other ∈ ring.hashRing, other.1 < hash := by
        simpa using List.find?_eq_none.mp hfind
      cases hring : ring.hashRing with
      | nil =>
          rw [hring] at h
          cases h
      | cons node rest =>
          rw [hring] at h hsorted hbelow
          refine ⟨node, ⟨List.mem_cons_self, ?_⟩, Option.some.inj h, ?_⟩
          · intro other hother
            rcases List.mem_cons.mp hother with rfl | hrest
            · exact UInt32.le_refl _
            · exact distance_le ((List.pairwise_cons.mp hsorted).1 other hrest)
                (.inr (hbelow other hother))
          · intro r hpairwise other hother heq
            rcases List.mem_cons.mp hother with rfl | hother
            · exact .inl rfl
            · exact .inr ((List.pairwise_cons.mp hpairwise).1 other hother)

/-! ## The nodes of a set of directories -/

/-- The nodes of one directory. -/
def OwnNode (hashFunc : String → UInt64) (dir : String) (weight : ℕ) (node : VirtualNode) :
    Prop :=
  node.2 = dir ∧ ∃ i < virtualNodeSize weight,
    (hashFunc (dir ++ "#VN" ++ toString i)).toUInt32 = node.1

/-- The nodes of all directories. -/
def NodeOf (hashFunc : String → UInt64) (weightedDirs : UnorderedMap String ℕ)
    (node : VirtualNode) : Prop :=
  ∃ weight, weightedDirs.lookup node.2 = some weight ∧ OwnNode hashFunc node.2 weight node

variable {sort : List VirtualNode → List VirtualNode} {hashFunc : String → UInt64}
  {weightedDirs : UnorderedMap String ℕ} {ring ring' : ConsistentHash} {d : String} {weight : ℕ}
  {hash : UInt32}

theorem mem_virtualNodes {dir : String} {nodes : List VirtualNode}
    (h : virtualNodes hashFunc dir weight = some nodes) {node : VirtualNode} :
    node ∈ nodes ↔ OwnNode hashFunc dir weight node := by
  unfold virtualNodes at h
  split at h
  · cases h
    rw [List.mem_map, OwnNode]
    constructor
    · rintro ⟨i, hi, rfl⟩
      exact ⟨rfl, i, List.mem_range.mp hi, rfl⟩
    · rintro ⟨hdir, i, hi, hhash⟩
      exact ⟨i, List.mem_range.mpr hi, Prod.ext hhash hdir.symm⟩
  · cases h

theorem mem_hashRing_iff (hsort : RingSort sort)
    (h : ConsistentHash.new sort hashFunc weightedDirs = some ring) {node : VirtualNode} :
    node ∈ ring.hashRing ↔ NodeOf hashFunc weightedDirs node := by
  rw [mem_hashRing hsort h]
  constructor
  · rintro ⟨dir, weight, nodes, hlookup, hvirtual, hmem⟩
    have hown := (mem_virtualNodes hvirtual).mp hmem
    obtain rfl := hown.1
    exact ⟨weight, hlookup, hown⟩
  · rintro ⟨weight, hlookup, hown⟩
    have hlt := new_isSome_iff.mp (Option.isSome_iff_exists.mpr ⟨ring, h⟩) node.2 weight hlookup
    exact ⟨node.2, weight, _, hlookup, if_pos hlt, (mem_virtualNodes (if_pos hlt)).mpr hown⟩

/-- A directory that is added has its own nodes, and leaves those of the others. -/
theorem nodeOf_insert (hd : weightedDirs.lookup d = none) {node : VirtualNode} :
    NodeOf hashFunc (weightedDirs.insert d weight) node ↔
      OwnNode hashFunc d weight node ∨ NodeOf hashFunc weightedDirs node := by
  unfold NodeOf
  by_cases hdir : node.2 = d
  · rw [hdir, AList.lookup_insert, hd]
    simp [OwnNode]
  · rw [AList.lookup_insert_ne hdir]
    simp [OwnNode, hdir]

/-! ## A directory without nodes -/

/-- Entries in the order of their keys are determined by what is in them. -/
theorem eq_of_keys_sorted {as bs : List (Sigma fun _ : String => ℕ)} (hperm : as.Perm bs)
    (hnodup : bs.NodupKeys) (has : as.Pairwise fun x y => x.1 ≤ y.1)
    (hbs : bs.Pairwise fun x y => x.1 ≤ y.1) : as = bs := by
  refine hperm.eq_of_pairwise ?_ has hbs
  intro x y hx hy hxy hyx
  exact hnodup.eq_of_fst_eq (hperm.mem_iff.mp hx) hy (String.le_antisymm hxy hyx)

/-- Sorting by a decidable total preorder. -/
theorem pairwise_mergeSort_decide {α : Type} {r : α → α → Prop} [DecidableRel r]
    (htrans : ∀ a b c, r a b → r b c → r a c) (htotal : ∀ a b, r a b ∨ r b a) (as : List α) :
    (as.mergeSort fun x y => decide (r x y)).Pairwise r := by
  have hsorted : (as.mergeSort fun x y => decide (r x y)).Pairwise
      fun x y => decide (r x y) = true := by
    apply List.pairwise_mergeSort
    · intro a b c hab hbc
      rw [decide_eq_true_eq] at *
      exact htrans a b c hab hbc
    · intro a b
      rw [Bool.or_eq_true, decide_eq_true_eq, decide_eq_true_eq]
      exact htotal a b
  exact hsorted.imp fun h => of_decide_eq_true h

theorem mergeSort_keys (entries : List (Sigma fun _ : String => ℕ)) :
    (entries.mergeSort fun x y => decide (x.1 ≤ y.1)).Pairwise fun x y => x.1 ≤ y.1 :=
  pairwise_mergeSort_decide (r := fun x y => x.1 ≤ y.1) (fun _ _ _ => String.le_trans)
    (fun a b => String.le_total a.1 b.1) entries

/-- The sorted entries of the larger set are those of the smaller one with the new entry
somewhere. -/
theorem mergeSort_insert (hd : weightedDirs.lookup d = none) (weight : ℕ) :
    ∃ before after,
      ((weightedDirs.insert d weight).entries.mergeSort fun x y => decide (x.1 ≤ y.1)) =
        before ++ ⟨d, weight⟩ :: after ∧
      (weightedDirs.entries.mergeSort fun x y => decide (x.1 ≤ y.1)) = before ++ after := by
  have hentries : (weightedDirs.insert d weight).entries = ⟨d, weight⟩ :: weightedDirs.entries :=
    AList.entries_insert_of_notMem (AList.lookup_eq_none.mp hd)
  have hperm := List.mergeSort_perm (weightedDirs.insert d weight).entries
    fun x y => decide (x.1 ≤ y.1)
  have hmem : (⟨d, weight⟩ : Sigma fun _ : String => ℕ) ∈
      ((weightedDirs.insert d weight).entries.mergeSort fun x y => decide (x.1 ≤ y.1)) := by
    rw [hperm.mem_iff, hentries]
    exact List.mem_cons_self
  obtain ⟨before, after, hsplit⟩ := List.append_of_mem hmem
  refine ⟨before, after, hsplit, ?_⟩
  have hsorted := mergeSort_keys (weightedDirs.insert d weight).entries
  rw [hsplit] at hsorted hperm
  rw [hentries] at hperm
  have hrest : (before ++ after).Perm weightedDirs.entries :=
    (List.perm_middle.symm.trans hperm).cons_inv
  refine (eq_of_keys_sorted (hrest.trans (List.mergeSort_perm _ _).symm) ?_ ?_
    (mergeSort_keys _)).symm
  · exact (List.perm_nodupKeys (List.mergeSort_perm _ _)).mpr weightedDirs.nodupKeys
  · exact hsorted.sublist ((List.sublist_cons_self _ after).append_left before)

/-- A directory without nodes leaves the ring as it is. -/
theorem new_insert_empty (hd : weightedDirs.lookup d = none)
    (hweight : virtualNodeSize weight = 0) :
    ConsistentHash.new sort hashFunc (weightedDirs.insert d weight) =
      ConsistentHash.new sort hashFunc weightedDirs := by
  obtain ⟨before, after, hinsert, hold⟩ := mergeSort_insert hd weight
  have hnone : virtualNodes hashFunc d weight = some [] := by
    rw [virtualNodes, hweight]
    rfl
  unfold ConsistentHash.new
  simp only [hinsert, hold, List.mapM_append, List.mapM_cons, hnone]
  cases before.mapM fun e => virtualNodes hashFunc e.1 e.2 with
  | none => rfl
  | some nodes =>
      cases after.mapM fun e => virtualNodes hashFunc e.1 e.2 with
      | none => rfl
      | some nodes' => simp

/-! ## Sorts that prefer a directory -/

/-- The order by hash, where the nodes of one directory come before others of their hash. -/
def rank (dir : String) (node : VirtualNode) : ℕ :=
  2 * node.1.toNat + if node.2 = dir then 0 else 1

def favour (dir : String) (nodes : List VirtualNode) : List VirtualNode :=
  nodes.mergeSort fun x y => decide (rank dir x ≤ rank dir y)

theorem pairwise_favour (dir : String) (nodes : List VirtualNode) :
    (favour dir nodes).Pairwise fun x y => rank dir x ≤ rank dir y :=
  pairwise_mergeSort_decide (r := fun x y => rank dir x ≤ rank dir y)
    (fun _ _ _ => le_trans) (fun _ _ => le_total _ _) nodes

theorem hash_le_of_rank {dir : String} {x y : VirtualNode} (h : rank dir x ≤ rank dir y) :
    x.1 ≤ y.1 := by
  rw [UInt32.le_iff_toNat_le]
  unfold rank at h
  split at h
  · split at h
    · omega
    · omega
  · split at h
    · omega
    · omega

/-- A preference that depends on what is to be sorted is as good a sort as any. -/
theorem ringSort_favour (prefers : List VirtualNode → String) :
    RingSort fun nodes => favour (prefers nodes) nodes where
  perm _ := List.mergeSort_perm _ _
  sorted nodes := (pairwise_favour (prefers nodes) nodes).imp hash_le_of_rank

/-- The directory that is preferred has the hash when one of its nodes is nearest. -/
theorem getNode_favour {dir : String} {nodes : List VirtualNode} {node : VirtualNode}
    (hnode : Nearest (· ∈ nodes) hash node) (hdir : node.2 = dir) :
    (⟨favour dir nodes⟩ : ConsistentHash).getNode hash = some dir := by
  have hperm : (favour dir nodes).Perm nodes := List.mergeSort_perm _ _
  have hmem : node ∈ favour dir nodes := hperm.mem_iff.mpr hnode.mem
  have hsome : (ConsistentHash.getNode ⟨favour dir nodes⟩ hash).isSome :=
    getNode_isSome (List.ne_nil_of_mem hmem) hash
  obtain ⟨dir', hdir'⟩ := Option.isSome_iff_exists.mp hsome
  obtain ⟨first, hfirst, hname, hbefore⟩ :=
    getNode_first ((pairwise_favour dir nodes).imp hash_le_of_rank) hdir'
  have hfirst' : Nearest (· ∈ nodes) hash first :=
    ⟨hperm.mem_iff.mp hfirst.mem, fun other h => hfirst.le other (hperm.mem_iff.mpr h)⟩
  have heq := hnode.hash_eq hfirst'
  have hsame : dir' = dir := by
    rcases hbefore _ (pairwise_favour dir nodes) node hmem heq with rfl | hle
    · exact hname.symm.trans hdir
    · by_contra hne
      rw [rank, rank, if_neg (hname ▸ hne), if_pos hdir, heq] at hle
      omega
  rw [hdir', hsame]

/-! ## One more directory -/

/-- Building the rings ends, the new ring gives the hash to the new directory or to where
the old ring has it, and both rings only return directories that they are built for. -/
def Stable (sort : List VirtualNode → List VirtualNode) (hashFunc : String → UInt64)
    (weightedDirs : UnorderedMap String ℕ) (d : String) (weight : ℕ) (hash : UInt32) : Prop :=
  ∃ ring ring' dir, ConsistentHash.new sort hashFunc weightedDirs = some ring ∧
    ConsistentHash.new sort hashFunc (weightedDirs.insert d weight) = some ring' ∧
    ring'.getNode hash = some dir ∧ (dir = d ∨ ring.getNode hash = some dir) ∧
    ((weightedDirs.insert d weight).lookup dir).isSome ∧
    ∀ old, ring.getNode hash = some old → (weightedDirs.lookup old).isSome

/-- No directory has too many nodes, and the new one has the nearest node, or the nearest
nodes of the others are of one directory. -/
structure Unambiguous (hashFunc : String → UInt64) (weightedDirs : UnorderedMap String ℕ)
    (d : String) (weight : ℕ) (hash : UInt32) : Prop where
  built : ∀ dir weight', (weightedDirs.insert d weight).lookup dir = some weight' →
    virtualNodeSize weight' < 2 ^ 32
  nearest :
    (∃ node, OwnNode hashFunc d weight node ∧
      ∀ other, NodeOf hashFunc weightedDirs other → distance hash node < distance hash other) ∨
    ((∃ node, NodeOf hashFunc weightedDirs node) ∧ (virtualNodeSize weight = 0 ∨
      ∀ node other, Nearest (NodeOf hashFunc weightedDirs) hash node →
        Nearest (NodeOf hashFunc weightedDirs) hash other → node.2 = other.2))

/-- The smaller set of directories has its ring when the larger one has. -/
theorem built_of_insert (hd : weightedDirs.lookup d = none)
    (h : ∀ dir weight', (weightedDirs.insert d weight).lookup dir = some weight' →
      virtualNodeSize weight' < 2 ^ 32) :
    ∃ ring ring', ConsistentHash.new sort hashFunc weightedDirs = some ring ∧
      ConsistentHash.new sort hashFunc (weightedDirs.insert d weight) = some ring' := by
  have hnew : (ConsistentHash.new sort hashFunc (weightedDirs.insert d weight)).isSome :=
    new_isSome_iff.mpr h
  obtain ⟨ring', hring'⟩ := Option.isSome_iff_exists.mp hnew
  have hold : (ConsistentHash.new sort hashFunc weightedDirs).isSome := by
    apply new_isSome_iff.mpr
    intro dir weight' hdir
    have hne : dir ≠ d := by
      rintro rfl
      rw [hd] at hdir
      cases hdir
    exact h dir weight' (by rw [AList.lookup_insert_ne hne, hdir])
  obtain ⟨ring, hring⟩ := Option.isSome_iff_exists.mp hold
  exact ⟨ring, ring', hring, hring'⟩

/-- The nearest nodes of a ring are those of its directories. -/
theorem nearest_hashRing (hsort : RingSort sort)
    (h : ConsistentHash.new sort hashFunc weightedDirs = some ring) {node : VirtualNode} :
    Nearest (· ∈ ring.hashRing) hash node ↔ Nearest (NodeOf hashFunc weightedDirs) hash node := by
  constructor
  · intro hnear
    exact ⟨(mem_hashRing_iff hsort h).mp hnear.mem,
      fun other hother => hnear.le other ((mem_hashRing_iff hsort h).mpr hother)⟩
  · intro hnear
    exact ⟨(mem_hashRing_iff hsort h).mpr hnear.mem,
      fun other hother => hnear.le other ((mem_hashRing_iff hsort h).mp hother)⟩

/-- The ring returns the directory of a nearest node. -/
theorem getNode_nearest (hsort : RingSort sort)
    (h : ConsistentHash.new sort hashFunc weightedDirs = some ring) {dir : String}
    (hdir : ring.getNode hash = some dir) :
    ∃ node, Nearest (NodeOf hashFunc weightedDirs) hash node ∧ node.2 = dir := by
  have hsorted : ring.hashRing.Pairwise fun x y => x.1 ≤ y.1 := by
    obtain ⟨lists, -, hring⟩ := Option.map_eq_some_iff.mp h
    rw [← hring]
    exact hsort.sorted _
  obtain ⟨node, hnear, hname, -⟩ := getNode_first hsorted hdir
  exact ⟨node, (nearest_hashRing hsort h).mp hnear, hname⟩

theorem getNode_isSome_of_node (hsort : RingSort sort)
    (h : ConsistentHash.new sort hashFunc weightedDirs = some ring) {node : VirtualNode}
    (hnode : NodeOf hashFunc weightedDirs node) (hash : UInt32) : (ring.getNode hash).isSome :=
  getNode_isSome (List.ne_nil_of_mem ((mem_hashRing_iff hsort h).mpr hnode)) hash

/-- When the new directory is not nearest, the new ring returns it or a directory of a node
that was nearest before. -/
theorem nearest_of_insert (hd : weightedDirs.lookup d = none) {node : VirtualNode}
    (h : Nearest (NodeOf hashFunc (weightedDirs.insert d weight)) hash node) (hne : node.2 ≠ d) :
    Nearest (NodeOf hashFunc weightedDirs) hash node := by
  rcases (nodeOf_insert hd).mp h.mem with hown | hold
  · exact absurd hown.1 hne
  · exact ⟨hold, fun other hother => h.le other ((nodeOf_insert hd).mpr (.inr hother))⟩

/-- Without ties between directories the hash stays, or moves to the new directory. -/
theorem Unambiguous.stable (h : Unambiguous hashFunc weightedDirs d weight hash)
    (hd : weightedDirs.lookup d = none) (hsort : RingSort sort) :
    Stable sort hashFunc weightedDirs d weight hash := by
  obtain ⟨ring, ring', hring, hring'⟩ := @built_of_insert sort hashFunc _ _ _ hd h.built
  have hsome : (ring'.getNode hash).isSome := by
    rcases h.nearest with ⟨node, hown, -⟩ | ⟨⟨node, hold⟩, -⟩
    · exact getNode_isSome_of_node hsort hring' ((nodeOf_insert hd).mpr (.inl hown)) hash
    · exact getNode_isSome_of_node hsort hring' ((nodeOf_insert hd).mpr (.inr hold)) hash
  obtain ⟨dir, hdir⟩ := Option.isSome_iff_exists.mp hsome
  refine ⟨ring, ring', dir, hring, hring', hdir, ?_, lookup_of_getNode hsort hring' hdir,
    fun old hold => lookup_of_getNode hsort hring hold⟩
  by_cases hnew : dir = d
  · exact .inl hnew
  · right
    obtain ⟨node, hnear, hname⟩ := getNode_nearest hsort hring' hdir
    have hold := nearest_of_insert hd hnear (by rw [hname]; exact hnew)
    rcases h.nearest with ⟨own, hown, hcloser⟩ | ⟨-, hempty | hone⟩
    · have hle := hnear.le own ((nodeOf_insert hd).mpr (.inl hown))
      exact absurd (hcloser node hold.mem) (UInt32.not_lt.mpr hle)
    · rw [new_insert_empty hd hempty, hring] at hring'
      cases hring'
      exact hdir
    · obtain ⟨dir', hdir'⟩ := Option.isSome_iff_exists.mp
        (getNode_isSome_of_node hsort hring hold.mem hash)
      obtain ⟨first, hfirst, hfirstname⟩ := getNode_nearest hsort hring hdir'
      rw [hdir', ← hfirstname, ← hname, hone first node hfirst hold]

/-- Two directories that share the nearest hash of the old ring: some sort gives the hash
to one of them in the old ring and to the other in the new one. -/
theorem not_stable_of_shared (hd : weightedDirs.lookup d = none)
    (hweight : virtualNodeSize weight ≠ 0)
    (hcloser : ¬ ∃ node, OwnNode hashFunc d weight node ∧
      ∀ other, NodeOf hashFunc weightedDirs other → distance hash node < distance hash other)
    {x y : VirtualNode} (hx : Nearest (NodeOf hashFunc weightedDirs) hash x)
    (hy : Nearest (NodeOf hashFunc weightedDirs) hash y) (hne : x.2 ≠ y.2) :
    ¬ ∀ sort, RingSort sort → Stable sort hashFunc weightedDirs d weight hash := by
  intro hstable
  -- The sort prefers `x` in the list that the constructor sorts for the old ring alone.
  obtain ⟨ring₀, ring₀', -, hring₀, hring₀', -⟩ :=
    hstable (favour "") (ringSort_favour fun _ => "")
  obtain ⟨lists, hlists, -⟩ := Option.map_eq_some_iff.mp hring₀
  obtain ⟨lists', hlists', -⟩ := Option.map_eq_some_iff.mp hring₀'
  let prefers := fun nodes => if nodes = lists.flatten then x.2 else y.2
  have hsort := ringSort_favour prefers
  obtain ⟨ring, ring', dir, hring, hring', hdir, hagree, -⟩ := hstable _ hsort
  have hring₁ : (⟨favour (prefers lists.flatten) lists.flatten⟩ : ConsistentHash) = ring := by
    rw [ConsistentHash.new, hlists] at hring
    exact Option.some.inj hring
  have hring₁' : (⟨favour (prefers lists'.flatten) lists'.flatten⟩ : ConsistentHash) = ring' := by
    rw [ConsistentHash.new, hlists'] at hring'
    exact Option.some.inj hring'
  have hmem : ∀ node, node ∈ lists.flatten ↔ NodeOf hashFunc weightedDirs node := by
    intro node
    rw [← mem_hashRing_iff hsort hring, ← hring₁]
    exact (List.mergeSort_perm _ _).mem_iff.symm
  have hmem' : ∀ node, node ∈ lists'.flatten ↔
      NodeOf hashFunc (weightedDirs.insert d weight) node := by
    intro node
    rw [← mem_hashRing_iff hsort hring', ← hring₁']
    exact (List.mergeSort_perm _ _).mem_iff.symm
  -- The new directory has a node, so that the two lists differ.
  have hown : OwnNode hashFunc d weight
      ((hashFunc (d ++ "#VN" ++ toString 0)).toUInt32, d) :=
    ⟨rfl, 0, Nat.pos_of_ne_zero hweight, rfl⟩
  have hother : lists'.flatten ≠ lists.flatten := by
    intro heq
    have hin := (hmem' _).mpr ((nodeOf_insert hd).mpr (.inl hown))
    rw [heq, hmem] at hin
    obtain ⟨weight', hlookup, -⟩ := hin
    rw [hd] at hlookup
    cases hlookup
  have hold : ring.getNode hash = some x.2 := by
    have hprefers : prefers lists.flatten = x.2 := if_pos rfl
    rw [← hring₁, hprefers]
    exact getNode_favour ⟨(hmem x).mpr hx.mem, fun other h => hx.le other ((hmem other).mp h)⟩ rfl
  have hnew : ring'.getNode hash = some y.2 := by
    have hprefers : prefers lists'.flatten = y.2 := if_neg hother
    rw [← hring₁', hprefers]
    refine getNode_favour ⟨(hmem' y).mpr ((nodeOf_insert hd).mpr (.inr hy.mem)), ?_⟩ rfl
    intro other h
    rcases (nodeOf_insert hd).mp ((hmem' other).mp h) with hown | hold
    · by_contra hlt
      refine hcloser ⟨other, hown, fun node hnode => ?_⟩
      exact UInt32.lt_of_lt_of_le (UInt32.not_le.mp hlt) (hy.le node hnode)
    · exact hy.le other hold
  rw [hnew] at hdir
  cases hdir
  rcases hagree with hyd | hsame
  · obtain ⟨weight', hlookup, -⟩ := hy.mem
    rw [hyd, hd] at hlookup
    cases hlookup
  · rw [hold] at hsame
    exact hne (Option.some.inj hsame)

/-- However ties are sorted, adding a directory moves a hash nowhere but to it, exactly when
the directories do not tie for the hash. -/
theorem stable_iff (hd : weightedDirs.lookup d = none) :
    (∀ sort, RingSort sort → Stable sort hashFunc weightedDirs d weight hash) ↔
      Unambiguous hashFunc weightedDirs d weight hash := by
  constructor
  · intro hstable
    obtain ⟨ring, ring', dir, hring, hring', hdir, -⟩ :=
      hstable (favour "") (ringSort_favour fun _ => "")
    refine ⟨new_isSome_iff.mp (Option.isSome_iff_exists.mpr ⟨ring', hring'⟩), ?_⟩
    by_cases hcloser : ∃ node, OwnNode hashFunc d weight node ∧
      ∀ other, NodeOf hashFunc weightedDirs other → distance hash node < distance hash other
    · exact .inl hcloser
    · right
      constructor
      · by_contra hnone
        obtain ⟨node, hnear, -⟩ :=
          getNode_nearest (ringSort_favour fun _ => "") hring' hdir
        rcases (nodeOf_insert hd).mp hnear.mem with hown | hold
        · exact hcloser ⟨node, hown, fun other hother => absurd ⟨other, hother⟩ hnone⟩
        · exact hnone ⟨node, hold⟩
      · by_cases hweight : virtualNodeSize weight = 0
        · exact .inl hweight
        · right
          intro node other hnode hother
          by_contra hne
          exact not_stable_of_shared hd hweight hcloser hnode hother hne hstable
  · intro h sort hsort
    exact h.stable hd hsort

/-! ## Two directories that tie -/

/-- A second directory whose nodes tie with all those of the first. -/
theorem stable_iff_oneDir :
    NodeOf (fun _ => 0) ((∅ : UnorderedMap String ℕ).insert "a" 1) (0, "a") ∧
      ∀ sort, RingSort sort →
        Stable sort (fun _ => 0) ((∅ : UnorderedMap String ℕ).insert "a" 1) "b" 1 7 := by
  have hnode : NodeOf (fun _ => 0) ((∅ : UnorderedMap String ℕ).insert "a" 1) (0, "a") :=
    ⟨1, rfl, rfl, 0, by decide, rfl⟩
  refine ⟨hnode, (stable_iff (by decide)).mpr ⟨?_, .inr ⟨⟨_, hnode⟩, .inr ?_⟩⟩⟩
  · intro dir weight' hlookup
    have hweight : weight' = 1 := by
      rw [AList.lookup_insert_eq, AList.lookup_insert_eq] at hlookup
      split_ifs at hlookup
      · cases hlookup
        rfl
      · cases hlookup
        rfl
      · cases hlookup
    rw [hweight]
    decide
  · intro node other hn ho
    have hname : ∀ node, NodeOf (fun _ => 0) ((∅ : UnorderedMap String ℕ).insert "a" 1) node →
        node.2 = "a" := by
      rintro node ⟨weight', hlookup, -⟩
      rw [AList.lookup_insert_eq] at hlookup
      split_ifs at hlookup with hname
      · exact hname
      · cases hlookup
    rw [hname node hn.mem, hname other ho.mem]

/-- Two directories, the first twice as large as the second. -/
def twoDirs : UnorderedMap String ℕ :=
  ((∅ : UnorderedMap String ℕ).insert "a" 2).insert "b" 1

theorem nearest_twoDirs {dir : String} {weight : ℕ} (hdir : twoDirs.lookup dir = some weight)
    (hweight : 0 < virtualNodeSize weight) :
    Nearest (NodeOf (fun _ => 0) twoDirs) 0 (0, dir) where
  mem := ⟨weight, hdir, rfl, 0, hweight, rfl⟩
  le other _ := by
    have hzero : distance 0 (0, dir) = 0 := UInt32.sub_zero 0
    rw [hzero, UInt32.le_iff_toNat_le]
    exact Nat.zero_le _

/-- When all nodes have the hash 0, a third directory can move it from one of the two
others to the other one. -/
theorem moved_between_twoDirs :
    ¬ ∀ sort hashFunc weightedDirs d weight hash, RingSort sort →
      weightedDirs.lookup d = none → Stable sort hashFunc weightedDirs d weight hash := by
  intro h
  have ha : Nearest (NodeOf (fun _ => 0) twoDirs) 0 (0, "a") :=
    nearest_twoDirs (by decide) (by decide : 0 < virtualNodeSize 2)
  have hb : Nearest (NodeOf (fun _ => 0) twoDirs) 0 (0, "b") :=
    nearest_twoDirs (by decide) (by decide : 0 < virtualNodeSize 1)
  refine not_stable_of_shared (by decide) ?_ ?_ ha hb (by decide)
    fun sort hsort => h sort _ _ "c" 1 _ hsort (by decide)
  · decide
  · rintro ⟨node, hown, hcloser⟩
    have hle : distance 0 (0, "a") ≤ distance 0 node := by
      rw [UInt32.le_iff_toNat_le]
      exact Nat.zero_le _
    exact absurd (hcloser _ ha.mem) (UInt32.not_lt.mpr hle)

end ConsistentHash

end Yadcc
