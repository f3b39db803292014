/-
# The configured cache directories

The directories of the disk cache and their sizes are given as one text. A size is a number
with an optional unit, and the product is taken in 64 bits. Each directory gets virtual nodes
in proportion to its size, which are counted with 32 bits. This module tells exactly for which
texts the sizes are what was written and the ring can be built.
-/

import Mathlib.Data.UInt
import Yadcc.Common.DiskCacheLoad

namespace Yadcc

open Yadcc.Lib

/-! ## Parsing -/

/-- Splitting and number parsing of the RPC library. -/
structure ConfigLibrary where
  split : String → Char → List String
  /-- `TryParse<std::size_t>`. -/
  tryParse : String → Option UInt64

/-- What the library documents about splitting: empty parts are dropped. -/
structure ConfigLibrary.Documented (lib : ConfigLibrary) : Prop where
  split : ∀ text delim, ∀ part ∈ lib.split text delim, part ≠ ""

/-- Checks that end the program, and looking at the last byte of an empty text. -/
inductive CacheDirsFault
  | emptyView
  | invalidDirectory
  | invalidSize
  deriving DecidableEq

/-- The scale that the last letter stands for, and the text of the number. -/
def cutUnit (sizeStr : String) (last : Char) : UInt64 × String :=
  let shortened := String.ofList sizeStr.toList.dropLast
  if last = 'G' then ((1 : UInt64) <<< 30, shortened)
  else if last = 'M' then ((1 : UInt64) <<< 20, shortened)
  else if last = 'K' then ((1 : UInt64) <<< 10, shortened)
  else if last = 'B' then (1, shortened)
  else (1, sizeStr)

def tryParseSize (lib : ConfigLibrary) (sizeStr : String) :
    Except CacheDirsFault (Option UInt64) :=
  match sizeStr.toList.getLast? with
  | none => .error .emptyView
  | some last =>
      let (scale, sizeStrView) := cutUnit sizeStr last
      .ok ((lib.tryParse sizeStrView).map fun size => size * scale)

/-- One directory with its size. -/
def parseCacheDir (lib : ConfigLibrary) (e : String) :
    Except CacheDirsFault (String × UInt64) :=
  match lib.split e ',' with
  | [sizeStr, dir] => do
      match ← tryParseSize lib sizeStr with
      | none => .error .invalidSize
      | some size => return (dir, size)
  | _ => .error .invalidDirectory

def parseCacheDirs (lib : ConfigLibrary) (dirs : String) :
    Except CacheDirsFault (List (String × UInt64)) :=
  (lib.split dirs ':').mapM (parseCacheDir lib)

/-! ## What is written -/

/-- A directory with the number and the unit of its size. -/
structure WrittenDir where
  dir : String
  number : UInt64
  scale : UInt64
  deriving DecidableEq

/-- The size, over the integers. -/
def WrittenDir.size (w : WrittenDir) : ℕ := w.number.toNat * w.scale.toNat

/-- How many virtual nodes the directory should have. -/
def WrittenDir.nodes (w : WrittenDir) : ℕ := 100 * max 1 (w.size / 2 ^ 27)

/-- The number and the unit in the text of a size. -/
def writtenSize (lib : ConfigLibrary) (sizeStr : String) : Option (UInt64 × UInt64) := do
  let last ← sizeStr.toList.getLast?
  let number ← lib.tryParse (cutUnit sizeStr last).2
  return (number, (cutUnit sizeStr last).1)

def writtenDir (lib : ConfigLibrary) (e : String) : Option WrittenDir :=
  match lib.split e ',' with
  | [sizeStr, dir] => (writtenSize lib sizeStr).map fun w => ⟨dir, w.1, w.2⟩
  | _ => none

def writtenDirs (lib : ConfigLibrary) (dirs : String) : Option (List WrittenDir) :=
  (lib.split dirs ':').mapM (writtenDir lib)

/-- Where a directory is listed more than once, the last time counts. -/
def LastOf (ws : List WrittenDir) (w : WrittenDir) : Prop :=
  ws.reverse.find? (fun v => decide (v.dir = w.dir)) = some w

/-- Every size is the number times the unit, and the ring is built and has for each directory
as many nodes as its size asks for. -/
structure ShardsExact (sort : List VirtualNode → List VirtualNode) (hashFunc : String → UInt64)
    (ws : List WrittenDir) (shards : List (String × UInt64)) : Prop where
  sizes : shards.map (fun s => (s.1, s.2.toNat)) = ws.map fun w => (w.dir, w.size)
  ring : ∃ ring, ConsistentHash.new sort hashFunc (getWeightedDirs shards) = some ring ∧
    ∀ w, LastOf ws w → ring.hashRing.countP (fun node => decide (node.2 = w.dir)) = w.nodes

/-- The sizes fit into 64 bits, and the numbers of virtual nodes into 32 bits. -/
structure WidthsSuffice (ws : List WrittenDir) : Prop where
  sizes : ∀ w ∈ ws, w.size < 2 ^ 64
  nodes : ∀ w, LastOf ws w → w.nodes < 2 ^ 32

/-! ## What is accepted -/

section Accepted

variable {lib : ConfigLibrary} {e dirs : String}

/-- A part of the text is never empty, so its last letter is there. -/
theorem parseCacheDir_ne_emptyView (hlib : lib.Documented) (e : String) :
    parseCacheDir lib e ≠ .error .emptyView := by
  unfold parseCacheDir
  have hparts := hlib.split e ','
  split
  · next sizeStr dir hsplit =>
      rw [hsplit] at hparts
      have hne : sizeStr ≠ "" := hparts sizeStr List.mem_cons_self
      unfold tryParseSize
      cases hlast : sizeStr.toList.getLast? with
      | none =>
          rw [List.getLast?_eq_none_iff] at hlast
          exact absurd (String.toList_eq_nil_iff.mp hlast) hne
      | some last =>
          dsimp only [ok_bind]
          split
          · nofun
          · nofun
  · nofun

theorem mapM_error {ε α β : Type} {f : α → Except ε β} {as : List α} {err : ε}
    (h : as.mapM f = .error err) : ∃ a ∈ as, f a = .error err := by
  induction as with
  | nil => cases h
  | cons a as ih =>
      rw [List.mapM_cons] at h
      rcases bind_eq_error.mp h with ha | ⟨b, -, h⟩
      · exact ⟨a, List.mem_cons_self, ha⟩
      · rcases bind_eq_error.mp h with hrest | ⟨bs, -, h⟩
        · obtain ⟨a', ha', herror⟩ := ih hrest
          exact ⟨a', List.mem_cons_of_mem a ha', herror⟩
        · cases h

theorem parseCacheDir_ok {shard : String × UInt64} (h : parseCacheDir lib e = .ok shard) :
    ∃ w, writtenDir lib e = some w ∧ shard = (w.dir, w.number * w.scale) := by
  unfold parseCacheDir at h
  unfold writtenDir
  split at h
  · next sizeStr dir hsplit =>
      unfold tryParseSize at h
      cases hlast : sizeStr.toList.getLast? with
      | none =>
          rw [hlast] at h
          cases h
      | some last =>
          rw [hlast] at h
          dsimp only [ok_bind] at h
          cases hnumber : lib.tryParse (cutUnit sizeStr last).2 with
          | none =>
              rw [hnumber] at h
              cases h
          | some number =>
              rw [hnumber] at h
              cases h
              refine ⟨⟨dir, number, (cutUnit sizeStr last).1⟩, ?_, rfl⟩
              simp [writtenSize, hlast, hnumber]
  · cases h

theorem parseCacheDirs_ok {shards : List (String × UInt64)}
    (h : parseCacheDirs lib dirs = .ok shards) :
    ∃ ws, writtenDirs lib dirs = some ws ∧
      shards = ws.map fun w => (w.dir, w.number * w.scale) := by
  unfold parseCacheDirs at h
  unfold writtenDirs
  generalize lib.split dirs ':' = parts at h ⊢
  induction parts generalizing shards with
  | nil =>
      cases h
      exact ⟨[], rfl, rfl⟩
  | cons e es ih =>
      rw [List.mapM_cons] at h
      obtain ⟨shard, hshard, h⟩ := bind_eq_ok.mp h
      obtain ⟨rest, hrest, h⟩ := bind_eq_ok.mp h
      cases h
      obtain ⟨w, hw, rfl⟩ := parseCacheDir_ok hshard
      obtain ⟨ws, hws, rfl⟩ := ih hrest
      refine ⟨w :: ws, ?_, rfl⟩
      rw [List.mapM_cons, hw, hws]
      rfl

end Accepted

/-! ## The ring -/

/-- A directory has the weight of the size that it was listed with last. -/
theorem lookup_getWeightedDirs_eq (shards : List (String × UInt64)) (dir : String) :
    (getWeightedDirs shards).lookup dir
      = (shards.reverse.find? fun s => decide (s.1 = dir)).map fun s =>
          max 1 (s.2.toNat / 2 ^ 27) := by
  induction shards using List.reverseRecOn with
  | nil => rfl
  | append_singleton shards s ih =>
      have hlast : getWeightedDirs (shards ++ [s]) = (getWeightedDirs shards).insert s.1
          (if s.2.toNat / 2 ^ 20 / 2 ^ 7 = 0 then 1 else s.2.toNat / 2 ^ 20 / 2 ^ 7) := by
        rw [getWeightedDirs, List.foldl_append]
        rfl
      have hweight : (if s.2.toNat / 2 ^ 20 / 2 ^ 7 = 0 then 1 else s.2.toNat / 2 ^ 20 / 2 ^ 7)
          = max 1 (s.2.toNat / 2 ^ 27) := by
        split <;> omega
      rw [hlast, AList.lookup_insert_eq, List.reverse_append, List.reverse_singleton,
        List.singleton_append, List.find?_cons, hweight]
      by_cases hdir : s.1 = dir
      · simp [hdir]
      · simp only [hdir, decide_false, if_neg (Ne.symm hdir)]
        exact ih

theorem countP_virtualNodes {hashFunc : String → UInt64} {dir other : String} {weight : ℕ}
    {nodes : List VirtualNode} (h : virtualNodes hashFunc dir weight = some nodes) :
    nodes.countP (fun node => decide (node.2 = other))
      = if dir = other then virtualNodeSize weight else 0 := by
  have hall := (ConsistentHash.virtualNodes_cases h).1
  unfold virtualNodes at h
  split at h
  · split
    · next heq =>
        rw [List.countP_eq_length.mpr fun node hnode => by simpa [heq] using hall node hnode]
        cases h
        simp
    · next hne =>
        rw [List.countP_eq_zero]
        intro node hnode
        simpa [hall node hnode] using hne
  · cases h

/-- The nodes of several directories are counted directory by directory. -/
theorem countP_mapM_virtualNodes {hashFunc : String → UInt64} {dir : String}
    {es : List (Sigma fun _ : String => ℕ)} {lists : List (List VirtualNode)}
    (h : es.mapM (fun e => virtualNodes hashFunc e.1 e.2) = some lists) :
    lists.flatten.countP (fun node => decide (node.2 = dir))
      = (es.map fun e => if e.1 = dir then virtualNodeSize e.2 else 0).sum := by
  induction es generalizing lists with
  | nil =>
      cases h
      rfl
  | cons e es ih =>
      rw [List.mapM_cons] at h
      obtain ⟨nodes, hnodes, hrest⟩ := Option.bind_eq_some_iff.mp h
      obtain ⟨rest, hmap, hcons⟩ := Option.bind_eq_some_iff.mp hrest
      cases hcons
      rw [List.flatten_cons, List.countP_append, countP_virtualNodes hnodes, ih hmap,
        List.map_cons, List.sum_cons]

/-- A directory occurs once in a map. -/
theorem sum_of_lookup {m : UnorderedMap String ℕ} {dir : String} {weight : ℕ} {f : ℕ → ℕ}
    (h : m.lookup dir = some weight) :
    (m.entries.map fun e => if e.1 = dir then f e.2 else 0).sum = f weight := by
  have hmem := AList.lookup_eq_some_iff.mp h
  have hnodup := m.nodupKeys
  generalize m.entries = entries at hmem hnodup ⊢
  induction entries with
  | nil => cases hmem
  | cons e es ih =>
      rw [List.nodupKeys_cons] at hnodup
      rw [List.map_cons, List.sum_cons]
      rcases List.mem_cons.mp hmem with rfl | hrest
      · have hzero : (es.map fun e => if e.1 = dir then f e.2 else 0).sum = 0 := by
          apply List.sum_eq_zero
          intro n hn
          obtain ⟨e, he, rfl⟩ := List.mem_map.mp hn
          have hne : e.1 ≠ dir := by
            intro heq
            have hkey := List.mem_keys_of_mem he
            rw [heq] at hkey
            exact hnodup.1 hkey
          exact if_neg hne
        rw [if_pos rfl, hzero, Nat.add_zero]
      · have hne : e.1 ≠ dir := by
          intro heq
          have hkey := List.mem_keys_of_mem hrest
          rw [← heq] at hkey
          exact hnodup.1 hkey
        rw [if_neg hne, Nat.zero_add]
        exact ih hrest hnodup.2

/-- A directory has the number of nodes that its weight asks for. -/
theorem countP_hashRing {sort : List VirtualNode → List VirtualNode} (hsort : RingSort sort)
    {hashFunc : String → UInt64} {weightedDirs : UnorderedMap String ℕ} {ring : ConsistentHash}
    (h : ConsistentHash.new sort hashFunc weightedDirs = some ring) {dir : String} {weight : ℕ}
    (hdir : weightedDirs.lookup dir = some weight) :
    ring.hashRing.countP (fun node => decide (node.2 = dir)) = virtualNodeSize weight := by
  obtain ⟨lists, hmap, hring⟩ := Option.map_eq_some_iff.mp h
  rw [← hring, (hsort.perm _).countP_eq, countP_mapM_virtualNodes hmap,
    ((List.mergeSort_perm _ _).map _).sum_eq]
  exact sum_of_lookup hdir

/-! ## Exactly when the sizes are right -/

section Exact

variable {sort : List VirtualNode → List VirtualNode} {hashFunc : String → UInt64}
  {ws : List WrittenDir}

/-- The directories with their sizes as the parser has them. -/
def parsed (ws : List WrittenDir) : List (String × UInt64) :=
  ws.map fun w => (w.dir, w.number * w.scale)

theorem sizes_parsed_iff :
    (parsed ws).map (fun s => (s.1, s.2.toNat)) = ws.map (fun w => (w.dir, w.size)) ↔
      ∀ w ∈ ws, w.size < 2 ^ 64 := by
  rw [parsed, List.map_map, List.map_inj_left]
  refine forall₂_congr fun w _ => ?_
  simp only [Function.comp_apply, Prod.mk.injEq, true_and, UInt64.toNat_mul, WrittenDir.size]
  constructor
  · intro h
    rw [← h]
    exact Nat.mod_lt _ (Nat.two_pow_pos 64)
  · exact Nat.mod_eq_of_lt

/-- Where the sizes fit, so do the weights, and the number of nodes is the wanted one. -/
theorem lookup_parsed (hsizes : ∀ w ∈ ws, w.size < 2 ^ 64) (dir : String) :
    (getWeightedDirs (parsed ws)).lookup dir
      = (ws.reverse.find? fun w => decide (w.dir = dir)).map fun w => max 1 (w.size / 2 ^ 27) := by
  rw [lookup_getWeightedDirs_eq, parsed, ← List.map_reverse, List.find?_map]
  simp only [Function.comp_def]
  cases hfind : ws.reverse.find? fun w => decide (w.dir = dir) with
  | none => rfl
  | some w =>
      have hw := hsizes w (List.mem_reverse.mp (List.mem_of_find?_eq_some hfind))
      have hproduct : (w.number * w.scale).toNat = w.size := by
        rw [UInt64.toNat_mul]
        exact Nat.mod_eq_of_lt hw
      simp only [Option.map_some, hproduct]

theorem virtualNodeSize_of_size {w : WrittenDir} (h : w.size < 2 ^ 64) :
    virtualNodeSize (max 1 (w.size / 2 ^ 27)) = w.nodes := by
  rw [virtualNodeSize, kVirtualNodeFactor, WrittenDir.nodes, Nat.mul_comm]
  exact Nat.mod_eq_of_lt (by omega)

/-- The directory that was found is the last one with its name. -/
theorem lastOf_of_find {dir : String} {w : WrittenDir}
    (h : ws.reverse.find? (fun v => decide (v.dir = dir)) = some w) :
    LastOf ws w ∧ w.dir = dir := by
  have hdir : w.dir = dir := by simpa using List.find?_some h
  rw [← hdir] at h
  exact ⟨h, hdir⟩

theorem shardsExact_iff (hsort : RingSort sort) :
    ShardsExact sort hashFunc ws (parsed ws) ↔ WidthsSuffice ws := by
  constructor
  · rintro ⟨hsizes, ring, hring, -⟩
    rw [sizes_parsed_iff] at hsizes
    refine ⟨hsizes, ?_⟩
    intro w hw
    have hfits := hsizes w (List.mem_reverse.mp (List.mem_of_find?_eq_some hw))
    rw [← virtualNodeSize_of_size hfits]
    apply ConsistentHash.new_isSome_iff.mp (Option.isSome_iff_exists.mpr ⟨ring, hring⟩) w.dir
    rw [lookup_parsed hsizes, hw]
    rfl
  · rintro ⟨hsizes, hnodes⟩
    have hsome : (ConsistentHash.new sort hashFunc (getWeightedDirs (parsed ws))).isSome := by
      rw [ConsistentHash.new_isSome_iff]
      intro dir weight hweight
      rw [lookup_parsed hsizes] at hweight
      obtain ⟨w, hw, rfl⟩ := Option.map_eq_some_iff.mp hweight
      have hfits := hsizes w (List.mem_reverse.mp (List.mem_of_find?_eq_some hw))
      rw [virtualNodeSize_of_size hfits]
      exact hnodes w (lastOf_of_find hw).1
    obtain ⟨ring, hring⟩ := Option.isSome_iff_exists.mp hsome
    refine ⟨sizes_parsed_iff.mpr hsizes, ring, hring, ?_⟩
    intro w hw
    have hfits := hsizes w (List.mem_reverse.mp (List.mem_of_find?_eq_some hw))
    have hlookup : (getWeightedDirs (parsed ws)).lookup w.dir
        = some (max 1 (w.size / 2 ^ 27)) := by
      rw [lookup_parsed hsizes, hw]
      rfl
    rw [countP_hashRing hsort hring hlookup, virtualNodeSize_of_size hfits]

end Exact

/-- No text makes the parser look at the last letter of an empty one. In a text that is
accepted the sizes are what was written, and the ring is built with the nodes that they ask
for, exactly if the sizes fit into 64 bits and the numbers of nodes into 32 bits. -/
theorem cacheDirs_exact_iff {lib : ConfigLibrary} (hlib : lib.Documented)
    {sort : List VirtualNode → List VirtualNode} (hsort : RingSort sort)
    (hashFunc : String → UInt64) (dirs : String) :
    parseCacheDirs lib dirs ≠ .error .emptyView ∧
    ∀ shards, parseCacheDirs lib dirs = .ok shards → ∃ ws, writtenDirs lib dirs = some ws ∧
      (ShardsExact sort hashFunc ws shards ↔ WidthsSuffice ws) := by
  constructor
  · intro herror
    obtain ⟨e, -, he⟩ := mapM_error herror
    exact parseCacheDir_ne_emptyView hlib e he
  · intro shards hshards
    obtain ⟨ws, hws, rfl⟩ := parseCacheDirs_ok hshards
    exact ⟨ws, hws, shardsExact_iff hsort⟩

/-- A library as documented, which reads digits only. -/
def digitLibrary : ConfigLibrary where
  split text delim := ((text.toList.splitOn delim).filter (· ≠ [])).map String.ofList
  tryParse text :=
    let value := text.toList.foldl (fun v c => 10 * v + (c.toNat - '0'.toNat)) 0
    if text.toList ≠ [] ∧ text.toList.all Char.isDigit ∧ value < 2 ^ 64 then
      some (UInt64.ofNat value)
    else none

theorem digitLibrary_documented : digitLibrary.Documented where
  split := by
    intro text delim part hpart
    obtain ⟨letters, hletters, rfl⟩ := List.mem_map.mp hpart
    have hne : letters ≠ [] := by simpa using (List.mem_filter.mp hletters).2
    intro hempty
    exact hne (by simpa using congrArg String.toList hempty)

theorem cacheDirs_exact_megabytes :
    ∃ shards, parseCacheDirs digitLibrary "100M,/a" = .ok shards ∧
      ShardsExact Yadcc.sampleLibrary.sort Yadcc.sampleLibrary.xxHash
        [⟨"/a", 100, 2 ^ 20⟩] shards := by
  have hparse : parseCacheDirs digitLibrary "100M,/a" = .ok [("/a", 104857600)] := by
    decide +kernel
  have hwritten : writtenDirs digitLibrary "100M,/a" = some [⟨"/a", 100, 2 ^ 20⟩] := by
    decide +kernel
  obtain ⟨ws, hws, hexact⟩ := (cacheDirs_exact_iff digitLibrary_documented
    lawful_sampleLibrary.ringSort Yadcc.sampleLibrary.xxHash "100M,/a").2 _ hparse
  rw [hwritten, Option.some.injEq] at hws
  subst hws
  refine ⟨_, hparse, hexact.mpr ⟨by decide, ?_⟩⟩
  intro w hw
  have hmem := List.mem_of_find?_eq_some hw
  rw [List.mem_reverse, List.mem_singleton] at hmem
  subst hmem
  decide

/-- Sixteen exbibytes wrap around to nothing, and six pebibytes ask for more nodes than the
loop can count. -/
theorem cacheDirs_wrap :
    parseCacheDirs digitLibrary "17179869184G,/a" = .ok [("/a", 0)] ∧
    writtenDirs digitLibrary "17179869184G,/a" = some [⟨"/a", 2 ^ 34, 2 ^ 30⟩] ∧
    (∀ sort hashFunc, ¬ShardsExact sort hashFunc [⟨"/a", 2 ^ 34, 2 ^ 30⟩] [("/a", 0)]) ∧
    parseCacheDirs digitLibrary "6291456G,/b" = .ok [("/b", 6755399441055744)] ∧
    writtenDirs digitLibrary "6291456G,/b" = some [⟨"/b", 6291456, 2 ^ 30⟩] ∧
    (∀ sort hashFunc,
      ConsistentHash.new sort hashFunc (getWeightedDirs [("/b", 6755399441055744)]) = none) := by
  refine ⟨by decide +kernel, by decide +kernel, ?_, by decide +kernel, by decide +kernel, ?_⟩
  · intro sort hashFunc hexact
    exact absurd hexact.sizes (by decide)
  · intro sort hashFunc
    rw [← Option.not_isSome_iff_eq_none, ConsistentHash.new_isSome_iff]
    intro hnodes
    exact absurd (hnodes "/b" 50331648 (by decide)) (by decide)

end Yadcc
