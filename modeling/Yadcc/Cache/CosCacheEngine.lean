/-
# Enumerating the objects in the object store

The engine lists its 128 sub-directories page by page, merges the lists, sorts them by the
times it has read, the newest first, and marks for removal what follows the entries that
fill its capacity. An entry is added before the check of its prefix, and the times come from
a conversion that is not monotone. This module has the enumeration, and determines exactly
which contents of the bucket are enumerated as they are.
-/

import Yadcc.Cache.CosTimestamp

namespace Yadcc.Cache

open Yadcc.Lib
open Yadcc.Lib.Calendar (monthLength)
open Yadcc.Lib.Shell (ascii)

/-! ## Listing a directory -/

/-- One of `contents` in the answer of the object store. -/
structure Content where
  key : Bytes
  lastModified : Bytes
  size : ℕ

structure CosGetBucketRequest where
  marker : Bytes
  keyPrefix : Bytes

structure CosGetBucketResult where
  contents : List Content
  isTruncated : Bool
  nextMarker : Bytes

/-- The object store: what it answers to a request, and which of the calls of the fiber that
lists a sub-directory fail. -/
structure CosClient where
  bucket : CosGetBucketRequest → CosGetBucketResult
  fails : ℕ → ℕ → Bool

structure EntryDesc where
  key : Bytes
  timestamp : ℤ
  size : ℕ

/-- An entry as `emplace_back` leaves it. -/
def EntryDesc.empty : EntryDesc := ⟨[], 0, 0⟩

def kMaxEntries : ℕ := 1048576

def kSubDirs : ℕ := 128

/-- The `n`-th call of a fiber. -/
def CosClient.execute (client : CosClient) (fiber n : ℕ) (req : CosGetBucketRequest) :
    Option CosGetBucketResult :=
  if client.fails fiber n then none else some (client.bucket req)

/-- A call that is made again when it fails, at most `retries` times. The number of the next
call comes with the result. -/
def CosClient.executeRetrying (client : CosClient) (fiber : ℕ) (req : CosGetBucketRequest) :
    ℕ → ℕ → Option CosGetBucketResult × ℕ
  | 0, n => (client.execute fiber n req, n + 1)
  | retries + 1, n =>
      match client.execute fiber n req with
      | some result => (some result, n + 1)
      | none => executeRetrying client fiber req retries (n + 1)

/-- The entry that is added for an object. It is added first, and left empty when the key
turns out to be from elsewhere. -/
def entryOf (lib : CosLibrary) (subdir : Bytes) (e : Content) : EntryDesc :=
  if subdir.isPrefixOf e.key then
    { key := e.key.drop subdir.length
      size := e.size
      timestamp := (fromIso8601Timestamp lib e.lastModified).getD 0 }
  else .empty

def getEntriesLoop (lib : CosLibrary) (client : CosClient) (fiber : ℕ) (subdir : Bytes) :
    ℕ → Bytes → ℕ → List EntryDesc → Option (List EntryDesc)
  | 0, _, _, _ => none
  | fuel + 1, marker, n, entries =>
      match client.executeRetrying fiber ⟨marker, subdir⟩ 3 n with
      | (none, _) => some entries
      | (some result, n') =>
          let merged := entries ++ result.contents.map (entryOf lib subdir)
          if kMaxEntries < merged.length then some merged
          else if !result.isTruncated then some merged
          else getEntriesLoop lib client fiber subdir fuel result.nextMarker n' merged

def getEntriesIn (lib : CosLibrary) (client : CosClient) (fuel fiber : ℕ) (subdir : Bytes) :
    Option (List EntryDesc) :=
  getEntriesLoop lib client fiber subdir fuel [] 0 []

/-! ## All directories -/

structure CosCacheEngine where
  cosEngineDir : Bytes
  capacity : ℕ
  pendingRemoval : List Bytes

/-- The `i`-th sub-directory, with the slash behind it. -/
def CosCacheEngine.subdir (engine : CosCacheEngine) (i : ℕ) : Bytes :=
  engine.cosEngineDir ++ [ascii '/'] ++ decimal i ++ [ascii '/']

/-- What is left when entries are skipped until their sizes reach the capacity. -/
def skipToCapacity (capacity : ℕ) : ℕ → List EntryDesc → List EntryDesc
  | _, [] => []
  | totalSize, e :: rest =>
      if totalSize < capacity then skipToCapacity capacity (totalSize + e.size) rest
      else e :: rest

def CosCacheEngine.getEntries (lib : CosLibrary) (client : CosClient) (fuel : ℕ)
    (engine : CosCacheEngine) : Option (List EntryDesc × CosCacheEngine) := do
  let results ← (List.range kSubDirs).mapM fun i =>
    getEntriesIn lib client fuel i (engine.subdir i)
  let merged := lib.sort EntryDesc.timestamp results.flatten
  let obsolete := skipToCapacity engine.capacity 0 merged
  return (merged,
    { engine with pendingRemoval := engine.pendingRemoval ++ obsolete.map EntryDesc.key })

/-! ## What the object store holds -/

/-- An object of the bucket. -/
structure Object where
  key : Bytes
  lastModified : Timestamp
  size : ℕ

def Object.content (o : Object) : Content := ⟨o.key, o.lastModified.text, o.size⟩

/-- The pages that are listed for a prefix, from a marker on to the last one. -/
inductive Lists (bucket : CosGetBucketRequest → CosGetBucketResult) (subdir : Bytes) :
    Bytes → List (List Object) → Prop
  | last {marker : Bytes} {page : List Object}
      (contents : (bucket ⟨marker, subdir⟩).contents = page.map Object.content)
      (truncated : (bucket ⟨marker, subdir⟩).isTruncated = false) :
      Lists bucket subdir marker [page]
  | more {marker : Bytes} {page : List Object} {pages : List (List Object)}
      (contents : (bucket ⟨marker, subdir⟩).contents = page.map Object.content)
      (truncated : (bucket ⟨marker, subdir⟩).isTruncated = true)
      (rest : Lists bucket subdir (bucket ⟨marker, subdir⟩).nextMarker pages) :
      Lists bucket subdir marker (page :: pages)

/-- The objects on the pages that the engine asks for when it has `count` entries: it stops
after the page on which there are too many. -/
def fetched : ℕ → List (List Object) → List Object
  | _, [] => []
  | count, page :: pages =>
      page ++ if kMaxEntries < count + page.length then []
        else fetched (count + page.length) pages

/-- Every call succeeds within its retries. -/
def CosClient.Retried (client : CosClient) : Prop :=
  ∀ fiber n, ∃ k ≤ 3, client.fails fiber (n + k) = false

variable {lib : CosLibrary} {client : CosClient}

/-- A directory of no more than the maximum of entries is listed to its end. -/
theorem fetched_eq_flatten {pages : List (List Object)} :
    ∀ {count : ℕ}, count + pages.flatten.length ≤ kMaxEntries →
      fetched count pages = pages.flatten := by
  induction pages with
  | nil =>
      intro count _
      rfl
  | cons page pages ih =>
      intro count h
      rw [List.flatten_cons, List.length_append] at h
      rw [fetched, if_neg (by omega), ih (by omega), List.flatten_cons]

theorem executeRetrying_eq {fiber : ℕ} (req : CosGetBucketRequest) {retries : ℕ} :
    ∀ {n k : ℕ}, k ≤ retries → client.fails fiber (n + k) = false →
      ∃ n', client.executeRetrying fiber req retries n = (some (client.bucket req), n') := by
  induction retries with
  | zero =>
      intro n k hk hfails
      obtain rfl : k = 0 := Nat.le_zero.mp hk
      rw [Nat.add_zero] at hfails
      refine ⟨n + 1, ?_⟩
      rw [CosClient.executeRetrying, CosClient.execute, hfails]
      rfl
  | succ retries ih =>
      intro n k hk hfails
      rw [CosClient.executeRetrying]
      cases hfirst : client.fails fiber n with
      | false =>
          refine ⟨n + 1, ?_⟩
          rw [CosClient.execute, hfirst]
          rfl
      | true =>
          have hne : k ≠ 0 := by
            rintro rfl
            rw [Nat.add_zero, hfirst] at hfails
            cases hfails
          have hnext : n + k = n + 1 + (k - 1) := by omega
          rw [hnext] at hfails
          obtain ⟨n', hn'⟩ := ih (by omega) hfails
          refine ⟨n', ?_⟩
          rw [CosClient.execute, hfirst]
          exact hn'

/-- Enough fuel lists what the engine asks for. -/
theorem getEntriesLoop_eq (hretried : client.Retried) {fiber : ℕ} {subdir marker : Bytes}
    {pages : List (List Object)} (hlists : Lists client.bucket subdir marker pages) :
    ∀ {fuel n : ℕ} {entries : List EntryDesc}, pages.length ≤ fuel →
      getEntriesLoop lib client fiber subdir fuel marker n entries =
        some (entries ++ (fetched entries.length pages).map
          fun o => entryOf lib subdir o.content) := by
  induction hlists with
  | @last marker page hcontents htruncated =>
      intro fuel n entries hfuel
      obtain ⟨fuel, rfl⟩ : ∃ f, fuel = f + 1 := ⟨fuel - 1, by simp at hfuel; omega⟩
      obtain ⟨k, hk, hfails⟩ := hretried fiber n
      obtain ⟨n', hn'⟩ := executeRetrying_eq ⟨marker, subdir⟩ hk hfails
      rw [getEntriesLoop, hn']
      dsimp only
      rw [hcontents, htruncated, List.map_map, fetched, fetched, ite_self, List.append_nil]
      simp only [Bool.not_false, if_true, ite_self]
      rfl
  | @more marker page pages hcontents htruncated _ ih =>
      intro fuel n entries hfuel
      obtain ⟨fuel, rfl⟩ : ∃ f, fuel = f + 1 := ⟨fuel - 1, by simp at hfuel; omega⟩
      obtain ⟨k, hk, hfails⟩ := hretried fiber n
      obtain ⟨n', hn'⟩ := executeRetrying_eq ⟨marker, subdir⟩ hk hfails
      rw [getEntriesLoop, hn']
      dsimp only
      rw [hcontents, htruncated, List.map_map, fetched]
      simp only [List.length_append, List.length_map, Bool.not_true, Bool.false_eq_true, if_false]
      by_cases hfull : kMaxEntries < entries.length + page.length
      · rw [if_pos hfull, if_pos hfull, List.append_nil]
        rfl
      · rw [if_neg hfull, if_neg hfull, ih (by simpa using hfuel)]
        simp only [List.length_append, List.length_map, List.map_append, List.append_assoc]
        rfl

/-! ## Listed objects -/

/-- An object that came back for a sub-directory. -/
structure ListedObject where
  subdir : Bytes
  object : Object

namespace ListedObject

/-- The key of the object begins with the sub-directory. -/
def Inside (o : ListedObject) : Prop := o.subdir <+: o.object.key

instance (o : ListedObject) : Decidable o.Inside := inferInstanceAs (Decidable (_ <+: _))

def suffix (o : ListedObject) : Bytes := o.object.key.drop o.subdir.length

def time (o : ListedObject) : Timestamp := o.object.lastModified

/-- The entry with the object's own key suffix, size and time. -/
def entry (o : ListedObject) : EntryDesc := ⟨o.suffix, o.time.converted, o.object.size⟩

theorem entryOf_of_inside (hlib : lib.Documented) {o : ListedObject} (h : o.Inside) :
    entryOf lib o.subdir o.object.content = o.entry := by
  have hprefix : o.subdir.isPrefixOf o.object.content.key = true := List.isPrefixOf_iff_prefix.mpr h
  unfold entryOf
  rw [if_pos hprefix]
  unfold Object.content
  dsimp only
  rw [Timestamp.fromIso8601Timestamp_text hlib, Option.getD_some]
  rfl

end ListedObject

def totalSize (objects : List ListedObject) : ℕ := (objects.map fun o => o.object.size).sum

/-- `kept` is the shortest part at the front of `kept ++ removed` that fills the capacity, or
there is not enough and it is everything. -/
structure Fills (capacity : ℕ) (kept removed : List ListedObject) : Prop where
  enough : removed = [] ∨ capacity ≤ totalSize kept
  least : ∀ first rest, first ++ rest = kept → rest ≠ [] → totalSize first < capacity

/-- No object comes before one that is at least a second newer. -/
def NewestFirst (objects : List ListedObject) : Prop :=
  objects.Pairwise fun o o' => ¬ o.time.instant + 1000 ≤ o'.time.instant

/-- The loop skips the entries of the shortest part that fills the capacity. -/
theorem skipToCapacity_eq (capacity : ℕ) (objects : List ListedObject) :
    ∀ before : List ListedObject,
      (∀ first rest, first ++ rest = before → rest ≠ [] → totalSize first < capacity) →
      ∃ kept removed, objects = kept ++ removed ∧ Fills capacity (before ++ kept) removed ∧
        skipToCapacity capacity (totalSize before) (objects.map ListedObject.entry)
          = removed.map ListedObject.entry := by
  induction objects with
  | nil =>
      intro before hbefore
      refine ⟨[], [], rfl, ⟨.inl rfl, ?_⟩, rfl⟩
      rwa [List.append_nil]
  | cons o rest ih =>
      intro before hbefore
      rw [List.map_cons, skipToCapacity]
      by_cases hlt : totalSize before < capacity
      · have hbefore' : ∀ first rest, first ++ rest = before ++ [o] → rest ≠ [] →
            totalSize first < capacity := by
          intro first after hsplit hne
          obtain ⟨middle, last, rfl⟩ := (List.eq_nil_or_concat after).resolve_left hne
          rw [List.concat_eq_append, ← List.append_assoc] at hsplit
          obtain ⟨hsplit, _⟩ := List.append_inj' hsplit rfl
          by_cases hnil : middle = []
          · rw [hnil, List.append_nil] at hsplit
            rwa [hsplit]
          · exact hbefore first middle hsplit hnil
        have htotal : totalSize (before ++ [o]) = totalSize before + o.object.size := by
          simp [totalSize]
        obtain ⟨kept, removed, rfl, hfills, hskip⟩ := ih (before ++ [o]) hbefore'
        refine ⟨o :: kept, removed, rfl, ?_, ?_⟩
        · rwa [List.append_assoc] at hfills
        · rw [if_pos hlt, ← hskip, htotal]
          rfl
      · refine ⟨[], o :: rest, rfl, ⟨.inr ?_, ?_⟩, ?_⟩
        · rw [List.append_nil]
          exact not_lt.mp hlt
        · rwa [List.append_nil]
        · rw [if_neg hlt, List.map_cons]

/-! ## The enumeration -/

/-- The objects that come back for all sub-directories. -/
def listed (engine : CosCacheEngine) (pages : ℕ → List (List Object)) : List ListedObject :=
  (List.range kSubDirs).flatMap fun i =>
    (fetched 0 (pages i)).map (ListedObject.mk (engine.subdir i))

/-- Those of them that are in the sub-directory they came back for. -/
def own (objects : List ListedObject) : List ListedObject :=
  objects.filter fun o => decide o.Inside

/-- The earlier date is taken for the smaller time. -/
def InOrder (lib : CosLibrary) (x y : Timestamp) : Prop :=
  ∃ s t, fromIso8601Timestamp lib x.text = some s ∧ fromIso8601Timestamp lib y.text = some t ∧
    s < t

/-- What is returned has one entry for each object in a sub-directory, and what follows the
shortest part, of the newest objects, that fills the capacity is marked for removal. The times
of the objects are in order. -/
structure Enumerated (lib : CosLibrary) (engine : CosCacheEngine) (objects : List ListedObject)
    (returned : List EntryDesc) (engine' : CosCacheEngine) : Prop where
  entries : returned.Perm ((own objects).map ListedObject.entry)
  removal : ∃ kept removed, (kept ++ removed).Perm (own objects) ∧ NewestFirst (kept ++ removed) ∧
    Fills engine.capacity kept removed ∧
    engine' = { engine with
      pendingRemoval := engine.pendingRemoval ++ removed.map ListedObject.suffix }
  monotone : ∀ o ∈ own objects, ∀ o' ∈ own objects, o.time.instant + 1000 ≤ o'.time.instant →
    InOrder lib o.time o'.time

theorem mapM_eq_some {α β : Type} {f : α → Option β} {g : α → β} {list : List α} :
    (∀ x ∈ list, f x = some (g x)) → list.mapM f = some (list.map g) := by
  induction list with
  | nil =>
      intro _
      rfl
  | cons x rest ih =>
      intro h
      rw [List.mapM_cons, h x (List.mem_cons_self ..),
        ih fun y hy => h y (List.mem_cons_of_mem x hy)]
      rfl

theorem getEntries_eq (lib : CosLibrary) (hretried : client.Retried) {engine : CosCacheEngine}
    {pages : ℕ → List (List Object)}
    (hlists : ∀ i < kSubDirs, Lists client.bucket (engine.subdir i) [] (pages i)) {fuel : ℕ}
    (hfuel : ∀ i < kSubDirs, (pages i).length ≤ fuel) :
    ∃ returned, returned = lib.sort EntryDesc.timestamp ((listed engine pages).map
        fun o => entryOf lib o.subdir o.object.content) ∧
      engine.getEntries lib client fuel = some (returned, { engine with
        pendingRemoval := engine.pendingRemoval ++
          (skipToCapacity engine.capacity 0 returned).map EntryDesc.key }) := by
  have hresults : (List.range kSubDirs).mapM
      (fun i => getEntriesIn lib client fuel i (engine.subdir i)) = some ((List.range kSubDirs).map
        fun i => (fetched 0 (pages i)).map fun o => entryOf lib (engine.subdir i) o.content) := by
    apply mapM_eq_some
    intro i hi
    have hlt := List.mem_range.mp hi
    exact getEntriesLoop_eq hretried (hlists i hlt) (hfuel i hlt)
  have hlisted : (listed engine pages).map (fun o => entryOf lib o.subdir o.object.content)
      = ((List.range kSubDirs).map fun i =>
          (fetched 0 (pages i)).map fun o => entryOf lib (engine.subdir i) o.content).flatten := by
    unfold listed
    rw [List.map_flatMap, List.flatMap_def]
    simp only [List.map_map]
    rfl
  refine ⟨_, rfl, ?_⟩
  unfold CosCacheEngine.getEntries
  rw [hresults, hlisted]
  rfl

theorem inOrder_iff (hlib : lib.Documented) {x y : Timestamp}
    (h : x.instant + 1000 ≤ y.instant) : InOrder lib x y ↔ ¬ Timestamp.OutOfOrder x y := by
  rw [← Timestamp.converted_lt_iff h]
  unfold InOrder
  rw [Timestamp.fromIso8601Timestamp_text hlib, Timestamp.fromIso8601Timestamp_text hlib]
  constructor
  · rintro ⟨s, t, hs, ht, hlt⟩
    cases hs
    cases ht
    exact hlt
  · intro hlt
    exact ⟨_, _, rfl, rfl, hlt⟩

/-- A stray object leaves an entry too many. -/
theorem inside_of_perm {objects : List ListedObject} {returned : List EntryDesc}
    (hreturned : returned.length = objects.length)
    (h : returned.Perm ((own objects).map ListedObject.entry)) : ∀ o ∈ objects, o.Inside := by
  have hlength := h.length_eq
  rw [List.length_map, hreturned] at hlength
  intro o ho
  exact of_decide_eq_true (List.length_filter_eq_length_iff.mp hlength.symm o ho)

theorem own_eq_self {objects : List ListedObject} (h : ∀ o ∈ objects, o.Inside) :
    own objects = objects :=
  List.filter_eq_self.mpr fun o ho => decide_eq_true (h o ho)

/-- Sorting the entries by the times read sorts the objects, where no two are out of order. -/
theorem exists_newestFirst (hlib : lib.Documented) {objects : List ListedObject}
    (horder : ∀ o ∈ objects, ∀ o' ∈ objects, o.time.instant + 1000 ≤ o'.time.instant →
      ¬ Timestamp.OutOfOrder o.time o'.time) :
    ∃ order, order.Perm objects ∧ NewestFirst order ∧
      lib.sort EntryDesc.timestamp (objects.map ListedObject.entry)
        = order.map ListedObject.entry := by
  have hcomp := congrFun₂ (List.eq_map_comp_perm ListedObject.entry)
    (lib.sort EntryDesc.timestamp (objects.map ListedObject.entry)) objects
  obtain ⟨order, hmap, hperm⟩ := hcomp.mpr (hlib.perm EntryDesc.timestamp _)
  refine ⟨order, hperm, ?_, hmap⟩
  have hsorted := hlib.sorted EntryDesc.timestamp (objects.map ListedObject.entry)
  rw [hmap, List.pairwise_map] at hsorted
  refine hsorted.imp_of_mem ?_
  intro o o' ho ho' hle hlater
  have hlt := (Timestamp.converted_lt_iff hlater).mpr
    (horder o (hperm.mem_iff.mp ho) o' (hperm.mem_iff.mp ho') hlater)
  exact absurd hle (not_le.mpr hlt)

section Run

variable {engine engine' : CosCacheEngine} {pages : ℕ → List (List Object)} {fuel : ℕ}
  {returned : List EntryDesc}

theorem inside_of_enumerated (hlib : lib.Documented) (hretried : client.Retried)
    (hlists : ∀ i < kSubDirs, Lists client.bucket (engine.subdir i) [] (pages i))
    (hfuel : ∀ i < kSubDirs, (pages i).length ≤ fuel)
    (hrun : engine.getEntries lib client fuel = some (returned, engine'))
    (h : Enumerated lib engine (listed engine pages) returned engine') :
    ∀ o ∈ listed engine pages, o.Inside := by
  obtain ⟨sorted, hsorted, heq⟩ := getEntries_eq lib hretried hlists hfuel
  rw [hrun, Option.some.injEq, Prod.mk.injEq] at heq
  have hlength : returned.length = (listed engine pages).length := by
    rw [heq.1, hsorted, (hlib.perm _ _).length_eq, List.length_map]
  exact inside_of_perm hlength h.entries

theorem enumerated_of_ordered (hlib : lib.Documented) (hretried : client.Retried)
    (hlists : ∀ i < kSubDirs, Lists client.bucket (engine.subdir i) [] (pages i))
    (hfuel : ∀ i < kSubDirs, (pages i).length ≤ fuel)
    (hinside : ∀ o ∈ listed engine pages, o.Inside)
    (horder : ∀ o ∈ listed engine pages, ∀ o' ∈ listed engine pages,
      o.time.instant + 1000 ≤ o'.time.instant → ¬ Timestamp.OutOfOrder o.time o'.time) :
    ∃ returned engine', engine.getEntries lib client fuel = some (returned, engine') ∧
      Enumerated lib engine (listed engine pages) returned engine' := by
  obtain ⟨returned, hreturned, hrun⟩ := getEntries_eq lib hretried hlists hfuel
  have hentries : (listed engine pages).map (fun o => entryOf lib o.subdir o.object.content)
      = (listed engine pages).map ListedObject.entry :=
    List.map_congr_left fun o ho => ListedObject.entryOf_of_inside hlib (hinside o ho)
  rw [hentries] at hreturned
  obtain ⟨order, hperm, hnewest, hsort⟩ := exists_newestFirst hlib horder
  obtain ⟨kept, removed, rfl, hfills, hskip⟩ := skipToCapacity_eq engine.capacity order []
    (by
      intro first rest hnil hne
      exact absurd (List.append_eq_nil_iff.mp hnil).2 hne)
  have hown := own_eq_self hinside
  refine ⟨returned, _, hrun, ?_, ?_, ?_⟩
  · rw [hown, hreturned]
    exact hlib.perm _ _
  · refine ⟨kept, removed, ?_, hnewest, hfills, ?_⟩
    · rwa [hown]
    · have hskip' : skipToCapacity engine.capacity 0 returned = removed.map ListedObject.entry := by
        rw [hreturned, hsort]
        exact hskip
      rw [hskip', List.map_map]
      rfl
  · rw [hown]
    intro o ho o' ho' hlater
    exact (inOrder_iff hlib hlater).mpr (horder o ho o' ho' hlater)

end Run

/-- The objects that come back are enumerated as they are if and only if every one is in the
sub-directory that was asked for, and the conversion of the dates brings no two of them out of
order; and that is when it keeps the order of two dates at all. -/
theorem getEntries_enumerated_iff (hlib : lib.Documented) (hretried : client.Retried)
    (engine : CosCacheEngine) (pages : ℕ → List (List Object))
    (hlists : ∀ i < kSubDirs, Lists client.bucket (engine.subdir i) [] (pages i)) (fuel : ℕ)
    (hfuel : ∀ i < kSubDirs, (pages i).length ≤ fuel) :
    (∀ x y : Timestamp, x.instant + 1000 ≤ y.instant →
      (InOrder lib x y ↔ ¬ Timestamp.OutOfOrder x y)) ∧
    ((∃ returned engine', engine.getEntries lib client fuel = some (returned, engine') ∧
        Enumerated lib engine (listed engine pages) returned engine') ↔
      (∀ o ∈ listed engine pages, o.Inside) ∧
        ∀ o ∈ listed engine pages, ∀ o' ∈ listed engine pages,
          o.time.instant + 1000 ≤ o'.time.instant → ¬ Timestamp.OutOfOrder o.time o'.time) := by
  refine ⟨fun x y h => inOrder_iff hlib h, ?_, ?_⟩
  · rintro ⟨returned, engine', hrun, henumerated⟩
    have hinside := inside_of_enumerated hlib hretried hlists hfuel hrun henumerated
    refine ⟨hinside, ?_⟩
    intro o ho o' ho' hlater
    rw [← own_eq_self hinside] at ho ho'
    exact (inOrder_iff hlib hlater).mp (henumerated.monotone o ho o' ho' hlater)
  · rintro ⟨hinside, horder⟩
    exact enumerated_of_ordered hlib hretried hlists hfuel hinside horder

/-! ## Sample contents -/

def sampleLibrary : CosLibrary where
  tryParse digits :=
    if digits ≠ [] ∧ digits.all isDigit ∧ decimalValue digits < 2 ^ 32 then
      some (decimalValue digits)
    else none
  sort time list := list.insertionSort fun x y => time y ≤ time x

theorem documented_sampleLibrary : sampleLibrary.Documented where
  tryParse := by
    intro digits hne hdigits hlt
    exact if_pos ⟨hne, List.all_eq_true.mpr hdigits, hlt⟩
  perm time list := List.perm_insertionSort _ list
  sorted := by
    intro α time list
    have htotal : Std.Total fun x y : α => time y ≤ time x := ⟨fun x y => le_total _ _⟩
    have htrans : IsTrans α fun x y => time y ≤ time x := ⟨fun x y z hxy hyz => hyz.trans hxy⟩
    exact List.pairwise_insertionSort _ list

def sampleEngine : CosCacheEngine := ⟨[ascii 'd'], 1, []⟩

/-- Two objects in the first directory, on a page each; no call fails. -/
def twoPages (first second : Object) : CosClient where
  bucket req :=
    if req.keyPrefix = sampleEngine.subdir 0 then
      if req.marker = [] then ⟨[first.content], true, first.key⟩ else ⟨[second.content], false, []⟩
    else ⟨[], false, []⟩
  fails _ _ := false

def twoPagesListed (first second : Object) (i : ℕ) : List (List Object) :=
  if i = 0 then [[first], [second]] else [[]]

theorem subdir_injective (engine : CosCacheEngine) {i j : ℕ}
    (h : engine.subdir i = engine.subdir j) : i = j := by
  unfold CosCacheEngine.subdir at h
  have hdecimal := List.append_cancel_left (List.append_cancel_right h)
  rw [← decimalValue_decimal i, ← decimalValue_decimal j, hdecimal]

theorem retried_twoPages (first second : Object) : (twoPages first second).Retried :=
  fun _ _ => ⟨0, Nat.zero_le _, rfl⟩

theorem lists_twoPages {first : Object} (hkey : first.key ≠ []) (second : Object) (i : ℕ) :
    Lists (twoPages first second).bucket (sampleEngine.subdir i) []
      (twoPagesListed first second i) := by
  unfold twoPagesListed
  by_cases hi : i = 0
  · have hanswer : (twoPages first second).bucket ⟨first.key, sampleEngine.subdir 0⟩
        = ⟨[second.content], false, []⟩ := by
      unfold twoPages
      dsimp only
      rw [if_pos rfl, if_neg hkey]
    rw [hi, if_pos rfl]
    refine .more rfl rfl (.last ?_ ?_)
    · exact congrArg CosGetBucketResult.contents hanswer
    · exact congrArg CosGetBucketResult.isTruncated hanswer
  · have hanswer : (twoPages first second).bucket ⟨[], sampleEngine.subdir i⟩
        = ⟨[], false, []⟩ := by
      unfold twoPages
      dsimp only
      rw [if_neg fun h => hi (subdir_injective sampleEngine h)]
    rw [if_neg hi]
    refine .last ?_ ?_
    · exact congrArg CosGetBucketResult.contents hanswer
    · exact congrArg CosGetBucketResult.isTruncated hanswer

theorem length_twoPagesListed (first second : Object) (i : ℕ) :
    (twoPagesListed first second i).length ≤ 2 := by
  unfold twoPagesListed
  split_ifs
  · exact le_refl 2
  · exact Nat.le_succ 1

theorem listed_twoPages (first second : Object) : listed sampleEngine (twoPagesListed first second)
    = [⟨sampleEngine.subdir 0, first⟩, ⟨sampleEngine.subdir 0, second⟩] := by
  have hfew : 0 + [[first], [second]].flatten.length ≤ kMaxEntries :=
    (by decide : 2 ≤ kMaxEntries)
  have hfirst : fetched 0 (twoPagesListed first second 0) = [first, second] :=
    fetched_eq_flatten hfew
  have hothers : ∀ i ∈ (List.range 127).map Nat.succ,
      (fetched 0 (twoPagesListed first second i)).map (ListedObject.mk (sampleEngine.subdir i))
        = [] := by
    intro i hi
    obtain ⟨j, _, rfl⟩ := List.mem_map.mp hi
    rfl
  unfold listed kSubDirs
  rw [List.range_succ_eq_map, List.flatMap_cons, List.flatMap_eq_nil_iff.mpr hothers, hfirst]
  rfl

/-- Noon of a day in 2021. -/
def noon (month day : ℕ) (hmonth : 0 < month ∧ month ≤ 12)
    (hday : 0 < day ∧ day ≤ monthLength 2021 month) : Timestamp :=
  ⟨2021, month, day, 12, 0, 0, 0, by decide, hmonth.1, hmonth.2, hday.1, hday.2, by decide,
    by decide, by decide, by decide⟩

def january31 : Timestamp := noon 1 31 (by decide) (by decide)

def february1 : Timestamp := noon 2 1 (by decide) (by decide)

def february2 : Timestamp := noon 2 2 (by decide) (by decide)

/-- An object of one byte. -/
def objectAt (key : String) (time : Timestamp) : Object := ⟨Shell.asciiBytes key, time, 1⟩

theorem time_objectAt (subdir : Bytes) (key : String) (time : Timestamp) :
    (ListedObject.mk subdir (objectAt key time)).time = time := rfl

/-- Two days of a month keep their order. -/
theorem getEntries_enumerated_february :
    InOrder sampleLibrary february1 february2 ∧
      ∃ returned engine', sampleEngine.getEntries sampleLibrary
          (twoPages (objectAt "d/0/a" february1) (objectAt "d/0/b" february2)) 2
            = some (returned, engine') ∧
        Enumerated sampleLibrary sampleEngine
          (listed sampleEngine
            (twoPagesListed (objectAt "d/0/a" february1) (objectAt "d/0/b" february2)))
          returned engine' := by
  have hiff := getEntries_enumerated_iff documented_sampleLibrary
    (retried_twoPages (objectAt "d/0/a" february1) (objectAt "d/0/b" february2)) sampleEngine _
    (fun i _ => lists_twoPages (by decide) _ i) 2 (fun i _ => length_twoPagesListed _ _ i)
  refine ⟨(hiff.1 february1 february2 (by decide +kernel)).mpr (by decide +kernel),
    hiff.2.mpr ?_⟩
  rw [listed_twoPages]
  decide +kernel

/-- An object of the last of January is taken to be newer than one of the first of February;
and an object from elsewhere gets an entry. -/
theorem getEntries_out_of_order : sampleLibrary.Documented ∧
    (∀ first second, (twoPages first second).Retried) ∧
    (∀ first second, first.key ≠ [] → ∀ i < kSubDirs,
      Lists (twoPages first second).bucket (sampleEngine.subdir i) []
        (twoPagesListed first second i)) ∧
    (january31.instant + 1000 ≤ february1.instant ∧
      ¬ InOrder sampleLibrary january31 february1) ∧
    (¬ ∃ returned engine', sampleEngine.getEntries sampleLibrary
        (twoPages (objectAt "d/0/a" january31) (objectAt "d/0/b" february1)) 2
          = some (returned, engine') ∧
      Enumerated sampleLibrary sampleEngine
        (listed sampleEngine
          (twoPagesListed (objectAt "d/0/a" january31) (objectAt "d/0/b" february1)))
        returned engine') ∧
    ¬ ∃ returned engine', sampleEngine.getEntries sampleLibrary
        (twoPages (objectAt "d/0/a" february1) (objectAt "d/1/b" february2)) 2
          = some (returned, engine') ∧
      Enumerated sampleLibrary sampleEngine
        (listed sampleEngine
          (twoPagesListed (objectAt "d/0/a" february1) (objectAt "d/1/b" february2)))
        returned engine' := by
  have hlater : january31.instant + 1000 ≤ february1.instant := by decide +kernel
  have hnot : ¬ InOrder sampleLibrary january31 february1 := by
    rw [inOrder_iff documented_sampleLibrary hlater]
    decide +kernel
  refine ⟨documented_sampleLibrary, retried_twoPages, fun _ second hkey i _ =>
    lists_twoPages hkey second i, ⟨hlater, hnot⟩, ?_, ?_⟩
  · rintro ⟨returned, engine', _, henumerated⟩
    have hinside : ∀ o ∈ listed sampleEngine
        (twoPagesListed (objectAt "d/0/a" january31) (objectAt "d/0/b" february1)), o.Inside := by
      rw [listed_twoPages]
      decide
    have hmonotone := henumerated.monotone
    rw [own_eq_self hinside, listed_twoPages] at hmonotone
    have hpair := hmonotone _ (List.mem_cons_self ..) _
      (List.mem_cons_of_mem _ (List.mem_cons_self ..))
    rw [time_objectAt, time_objectAt] at hpair
    exact hnot (hpair hlater)
  · rintro ⟨returned, engine', hrun, henumerated⟩
    have hinside := inside_of_enumerated documented_sampleLibrary (retried_twoPages _ _)
      (fun i _ => lists_twoPages (by decide) _ i) (fun i _ => length_twoPagesListed _ _ i) hrun
      henumerated
    rw [listed_twoPages] at hinside
    exact absurd (hinside _ (List.mem_cons_of_mem _ (List.mem_cons_self ..))) (by decide)

end Yadcc.Cache
