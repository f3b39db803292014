/-
# Rebuilding the Bloom filter while keys move

The service rebuilds its Bloom filter from the keys of the in-memory cache and, some time
later, those of the engine behind it. Meanwhile entries are stored, looked up and purged,
and every lookup that hits stores its bytes into the in-memory cache. Here each of these is
a thread of its own that takes one step at a time. The question is whether the filter always
contains the keys of the entries whose put has returned. It does as long as no lookup and no
purge takes a key past the two listings, which the model makes precise.
-/

import Yadcc.Cache.BloomFilterGenerator
import Yadcc.Cache.InMemoryCacheInvariant
import Yadcc.Lib.Transition

namespace Yadcc.Cache

open Yadcc.Lib

/-! ## Threads -/

/-- Where a `PutEntry` is: before the engine, before the in-memory cache, or before the
generator of the filter. -/
inductive PutPhase
  | started
  | stored
  | cached
  deriving DecidableEq

structure PutEntry where
  key : String
  body : Buffer
  phase : PutPhase

/-- Where a `TryGetEntry` is: before the in-memory cache, before the engine, or with bytes
that it is about to store. `filling` is the number of the put that the bytes came from. -/
inductive GetPhase
  | started
  | missed
  | found (bytes : Buffer) (filling : ℕ)

structure TryGetEntry where
  key : String
  phase : GetPhase

/-- What a rebuild has listed. -/
inductive RebuildPhase
  | begun
  | l1Listed (keys : List String)
  | listed (keys : List String)

structure Rebuilding where
  start : Time
  phase : RebuildPhase

/-- The service with its threads. `l1Filling` and `l2Filling` are no data of the service: they
tell for the keys that the two levels hold which put the entry came from. -/
structure RunningService (lib : BloomLibrary) where
  now : Time
  inMemoryCache : InMemoryCache
  cache : UnorderedMap String Buffer
  bfGen : BloomFilterGenerator lib
  puts : UnorderedMap ℕ PutEntry
  nextPut : ℕ
  gets : UnorderedMap ℕ TryGetEntry
  nextGet : ℕ
  rebuilding : Option Rebuilding
  l1Filling : String → ℕ
  l2Filling : String → ℕ

namespace RunningService

variable {lib : BloomLibrary}

/-- How long a rebuild may take from the start of its listings. -/
def rebuildBound : Time := 10 * second

/-- A started service over an engine that has entries already. -/
def start (lib : BloomLibrary) (maxSize : ℕ) (cache : UnorderedMap String Buffer) (now : Time) :
    RunningService lib where
  now := now
  inMemoryCache := .empty maxSize
  cache := cache
  bfGen := BloomFilterGenerator.rebuild ((InMemoryCache.empty maxSize).getKeys ++ cache.keys) 0
    now ⟨lib.empty, []⟩
  puts := ∅
  nextPut := 1
  gets := ∅
  nextGet := 0
  rebuilding := none
  l1Filling := fun _ => 0
  l2Filling := fun _ => 0

/-- Store into the in-memory cache, which may evict other entries, or refuse. -/
def storeL1 (rule : AdaptiveUpdate) (key : String) (bytes : Buffer) (filling : ℕ)
    (s : RunningService lib) : Option (RunningService lib) :=
  match s.inMemoryCache.put rule key bytes with
  | .error _ => none
  | .ok (stored, inMemoryCache) =>
      some { s with
        inMemoryCache
        l1Filling := if stored then Function.update s.l1Filling key filling else s.l1Filling }

/-! ## Steps -/

inductive Action
  | tick (nanoseconds : ℕ)
  | putEntry (key : String) (body : Buffer)
  | putL2 (put : ℕ) (stored : Bool)
  | putL1 (put : ℕ)
  | putAdd (put : ℕ)
  | tryGetEntry (key : String)
  | getL1 (get : ℕ)
  | getL2 (get : ℕ)
  | getPut (get : ℕ)
  | purge (purged : List String)
  | rebuildTimer
  | listL1
  | listL2
  | rebuild

/-- Take a step; `none` when the thread is not there. The engine may fail to store. -/
def next (rule : AdaptiveUpdate) (s : RunningService lib) :
    Action → Option (RunningService lib)
  | .tick nanoseconds => some { s with now := s.now + nanoseconds }
  | .putEntry key body =>
      some { s with
        puts := s.puts.insert s.nextPut ⟨key, body, .started⟩
        nextPut := s.nextPut + 1 }
  | .putL2 put stored =>
      match s.puts.lookup put with
      | some ⟨key, body, .started⟩ =>
          some { s with
            cache := if stored then s.cache.insert key body else s.cache
            l2Filling := if stored then Function.update s.l2Filling key put else s.l2Filling
            puts := s.puts.insert put ⟨key, body, .stored⟩ }
      | _ => none
  | .putL1 put =>
      match s.puts.lookup put with
      | some ⟨key, body, .stored⟩ =>
          (s.storeL1 rule key body put).map fun s =>
            { s with puts := s.puts.insert put ⟨key, body, .cached⟩ }
      | _ => none
  | .putAdd put =>
      match s.puts.lookup put with
      | some ⟨key, _, .cached⟩ =>
          some { s with
            bfGen := s.bfGen.add key s.now
            puts := s.puts.erase put }
      | _ => none
  | .tryGetEntry key =>
      some { s with
        gets := s.gets.insert s.nextGet ⟨key, .started⟩
        nextGet := s.nextGet + 1 }
  | .getL1 get =>
      match s.gets.lookup get with
      | some ⟨key, .started⟩ =>
          match s.inMemoryCache.tryGet key with
          | .error _ => none
          | .ok (none, inMemoryCache) =>
              some { s with
                inMemoryCache
                gets := s.gets.insert get ⟨key, .missed⟩ }
          | .ok (some bytes, inMemoryCache) =>
              some { s with
                inMemoryCache
                gets := s.gets.insert get ⟨key, .found bytes (s.l1Filling key)⟩ }
      | _ => none
  | .getL2 get =>
      match s.gets.lookup get with
      | some ⟨key, .missed⟩ =>
          match s.cache.lookup key with
          | none => some { s with gets := s.gets.erase get }
          | some bytes =>
              some { s with
                gets := s.gets.insert get ⟨key, .found bytes (s.l2Filling key)⟩ }
      | _ => none
  | .getPut get =>
      match s.gets.lookup get with
      | some ⟨key, .found bytes filling⟩ =>
          (s.storeL1 rule key bytes filling).map fun s => { s with gets := s.gets.erase get }
      | _ => none
  | .purge purged =>
      some { s with cache := s.cache.filterEntries fun key _ => !purged.contains key }
  | .rebuildTimer =>
      match s.rebuilding with
      | none => some { s with rebuilding := some ⟨s.now, .begun⟩ }
      | some _ => none
  | .listL1 =>
      match s.rebuilding with
      | some ⟨start, .begun⟩ =>
          some { s with rebuilding := some ⟨start, .l1Listed s.inMemoryCache.getKeys⟩ }
      | _ => none
  | .listL2 =>
      match s.rebuilding with
      | some ⟨start, .l1Listed keys⟩ =>
          some { s with rebuilding := some ⟨start, .listed (keys ++ s.cache.keys)⟩ }
      | _ => none
  | .rebuild =>
      match s.rebuilding with
      | some ⟨start, .listed keys⟩ =>
          if s.now ≤ start + rebuildBound then
            some { s with
              bfGen := s.bfGen.rebuild keys (10 * second) s.now
              rebuilding := none }
          else none
      | _ => none

def Step (rule : AdaptiveUpdate) (s : RunningService lib) (a : Action)
    (t : RunningService lib) : Prop :=
  s.next rule a = some t

/-! ## Entries and their puts -/

def inL1 (s : RunningService lib) (key : String) : Bool :=
  (s.inMemoryCache.memoryBufferMapper.lookup key).isSome

def inL2 (s : RunningService lib) (key : String) : Bool := (s.cache.lookup key).isSome

/-- The put with this number has returned. -/
def returned (s : RunningService lib) (put : ℕ) : Bool := (s.puts.lookup put).isNone

/-- The key has an entry in the in-memory cache whose put has returned. -/
def filledL1 (s : RunningService lib) (key : String) : Bool :=
  s.inL1 key && s.returned (s.l1Filling key)

def filledL2 (s : RunningService lib) (key : String) : Bool :=
  s.inL2 key && s.returned (s.l2Filling key)

/-- The key has an entry whose put has returned. -/
def filled (s : RunningService lib) (key : String) : Bool := s.filledL1 key || s.filledL2 key

/-- The filter that is being built will contain the key, if nothing happens to it. -/
def willContain (s : RunningService lib) (key : String) : Bool :=
  match s.rebuilding with
  | some ⟨start, .l1Listed keys⟩ =>
      keys.contains key || s.inL2 key || decide (s.bfGen.AddedSince start key)
  | some ⟨start, .listed keys⟩ => keys.contains key || decide (s.bfGen.AddedSince start key)
  | _ => true

/-- A lookup puts the bytes of a returned put back only while an entry of the key is left, or
while both the filter and the one that is being built have the key anyway; and between the
two listings of a rebuild no key is purged that is in the in-memory cache but was not when
that was listed, unless it was added since then. -/
def keepsTrack (s : RunningService lib) : Action → Bool
  | .getPut get =>
      match s.gets.lookup get with
      | some ⟨key, .found bytes filling⟩ =>
          s.filled key || !s.returned filling ||
            decide (s.inMemoryCache.maxSizeInBytes < bytes.length) ||
            (lib.possiblyContains s.bfGen.getBloomFilter key && s.willContain key)
      | _ => true
  | .purge purged =>
      match s.rebuilding with
      | some ⟨start, .l1Listed keys⟩ =>
          purged.all fun key => !s.filledL1 key || !s.inL2 key || keys.contains key ||
            decide (s.bfGen.AddedSince start key)
      | _ => true
  | _ => true

def KeepsTrack (s : RunningService lib) (a : Action) : Prop := s.keepsTrack a = true

instance (s : RunningService lib) (a : Action) : Decidable (s.KeepsTrack a) :=
  inferInstanceAs (Decidable (_ = true))

/-- The filter contains every key with an entry whose put has returned. -/
def FilterComplete (s : RunningService lib) : Prop :=
  ∀ key, s.filled key = true → s.bfGen.Contains key

/-! ## The invariant -/

section Tracked

variable {rule : AdaptiveUpdate} {s t : RunningService lib}

/-- The number is one of a put of this key, or of a put that has returned. -/
structure Belongs (puts : UnorderedMap ℕ PutEntry) (nextPut put : ℕ) (key : String) : Prop where
  below : put < nextPut
  own : ∀ p, puts.lookup put = some p → p.key = key

/-- What the rebuild under way still needs for its filter to contain the key. -/
def Covered (cache : UnorderedMap String Buffer) (bfGen : BloomFilterGenerator lib)
    (r : Rebuilding) (key : String) : Prop :=
  match r.phase with
  | .begun => True
  | .l1Listed keys =>
      key ∈ keys ∨ (cache.lookup key).isSome = true ∨ bfGen.AddedSince r.start key
  | .listed keys => key ∈ keys ∨ bfGen.AddedSince r.start key

/-- The filter contains the key, and so will the one that is being built. -/
structure Safe (cache : UnorderedMap String Buffer) (bfGen : BloomFilterGenerator lib)
    (rebuilding : Option Rebuilding) (key : String) : Prop where
  contains : bfGen.Contains key
  covered : ∀ r, rebuilding = some r → Covered cache bfGen r key

structure Tracked (s : RunningService lib) : Prop where
  memory : s.inMemoryCache.Invariant
  history : s.bfGen.Ordered s.now
  begun : ∀ r, s.rebuilding = some r → r.start ≤ s.now
  puts : ∀ put p, s.puts.lookup put = some p → Belongs s.puts s.nextPut put p.key
  l1 : ∀ key, s.inL1 key = true → Belongs s.puts s.nextPut (s.l1Filling key) key
  l2 : ∀ key, s.inL2 key = true → Belongs s.puts s.nextPut (s.l2Filling key) key
  found : ∀ get key bytes filling, s.gets.lookup get = some ⟨key, .found bytes filling⟩ →
    Belongs s.puts s.nextPut filling key
  safe : ∀ key, s.filled key = true → Safe s.cache s.bfGen s.rebuilding key

theorem filled_iff {key : String} : s.filled key = true ↔
    (s.inL1 key = true ∧ s.returned (s.l1Filling key) = true) ∨
      (s.inL2 key = true ∧ s.returned (s.l2Filling key) = true) := by
  simp [filled, filledL1, filledL2]

/-- A key stays safe while the filter, the history and the engine only grow, and no rebuild
makes a step. -/
theorem Safe.mono {cache cache' : UnorderedMap String Buffer}
    {bfGen bfGen' : BloomFilterGenerator lib} {rebuilding : Option Rebuilding} {key : String}
    (h : Safe cache bfGen rebuilding key)
    (hcontains : bfGen.Contains key → bfGen'.Contains key)
    (hadded : ∀ since, bfGen.AddedSince since key → bfGen'.AddedSince since key)
    (hengine : (cache.lookup key).isSome = true → (cache'.lookup key).isSome = true) :
    Safe cache' bfGen' rebuilding key := by
  refine ⟨hcontains h.contains, ?_⟩
  intro r hr
  have hcovered := h.covered r hr
  unfold Covered at hcovered ⊢
  split
  · trivial
  · next keys hphase =>
      rw [hphase] at hcovered
      rcases hcovered with hlisted | hin | hrecent
      · exact .inl hlisted
      · exact .inr (.inl (hengine hin))
      · exact .inr (.inr (hadded r.start hrecent))
  · next keys hphase =>
      rw [hphase] at hcovered
      rcases hcovered with hlisted | hrecent
      · exact .inl hlisted
      · exact .inr (hadded r.start hrecent)

/-- What a store into the in-memory cache comes to. -/
theorem storeL1_cases (hc : s.inMemoryCache.Invariant) {key : String} {bytes : Buffer}
    {filling : ℕ} (h : s.storeL1 rule key bytes filling = some t) :
    ∃ inMemoryCache l1Filling, t = { s with inMemoryCache, l1Filling } ∧
      inMemoryCache.Invariant ∧
      ∀ k, t.inL1 k = true →
        (k = key ∧ l1Filling k = filling ∧ bytes.length ≤ s.inMemoryCache.maxSizeInBytes) ∨
          (s.inL1 k = true ∧ l1Filling k = s.l1Filling k) := by
  obtain ⟨c', hput, hc', -, hstores⟩ := InMemoryCache.put_ok hc rule key bytes
  unfold storeL1 at h
  rw [hput] at h
  cases h
  refine ⟨_, _, rfl, hc', ?_⟩
  intro k hk
  obtain ⟨entry, hentry⟩ := Option.isSome_iff_exists.mp hk
  by_cases hfits : bytes.length ≤ s.inMemoryCache.maxSizeInBytes
  · rw [if_pos hfits] at hstores
    simp only [decide_eq_true hfits, if_true]
    rcases hstores k entry hentry with ⟨hkey, -⟩ | ⟨entry', hkey, hentry', -⟩
    · exact .inl ⟨hkey, by rw [hkey, Function.update_self], hfits⟩
    · exact .inr ⟨Option.isSome_iff_exists.mpr ⟨entry', hentry'⟩, Function.update_of_ne hkey _ _⟩
  · rw [if_neg hfits] at hstores
    subst hstores
    rw [decide_eq_false hfits]
    exact .inr ⟨hk, rfl⟩

theorem Tracked.tick (h : s.Tracked) (nanoseconds : ℕ) :
    Tracked { s with now := s.now + nanoseconds } := by
  have hle : s.now ≤ s.now + nanoseconds := le_add_of_nonneg_right (Int.natCast_nonneg _)
  refine { h with history := h.history.mono hle, begun := ?_ }
  intro r hr
  exact (h.begun r hr).trans hle

theorem covered_of_willContain {key : String} (h : s.willContain key = true) (r : Rebuilding)
    (hr : s.rebuilding = some r) : Covered s.cache s.bfGen r key := by
  obtain ⟨start, phase⟩ := r
  unfold willContain at h
  cases phase with
  | begun => trivial
  | l1Listed keys =>
      simp only [hr, Bool.or_eq_true, List.contains_iff_mem, decide_eq_true_eq, or_assoc] at h
      exact h
  | listed keys =>
      simp only [hr, Bool.or_eq_true, List.contains_iff_mem, decide_eq_true_eq] at h
      exact h

/-! ## Puts that begin, go on and return -/

/-- A new put takes a number that nothing has. -/
theorem Tracked.putEntry (h : s.Tracked) (key : String) (body : Buffer) :
    Tracked { s with
      puts := s.puts.insert s.nextPut ⟨key, body, .started⟩
      nextPut := s.nextPut + 1 } := by
  have hlookup : ∀ put, put < s.nextPut →
      (s.puts.insert s.nextPut ⟨key, body, .started⟩).lookup put = s.puts.lookup put := by
    intro put hput
    rw [AList.lookup_insert_eq, if_neg (Nat.ne_of_lt hput)]
  have hbelongs : ∀ put k, Belongs s.puts s.nextPut put k →
      Belongs (s.puts.insert s.nextPut ⟨key, body, .started⟩) (s.nextPut + 1) put k := by
    intro put k hput
    refine ⟨Nat.lt_succ_of_lt hput.below, ?_⟩
    intro p hp
    rw [hlookup put hput.below] at hp
    exact hput.own p hp
  refine { h with puts := ?_, l1 := ?_, l2 := ?_, found := ?_, safe := ?_ }
  · intro put p hp
    by_cases hput : put = s.nextPut
    · refine ⟨hput ▸ Nat.lt_succ_self _, ?_⟩
      intro p' hp'
      change (s.puts.insert s.nextPut ⟨key, body, .started⟩).lookup put = some p' at hp'
      change (s.puts.insert s.nextPut ⟨key, body, .started⟩).lookup put = some p at hp
      rw [hp] at hp'
      cases hp'
      rfl
    · change (s.puts.insert s.nextPut ⟨key, body, .started⟩).lookup put = some p at hp
      rw [AList.lookup_insert_eq, if_neg hput] at hp
      exact hbelongs put p.key (h.puts put p hp)
  · exact fun k hk => hbelongs _ _ (h.l1 k hk)
  · exact fun k hk => hbelongs _ _ (h.l2 k hk)
  · exact fun get k bytes filling hget => hbelongs _ _ (h.found get k bytes filling hget)
  · intro k hk
    apply h.safe k
    have hreturned : ∀ put, Belongs s.puts s.nextPut put k →
        ((s.puts.insert s.nextPut ⟨key, body, .started⟩).lookup put).isNone = true →
          s.returned put = true := by
      intro put hput hret
      rwa [hlookup put hput.below] at hret
    rcases filled_iff.mp hk with ⟨hin, hret⟩ | ⟨hin, hret⟩
    · exact filled_iff.mpr (.inl ⟨hin, hreturned _ (h.l1 k hin) hret⟩)
    · exact filled_iff.mpr (.inr ⟨hin, hreturned _ (h.l2 k hin) hret⟩)

section Phase

variable {key : String} {body : Buffer} {phase phase' : PutPhase} {put : ℕ}

/-- A put that goes on keeps its number and key. -/
theorem belongs_phase (hput : s.puts.lookup put = some ⟨key, body, phase⟩) {put' : ℕ}
    {k : String} (h : Belongs s.puts s.nextPut put' k) :
    Belongs (s.puts.insert put ⟨key, body, phase'⟩) s.nextPut put' k := by
  refine ⟨h.below, ?_⟩
  intro p hp
  rw [AList.lookup_insert_eq] at hp
  split at hp
  · next hq =>
      cases hp
      exact h.own ⟨key, body, phase⟩ (hq ▸ hput)
  · exact h.own p hp

theorem returned_phase (hput : s.puts.lookup put = some ⟨key, body, phase⟩) (put' : ℕ) :
    ((s.puts.insert put ⟨key, body, phase'⟩).lookup put').isNone = s.returned put' := by
  rw [AList.lookup_insert_eq, returned]
  split
  · next hq => rw [hq, hput]; rfl
  · rfl

theorem puts_phase (h : s.Tracked) (hput : s.puts.lookup put = some ⟨key, body, phase⟩)
    {put' : ℕ} {p : PutEntry}
    (hp : (s.puts.insert put ⟨key, body, phase'⟩).lookup put' = some p) :
    Belongs (s.puts.insert put ⟨key, body, phase'⟩) s.nextPut put' p.key := by
  apply belongs_phase hput
  rw [AList.lookup_insert_eq] at hp
  split at hp
  · next hq =>
      cases hp
      rw [hq]
      exact h.puts put ⟨key, body, phase⟩ hput
  · exact h.puts put' p hp

/-- The put is under way. -/
theorem returned_eq_false (hput : s.puts.lookup put = some ⟨key, body, phase⟩) :
    s.returned put = false := by
  rw [returned, hput]
  rfl

/-- A put under way goes on, and changes entries of its own key at most; these are not
accounted for before it returns. -/
theorem Tracked.goesOn (h : s.Tracked) (hput : s.puts.lookup put = some ⟨key, body, phase⟩)
    {inMemoryCache : InMemoryCache} {cache : UnorderedMap String Buffer}
    {l1Filling l2Filling : String → ℕ} (hmemory : inMemoryCache.Invariant)
    (hl1 : ∀ k, (inMemoryCache.memoryBufferMapper.lookup k).isSome = true →
      (k = key ∧ l1Filling k = put) ∨ (s.inL1 k = true ∧ l1Filling k = s.l1Filling k))
    (hl2 : ∀ k, (cache.lookup k).isSome = true →
      (k = key ∧ l2Filling k = put) ∨ (s.inL2 k = true ∧ l2Filling k = s.l2Filling k))
    (hengine : ∀ k, s.inL2 k = true → (cache.lookup k).isSome = true) :
    Tracked { s with
      inMemoryCache, cache, l1Filling, l2Filling
      puts := s.puts.insert put ⟨key, body, phase'⟩ } := by
  have hown : Belongs (s.puts.insert put ⟨key, body, phase'⟩) s.nextPut put key :=
    belongs_phase hput (h.puts put _ hput)
  refine ⟨hmemory, h.history, h.begun, fun put' p hp => puts_phase h hput hp, ?_, ?_, ?_, ?_⟩
  · intro k hk
    rcases hl1 k hk with ⟨hkey, hfilling⟩ | ⟨hin, hfilling⟩
    · show Belongs _ _ (l1Filling k) k
      rw [hfilling, hkey]
      exact hown
    · show Belongs _ _ (l1Filling k) k
      rw [hfilling]
      exact belongs_phase hput (h.l1 k hin)
  · intro k hk
    rcases hl2 k hk with ⟨hkey, hfilling⟩ | ⟨hin, hfilling⟩
    · show Belongs _ _ (l2Filling k) k
      rw [hfilling, hkey]
      exact hown
    · show Belongs _ _ (l2Filling k) k
      rw [hfilling]
      exact belongs_phase hput (h.l2 k hin)
  · exact fun get k bytes filling hget => belongs_phase hput (h.found get k bytes filling hget)
  · intro k hk
    refine (h.safe k ?_).mono id (fun _ => id) (hengine k)
    rcases filled_iff.mp hk with ⟨hin, hret⟩ | ⟨hin, hret⟩
    · change ((s.puts.insert put ⟨key, body, phase'⟩).lookup (l1Filling k)).isNone = true at hret
      rw [returned_phase hput] at hret
      rcases hl1 k hin with ⟨-, hfilling⟩ | ⟨hin', hfilling⟩
      · rw [hfilling, returned_eq_false hput] at hret
        cases hret
      · exact filled_iff.mpr (.inl ⟨hin', hfilling ▸ hret⟩)
    · change ((s.puts.insert put ⟨key, body, phase'⟩).lookup (l2Filling k)).isNone = true at hret
      rw [returned_phase hput] at hret
      rcases hl2 k hin with ⟨-, hfilling⟩ | ⟨hin', hfilling⟩
      · rw [hfilling, returned_eq_false hput] at hret
        cases hret
      · exact filled_iff.mpr (.inr ⟨hin', hfilling ▸ hret⟩)

end Phase

theorem Tracked.putL2 (h : s.Tracked) {put : ℕ} {stored : Bool}
    (hstep : s.next rule (.putL2 put stored) = some t) : t.Tracked := by
  unfold next at hstep
  simp only at hstep
  split at hstep
  · next key body hput =>
      cases hstep
      apply h.goesOn hput h.memory
      · exact fun k hk => .inr ⟨hk, rfl⟩
      · intro k hk
        cases stored with
        | false => exact .inr ⟨hk, rfl⟩
        | true =>
            simp only [if_true] at hk ⊢
            rw [AList.lookup_insert_eq] at hk
            split at hk
            · next hkey => exact .inl ⟨hkey, by rw [hkey, Function.update_self]⟩
            · next hkey => exact .inr ⟨hk, Function.update_of_ne hkey _ _⟩
      · intro k hk
        cases stored with
        | false => exact hk
        | true =>
            simp only [if_true]
            rw [AList.lookup_insert_eq]
            split
            · rfl
            · exact hk
  · cases hstep

theorem Tracked.putL1 (h : s.Tracked) {put : ℕ}
    (hstep : s.next rule (.putL1 put) = some t) : t.Tracked := by
  unfold next at hstep
  simp only at hstep
  split at hstep
  · next key body hput =>
      obtain ⟨u, hstore, rfl⟩ := Option.map_eq_some_iff.mp hstep
      obtain ⟨inMemoryCache, l1Filling, rfl, hmemory, hl1⟩ := storeL1_cases h.memory hstore
      apply h.goesOn hput hmemory
      · intro k hk
        rcases hl1 k hk with ⟨hkey, hfilling, -⟩ | hold
        · exact .inl ⟨hkey, hfilling⟩
        · exact .inr hold
      · exact fun k hk => .inr ⟨hk, rfl⟩
      · exact fun k hk => hk
  · cases hstep

/-- A put that returns has told the generator, so its entries are accounted for at once. -/
theorem Tracked.putAdd (hlib : lib.NoFalseNegatives) (h : s.Tracked) {put : ℕ}
    (hstep : s.next rule (.putAdd put) = some t) : t.Tracked := by
  unfold next at hstep
  simp only at hstep
  split at hstep
  · next key body hput =>
      cases hstep
      have hbelongs : ∀ put' k, Belongs s.puts s.nextPut put' k →
          Belongs (s.puts.erase put) s.nextPut put' k := by
        intro put' k hput'
        refine ⟨hput'.below, ?_⟩
        intro p hp
        rw [AList.lookup_erase_eq] at hp
        split at hp
        · cases hp
        · exact hput'.own p hp
      have hreturned : ∀ put' k, Belongs s.puts s.nextPut put' k →
          ((s.puts.erase put).lookup put').isNone = true → k = key ∨ s.returned put' = true := by
        intro put' k hput' hret
        rw [AList.lookup_erase_eq] at hret
        split at hret
        · next hq => exact .inl (hput'.own ⟨key, body, .cached⟩ (hq ▸ hput)).symm
        · exact .inr hret
      refine ⟨h.memory, h.history.add key, h.begun, ?_, ?_, ?_, ?_, ?_⟩
      · intro put' p hp
        change (s.puts.erase put).lookup put' = some p at hp
        rw [AList.lookup_erase_eq] at hp
        split at hp
        · cases hp
        · exact hbelongs _ _ (h.puts put' p hp)
      · exact fun k hk => hbelongs _ _ (h.l1 k hk)
      · exact fun k hk => hbelongs _ _ (h.l2 k hk)
      · exact fun get k bytes filling hget => hbelongs _ _ (h.found get k bytes filling hget)
      · intro k hk
        have hcases : k = key ∨ s.filled k = true := by
          rcases filled_iff.mp hk with ⟨hin, hret⟩ | ⟨hin, hret⟩
          · rcases hreturned _ k (h.l1 k hin) hret with hkey | hret
            · exact .inl hkey
            · exact .inr (filled_iff.mpr (.inl ⟨hin, hret⟩))
          · rcases hreturned _ k (h.l2 k hin) hret with hkey | hret
            · exact .inl hkey
            · exact .inr (filled_iff.mpr (.inr ⟨hin, hret⟩))
        rcases hcases with rfl | hbefore
        · refine ⟨BloomFilterGenerator.contains_add hlib k s.now, ?_⟩
          intro r hr
          have hadded : (s.bfGen.add k s.now).AddedSince r.start k :=
            BloomFilterGenerator.addedSince_add (h.begun r hr) k
          unfold Covered
          split
          · trivial
          · exact .inr (.inr hadded)
          · exact .inr hadded
        · exact (h.safe k hbefore).mono (fun hc => hc.add hlib key s.now)
            (fun since ha => ha.add key s.now) id
  · cases hstep

/-! ## Lookups -/

/-- A lookup changes neither the levels nor the puts; what it found has a number. -/
theorem Tracked.gets (h : s.Tracked) {inMemoryCache : InMemoryCache}
    (hmemory : inMemoryCache.Invariant)
    (hsame : ∀ k, (inMemoryCache.memoryBufferMapper.lookup k).isSome = s.inL1 k)
    {gets : UnorderedMap ℕ TryGetEntry} {nextGet : ℕ}
    (hfound : ∀ get k bytes filling, gets.lookup get = some ⟨k, .found bytes filling⟩ →
      Belongs s.puts s.nextPut filling k) :
    Tracked { s with inMemoryCache, gets, nextGet } := by
  refine ⟨hmemory, h.history, h.begun, h.puts, ?_, h.l2, hfound, ?_⟩
  · intro k hk
    exact h.l1 k ((hsame k).symm.trans hk)
  · intro k hk
    apply h.safe k
    rcases filled_iff.mp hk with ⟨hin, hret⟩ | hin
    · exact filled_iff.mpr (.inl ⟨(hsame k).symm.trans hin, hret⟩)
    · exact filled_iff.mpr (.inr hin)

/-- One lookup changes its state. -/
theorem found_insert (h : s.Tracked) {get : ℕ} {g : TryGetEntry}
    (hg : ∀ bytes filling, g.phase = .found bytes filling →
      Belongs s.puts s.nextPut filling g.key) {get' : ℕ} {k : String} {bytes : Buffer}
    {filling : ℕ} (hget : (s.gets.insert get g).lookup get' = some ⟨k, .found bytes filling⟩) :
    Belongs s.puts s.nextPut filling k := by
  rw [AList.lookup_insert_eq] at hget
  split at hget
  · cases hget
    exact hg bytes filling rfl
  · exact h.found get' k bytes filling hget

theorem Tracked.tryGetEntry (h : s.Tracked) (key : String) :
    Tracked { s with
      gets := s.gets.insert s.nextGet ⟨key, .started⟩
      nextGet := s.nextGet + 1 } := by
  apply h.gets h.memory (fun _ => rfl)
  intro get k bytes filling hget
  exact found_insert h (fun _ _ hphase => by cases hphase) hget

theorem Tracked.getL1 (h : s.Tracked) {get : ℕ}
    (hstep : s.next rule (.getL1 get) = some t) : t.Tracked := by
  unfold next at hstep
  simp only at hstep
  split at hstep
  · next key hget =>
      obtain ⟨c', hlookup, hc', -, hsame⟩ := InMemoryCache.tryGet_ok h.memory key
      rw [hlookup] at hstep
      have hsame : ∀ k, (c'.memoryBufferMapper.lookup k).isSome = s.inL1 k := by
        intro k
        have hmap := congrArg Option.isSome (hsame k)
        rwa [Option.isSome_map, Option.isSome_map] at hmap
      cases hentry : s.inMemoryCache.memoryBufferMapper.lookup key with
      | none =>
          rw [hentry] at hstep
          cases hstep
          apply h.gets hc' hsame
          intro get' k bytes filling hget'
          exact found_insert h (fun _ _ hphase => by cases hphase) hget'
      | some entry =>
          rw [hentry] at hstep
          cases hstep
          apply h.gets hc' hsame
          intro get' k bytes filling hget'
          refine found_insert h ?_ hget'
          intro bytes filling hphase
          cases hphase
          exact h.l1 key (Option.isSome_iff_exists.mpr ⟨entry, hentry⟩)
  · cases hstep

theorem Tracked.getL2 (h : s.Tracked) {get : ℕ}
    (hstep : s.next rule (.getL2 get) = some t) : t.Tracked := by
  unfold next at hstep
  simp only at hstep
  split at hstep
  · next key hget =>
      split at hstep
      · cases hstep
        apply h.gets h.memory (fun _ => rfl)
        intro get' k bytes filling hget'
        rw [AList.lookup_erase_eq] at hget'
        split at hget'
        · cases hget'
        · exact h.found get' k bytes filling hget'
      · next bytes hentry =>
          cases hstep
          apply h.gets h.memory (fun _ => rfl)
          intro get' k bytes' filling hget'
          refine found_insert h ?_ hget'
          intro bytes filling hphase
          cases hphase
          exact h.l2 key (Option.isSome_iff_exists.mpr ⟨_, hentry⟩)
  · cases hstep

/-- Bytes are put back: their key has an entry that is accounted for already, or their put
has not returned. -/
theorem Tracked.getPut (h : s.Tracked) {get : ℕ} (hkeeps : s.KeepsTrack (.getPut get))
    (hstep : s.next rule (.getPut get) = some t) : t.Tracked := by
  unfold next at hstep
  simp only at hstep
  split at hstep
  · next key bytes filling hget =>
      obtain ⟨u, hstore, rfl⟩ := Option.map_eq_some_iff.mp hstep
      obtain ⟨inMemoryCache, l1Filling, rfl, hmemory, hl1⟩ := storeL1_cases h.memory hstore
      have hfound := h.found get key bytes filling hget
      refine ⟨hmemory, h.history, h.begun, h.puts, ?_, h.l2, ?_, ?_⟩
      · intro k hk
        show Belongs s.puts s.nextPut (l1Filling k) k
        rcases hl1 k hk with ⟨hkey, hfilling, -⟩ | ⟨hin, hfilling⟩
        · rw [hfilling, hkey]
          exact hfound
        · rw [hfilling]
          exact h.l1 k hin
      · intro get' k bytes' filling' hget'
        change (s.gets.erase get).lookup get' = some _ at hget'
        rw [AList.lookup_erase_eq] at hget'
        split at hget'
        · cases hget'
        · exact h.found get' k bytes' filling' hget'
      · intro k hk
        rcases filled_iff.mp hk with ⟨hin, hret⟩ | hin
        · change s.returned (l1Filling k) = true at hret
          rcases hl1 k hin with ⟨hkey, hfilling, hfits⟩ | ⟨hin', hfilling⟩
          · rw [hfilling] at hret
            unfold KeepsTrack keepsTrack at hkeeps
            simp only [hget, hret, Bool.not_true, Bool.or_false, Bool.or_eq_true,
              Bool.and_eq_true, decide_eq_true_eq] at hkeeps
            rw [hkey]
            rcases hkeeps with (hfilled | hlarge) | ⟨hcontains, hwill⟩
            · exact h.safe key hfilled
            · exact absurd hlarge (not_lt.mpr hfits)
            · exact ⟨hcontains, covered_of_willContain hwill⟩
          · exact h.safe k (filled_iff.mpr (.inl ⟨hin', hfilling ▸ hret⟩))
        · exact h.safe k (filled_iff.mpr (.inr hin))
  · cases hstep

/-! ## Purges and rebuilds -/

theorem lookup_purged (purged : List String) (k : String) :
    ((s.cache.filterEntries fun key _ => !purged.contains key).lookup k).isSome = true ↔
      s.inL2 k = true ∧ k ∉ purged := by
  rw [AList.lookup_filterEntries, inL2]
  cases s.cache.lookup k with
  | none => simp
  | some bytes => simp [Option.filter]

/-- A purge takes no key that the rebuild still counts on. -/
theorem Tracked.purge (h : s.Tracked) {purged : List String}
    (hkeeps : s.KeepsTrack (.purge purged)) :
    Tracked { s with cache := s.cache.filterEntries fun key _ => !purged.contains key } := by
  refine ⟨h.memory, h.history, h.begun, h.puts, h.l1, ?_, h.found, ?_⟩
  · intro k hk
    exact h.l2 k ((lookup_purged purged k).mp hk).1
  · intro k hk
    have hin : (s.filledL1 k = true ∨ (s.inL2 k = true ∧ k ∉ purged)) ∧ s.filled k = true := by
      rcases filled_iff.mp hk with ⟨hin, hret⟩ | ⟨hin, hret⟩
      · exact ⟨.inl (Bool.and_eq_true_iff.mpr ⟨hin, hret⟩), filled_iff.mpr (.inl ⟨hin, hret⟩)⟩
      · have hleft := (lookup_purged purged k).mp hin
        exact ⟨.inr hleft, filled_iff.mpr (.inr ⟨hleft.1, hret⟩)⟩
    have hsafe := h.safe k hin.2
    refine ⟨hsafe.contains, ?_⟩
    intro r hr
    have hcovered := hsafe.covered r hr
    obtain ⟨start, phase⟩ := r
    cases phase with
    | begun => trivial
    | listed keys => exact hcovered
    | l1Listed keys =>
        rcases hcovered with hlisted | hengine | hadded
        · exact .inl hlisted
        · by_cases hpurged : k ∈ purged
          · have hfilled : s.filledL1 k = true := hin.1.resolve_right fun hout => hout.2 hpurged
            have hr' : s.rebuilding = some ⟨start, .l1Listed keys⟩ := hr
            unfold KeepsTrack keepsTrack at hkeeps
            simp only [hr', List.all_eq_true] at hkeeps
            have hcounted := hkeeps k hpurged
            have hengine' : s.inL2 k = true := hengine
            simp only [hfilled, hengine', Bool.not_true, Bool.false_or, Bool.or_eq_true,
              List.contains_iff_mem, decide_eq_true_eq] at hcounted
            rcases hcounted with hlisted | hadded
            · exact .inl hlisted
            · exact .inr (.inr hadded)
          · exact .inr (.inl ((lookup_purged purged k).mpr ⟨hengine, hpurged⟩))
        · exact .inr (.inr hadded)

theorem mem_keys_of_isSome {ν : Type} {m : UnorderedMap String ν} {k : String}
    (h : (m.lookup k).isSome = true) : k ∈ m.keys :=
  AList.mem_keys.mp (AList.lookup_isSome.mp h)

/-- A rebuild begins, or lists a level. -/
theorem Tracked.rebuilding (h : s.Tracked) {rebuilding : Option Rebuilding}
    (hbegun : ∀ r, rebuilding = some r → r.start ≤ s.now)
    (hcovered : ∀ r, rebuilding = some r → ∀ k, s.filled k = true → Covered s.cache s.bfGen r k) :
    Tracked { s with rebuilding } := by
  refine { h with begun := hbegun, safe := ?_ }
  intro k hk
  exact ⟨(h.safe k hk).contains, fun r hr => hcovered r hr k hk⟩

theorem Tracked.rebuildTimer (h : s.Tracked) (hstep : s.next rule .rebuildTimer = some t) :
    t.Tracked := by
  unfold next at hstep
  simp only at hstep
  split at hstep
  · cases hstep
    apply h.rebuilding
    · intro r hr
      cases hr
      exact le_rfl
    · intro r hr k hk
      cases hr
      trivial
  · cases hstep

theorem Tracked.listL1 (h : s.Tracked) (hstep : s.next rule .listL1 = some t) : t.Tracked := by
  unfold next at hstep
  simp only at hstep
  split at hstep
  · next start hr =>
      cases hstep
      apply h.rebuilding
      · intro r hr'
        cases hr'
        exact h.begun ⟨start, .begun⟩ hr
      · intro r hr' k hk
        cases hr'
        rcases filled_iff.mp hk with ⟨hin, -⟩ | ⟨hin, -⟩
        · exact .inl (mem_keys_of_isSome hin)
        · exact .inr (.inl hin)
  · cases hstep

theorem Tracked.listL2 (h : s.Tracked) (hstep : s.next rule .listL2 = some t) : t.Tracked := by
  unfold next at hstep
  simp only at hstep
  split at hstep
  · next start keys hr =>
      cases hstep
      apply h.rebuilding
      · intro r hr'
        cases hr'
        exact h.begun ⟨start, .l1Listed keys⟩ hr
      · intro r hr' k hk
        cases hr'
        rcases (h.safe k hk).covered _ hr with hlisted | hengine | hadded
        · exact .inl (List.mem_append_left _ hlisted)
        · exact .inl (List.mem_append_right _ (mem_keys_of_isSome hengine))
        · exact .inr hadded
  · cases hstep

theorem history_nonneg : (0 : Time) ≤ BloomFilterGenerator.kNewlyPopulatedKeyHistory := by
  norm_num [BloomFilterGenerator.kNewlyPopulatedKeyHistory, second]

theorem compensation_le_history :
    10 * second ≤ BloomFilterGenerator.kNewlyPopulatedKeyHistory := by
  norm_num [BloomFilterGenerator.kNewlyPopulatedKeyHistory, second]

/-- The new filter has what was listed, and what was added since the listings began, as that
is within the compensation. -/
theorem Tracked.rebuild (hlib : lib.NoFalseNegatives) (h : s.Tracked)
    (hstep : s.next rule .rebuild = some t) : t.Tracked := by
  unfold next at hstep
  simp only at hstep
  split at hstep
  · next start keys hr =>
      split at hstep
      · next hbound =>
          cases hstep
          have hrecent : s.now - 10 * second ≤ start := by
            rw [rebuildBound] at hbound
            linarith
          have hhistory : s.now - BloomFilterGenerator.kNewlyPopulatedKeyHistory ≤ start :=
            (sub_le_sub_left compensation_le_history s.now).trans hrecent
          refine { h with history := ?_, begun := ?_, safe := ?_ }
          · exact h.history.rebuild keys (10 * second) s.now
          · intro r hr'
            cases hr'
          · intro k hk
            refine ⟨?_, fun r hr' => by cases hr'⟩
            exact BloomFilterGenerator.contains_rebuild hlib h.history
              ((h.safe k hk).covered _ hr) hrecent hhistory
      · cases hstep
  · cases hstep

/-! ## Runs -/

theorem Tracked.step (hlib : lib.NoFalseNegatives) (h : s.Tracked) {a : Action}
    (hstep : Guarded (Step rule) KeepsTrack s a t) : t.Tracked := by
  obtain ⟨hstep, hkeeps⟩ := hstep
  cases a with
  | tick nanoseconds =>
      cases hstep
      exact h.tick nanoseconds
  | putEntry key body =>
      cases hstep
      exact h.putEntry key body
  | putL2 put stored => exact h.putL2 hstep
  | putL1 put => exact h.putL1 hstep
  | putAdd put => exact h.putAdd hlib hstep
  | tryGetEntry key =>
      cases hstep
      exact h.tryGetEntry key
  | getL1 get => exact h.getL1 hstep
  | getL2 get => exact h.getL2 hstep
  | getPut get => exact h.getPut hkeeps hstep
  | purge purged =>
      cases hstep
      exact h.purge hkeeps
  | rebuildTimer => exact h.rebuildTimer hstep
  | listL1 => exact h.listL1 hstep
  | listL2 => exact h.listL2 hstep
  | rebuild => exact h.rebuild hlib hstep

/-- The service starts with a filter of what the engine holds. -/
theorem tracked_start (hlib : lib.NoFalseNegatives) (maxSize : ℕ)
    (cache : UnorderedMap String Buffer) (now : Time) :
    (start lib maxSize cache now).Tracked := by
  have hordered : BloomFilterGenerator.Ordered now (⟨lib.empty, []⟩ : BloomFilterGenerator lib) :=
    ⟨List.Pairwise.nil, fun e he => by cases he⟩
  refine ⟨.empty maxSize, ?_, ?_, ?_, ?_, ?_, ?_, ?_⟩
  · exact hordered.rebuild _ _ _
  · intro r hr
    cases hr
  · intro put p hp
    cases hp
  · intro key hkey
    cases hkey
  · exact fun key _ => ⟨Nat.one_pos, fun p hp => by cases hp⟩
  · intro get key bytes filling hget
    cases hget
  · intro key hkey
    refine ⟨?_, fun r hr => by cases hr⟩
    have hin : (cache.lookup key).isSome = true := by
      rcases filled_iff.mp hkey with ⟨hin, -⟩ | ⟨hin, -⟩
      · cases hin
      · exact hin
    have hlisted : key ∈ (InMemoryCache.empty maxSize).getKeys ++ cache.keys :=
      List.mem_append_right _ (mem_keys_of_isSome hin)
    have hnow : now - 0 ≤ now := (sub_zero now).le
    have hhistory : now - BloomFilterGenerator.kNewlyPopulatedKeyHistory ≤ now :=
      (sub_le_sub_left history_nonneg now).trans hnow
    exact BloomFilterGenerator.contains_rebuild hlib hordered (.inl hlisted) hnow hhistory

/-- As long as no lookup and no purge takes a key past the listings of a rebuild, the filter
contains every key with an entry whose put has returned. -/
theorem filterComplete_of_run (hlib : lib.NoFalseNegatives) {maxSize : ℕ}
    {cache : UnorderedMap String Buffer} {now : Time} {as : List Action}
    (run : Run (Guarded (Step rule) KeepsTrack) (start lib maxSize cache now) as s) :
    s.FilterComplete := by
  have h : s.Tracked :=
    run.invariant (fun _ _ _ h hstep => h.step hlib hstep) (tracked_start hlib maxSize cache now)
  intro key hkey
  exact (h.safe key hkey).contains

end Tracked

/-- A put of "k", and a lookup that finds it in the engine as another put has evicted it. -/
def evictedLookup : List Action :=
  [.putEntry "k" [1], .putL2 1 true, .putL1 1, .putAdd 1,
    .putEntry "m" [2], .putL2 2 true, .putL1 2, .putAdd 2,
    .tick (11 * 10 ^ 9), .tryGetEntry "k", .getL1 0]

/-- The lookup stores the bytes before the rebuild lists the in-memory cache. -/
def listedRun : List Action :=
  evictedLookup ++ [.getL2 0, .getPut 0, .rebuildTimer, .listL1, .purge ["k"], .listL2, .rebuild]

/-- The lookup stores the bytes after that, and the purge comes before the engine is listed. -/
def overtakingRun : List Action :=
  evictedLookup ++ [.rebuildTimer, .listL1, .getL2 0, .getPut 0, .purge ["k"], .listL2, .rebuild]

theorem filterComplete_listedRun :
    ∃ s, follow (guardedNext (next ratioUpdate) KeepsTrack) listedRun
        (start exactFilter 1 ∅ 0) = some s ∧
      s.filled "k" = true ∧ s.bfGen.Contains "k" := by
  have hfinal : ((follow (guardedNext (next ratioUpdate) KeepsTrack) listedRun
      (start exactFilter 1 ∅ 0)).map fun s => s.filled "k") = some true := by
    decide
  obtain ⟨s, hfollow, hfilled⟩ := Option.map_eq_some_iff.mp hfinal
  have run : Run (Guarded (Step ratioUpdate) KeepsTrack) (start exactFilter 1 ∅ 0) listedRun s :=
    .of_follow (guarded_of_guardedNext fun _ _ _ h => h) hfollow
  exact ⟨s, hfollow, hfilled, filterComplete_of_run exactFilter_noFalseNegatives run "k" hfilled⟩

/-- The entry of "k" is in the in-memory cache, and the new filter does not contain "k". -/
theorem filterComplete_overtakingRun :
    ¬∀ as s, Run (Step ratioUpdate) (start exactFilter 1 ∅ 0) as s → s.FilterComplete := by
  intro hcomplete
  have hfinal : ((follow (next ratioUpdate) overtakingRun (start exactFilter 1 ∅ 0)).map fun s =>
      (s.filled "k", exactFilter.possiblyContains s.bfGen.currentBf "k")) = some (true, false) := by
    decide
  obtain ⟨s, hfollow, hboth⟩ := Option.map_eq_some_iff.mp hfinal
  obtain ⟨hfilled, hmissing⟩ := Prod.mk.inj hboth
  have hcontains := hcomplete overtakingRun s (.of_follow (fun _ _ _ h => h) hfollow) "k" hfilled
  rw [BloomFilterGenerator.Contains, hmissing] at hcontains
  cases hcontains

end RunningService

end Yadcc.Cache
