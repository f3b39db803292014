/-
# The cache service

The service answers from the in-memory cache first and from the cache engine behind it
second, and it stores into both. The engine is a map from keys to the bytes stored last,
of which purging may forget any. The question is whether the two levels agree: a reader
should get the bytes that were stored last under its key.
-/

import Yadcc.Cache.InMemoryCacheInvariant
import Yadcc.Common.Service
import Yadcc.Lib.Transition

namespace Yadcc.Cache

open Yadcc.Lib

/-! ## The service -/

/-- The state of the service. `bfGen` is what the generator of the Bloom filter was told
of, the newest key last. -/
structure CacheServiceImpl where
  isUserVerifier : TokenVerifier
  isServantVerifier : TokenVerifier
  cache : UnorderedMap String Buffer
  inMemoryCache : InMemoryCache
  cacheHits : ℕ
  cacheMiss : ℕ
  bfGen : List String

/-- What comes in. A purge is not a request of a client but the timer of the engine, which
decides what to forget. -/
inductive Request
  | tryGetEntry (token key : String)
  | putEntry (token key : String) (body : Buffer)
  | purge (purged : List String)
  deriving DecidableEq

inductive Response
  | accessDenied
  | notFound
  | attachment (bytes : Buffer)
  | done
  deriving DecidableEq

namespace CacheServiceImpl

/-- A new service over an empty engine. -/
def new (isUserVerifier isServantVerifier : TokenVerifier) (maxSize : ℕ) : CacheServiceImpl where
  isUserVerifier := isUserVerifier
  isServantVerifier := isServantVerifier
  cache := ∅
  inMemoryCache := .empty maxSize
  cacheHits := 0
  cacheMiss := 0
  bfGen := []

def tryGetEntry (rule : AdaptiveUpdate) (token key : String) (s : CacheServiceImpl) :
    Except CacheFault (Response × CacheServiceImpl) :=
  if s.isUserVerifier.verify token = false then .ok (.accessDenied, s)
  else do
    let (bytes, inMemoryCache) ← s.inMemoryCache.tryGet key
    match bytes.or (s.cache.lookup key) with
    | none => return (.notFound, { s with inMemoryCache, cacheMiss := s.cacheMiss + 1 })
    | some bytes => do
        let (_, inMemoryCache) ← inMemoryCache.put rule key bytes
        return (.attachment bytes, { s with inMemoryCache, cacheHits := s.cacheHits + 1 })

/-- The result of the in-memory put is not looked at. -/
def putEntry (rule : AdaptiveUpdate) (token key : String) (body : Buffer)
    (s : CacheServiceImpl) : Except CacheFault (Response × CacheServiceImpl) :=
  if s.isServantVerifier.verify token = false then .ok (.accessDenied, s)
  else do
    let cache := s.cache.insert key body
    let (_, inMemoryCache) ← s.inMemoryCache.put rule key body
    return (.done, { s with cache, inMemoryCache, bfGen := s.bfGen ++ [key] })

/-- Purging forgets entries of the engine; the in-memory cache is not told. -/
def purge (purged : List String) (s : CacheServiceImpl) : CacheServiceImpl :=
  { s with cache := s.cache.filterEntries fun key _ => !purged.contains key }

def handle (rule : AdaptiveUpdate) (s : CacheServiceImpl) :
    Request → Except CacheFault (Response × CacheServiceImpl)
  | .tryGetEntry token key => tryGetEntry rule token key s
  | .putEntry token key body => putEntry rule token key body s
  | .purge purged => .ok (.done, purge purged s)

/-- Handling one request with its response. -/
def Step (rule : AdaptiveUpdate) (s : CacheServiceImpl) (a : Request × Response)
    (t : CacheServiceImpl) : Prop :=
  handle rule s a.1 = .ok (a.2, t)

/-! ## The bytes stored last -/

/-- The body that a handled request stored under a key. -/
def storedBody (key : String) : Request × Response → Option Buffer
  | (.putEntry _ k body, .done) => if k = key then some body else none
  | _ => none

/-- The body of the last accepted put of a key. -/
def lastBody (key : String) (as : List (Request × Response)) : Option Buffer :=
  as.reverse.findSome? (storedBody key)

/-- What both levels hold is what was stored last. -/
structure Current (as : List (Request × Response)) (s : CacheServiceImpl) : Prop where
  invariant : s.inMemoryCache.Invariant
  memory : ∀ key entry, s.inMemoryCache.memoryBufferMapper.lookup key = some entry →
    lastBody key as = some entry.buffer
  engine : ∀ key bytes, s.cache.lookup key = some bytes → lastBody key as = some bytes

/-- A put leaves no older bytes behind: the body fits into the in-memory cache, or that
cache does not hold the key, or it holds these very bytes. -/
def Replaces (s : CacheServiceImpl) : Request × Response → Prop
  | (.putEntry _ key body, .done) => body.length ≤ s.inMemoryCache.maxSizeInBytes ∨
      ∀ entry ∈ s.inMemoryCache.memoryBufferMapper.lookup key, entry.buffer = body
  | _ => True

instance (s : CacheServiceImpl) (a : Request × Response) : Decidable (Replaces s a) :=
  match a with
  | (.putEntry _ key body, .done) =>
      inferInstanceAs (Decidable (body.length ≤ s.inMemoryCache.maxSizeInBytes ∨
        ∀ entry ∈ s.inMemoryCache.memoryBufferMapper.lookup key, entry.buffer = body))
  | (.putEntry _ _ _, .accessDenied) => .isTrue trivial
  | (.putEntry _ _ _, .notFound) => .isTrue trivial
  | (.putEntry _ _ _, .attachment _) => .isTrue trivial
  | (.tryGetEntry _ _, _) => .isTrue trivial
  | (.purge _, _) => .isTrue trivial

/-- Only an accepted put can fail to replace. -/
theorem not_replaces {s : CacheServiceImpl} {a : Request × Response} (h : ¬Replaces s a) :
    ∃ token key body entry, a = (.putEntry token key body, .done) ∧
      ¬body.length ≤ s.inMemoryCache.maxSizeInBytes ∧
      s.inMemoryCache.memoryBufferMapper.lookup key = some entry ∧ entry.buffer ≠ body := by
  unfold Replaces at h
  split at h
  · next token key body =>
      push Not at h
      obtain ⟨hsize, entry, hentry, hne⟩ := h
      exact ⟨token, key, body, entry, rfl, Nat.not_le.mpr hsize, hentry, hne⟩
  · exact absurd trivial h

theorem lastBody_append (key : String) (as : List (Request × Response))
    (a : Request × Response) :
    lastBody key (as ++ [a]) = (storedBody key a).or (lastBody key as) := by
  unfold lastBody
  rw [List.reverse_append, List.reverse_singleton, List.singleton_append, List.findSome?_cons]
  cases storedBody key a with
  | none => rfl
  | some body => rfl

/-- A request that stores nothing changes no last body. -/
theorem lastBody_append_none {key : String} {as : List (Request × Response)}
    {a : Request × Response} (h : storedBody key a = none) :
    lastBody key (as ++ [a]) = lastBody key as := by
  rw [lastBody_append, h]
  rfl

/-! ## One request -/

variable {rule : AdaptiveUpdate} {as : List (Request × Response)} {s : CacheServiceImpl}

theorem Current.new (isUserVerifier isServantVerifier : TokenVerifier) (maxSize : ℕ) :
    Current [] (.new isUserVerifier isServantVerifier maxSize) where
  invariant := .empty maxSize
  memory key entry h := by cases h
  engine key bytes h := by cases h

theorem Current.same (h : Current as s) {c : InMemoryCache}
    (hsame : s.inMemoryCache.SameBuffers c) {key : String} {entry : CacheEntry}
    (hentry : c.memoryBufferMapper.lookup key = some entry) :
    lastBody key as = some entry.buffer := by
  have hbuffer := hsame key
  rw [hentry, Option.map_some] at hbuffer
  obtain ⟨entry', hentry', heq⟩ := Option.map_eq_some_iff.mp hbuffer.symm
  rw [h.memory key entry' hentry', heq]

/-- The in-memory cache may put back what was stored last. -/
theorem Current.put (h : Current as s) (rule : AdaptiveUpdate) {key : String} {bytes : Buffer}
    (hbytes : lastBody key as = some bytes) {c : InMemoryCache} (hc : c.Invariant)
    (hsame : s.inMemoryCache.SameBuffers c) :
    ∃ ok c', c.put rule key bytes = .ok (ok, c') ∧ c'.Invariant ∧
      ∀ k entry, c'.memoryBufferMapper.lookup k = some entry →
        lastBody k as = some entry.buffer := by
  obtain ⟨c', hput, hc', -, hstores⟩ := InMemoryCache.put_ok hc rule key bytes
  refine ⟨_, c', hput, hc', fun k entry hentry => ?_⟩
  split at hstores
  · rcases hstores k entry hentry with ⟨rfl, hbuffer⟩ | ⟨entry', -, hentry', hbuffer⟩
    · rw [hbytes, hbuffer]
    · rw [h.same hsame hentry', hbuffer]
  · rw [hstores] at hentry
    exact h.same hsame hentry

/-- A get answers with the bytes stored last or not at all. -/
theorem Current.tryGetEntry (h : Current as s) (rule : AdaptiveUpdate) (token key : String) :
    ∃ response t, tryGetEntry rule token key s = .ok (response, t) ∧ Current as t ∧
      ∀ bytes, response = .attachment bytes → lastBody key as = some bytes := by
  unfold CacheServiceImpl.tryGetEntry
  split
  · refine ⟨.accessDenied, s, rfl, h, ?_⟩
    intro bytes hresponse
    cases hresponse
  · obtain ⟨c, hget, hc, -, hsame⟩ := InMemoryCache.tryGet_ok h.invariant key
    rw [hget, ok_bind]
    dsimp only
    cases hbytes : ((s.inMemoryCache.memoryBufferMapper.lookup key).map
        CacheEntry.buffer).or (s.cache.lookup key) with
    | none =>
        refine ⟨.notFound, _, rfl, ⟨hc, fun k entry hentry => h.same hsame hentry, h.engine⟩, ?_⟩
        intro bytes hresponse
        cases hresponse
    | some bytes =>
        have hlast : lastBody key as = some bytes := by
          rcases Option.or_eq_some_iff.mp hbytes with hmemory | ⟨-, hengine⟩
          · obtain ⟨entry, hentry, rfl⟩ := Option.map_eq_some_iff.mp hmemory
            exact h.memory key entry hentry
          · exact h.engine key bytes hengine
        obtain ⟨ok, c', hput, hc', hmemory⟩ := h.put rule hlast hc hsame
        refine ⟨.attachment bytes, { s with inMemoryCache := c', cacheHits := s.cacheHits + 1 },
          ?_, ⟨hc', hmemory, h.engine⟩, ?_⟩
        · simp only [hput, ok_bind]
          rfl
        · intro bytes' hresponse
          cases hresponse
          exact hlast

/-- A put that replaces makes its body the bytes stored last, on both levels. -/
theorem Current.putEntry (h : Current as s) (rule : AdaptiveUpdate) (token key : String)
    (body : Buffer) : ∃ response t, putEntry rule token key body s = .ok (response, t) ∧
      (Replaces s (.putEntry token key body, response) →
        Current (as ++ [(.putEntry token key body, response)]) t) := by
  unfold CacheServiceImpl.putEntry
  split
  · refine ⟨.accessDenied, s, rfl,
      fun _ => ⟨h.invariant, fun k entry hentry => ?_, fun k b hb => ?_⟩⟩
    · rw [lastBody_append_none rfl]
      exact h.memory k entry hentry
    · rw [lastBody_append_none rfl]
      exact h.engine k b hb
  · obtain ⟨c', hput, hc', -, hstores⟩ := InMemoryCache.put_ok h.invariant rule key body
    refine ⟨.done, { s with
      cache := s.cache.insert key body
      inMemoryCache := c'
      bfGen := s.bfGen ++ [key] }, ?_,
      fun hreplaces => ⟨hc', fun k entry hentry => ?_, fun k b hb => ?_⟩⟩
    · rw [hput, ok_bind]
      rfl
    · rw [lastBody_append]
      split at hstores
      · rcases hstores k entry hentry with ⟨rfl, hbuffer⟩ | ⟨entry', hk, hentry', hbuffer⟩
        · simp [storedBody, hbuffer]
        · rw [storedBody, if_neg (Ne.symm hk), Option.none_or, h.memory k entry' hentry', hbuffer]
      · next hsize =>
          rw [hstores] at hentry
          by_cases hk : key = k
          · subst hk
            have hbuffer := hreplaces.resolve_left hsize entry hentry
            simp [storedBody, hbuffer]
          · rw [storedBody, if_neg hk, Option.none_or]
            exact h.memory k entry hentry
    · rw [lastBody_append]
      change (s.cache.insert key body).lookup k = some b at hb
      rw [AList.lookup_insert_eq] at hb
      split at hb
      · next hk =>
          cases hb
          simp [storedBody, hk]
      · next hk =>
          rw [storedBody, if_neg (Ne.symm hk), Option.none_or]
          exact h.engine k b hb

theorem Current.purge (h : Current as s) (purged : List String) :
    Current as (purge purged s) where
  invariant := h.invariant
  memory := h.memory
  engine key bytes hbytes := by
    have hfilter := AList.lookup_filterEntries (fun key _ => !purged.contains key) s.cache key
    have hkept : ((s.cache.lookup key).filter fun _ => !purged.contains key) = some bytes :=
      hfilter.symm.trans hbytes
    exact h.engine key bytes (Option.filter_eq_some_iff.mp hkept).1

/-- A step that replaces keeps both levels current. -/
theorem Current.step (h : Current as s) {a : Request × Response} {t : CacheServiceImpl}
    (hstep : Guarded (Step rule) Replaces s a t) : Current (as ++ [a]) t := by
  obtain ⟨hhandle, hreplaces⟩ := hstep
  obtain ⟨request, response⟩ := a
  have hkeep : ∀ {t}, (∀ key, storedBody key (request, response) = none) → Current as t →
      Current (as ++ [(request, response)]) t := by
    intro t hnone ht
    refine ⟨ht.invariant, fun k entry hentry => ?_, fun k bytes hbytes => ?_⟩
    · rw [lastBody_append_none (hnone k)]
      exact ht.memory k entry hentry
    · rw [lastBody_append_none (hnone k)]
      exact ht.engine k bytes hbytes
  cases request with
  | tryGetEntry token key =>
      obtain ⟨response', t', hget, ht', -⟩ := h.tryGetEntry rule token key
      cases hget.symm.trans hhandle
      exact hkeep (fun _ => rfl) ht'
  | putEntry token key body =>
      obtain ⟨response', t', hput, ht'⟩ := h.putEntry rule token key body
      cases hput.symm.trans hhandle
      exact ht' hreplaces
  | purge purged =>
      cases hhandle
      exact hkeep (fun _ => rfl) (h.purge purged)

theorem current_of_run {isUserVerifier isServantVerifier : TokenVerifier} {maxSize : ℕ}
    {t : CacheServiceImpl} (run : Run (Guarded (Step rule) Replaces)
      (new isUserVerifier isServantVerifier maxSize) as t) : Current as t :=
  run.invariant_labels (.new isUserVerifier isServantVerifier maxSize)
    fun _ _ _ _ h hstep => h.step hstep

/-- A get of a resident key answers from the in-memory cache. -/
theorem tryGetEntry_resident (rule : AdaptiveUpdate) (hc : s.inMemoryCache.Invariant)
    {reader key : String} {entry : CacheEntry}
    (hentry : s.inMemoryCache.memoryBufferMapper.lookup key = some entry)
    (hreader : s.isUserVerifier.verify reader = true) :
    ∃ u, tryGetEntry rule reader key s = .ok (.attachment entry.buffer, u) := by
  obtain ⟨c, hget, hc', -, -⟩ := InMemoryCache.tryGet_ok hc key
  obtain ⟨c', hput, -, -, -⟩ := InMemoryCache.put_ok hc' rule key entry.buffer
  refine ⟨{ s with inMemoryCache := c', cacheHits := s.cacheHits + 1 }, ?_⟩
  unfold tryGetEntry
  rw [if_neg (by rw [hreader]; exact Bool.noConfusion), hget, ok_bind]
  simp only [hentry, Option.map_some, Option.some_or, hput, ok_bind]
  rfl

/-- A put that is too big leaves the in-memory cache as it is. -/
theorem putEntry_oversize (hc : s.inMemoryCache.Invariant) {token key : String}
    {body : Buffer} {t : CacheServiceImpl}
    (hput : putEntry rule token key body s = .ok (.done, t))
    (hsize : ¬body.length ≤ s.inMemoryCache.maxSizeInBytes) :
    t.inMemoryCache = s.inMemoryCache ∧ t.isUserVerifier = s.isUserVerifier := by
  obtain ⟨c', hmemory, -, -, hsame⟩ := InMemoryCache.put_ok hc rule key body
  rw [if_neg hsize] at hsame
  unfold putEntry at hput
  split at hput
  · cases hput
  · rw [hmemory, ok_bind] at hput
    cases hput
    exact ⟨hsame, rfl⟩

/-- Where a put does not replace, the in-memory cache goes on answering with the bytes
from before. -/
theorem stale_of_not_replaces (h : Current as s) {a : Request × Response}
    {t : CacheServiceImpl} (hstep : Step rule s a t) (hreplaces : ¬Replaces s a) :
    ∃ token key body, a = (.putEntry token key body, .done) ∧
      ∀ reader, s.isUserVerifier.verify reader = true →
        ∃ old u, Step rule t (.tryGetEntry reader key, .attachment old) u ∧ old ≠ body ∧
          lastBody key as = some old := by
  obtain ⟨token, key, body, entry, rfl, hsize, hentry, hne⟩ := not_replaces hreplaces
  refine ⟨token, key, body, rfl, fun reader hreader => ?_⟩
  obtain ⟨hmemory, hverifier⟩ := putEntry_oversize h.invariant hstep hsize
  rw [← hmemory] at hentry
  rw [← hverifier] at hreader
  obtain ⟨u, hget⟩ := tryGetEntry_resident rule (hmemory ▸ h.invariant) hentry hreader
  rw [hmemory] at hentry
  exact ⟨entry.buffer, u, hget, hne, h.memory key entry hentry⟩

/-- As long as every put replaces, a get that succeeds returns the bytes stored last
before it. The first put that does not replace is followed by gets of older bytes. -/
theorem tryGetEntry_latest {isUserVerifier isServantVerifier : TokenVerifier} {maxSize : ℕ}
    {t : CacheServiceImpl} (run : Run (Guarded (Step rule) Replaces)
      (new isUserVerifier isServantVerifier maxSize) as t) :
    (∀ before token key bytes after,
      as = before ++ (.tryGetEntry token key, .attachment bytes) :: after →
      lastBody key before = some bytes) ∧
    ∀ a u, Step rule t a u → ¬Replaces t a → ∃ token key body,
      a = (.putEntry token key body, .done) ∧
        ∀ reader, t.isUserVerifier.verify reader = true →
          ∃ old v, Step rule u (.tryGetEntry reader key, .attachment old) v ∧ old ≠ body := by
  constructor
  · rintro before token key bytes after rfl
    obtain ⟨s, hbefore, hrest⟩ := run.split
    cases hrest with
    | cons hstep _ =>
        obtain ⟨response, s', hget, -, hbytes⟩ :=
          (current_of_run hbefore).tryGetEntry rule token key
        cases hget.symm.trans hstep.1
        exact hbytes bytes rfl
  · intro a u hstep hreplaces
    obtain ⟨token, key, body, rfl, hstale⟩ :=
      stale_of_not_replaces (current_of_run run) hstep hreplaces
    refine ⟨token, key, body, rfl, fun reader hreader => ?_⟩
    obtain ⟨old, v, hget, hne, -⟩ := hstale reader hreader
    exact ⟨old, v, hget, hne⟩

/-- Take one step, if the response is the one given. -/
def next (rule : AdaptiveUpdate) (s : CacheServiceImpl) (a : Request × Response) :
    Option CacheServiceImpl :=
  match handle rule s a.1 with
  | .error _ => none
  | .ok (response, t) => if response = a.2 then some t else none

theorem step_of_next (s : CacheServiceImpl) (a : Request × Response) (t : CacheServiceImpl)
    (h : next rule s a = some t) : Step rule s a t := by
  unfold next at h
  split at h
  · cases h
  · next response t' hhandle =>
      split at h
      · next heq =>
          cases h
          unfold Step
          rw [← heq]
          exact hhandle
      · cases h

/-- A service with one user, one servant and four bytes of memory. -/
def sampleService : CacheServiceImpl := new ⟨["user"]⟩ ⟨["servant"]⟩ 4

/-- A body of five bytes under a new key is served by the engine; purging the other key
leaves it in memory. -/
def replacingRun : List (Request × Response) :=
  [(.putEntry "servant" "k" [1, 2], .done), (.putEntry "servant" "m" [3, 4, 5, 6, 7], .done),
    (.purge ["k"], .done), (.tryGetEntry "user" "k", .attachment [1, 2]),
    (.tryGetEntry "user" "m", .attachment [3, 4, 5, 6, 7])]

theorem tryGetEntry_latest_replacingRun :
    (follow (guardedNext (next ratioUpdate) Replaces) replacingRun sampleService).isSome ∧
      lastBody "m" (replacingRun.take 4) = some [3, 4, 5, 6, 7] := by
  have hsome : (follow (guardedNext (next ratioUpdate) Replaces) replacingRun
      sampleService).isSome := by
    decide
  refine ⟨hsome, ?_⟩
  obtain ⟨t, ht⟩ := Option.isSome_iff_exists.mp hsome
  have run : Run (Guarded (Step ratioUpdate) Replaces) sampleService replacingRun t :=
    .of_follow (guarded_of_guardedNext step_of_next) ht
  exact (tryGetEntry_latest run).1 (replacingRun.take 4) "user" "m" [3, 4, 5, 6, 7] [] rfl

/-- A body of five bytes does not replace one of two bytes. -/
theorem tryGetEntry_oversize :
    ¬∀ as t, Run (Step ratioUpdate) sampleService as t → ∀ before token key bytes after,
      as = before ++ (.tryGetEntry token key, .attachment bytes) :: after →
      lastBody key before = some bytes := by
  intro hlatest
  let before : List (Request × Response) := [(.putEntry "servant" "k" [1, 2], .done),
    (.putEntry "servant" "k" [3, 4, 5, 6, 7], .done)]
  have hsome : (follow (next ratioUpdate)
      (before ++ [(.tryGetEntry "user" "k", .attachment [1, 2])]) sampleService).isSome := by
    decide
  obtain ⟨t, ht⟩ := Option.isSome_iff_exists.mp hsome
  have hlast := hlatest _ t (.of_follow step_of_next ht) before "user" "k" [1, 2] [] rfl
  exact absurd hlast (by decide)

end CacheServiceImpl

end Yadcc.Cache
