/-
# Loads of the Bloom filter that fail

A load may get no answer, an answer that cannot be decompressed, or a filter of an invalid
size. The reader notes the time of a full update before it looks at the filter, and its
constructor notes the time in any case. Either way a load that has failed is remembered as a
successful one. This module follows any sequence of loads, from the constructor on, and
determines when the reader knows how old its filter is.
-/

import Yadcc.Daemon.CacheFormat
import Yadcc.Daemon.Local.DistributedCacheReader

namespace Yadcc.Daemon.Local

open Yadcc.Lib Yadcc.Cache

variable {lib : BloomLibrary}

/-! ## Loads -/

/-- What comes back for a request. -/
inductive LoadReply
  | failed
  | incremental (newlyPopulatedKeys : List String)
  | full (attachment : Bytes) (numHashes : ℕ)
  deriving DecidableEq

/-- Decompression, and the filter that is made of bytes. -/
structure FilterDecoder (lib : BloomLibrary) where
  decompress : Bytes → Option Bytes
  saltedBloomFilter : Bytes → ℕ → lib.Filter

/-- The size is no power of two. -/
def invalidSize (bytes : Bytes) : Bool := bytes.length &&& (bytes.length - 1) ≠ 0

namespace DistributedCacheReader

/-- A reader that has not loaded a filter; the dummy filter has no keys. -/
def unloaded : DistributedCacheReader lib := ⟨0, 0, lib.empty⟩

/-- A load that began at `now`. -/
def loadCacheBloomFilter (decoder : FilterDecoder lib) (now : Time) (reply : LoadReply)
    (reader : DistributedCacheReader lib) : DistributedCacheReader lib :=
  match reply with
  | .failed => reader
  | .incremental newlyPopulatedKeys =>
      newlyPopulatedKeys.foldl (fun r e => { r with cacheBf := lib.add e r.cacheBf })
        { reader with lastBfUpdate := now }
  | .full attachment numHashes =>
      let updated := { reader with lastBfFullUpdate := now, lastBfUpdate := now }
      match decoder.decompress attachment with
      | none => updated
      | some bytes =>
          if invalidSize bytes then updated
          else { updated with cacheBf := decoder.saltedBloomFilter bytes numHashes }

/-- The constructor loads the filter, and reads the clock a second time. -/
def construct (decoder : FilterDecoder lib) (began ended : Time) (reply : LoadReply) :
    DistributedCacheReader lib :=
  { unloaded.loadCacheBloomFilter decoder began reply with
    lastBfFullUpdate := ended
    lastBfUpdate := ended }

/-- The reader after loads, each with its reading of the clock and what came back. -/
def load (decoder : FilterDecoder lib) (reader : DistributedCacheReader lib)
    (loads : List (Time × LoadReply)) : DistributedCacheReader lib :=
  loads.foldl (fun r e => r.loadCacheBloomFilter decoder e.1 e.2) reader

/-- What becomes of a read, with the reason when there is no entry. -/
inductive ReadResult
  | notEnabled
  | absent
  | failed
  | unparsable
  | hit (entry : CacheEntry)

/-- Ten minutes. -/
def freshFor : Time := 600 * second

/-- The stub is not there when caching is not enabled. It gets the attachment that the server
has for a key. -/
def tryRead (format : CacheLibrary) (cacheStub : Option (String → Option Bytes)) (now : Time)
    (key : String) (reader : DistributedCacheReader lib) : ReadResult :=
  match cacheStub with
  | none => .notEnabled
  | some tryGetEntry =>
      if reader.lastBfUpdate + freshFor > now ∧ lib.possiblyContains reader.cacheBf key = false then
        .absent
      else
        match tryGetEntry key with
        | none => .failed
        | some attachment =>
            match tryParseCacheEntry format attachment with
            | none => .unparsable
            | some entry => .hit entry

/-! ## Reliable readers -/

/-- The reply has a filter that is installed. -/
def Installs (decoder : FilterDecoder lib) : LoadReply → Prop
  | .full attachment _ => ∃ bytes, decoder.decompress attachment = some bytes ∧
      invalidSize bytes = false
  | _ => False

/-- The reply has a filter that is installed, or a list that is merged. -/
def TakenIn (decoder : FilterDecoder lib) : LoadReply → Prop
  | .incremental _ => True
  | reply => Installs decoder reply

def AsksFull (request : FetchBloomFilterRequest) : Prop :=
  request.secondsSinceLastFetch = 0x7fffffff ∧ request.secondsSinceLastFullFetch = 0x7fffffff

/-- As long as there is no filter, the reader asks for one, and does not rely on the dummy. -/
structure Aware (token : String) (format : CacheLibrary) (tryGetEntry : String → Option Bytes)
    (reader : DistributedCacheReader lib) : Prop where
  asksFull : ∀ now, AsksFull (makeFetchRequest token now reader)
  notAbsent : ∀ now key, reader.tryRead format (some tryGetEntry) now key ≠ .absent

/-- A reader with the reply to the load of its constructor and the later loads: what fails
changes nothing, and the reader is aware of having no filter. -/
structure Reliable (decoder : FilterDecoder lib) (token : String) (format : CacheLibrary)
    (tryGetEntry : String → Option Bytes) (began ended : Time) (first : LoadReply)
    (loads : List (Time × LoadReply)) : Prop where
  unloaded : ¬ TakenIn decoder first → construct decoder began ended first = unloaded
  unchanged : ∀ before now reply after, loads = before ++ (now, reply) :: after →
    ¬ TakenIn decoder reply →
      ((construct decoder began ended first).load decoder before).loadCacheBloomFilter decoder
          now reply
        = (construct decoder began ended first).load decoder before
  aware : ∀ before after, loads = before ++ after →
    (∀ reply ∈ first :: before.map Prod.snd, ¬ Installs decoder reply) →
      Aware token format tryGetEntry ((construct decoder began ended first).load decoder before)

variable {decoder : FilterDecoder lib} {reader : DistributedCacheReader lib} {now : Time}
  {reply : LoadReply}

/-- A filter that is not installed changes the times all the same. -/
theorem loadCacheBloomFilter_rejected {attachment : Bytes} {numHashes : ℕ}
    (h : ¬ Installs decoder (.full attachment numHashes)) :
    reader.loadCacheBloomFilter decoder now (.full attachment numHashes)
      = { reader with lastBfFullUpdate := now, lastBfUpdate := now } := by
  unfold loadCacheBloomFilter
  dsimp only
  cases hbytes : decoder.decompress attachment with
  | none => rfl
  | some bytes =>
      have hinvalid : invalidSize bytes = true := by
        by_contra hvalid
        exact h ⟨bytes, hbytes, Bool.not_eq_true _ ▸ hvalid⟩
      dsimp only
      rw [if_pos hinvalid]

/-- A load that takes nothing in changes nothing if and only if there was no answer, or the
answer has the times that are known already. -/
theorem loadCacheBloomFilter_eq_self_iff (h : ¬ TakenIn decoder reply) :
    reader.loadCacheBloomFilter decoder now reply = reader ↔
      reply = .failed ∨ reader.lastBfFullUpdate = now ∧ reader.lastBfUpdate = now := by
  cases reply with
  | failed => exact iff_of_true rfl (.inl rfl)
  | incremental keys => exact absurd trivial h
  | full attachment numHashes =>
      rw [loadCacheBloomFilter_rejected h]
      constructor
      · intro heq
        have hfull := congrArg DistributedCacheReader.lastBfFullUpdate heq
        have hupdate := congrArg DistributedCacheReader.lastBfUpdate heq
        exact .inr ⟨hfull.symm, hupdate.symm⟩
      · rintro (hfailed | ⟨hfull, hupdate⟩)
        · cases hfailed
        · rw [← hfull]
          nth_rewrite 2 [hfull]
          rw [← hupdate]

/-- A reader that believes in a full update does not ask for one. -/
theorem not_asksFull (token : String) (h : reader.lastBfFullUpdate ≠ 0)
    (hsame : reader.lastBfUpdate = now) : ¬ AsksFull (makeFetchRequest token now reader) := by
  intro hasks
  unfold makeFetchRequest at hasks
  rw [if_neg h, hsame] at hasks
  have hzero : secondsSince now now = 0 := by
    unfold secondsSince
    rw [sub_self]
    rfl
  have hseconds : secondsSince now now = 0x7fffffff := hasks.1
  rw [hzero] at hseconds
  exact absurd hseconds (by decide)

/-- From the constructor on, for any loads, the reader is reliable if and only if the first
load installs a filter, and none of the others gets a filter that cannot be installed, unless
the times of that load are the ones that are known already. -/
theorem reliable_iff (decoder : FilterDecoder lib) (token : String) (format : CacheLibrary)
    (tryGetEntry : String → Option Bytes) (began ended : Time) (hclock : 0 < ended)
    (first : LoadReply) (loads : List (Time × LoadReply)) :
    Reliable decoder token format tryGetEntry began ended first loads ↔
      Installs decoder first ∧
        ∀ before now attachment numHashes after,
          loads = before ++ (now, .full attachment numHashes) :: after →
            Installs decoder (.full attachment numHashes) ∨
              ((construct decoder began ended first).load decoder before).lastBfFullUpdate = now ∧
              ((construct decoder began ended first).load decoder before).lastBfUpdate = now := by
  constructor
  · intro h
    constructor
    · by_contra hnot
      have hnone : ∀ reply ∈ first :: ([] : List (Time × LoadReply)).map Prod.snd,
          ¬ Installs decoder reply := by
        intro reply hreply
        rwa [List.mem_singleton.mp hreply]
      have haware := h.aware [] loads rfl hnone
      exact not_asksFull token hclock.ne' rfl (haware.asksFull ended)
    · intro before now attachment numHashes after hloads
      by_cases hinstalls : Installs decoder (.full attachment numHashes)
      · exact .inl hinstalls
      · have hnot : ¬ TakenIn decoder (.full attachment numHashes) := hinstalls
        have hunchanged := h.unchanged before now _ after hloads hnot
        rcases (loadCacheBloomFilter_eq_self_iff hnot).mp hunchanged with hfailed | htimes
        · cases hfailed
        · exact .inr htimes
  · rintro ⟨hfirst, hloads⟩
    refine ⟨?_, ?_, ?_⟩
    · intro hnot
      cases first with
      | failed => exact hfirst.elim
      | incremental keys => exact hfirst.elim
      | full attachment numHashes => exact absurd hfirst hnot
    · intro before now reply after hsplit hnot
      rw [loadCacheBloomFilter_eq_self_iff hnot]
      cases reply with
      | failed => exact .inl rfl
      | incremental keys => exact absurd trivial hnot
      | full attachment numHashes =>
          exact .inr ((hloads before now attachment numHashes after hsplit).resolve_left hnot)
    · intro before after _ hnone
      exact absurd hfirst (hnone first (List.mem_cons_self ..))

/-! ## Sample loads -/

/-- An attachment is its filter behind one byte. -/
def sampleDecoder : FilterDecoder exactFilter where
  decompress attachment := attachment.tail?
  saltedBloomFilter _ _ := []

/-- A format that reads no entry. -/
def sampleFormat : CacheLibrary where
  serialize _ := []
  parse _ := none
  blake3 bytes := bytes

/-- A filter of eight bytes. -/
def sampleFilter : LoadReply := .full (List.replicate 9 0) 10

/-- A filter of five bytes. -/
def crippledFilter : LoadReply := .full (List.replicate 6 0) 10

/-- After a filter come new keys and a load without an answer. -/
theorem reliable_of_sampleFilter : Reliable sampleDecoder "user" sampleFormat (fun _ => none)
    (1000 * second) (1001 * second) sampleFilter
    [(1003 * second, .incremental ["a"]), (1005 * second, .failed)] := by
  apply (reliable_iff sampleDecoder "user" sampleFormat (fun _ => none) (1000 * second)
    (1001 * second) (by decide) sampleFilter _).mpr
  refine ⟨⟨List.replicate 8 0, rfl, by decide⟩, ?_⟩
  intro before now attachment numHashes after hloads
  have hmem : (now, LoadReply.full attachment numHashes) ∈
      [(1003 * second, LoadReply.incremental ["a"]), (1005 * second, LoadReply.failed)] := by
    rw [hloads]
    exact List.mem_append_right before (List.mem_cons_self ..)
  simp at hmem

/-- A reader whose first load has failed is not reliable, nor is one that gets a filter of an
invalid size later. -/
theorem not_reliable_of_failure :
    (¬ Reliable sampleDecoder "user" sampleFormat (fun _ => none) (1000 * second) (1001 * second)
      .failed []) ∧
    ¬ Reliable sampleDecoder "user" sampleFormat (fun _ => none) (1000 * second) (1001 * second)
      sampleFilter [(1003 * second, crippledFilter)] := by
  constructor
  · intro h
    have hsame := congrArg lastBfFullUpdate (h.unloaded not_false)
    exact absurd hsame (by decide)
  · intro h
    have hnot : ¬ TakenIn sampleDecoder crippledFilter := by
      rintro ⟨bytes, hbytes, hvalid⟩
      cases hbytes
      exact absurd hvalid (by decide)
    have hsame := congrArg lastBfFullUpdate (h.unchanged [] _ _ [] rfl hnot)
    exact absurd hsame (by decide)

end DistributedCacheReader

end Yadcc.Daemon.Local
