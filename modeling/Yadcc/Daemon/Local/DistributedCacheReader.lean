/-
# Keeping a copy of the Bloom filter

The daemon keeps a copy of the Bloom filter of the cache server: it loads it once as it
starts, and again on a timer. The reader has a clock and the server has one, which differ by
a constant. A load reads the clock, makes a request out of the times it knows, waits, notes
the time it has read, and merges the answer, one key at a time or as a whole; several loads
may be under way at once. The question is whether the copy then contains every key that the
server was told of before it answered. It does as long as an incremental answer goes back to
some answer that the copy has taken in already.
-/

import Yadcc.Cache.FetchBloomFilter
import Yadcc.Lib.Transition
import Yadcc.Lib.UnorderedMap
import Yadcc.Lib.Word

namespace Yadcc.Daemon.Local

open Yadcc.Lib Yadcc.Cache

variable {lib : BloomLibrary}

/-! ## The reader -/

structure DistributedCacheReader (lib : BloomLibrary) where
  lastBfFullUpdate : Time
  lastBfUpdate : Time
  cacheBf : lib.Filter

/-- Whole seconds, as the request has them. -/
def secondsSince (last now : Time) : UInt32 := UInt32.ofInt ((now - last).tdiv second)

/-- The seconds fall short by less than one, unless they do not fit. -/
theorem lt_secondsSince {last now : Time} (hfits : now < last + 2 ^ 32 * second) :
    now - last < (secondsSince last now).toNat * second + second := by
  have hnonneg : (0 : ℤ) ≤ (secondsSince last now).toNat * second :=
    Int.mul_nonneg (Int.natCast_nonneg _) second_pos.le
  rcases lt_or_ge now last with hlt | hle
  · have hpos := second_pos
    linarith
  · have helapsed : 0 ≤ now - last := sub_nonneg.mpr hle
    have hupper : (now - last) / second < 2 ^ 32 :=
      Int.ediv_lt_of_lt_mul second_pos (sub_lt_iff_lt_add'.mpr hfits)
    have htoNat : ((secondsSince last now).toNat : ℤ) = (now - last) / second := by
      rw [secondsSince, Int.tdiv_eq_ediv_of_nonneg helapsed]
      exact UInt32.toNat_ofInt (Int.ediv_nonneg helapsed second_pos.le) hupper
    calc
      now - last < ((now - last) / second + 1) * second :=
        Int.lt_ediv_add_one_mul_self _ second_pos
      _ = (secondsSince last now).toNat * second + second := by
        rw [htoNat, add_mul, one_mul]

/-- Unless there was a full update, ask as if the last one was long ago. -/
def makeFetchRequest (token : String) (now : Time) (reader : DistributedCacheReader lib) :
    FetchBloomFilterRequest :=
  if reader.lastBfFullUpdate = 0 then
    { token, secondsSinceLastFetch := 0x7fffffff, secondsSinceLastFullFetch := 0x7fffffff }
  else
    { token
      secondsSinceLastFetch := secondsSince reader.lastBfUpdate now
      secondsSinceLastFullFetch := secondsSince reader.lastBfFullUpdate now }

/-- What does not change: the tokens, the difference of the clocks, and the number that the
server draws from the address of the client. -/
structure Connection where
  token : String
  isUserVerifier : TokenVerifier
  clockOffset : Time
  clientHash : UInt64

/-- An answer with what belongs to it: the reading of the reader's clock that its load
began with, the time of the last update that its request counts from, the time on the
server's clock when it was made, and the keys with their times that the server had been told
of by then and had not dropped since. -/
structure Answer (lib : BloomLibrary) where
  request : FetchBloomFilterRequest
  response : FetchBloomFilterResponse lib
  asked : Time
  countedFrom : Time
  handled : Time
  kept : List (String × Time)

/-- From when on an incremental answer has the new keys. -/
def Answer.since (answer : Answer lib) : Time := answer.handled - answer.request.recent

/-- Where a load is: before its request, before the server, before the reply, or merging. -/
inductive LoadPhase (lib : BloomLibrary)
  | started
  | requested (request : FetchBloomFilterRequest) (countedFrom : Time)
  | answered (answer : Answer lib)
  | adding (keys : List String) (answer : Answer lib)
  | installing (filter : lib.Filter) (answer : Answer lib)

structure Load (lib : BloomLibrary) where
  now : Time
  phase : LoadPhase lib

/-- The reader with its loads, and the generator of the server. `kept` and `takenIn` are no
data of theirs: the keys that the server was told of and has not dropped since, and the
answers that the copy has taken in since it was last replaced, the newest first. -/
structure FilterCopy (lib : BloomLibrary) where
  now : Time
  bfGen : BloomFilterGenerator lib
  kept : List (String × Time)
  reader : DistributedCacheReader lib
  constructed : Bool
  loads : UnorderedMap ℕ (Load lib)
  nextLoad : ℕ
  takenIn : List (Answer lib)

namespace FilterCopy

/-- A server that has a filter, and no reader yet. -/
def start (filter : lib.Filter) (now : Time) : FilterCopy lib where
  now := now
  bfGen := ⟨filter, []⟩
  kept := []
  reader := ⟨0, 0, lib.empty⟩
  constructed := false
  loads := ∅
  nextLoad := 0
  takenIn := []

def serverNow (c : Connection) (s : FilterCopy lib) : Time := s.now + c.clockOffset

/-! ## Steps -/

/-- The reader is `construct`ed with a load of its own, the first one. -/
inductive Action
  | tick (nanoseconds : ℕ)
  | add (key : String)
  | rebuild (keys : List String) (compensation : ℕ)
  | construct
  | constructed
  | reloadTimer
  | request (load : ℕ)
  | handle (load : ℕ) (random : Fin 121)
  | fail (load : ℕ)
  | receive (load : ℕ)
  | addKey (load : ℕ)
  | install (load : ℕ)

def beginLoad (s : FilterCopy lib) : FilterCopy lib :=
  { s with
    loads := s.loads.insert s.nextLoad ⟨s.now, .started⟩
    nextLoad := s.nextLoad + 1 }

/-- Requests are handled within this time. -/
def handlingBound : Time := 4 * second

/-- Take a step; `none` when the load is not there. -/
def next (c : Connection) (s : FilterCopy lib) : Action → Option (FilterCopy lib)
  | .tick nanoseconds => some { s with now := s.now + nanoseconds }
  | .add key =>
      some { s with
        bfGen := s.bfGen.add key (s.serverNow c)
        kept := (key, s.serverNow c) :: s.kept }
  | .rebuild keys compensation =>
      let bfGen := s.bfGen.rebuild keys compensation (s.serverNow c)
      some { s with
        bfGen
        kept := s.kept.filter fun e => lib.possiblyContains bfGen.getBloomFilter e.1 }
  | .construct => if s.nextLoad = 0 then some s.beginLoad else none
  | .constructed =>
      if s.nextLoad ≠ 0 ∧ s.constructed = false ∧ s.loads.lookup 0 = none then
        some { s with
          reader := { s.reader with lastBfFullUpdate := s.now, lastBfUpdate := s.now }
          constructed := true }
      else none
  | .reloadTimer => if s.constructed then some s.beginLoad else none
  | .request load =>
      match s.loads.lookup load with
      | some ⟨now, .started⟩ =>
          some { s with
            loads := s.loads.insert load
              ⟨now, .requested (makeFetchRequest c.token now s.reader) s.reader.lastBfUpdate⟩ }
      | _ => none
  | .handle load random =>
      match s.loads.lookup load with
      | some ⟨now, .requested request countedFrom⟩ =>
          if s.now ≤ now + handlingBound then
            let (response, bfGen) := fetchBloomFilter c.isUserVerifier c.clientHash random
              (s.serverNow c) request s.bfGen
            some { s with
              bfGen
              loads := s.loads.insert load
                ⟨now, .answered ⟨request, response, now, countedFrom, s.serverNow c, s.kept⟩⟩ }
          else none
      | _ => none
  | .fail load =>
      match s.loads.lookup load with
      | some ⟨_, .requested _ _⟩ | some ⟨_, .answered _⟩ =>
          some { s with loads := s.loads.erase load }
      | _ => none
  | .receive load =>
      match s.loads.lookup load with
      | some ⟨now, .answered answer⟩ =>
          match answer.response with
          | .incremental keys =>
              some { s with
                reader := { s.reader with lastBfUpdate := now }
                loads := s.loads.insert load ⟨now, .adding keys answer⟩ }
          | .full filter =>
              some { s with
                reader := { s.reader with lastBfFullUpdate := now, lastBfUpdate := now }
                loads := s.loads.insert load ⟨now, .installing filter answer⟩ }
          | _ => some { s with loads := s.loads.erase load }
      | _ => none
  | .addKey load =>
      match s.loads.lookup load with
      | some ⟨now, .adding (key :: keys) answer⟩ =>
          some { s with
            reader := { s.reader with cacheBf := lib.add key s.reader.cacheBf }
            loads := s.loads.insert load ⟨now, .adding keys answer⟩ }
      | some ⟨_, .adding [] answer⟩ =>
          some { s with
            loads := s.loads.erase load
            takenIn := answer :: s.takenIn }
      | _ => none
  | .install load =>
      match s.loads.lookup load with
      | some ⟨_, .installing filter answer⟩ =>
          some { s with
            reader := { s.reader with cacheBf := filter }
            loads := s.loads.erase load
            takenIn := [answer] }
      | _ => none

def Step (c : Connection) (s : FilterCopy lib) (a : Action) (t : FilterCopy lib) : Prop :=
  s.next c a = some t

/-- The copy contains what the server had been told of, and had not dropped, when it made
the answer that was processed last. -/
def UpToDate (s : FilterCopy lib) : Prop :=
  ∀ answer, s.takenIn.head? = some answer →
    ∀ e ∈ answer.kept, lib.possiblyContains s.reader.cacheBf e.1 = true

/-! ## Answers that connect -/

/-- The request counts from the moment when the load of the other answer began, or from
before that. The seconds of a request fit while the update is less than 136 years ago. -/
def CountsFrom (answer earlier : Answer lib) : Prop :=
  answer.countedFrom ≤ earlier.asked ∧ answer.asked < answer.countedFrom + 2 ^ 32 * second

/-- An incremental answer connects to an earlier one when it counts from that, or when for
another reason it goes back to the time when that was made. It also connects to any that
misses none of its keys. -/
def Connects (answer other : Answer lib) : Prop :=
  (other.handled < answer.handled ∧
    (CountsFrom answer other ∨ answer.since ≤ other.handled)) ∨
  ∀ e ∈ answer.kept, e ∈ other.kept

instance (answer earlier : Answer lib) : Decidable (CountsFrom answer earlier) :=
  inferInstanceAs (Decidable (_ ∧ _))

instance (answer other : Answer lib) : Decidable (Connects answer other) :=
  inferInstanceAs (Decidable (_ ∨ _))

/-- An incremental answer is received only if it connects to one that the copy has taken in,
and a filter replaces the copy only if it has the keys that other loads have added already. -/
def keepsUp (s : FilterCopy lib) : Action → Bool
  | .receive load =>
      match s.loads.lookup load with
      | some ⟨_, .answered answer⟩ =>
          match answer.response with
          | .incremental _ => s.takenIn.any fun other => decide (Connects answer other)
          | _ => true
      | _ => true
  | .install load =>
      match s.loads.lookup load with
      | some ⟨_, .installing _ answer⟩ =>
          s.loads.entries.all fun l =>
            match l.2.phase with
            | .adding keys other =>
                other.kept.all fun e => keys.contains e.1 || answer.kept.contains e
            | _ => true
      | _ => true
  | _ => true

def KeepsUp (s : FilterCopy lib) (a : Action) : Prop := s.keepsUp a = true

instance (s : FilterCopy lib) (a : Action) : Decidable (s.KeepsUp a) :=
  inferInstanceAs (Decidable (_ = true))

/-! ## The server and its keys -/

section Invariant

variable {c : Connection} {s t : FilterCopy lib} {now : Time} {bfGen : BloomFilterGenerator lib}
  {kept : List (String × Time)}

/-- The filter contains the keys that are kept, and those of the last hour are recorded. -/
structure Kept (now : Time) (bfGen : BloomFilterGenerator lib) (kept : List (String × Time)) :
    Prop where
  history : bfGen.Ordered now
  contained : ∀ e ∈ kept, bfGen.Contains e.1
  recorded : ∀ e ∈ kept, now - BloomFilterGenerator.kNewlyPopulatedKeyHistory ≤ e.2 →
    e ∈ bfGen.newlyPopulatedKeys

theorem Kept.tick (h : Kept now bfGen kept) {now' : Time} (hle : now ≤ now') :
    Kept now' bfGen kept := by
  refine ⟨h.history.mono hle, h.contained, ?_⟩
  intro e he hrecent
  exact h.recorded e he ((sub_le_sub_right hle _).trans hrecent)

theorem Kept.add (hlib : lib.NoFalseNegatives) (h : Kept now bfGen kept) (key : String) :
    Kept now (bfGen.add key now) ((key, now) :: kept) := by
  refine ⟨h.history.add key, ?_, ?_⟩
  · intro e he
    rcases List.mem_cons.mp he with rfl | he
    · exact BloomFilterGenerator.contains_add hlib key now
    · exact (h.contained e he).add hlib key now
  · intro e he hrecent
    rcases List.mem_cons.mp he with rfl | he
    · exact List.mem_append_right _ (List.mem_singleton_self _)
    · exact List.mem_append_left _ (h.recorded e he hrecent)

/-- Collecting the new keys forgets only what is older than the history. -/
theorem Kept.recorded_unsafeGet (h : Kept now bfGen kept) (recent : Time) (e : String × Time)
    (he : e ∈ kept) (hrecent : now - BloomFilterGenerator.kNewlyPopulatedKeyHistory ≤ e.2) :
    e ∈ (bfGen.unsafeGetNewlyPopulatedKeys recent now).2.newlyPopulatedKeys :=
  BloomFilterGenerator.mem_dropWhile h.history.sorted (h.recorded e he hrecent) hrecent

theorem Kept.unsafeGet (h : Kept now bfGen kept) (recent : Time) :
    Kept now (bfGen.unsafeGetNewlyPopulatedKeys recent now).2 kept :=
  ⟨h.history.unsafeGetNewlyPopulatedKeys recent now, h.contained, h.recorded_unsafeGet recent⟩

/-- A rebuild may drop keys; what it drops is not kept any more. -/
theorem Kept.rebuild (h : Kept now bfGen kept) (keys : List String) (compensation : Time) :
    Kept now (bfGen.rebuild keys compensation now) (kept.filter fun e =>
      lib.possiblyContains (bfGen.rebuild keys compensation now).getBloomFilter e.1) := by
  refine ⟨h.history.rebuild keys compensation now, ?_, ?_⟩
  · intro e he
    exact (List.mem_filter.mp he).2
  · intro e he hrecent
    exact h.recorded_unsafeGet compensation e (List.mem_filter.mp he).1 hrecent

/-- An incremental answer has the kept keys from the time on that it goes back to. -/
theorem Kept.mem_keys (h : Kept now bfGen kept) {recent : Time}
    (hhistory : recent ≤ BloomFilterGenerator.kNewlyPopulatedKeyHistory) {e : String × Time}
    (he : e ∈ kept) (hrecent : now - recent ≤ e.2) :
    e.1 ∈ (bfGen.unsafeGetNewlyPopulatedKeys recent now).1 := by
  have hold : now - BloomFilterGenerator.kNewlyPopulatedKeyHistory ≤ e.2 :=
    (sub_le_sub_left hhistory now).trans hrecent
  have hadded : bfGen.AddedSince e.2 e.1 := ⟨e.2, le_rfl, h.recorded e he hold⟩
  exact BloomFilterGenerator.mem_newlyPopulatedKeys h.history hadded hrecent hold

/-! ## Answers -/

/-- Keys of a later moment were kept as the answer was made, or were added since. -/
def Precedes (answer : Answer lib) (kept : List (String × Time)) : Prop :=
  ∀ e ∈ kept, e ∈ answer.kept ∨ answer.handled ≤ e.2

/-- What an answer says is right. -/
structure Sound (c : Connection) (answer : Answer lib) : Prop where
  askedBefore : answer.asked + c.clockOffset ≤ answer.handled
  prompt : answer.handled ≤ answer.asked + c.clockOffset + handlingBound
  full : ∀ filter, answer.response = .full filter →
    ∀ e ∈ answer.kept, lib.possiblyContains filter e.1 = true
  incremental : ∀ keys, answer.response = .incremental keys →
    answer.request.secondsSinceLastFetch = secondsSince answer.countedFrom answer.asked ∧
      ∀ e ∈ answer.kept, answer.since ≤ e.2 → e.1 ∈ keys

/-- The answers that are held are right, and each precedes the later ones and the present. -/
structure Answers (c : Connection) (now : Time) (kept : List (String × Time))
    (held : Answer lib → Prop) : Prop where
  sound : ∀ answer, held answer → Sound c answer
  past : ∀ answer, held answer → answer.handled ≤ now
  precedes : ∀ answer, held answer → Precedes answer kept
  ordered : ∀ answer answer', held answer → held answer' →
    answer.handled < answer'.handled → Precedes answer answer'.kept

theorem Answers.mono {held held' : Answer lib → Prop} (h : Answers c now kept held)
    (hheld : ∀ answer, held' answer → held answer) : Answers c now kept held' := by
  constructor
  · exact fun answer ha => h.sound answer (hheld answer ha)
  · exact fun answer ha => h.past answer (hheld answer ha)
  · exact fun answer ha => h.precedes answer (hheld answer ha)
  · exact fun answer answer' ha ha' =>
      h.ordered answer answer' (hheld answer ha) (hheld answer' ha')

theorem Answers.tick {held : Answer lib → Prop} (h : Answers c now kept held) {now' : Time}
    (hle : now ≤ now') : Answers c now' kept held :=
  { h with past := fun answer ha => (h.past answer ha).trans hle }

theorem Answers.add {held : Answer lib → Prop} (h : Answers c now kept held) (key : String) :
    Answers c now ((key, now) :: kept) held := by
  refine { h with precedes := ?_ }
  intro answer ha e he
  rcases List.mem_cons.mp he with rfl | he
  · exact .inr (h.past answer ha)
  · exact h.precedes answer ha e he

theorem Answers.subset {held : Answer lib → Prop} (h : Answers c now kept held)
    {kept' : List (String × Time)} (hsub : kept' ⊆ kept) : Answers c now kept' held :=
  { h with precedes := fun answer ha e he => h.precedes answer ha e (hsub he) }

/-- An answer is made. -/
theorem Answers.handle {held held' : Answer lib → Prop} (h : Answers c now kept held)
    {answer : Answer lib} (hsound : Sound c answer) (hnow : answer.handled = now)
    (hkept : answer.kept = kept) (hheld : ∀ a, held' a → held a ∨ a = answer) :
    Answers c now kept held' := by
  constructor
  · intro a ha
    rcases hheld a ha with ha | rfl
    · exact h.sound a ha
    · exact hsound
  · intro a ha
    rcases hheld a ha with ha | rfl
    · exact h.past a ha
    · exact hnow.le
  · intro a ha
    rcases hheld a ha with ha | rfl
    · exact h.precedes a ha
    · intro e he
      exact .inl (hkept ▸ he)
  · intro a a' ha ha' hlt
    rcases hheld a' ha' with ha' | rfl
    · rcases hheld a ha with ha | rfl
      · exact h.ordered a a' ha ha' hlt
      · exact absurd (h.past a' ha') (not_le.mpr (hnow ▸ hlt))
    · rcases hheld a ha with ha | rfl
      · rw [hkept]
        exact h.precedes a ha
      · exact absurd hlt (lt_irrefl _)

/-- The seconds of a request make up for its delay: an answer that counts from another one
goes back to when that was made. -/
theorem since_le {answer earlier : Answer lib} (h : Sound c answer) (hearlier : Sound c earlier)
    {keys : List String} (hincremental : answer.response = .incremental keys)
    (hcounts : CountsFrom answer earlier) : answer.since ≤ earlier.handled := by
  obtain ⟨hfrom, hwrap⟩ := hcounts
  have hprompt := h.prompt
  have hask := hearlier.askedBefore
  have hseconds := (h.incremental keys hincremental).1
  have helapsed : answer.asked - answer.countedFrom <
      answer.request.secondsSinceLastFetch.toNat * second + second := by
    rw [hseconds]
    exact lt_secondsSince hwrap
  rw [handlingBound] at hprompt
  rw [Answer.since, FetchBloomFilterRequest.recent, kNetworkDelayCompensation]
  linarith

/-! ## Loads -/

/-- The answer that a load has got. -/
def loadAnswer : LoadPhase lib → Option (Answer lib)
  | .started | .requested _ _ => none
  | .answered answer | .adding _ answer | .installing _ answer => some answer

/-- What a load will do is right: what it has not added yet, or has not installed yet, makes
the copy contain the kept keys of its answer. -/
def Ready (now : Time) (cacheBf : lib.Filter) (asked : Time) : LoadPhase lib → Prop
  | .started => asked ≤ now
  | .requested request countedFrom => asked ≤ now ∧
      (request.secondsSinceLastFullFetch.toNat < 839 →
        request.secondsSinceLastFetch = secondsSince countedFrom asked)
  | .answered _ => True
  | .adding keys answer =>
      ∀ e ∈ answer.kept, e.1 ∈ keys ∨ lib.possiblyContains cacheBf e.1 = true
  | .installing filter answer => ∀ e ∈ answer.kept, lib.possiblyContains filter e.1 = true

theorem Ready.mono {cacheBf cacheBf' : lib.Filter} {now' asked : Time} {phase : LoadPhase lib}
    (h : Ready now cacheBf asked phase) (hle : now ≤ now')
    (hgrows : ∀ key, lib.possiblyContains cacheBf key = true →
      lib.possiblyContains cacheBf' key = true) : Ready now' cacheBf' asked phase := by
  cases phase with
  | started => exact h.trans hle
  | requested request countedFrom => exact ⟨h.1.trans hle, h.2⟩
  | answered answer => trivial
  | adding keys answer => exact fun e he => (h e he).imp_right (hgrows e.1)
  | installing filter answer => exact h

/-- The answer is held by the copy or by a load. -/
def Held (loads : UnorderedMap ℕ (Load lib)) (takenIn : List (Answer lib))
    (answer : Answer lib) : Prop :=
  answer ∈ takenIn ∨ ∃ load l, loads.lookup load = some l ∧ loadAnswer l.phase = some answer

theorem held_of_insert {loads : UnorderedMap ℕ (Load lib)} {takenIn : List (Answer lib)}
    {load : ℕ} {l : Load lib} {answer : Answer lib}
    (h : Held (loads.insert load l) takenIn answer) :
    Held loads takenIn answer ∨ loadAnswer l.phase = some answer := by
  rcases h with htaken | ⟨load', l', hl', hanswer⟩
  · exact .inl (.inl htaken)
  · rw [AList.lookup_insert_eq] at hl'
    split at hl'
    · cases hl'
      exact .inr hanswer
    · exact .inl (.inr ⟨load', l', hl', hanswer⟩)

theorem lookup_of_erase {loads : UnorderedMap ℕ (Load lib)} {load load' : ℕ} {l : Load lib}
    (h : (loads.erase load).lookup load' = some l) : loads.lookup load' = some l := by
  rw [AList.lookup_erase_eq] at h
  split at h
  · cases h
  · exact h

theorem held_of_erase {loads : UnorderedMap ℕ (Load lib)} {takenIn : List (Answer lib)}
    {load : ℕ} {answer : Answer lib} (h : Held (loads.erase load) takenIn answer) :
    Held loads takenIn answer := by
  rcases h with htaken | ⟨load', l', hl', hanswer⟩
  · exact .inl htaken
  · exact .inr ⟨load', l', lookup_of_erase hl', hanswer⟩

/-! ## The invariant -/

structure InStep (c : Connection) (s : FilterCopy lib) : Prop where
  server : Kept (s.serverNow c) s.bfGen s.kept
  answers : Answers c (s.serverNow c) s.kept (Held s.loads s.takenIn)
  loads : ∀ load l, s.loads.lookup load = some l → Ready s.now s.reader.cacheBf l.now l.phase
  takenIn : ∀ answer ∈ s.takenIn, ∀ e ∈ answer.kept,
    lib.possiblyContains s.reader.cacheBf e.1 = true

theorem InStep.tick (h : InStep c s) (nanoseconds : ℕ) :
    InStep c { s with now := s.now + nanoseconds } := by
  have hle : s.now ≤ s.now + nanoseconds := le_add_of_nonneg_right (Int.natCast_nonneg _)
  have hserver : s.serverNow c ≤ s.now + nanoseconds + c.clockOffset :=
    add_le_add_left hle _
  refine ⟨h.server.tick hserver, h.answers.tick hserver, ?_, h.takenIn⟩
  intro load l hl
  exact (h.loads load l hl).mono hle fun _ hcontains => hcontains

theorem InStep.add (hlib : lib.NoFalseNegatives) (h : InStep c s) (key : String) :
    InStep c { s with
      bfGen := s.bfGen.add key (s.serverNow c)
      kept := (key, s.serverNow c) :: s.kept } :=
  ⟨h.server.add hlib key, h.answers.add key, h.loads, h.takenIn⟩

theorem InStep.rebuild (h : InStep c s) (keys : List String) (compensation : Time) :
    InStep c { s with
      bfGen := s.bfGen.rebuild keys compensation (s.serverNow c)
      kept := s.kept.filter fun e => lib.possiblyContains
        (s.bfGen.rebuild keys compensation (s.serverNow c)).getBloomFilter e.1 } :=
  ⟨h.server.rebuild keys compensation, h.answers.subset (List.filter_subset_self _), h.loads,
    h.takenIn⟩

/-- A load begins or goes on, without an answer that is new; the times of the reader do not
matter. -/
theorem InStep.setLoad (h : InStep c s) (load : ℕ) {l : Load lib}
    (hready : Ready s.now s.reader.cacheBf l.now l.phase)
    (hheld : ∀ answer, loadAnswer l.phase = some answer → Held s.loads s.takenIn answer)
    (lastBfFullUpdate lastBfUpdate : Time) (nextLoad : ℕ) :
    InStep c { s with
      reader := { s.reader with lastBfFullUpdate, lastBfUpdate }
      loads := s.loads.insert load l
      nextLoad } := by
  refine ⟨h.server, h.answers.mono ?_, ?_, h.takenIn⟩
  · intro answer hanswer
    rcases held_of_insert hanswer with hold | hnew
    · exact hold
    · exact hheld answer hnew
  · intro load' l' hl'
    change (s.loads.insert load l).lookup load' = some l' at hl'
    rw [AList.lookup_insert_eq] at hl'
    split at hl'
    · cases hl'
      exact hready
    · exact h.loads load' l' hl'

theorem InStep.dropLoad (h : InStep c s) (load : ℕ) :
    InStep c { s with loads := s.loads.erase load } := by
  refine ⟨h.server, h.answers.mono fun _ hanswer => held_of_erase hanswer, ?_, h.takenIn⟩
  intro load' l hl
  exact h.loads load' l (lookup_of_erase hl)

theorem InStep.beginLoad (h : InStep c s) : InStep c s.beginLoad := by
  have hready : Ready s.now s.reader.cacheBf s.now (.started : LoadPhase lib) := le_rfl
  exact h.setLoad s.nextLoad (l := ⟨s.now, .started⟩) hready (fun _ hanswer => nomatch hanswer)
    _ _ _

/-! ## The steps of a load -/

/-- A request that is not forced has the seconds since the last update. -/
theorem secondsSinceLastFetch_of_lt {token : String} {asked : Time}
    {reader : DistributedCacheReader lib}
    (h : (makeFetchRequest token asked reader).secondsSinceLastFullFetch.toNat < 839) :
    (makeFetchRequest token asked reader).secondsSinceLastFetch =
      secondsSince reader.lastBfUpdate asked := by
  unfold makeFetchRequest at h ⊢
  split
  · next hforced =>
      rw [if_pos hforced] at h
      have hlarge : ¬(0x7fffffff : UInt32).toNat < 839 := by decide
      exact absurd h hlarge
  · rfl

theorem InStep.request (h : InStep c s) {load : ℕ} (hstep : s.next c (.request load) = some t) :
    InStep c t := by
  unfold next at hstep
  simp only at hstep
  split at hstep
  · next asked hload =>
      cases hstep
      have hasked : asked ≤ s.now := h.loads load ⟨asked, .started⟩ hload
      have hready : Ready s.now s.reader.cacheBf asked (.requested
          (makeFetchRequest c.token asked s.reader) s.reader.lastBfUpdate : LoadPhase lib) :=
        ⟨hasked, secondsSinceLastFetch_of_lt⟩
      exact h.setLoad load (l := ⟨asked, _⟩) hready (fun _ hanswer => nomatch hanswer) _ _ _
  · cases hstep

/-- The server answers a request. -/
theorem InStep.handle (h : InStep c s) {load : ℕ} {random : Fin 121}
    (hstep : s.next c (.handle load random) = some t) : InStep c t := by
  unfold next at hstep
  simp only at hstep
  split at hstep
  · next asked request countedFrom hload =>
      obtain ⟨hasked, hseconds⟩ := h.loads load ⟨asked, .requested request countedFrom⟩ hload
      split at hstep
      · next hprompt =>
          cases hstep
          -- What the answer says, and that the generator loses nothing that is recent.
          have hanswer : ∀ response bfGen, fetchBloomFilter c.isUserVerifier c.clientHash random
              (s.serverNow c) request s.bfGen = (response, bfGen) →
              Kept (s.serverNow c) bfGen s.kept ∧
              Sound c ⟨request, response, asked, countedFrom, s.serverNow c, s.kept⟩ := by
            intro response bfGen hfetch
            have hafter : asked + c.clockOffset ≤ s.serverNow c := add_le_add_left hasked _
            have hwithin : s.serverNow c ≤ asked + c.clockOffset + handlingBound := by
              rw [serverNow]
              linarith
            rcases fetchBloomFilter_cases c.isUserVerifier c.clientHash random (s.serverNow c)
              request s.bfGen with (hcase | hcase | hcase) | ⟨hfresh, hhistory, hcase⟩
            · cases hfetch.symm.trans hcase
              exact ⟨h.server, hafter, hwithin, nofun, nofun⟩
            · cases hfetch.symm.trans hcase
              exact ⟨h.server, hafter, hwithin, nofun, nofun⟩
            · cases hfetch.symm.trans hcase
              refine ⟨h.server, hafter, hwithin, ?_, nofun⟩
              intro filter hfilter e he
              cases hfilter
              exact h.server.contained e he
            · cases hfetch.symm.trans hcase
              refine ⟨h.server.unsafeGet request.recent, hafter, hwithin, nofun, ?_⟩
              intro keys hkeys
              cases hkeys
              exact ⟨hseconds hfresh, fun e he hsince => h.server.mem_keys hhistory he hsince⟩
          obtain ⟨hserver, hsound⟩ := hanswer _ _ rfl
          refine ⟨hserver, h.answers.handle hsound rfl rfl ?_, ?_, h.takenIn⟩
          · intro answer hheld
            exact (held_of_insert hheld).imp_right fun hnew => (Option.some.inj hnew).symm
          · intro load' l hl
            change (s.loads.insert load _).lookup load' = some l at hl
            rw [AList.lookup_insert_eq] at hl
            split at hl
            · cases hl
              trivial
            · exact h.loads load' l hl
      · cases hstep
  · cases hstep

theorem InStep.fail (h : InStep c s) {load : ℕ} (hstep : s.next c (.fail load) = some t) :
    InStep c t := by
  unfold next at hstep
  simp only at hstep
  split at hstep
  · cases hstep
    exact h.dropLoad load
  · cases hstep
    exact h.dropLoad load
  · cases hstep

/-- An incremental answer that connects to one that the copy has taken in misses nothing that
is not in the copy. -/
theorem mem_or_contains (h : InStep c s) {answer other : Answer lib} {keys : List String}
    (hheld : Held s.loads s.takenIn answer) (hkeys : answer.response = .incremental keys)
    (hother : other ∈ s.takenIn) (hconnects : Connects answer other) :
    ∀ e ∈ answer.kept, e.1 ∈ keys ∨ lib.possiblyContains s.reader.cacheBf e.1 = true := by
  intro e he
  have hsound := h.answers.sound answer hheld
  rcases hconnects with ⟨hearlier, hback⟩ | hsub
  · have hsince : answer.since ≤ other.handled := by
      rcases hback with hcounts | hback
      · exact since_le hsound (h.answers.sound other (.inl hother)) hkeys hcounts
      · exact hback
    rcases h.answers.ordered other answer (.inl hother) hheld hearlier e he with hold | hadded
    · exact .inr (h.takenIn other hother e hold)
    · exact .inl ((hsound.incremental keys hkeys).2 e he (hsince.trans hadded))
  · exact .inr (h.takenIn other hother e (hsub e he))

theorem InStep.receive (h : InStep c s) {load : ℕ} (hkeeps : s.KeepsUp (.receive load))
    (hstep : s.next c (.receive load) = some t) : InStep c t := by
  unfold next at hstep
  simp only at hstep
  split at hstep
  · next now answer hload =>
      have hheld : Held s.loads s.takenIn answer := .inr ⟨load, _, hload, rfl⟩
      have hsame : ∀ answer', some answer = some answer' → Held s.loads s.takenIn answer' := by
        intro answer' hanswer
        cases hanswer
        exact hheld
      split at hstep
      · next keys hkeys =>
          cases hstep
          unfold KeepsUp keepsUp at hkeeps
          simp only [hload, hkeys, List.any_eq_true, decide_eq_true_eq] at hkeeps
          obtain ⟨other, hother, hconnects⟩ := hkeeps
          have hready : Ready s.now s.reader.cacheBf now (.adding keys answer) :=
            mem_or_contains h hheld hkeys hother hconnects
          exact h.setLoad load (l := ⟨now, _⟩) hready hsame _ _ _
      · next filter hfilter =>
          cases hstep
          have hready : Ready s.now s.reader.cacheBf now (.installing filter answer) :=
            (h.answers.sound answer hheld).full filter hfilter
          exact h.setLoad load (l := ⟨now, _⟩) hready hsame _ _ _
      · cases hstep
        exact h.dropLoad load
  · cases hstep

/-- The copy grows by a key. -/
theorem InStep.addToCopy (hlib : lib.NoFalseNegatives) (h : InStep c s) (key : String) :
    InStep c { s with
      reader := { s.reader with cacheBf := lib.add key s.reader.cacheBf } } := by
  refine ⟨h.server, h.answers, ?_, ?_⟩
  · intro load l hl
    exact (h.loads load l hl).mono le_rfl fun key' => hlib.add_of_contains key key' _
  · intro answer hanswer e he
    exact hlib.add_of_contains key e.1 _ (h.takenIn answer hanswer e he)

theorem InStep.addKey (hlib : lib.NoFalseNegatives) (h : InStep c s) {load : ℕ}
    (hstep : s.next c (.addKey load) = some t) : InStep c t := by
  unfold next at hstep
  simp only at hstep
  split at hstep
  · next now key keys answer hload =>
      cases hstep
      have hready : Ready s.now (lib.add key s.reader.cacheBf) now (.adding keys answer) := by
        intro e he
        rcases h.loads load _ hload e he with hmem | hcontains
        · rcases List.mem_cons.mp hmem with hkey | hmem
          · exact .inr (hkey ▸ hlib.add_self key _)
          · exact .inl hmem
        · exact .inr (hlib.add_of_contains key e.1 _ hcontains)
      refine (h.addToCopy hlib key).setLoad load (l := ⟨now, _⟩) hready ?_ _ _ _
      intro answer' hanswer
      cases hanswer
      exact .inr ⟨load, _, hload, rfl⟩
  · next now answer hload =>
      cases hstep
      have hheld : Held s.loads s.takenIn answer := .inr ⟨load, _, hload, rfl⟩
      have hdropped := h.dropLoad load
      refine ⟨h.server, h.answers.mono ?_, hdropped.loads, ?_⟩
      · intro answer' hanswer
        rcases hanswer with htaken | hloads
        · rcases List.mem_cons.mp htaken with rfl | htaken
          · exact hheld
          · exact .inl htaken
        · exact held_of_erase (.inr hloads)
      · intro answer' hanswer e he
        rcases List.mem_cons.mp hanswer with rfl | htaken
        · exact (h.loads load _ hload e he).resolve_left List.not_mem_nil
        · exact h.takenIn answer' htaken e he
  · cases hstep

/-- A filter replaces the copy; it has the keys that other loads have added. -/
theorem InStep.install (h : InStep c s) {load : ℕ} (hkeeps : s.KeepsUp (.install load))
    (hstep : s.next c (.install load) = some t) : InStep c t := by
  unfold next at hstep
  simp only at hstep
  split at hstep
  · next now filter answer hload =>
      cases hstep
      have hheld : Held s.loads s.takenIn answer := .inr ⟨load, _, hload, rfl⟩
      have hfilter := h.loads load _ hload
      refine ⟨h.server, h.answers.mono ?_, ?_, ?_⟩
      · intro answer' hanswer
        rcases hanswer with htaken | hloads
        · rw [List.mem_singleton.mp htaken]
          exact hheld
        · exact held_of_erase (.inr hloads)
      · intro load' l hl
        have hl := lookup_of_erase hl
        have hready := h.loads load' l hl
        unfold KeepsUp keepsUp at hkeeps
        simp only [hload, List.all_eq_true] at hkeeps
        have hother := hkeeps ⟨load', l⟩ (AList.lookup_eq_some_iff.mp hl)
        obtain ⟨now', phase⟩ := l
        cases phase with
        | adding keys other =>
            intro e he
            simp only [List.all_eq_true, Bool.or_eq_true, List.contains_iff_mem] at hother
            exact (hother e he).imp_right fun hkept => hfilter e hkept
        | started => exact hready
        | requested request countedFrom => exact hready
        | answered answer' => trivial
        | installing filter' answer' => exact hready
      · intro answer' hanswer
        rw [List.mem_singleton.mp hanswer]
        exact hfilter
  · cases hstep

/-! ## Runs -/

theorem InStep.step (hlib : lib.NoFalseNegatives) (h : InStep c s) {a : Action}
    (hstep : Guarded (Step c) KeepsUp s a t) : InStep c t := by
  obtain ⟨hstep, hkeeps⟩ := hstep
  cases a with
  | tick nanoseconds =>
      cases hstep
      exact h.tick nanoseconds
  | add key =>
      cases hstep
      exact h.add hlib key
  | rebuild keys compensation =>
      cases hstep
      exact h.rebuild keys compensation
  | construct =>
      obtain ⟨-, hstep⟩ := Option.ite_none_right_eq_some.mp hstep
      cases hstep
      exact h.beginLoad
  | constructed =>
      obtain ⟨-, hstep⟩ := Option.ite_none_right_eq_some.mp hstep
      cases hstep
      exact ⟨h.server, h.answers, h.loads, h.takenIn⟩
  | reloadTimer =>
      obtain ⟨-, hstep⟩ := Option.ite_none_right_eq_some.mp hstep
      cases hstep
      exact h.beginLoad
  | request load => exact h.request hstep
  | handle load random => exact h.handle hstep
  | fail load => exact h.fail hstep
  | receive load => exact h.receive hkeeps hstep
  | addKey load => exact h.addKey hlib hstep
  | install load => exact h.install hkeeps hstep

theorem inStep_start (filter : lib.Filter) (now : Time) : InStep c (start filter now) := by
  have hheld : ∀ answer, ¬Held (start filter now).loads (start filter now).takenIn answer := by
    rintro answer (htaken | ⟨load, l, hl, -⟩)
    · cases htaken
    · cases hl
  refine ⟨⟨⟨List.Pairwise.nil, nofun⟩, nofun, nofun⟩, ?_, ?_, nofun⟩
  · constructor
    · exact fun answer ha => absurd ha (hheld answer)
    · exact fun answer ha => absurd ha (hheld answer)
    · exact fun answer ha => absurd ha (hheld answer)
    · exact fun answer _ ha => absurd ha (hheld answer)
  · intro load l hl
    cases hl

/-- As long as every incremental answer connects to one that the copy has taken in, and no
filter undoes what another load has added, the copy is up to date. -/
theorem upToDate_of_run (hlib : lib.NoFalseNegatives) {filter : lib.Filter} {as : List Action}
    (run : Run (Guarded (Step c) KeepsUp) (start filter now) as s) : s.UpToDate := by
  have h : InStep c s :=
    run.invariant (fun _ _ _ h hstep => h.step hlib hstep) (inStep_start filter now)
  intro answer hlast
  exact h.takenIn answer (List.mem_of_mem_head? hlast)

end Invariant

/-- The two clocks agree. -/
def sampleConnection : Connection := ⟨"user", ⟨["user"]⟩, 0, 0⟩

def sampleStart : FilterCopy exactFilter := start exactFilter.empty (1000 * second)

/-- The load of the start gets the filter with "a", and the next one the keys "b" and "a". -/
def loadingRun : List Action :=
  [.add "a", .construct, .request 0, .handle 0 0, .receive 0, .install 0, .constructed,
    .tick (10 ^ 9), .add "b", .tick (10 ^ 9), .reloadTimer, .request 1, .handle 1 0, .receive 1,
    .addKey 1, .addKey 1, .addKey 1]

/-- The load of the start comes a minute after "a", and fails; the next one gets an
incremental answer without keys. -/
def failingRun : List Action :=
  [.add "a", .tick (60 * 10 ^ 9), .construct, .request 0, .fail 0, .constructed,
    .tick (2 * 10 ^ 9), .reloadTimer, .request 1, .handle 1 0, .receive 1, .addKey 1]

theorem upToDate_loadingRun :
    ∃ s, follow (guardedNext (next sampleConnection) KeepsUp) loadingRun sampleStart = some s ∧
      s.takenIn.length = 2 ∧ s.UpToDate := by
  have hfinal : ((follow (guardedNext (next sampleConnection) KeepsUp) loadingRun
      sampleStart).map fun s => s.takenIn.length) = some 2 := by
    decide
  obtain ⟨s, hfollow, hlength⟩ := Option.map_eq_some_iff.mp hfinal
  have run : Run (Guarded (Step sampleConnection) KeepsUp) sampleStart loadingRun s :=
    .of_follow (guarded_of_guardedNext fun _ _ _ h => h) hfollow
  exact ⟨s, hfollow, hlength, upToDate_of_run exactFilter_noFalseNegatives run⟩

/-- The answer was made when the server had been told of "a", and the copy lacks it. -/
theorem upToDate_failingRun :
    ¬∀ as s, Run (Step sampleConnection) sampleStart as s → s.UpToDate := by
  intro hupToDate
  have hfinal : ((follow (next sampleConnection) failingRun sampleStart).map fun s =>
      (s.takenIn.head?.map fun answer => answer.kept.map Prod.fst,
        exactFilter.possiblyContains s.reader.cacheBf "a")) = some (some ["a"], false) := by
    decide
  obtain ⟨s, hfollow, hboth⟩ := Option.map_eq_some_iff.mp hfinal
  obtain ⟨hlast, hmissing⟩ := Prod.mk.inj hboth
  obtain ⟨answer, hanswer, hkept⟩ := Option.map_eq_some_iff.mp hlast
  obtain ⟨e, he, hkey⟩ := List.mem_map.mp (hkept ▸ List.mem_singleton_self "a")
  have hcontains := hupToDate failingRun s (.of_follow (fun _ _ _ h => h) hfollow) answer hanswer
    e he
  rw [hkey, hmissing] at hcontains
  cases hcontains

end FilterCopy

end Yadcc.Daemon.Local
