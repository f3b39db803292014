/-
# Handing out the Bloom filter

A client asks for the Bloom filter again and again. Most of the time it is told only the keys
that are new since it last asked, with five seconds on top for the network; once it has not
had the full filter for ten minutes or somewhat more, it gets that. It says itself how long
ago the two were, in whole seconds.
-/

import Yadcc.Cache.BloomFilterGenerator
import Yadcc.Common.Service

namespace Yadcc.Cache

structure FetchBloomFilterRequest where
  token : String
  secondsSinceLastFullFetch : UInt32
  secondsSinceLastFetch : UInt32
  deriving DecidableEq

inductive FetchBloomFilterResponse (lib : BloomLibrary)
  | accessDenied
  | invalidArgument
  | incremental (newlyPopulatedKeys : List String)
  | full (filter : lib.Filter)

/-- The first summand differs between clients, and the second is drawn anew each time. -/
def getBloomFilterFullFetchIntervalFor (clientHash : UInt64) (random : Fin 121) : Time :=
  600 * second + (clientHash.toNat % 120 : ℕ) * second + (random.val : ℤ) * second

def kNetworkDelayCompensation : Time := 5 * second

/-- How far back an incremental answer to the request goes. -/
def FetchBloomFilterRequest.recent (request : FetchBloomFilterRequest) : Time :=
  request.secondsSinceLastFetch.toNat * second + kNetworkDelayCompensation

variable {lib : BloomLibrary}

def fetchBloomFilter (isUserVerifier : TokenVerifier) (clientHash : UInt64) (random : Fin 121)
    (now : Time) (request : FetchBloomFilterRequest) (bfGen : BloomFilterGenerator lib) :
    FetchBloomFilterResponse lib × BloomFilterGenerator lib :=
  if isUserVerifier.verify request.token = false then (.accessDenied, bfGen)
  else if request.secondsSinceLastFetch > request.secondsSinceLastFullFetch then
    (.invalidArgument, bfGen)
  else if (request.secondsSinceLastFullFetch.toNat : ℤ) <
      getBloomFilterFullFetchIntervalFor clientHash random / second then
    let (keys, bfGen) := bfGen.unsafeGetNewlyPopulatedKeys request.recent now
    (.incremental keys, bfGen)
  else (.full bfGen.getBloomFilter, bfGen)

theorem getBloomFilterFullFetchIntervalFor_le (clientHash : UInt64) (random : Fin 121) :
    getBloomFilterFullFetchIntervalFor clientHash random / second ≤ 839 := by
  have hbias : clientHash.toNat % 120 < 120 := Nat.mod_lt _ (by norm_num)
  have hrandom := random.isLt
  have hle : (600 * 10 ^ 9 + (clientHash.toNat % 120 : ℕ) * 10 ^ 9 + random.val * 10 ^ 9 : ℤ) /
      10 ^ 9 ≤ 839 := by
    omega
  exact hle

/-- What an answer says: an incremental one goes back by what the request asks for, which is
well within the history, and a full one is the filter. -/
theorem fetchBloomFilter_cases (isUserVerifier : TokenVerifier) (clientHash : UInt64)
    (random : Fin 121) (now : Time) (request : FetchBloomFilterRequest)
    (bfGen : BloomFilterGenerator lib) :
    let answer := fetchBloomFilter isUserVerifier clientHash random now request bfGen
    (answer = (.accessDenied, bfGen) ∨ answer = (.invalidArgument, bfGen) ∨
      answer = (.full bfGen.getBloomFilter, bfGen)) ∨
    (request.secondsSinceLastFullFetch.toNat < 839 ∧
      request.recent ≤ BloomFilterGenerator.kNewlyPopulatedKeyHistory ∧
      answer = (.incremental (bfGen.unsafeGetNewlyPopulatedKeys request.recent now).1,
        (bfGen.unsafeGetNewlyPopulatedKeys request.recent now).2)) := by
  intro answer
  by_cases hverify : isUserVerifier.verify request.token = false
  · exact .inl (.inl (if_pos hverify))
  by_cases hinvalid : request.secondsSinceLastFetch > request.secondsSinceLastFullFetch
  · exact .inl (.inr (.inl ((if_neg hverify).trans (if_pos hinvalid))))
  have hrest : answer = _ := (if_neg hverify).trans (if_neg hinvalid)
  by_cases hfresh : (request.secondsSinceLastFullFetch.toNat : ℤ) <
      getBloomFilterFullFetchIntervalFor clientHash random / second
  · have hfull : request.secondsSinceLastFullFetch.toNat < 839 := by
      have hlt : (request.secondsSinceLastFullFetch.toNat : ℤ) < 839 :=
        hfresh.trans_le (getBloomFilterFullFetchIntervalFor_le clientHash random)
      omega
    have hlast : request.secondsSinceLastFetch.toNat ≤ request.secondsSinceLastFullFetch.toNat :=
      UInt32.le_iff_toNat_le.mp (UInt32.not_lt.mp hinvalid)
    have hrecent : request.recent ≤ BloomFilterGenerator.kNewlyPopulatedKeyHistory := by
      have hle : (request.secondsSinceLastFetch.toNat * 10 ^ 9 + 5 * 10 ^ 9 : ℤ) ≤
          3600 * 10 ^ 9 := by
        omega
      exact hle
    exact .inr ⟨hfull, hrecent, hrest.trans (if_pos hfresh)⟩
  · exact .inl (.inr (.inr (hrest.trans (if_neg hfresh))))

end Yadcc.Cache
