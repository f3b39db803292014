/-
# Multi-chunk messages of the daemon

The daemon's encoder and decoder of multi-chunk messages work on the buffers of its RPC
library, whose string functions are a parameter here. The daemon looks for the end of the
line of sizes in a bounded prefix only. The last section compares the two implementations:
the encoders agree, and their result is read back by the client if no part is empty, and by
the daemon exactly if the line is within the bound.
-/

import Yadcc.Client.MultiChunk

namespace Yadcc.Daemon.Local

open Yadcc.Lib Yadcc.Client
open Yadcc.Lib.Shell (ascii asciiBytes)

/-! ## The library's string functions -/

/-- String functions of the RPC library, on the bytes that a buffer holds. -/
structure StringLibrary where
  flattenSlowUntil : Bytes → Bytes → ℕ → Bytes
  endsWith : Bytes → Bytes → Bool
  split : Bytes → Bytes → List Bytes
  /-- `TryParse<std::size_t>`. -/
  tryParse : Bytes → Option ℕ

/-- What the library documents about them. -/
structure StringLibrary.Documented (lib : StringLibrary) : Prop where
  /-- Flattening stops behind the delimiter, or at the limit. -/
  flattenSlowUntil : ∀ buffer delim maxBytes n, find delim buffer = some n →
    lib.flattenSlowUntil buffer delim maxBytes = buffer.take (min (n + delim.length) maxBytes)
  endsWith : ∀ s p, lib.endsWith s p = true ↔ p <:+ s
  split : ∀ (c : UInt8) (words : List Bytes), (∀ w ∈ words, w ≠ [] ∧ c ∉ w) →
    lib.split ([c].intercalate words) [c] = words
  tryParse : ∀ n < 2 ^ 64, lib.tryParse (decimal n) = some n

/-! ## Encoder and decoder -/

def makeMultiChunk (buffers : List Bytes) : Bytes :=
  if buffers.isEmpty then []
  else (buffers.flatMap fun e => decimal e.length ++ asciiBytes ",").dropLast ++ crlf ++
    buffers.flatten

/-- The longest line of sizes that is looked at: nineteen digits and a separator for each of
1024 parts. -/
def maxHeaderBytes : ℕ := (19 + 1) * 1024

def tryParseMultiChunk (lib : StringLibrary) (buffer : Bytes) :
    Except PastEnd (Option (List Bytes)) :=
  if buffer.isEmpty then .ok (some [])
  else
    let sizes := lib.flattenSlowUntil buffer crlf maxHeaderBytes
    if !lib.endsWith sizes crlf then .ok none
    else
      let buffer := buffer.drop sizes.length
      let sizes := sizes.dropLast.dropLast
      match (lib.split sizes (asciiBytes ",")).mapM lib.tryParse with
      | none => .ok none
      | some parsedSizes =>
          -- The total is a 64-bit number.
          if buffer.length ≠ parsedSizes.sum % 2 ^ 64 then .ok none
          else some <$> pieces parsedSizes buffer

/-! ## The two implementations agree -/

theorem makeMultiChunk_eq_client (parts : List Bytes) :
    makeMultiChunk parts = Client.makeMultiChunk parts := rfl

/-- The first line end of a message is the one behind the sizes. -/
theorem find_crlf {parts : List Bytes} (h : parts ≠ []) :
    find crlf (makeMultiChunk parts) = some (sizesLine parts).length := by
  rw [makeMultiChunk_eq_client, makeMultiChunk_eq h, List.append_assoc]
  refine find_of_first (by simp) ?_ ?_
  · rw [List.drop_left]
    exact List.prefix_append _ _
  · intro m hm hoccurs
    have hcr : [ascii '\r'] <+: (sizesLine parts ++ (crlf ++ parts.flatten)).drop m :=
      List.IsPrefix.trans (List.prefix_append [ascii '\r'] [ascii '\n']) hoccurs
    rw [singleton_prefix_drop, List.getElem?_append_left hm] at hcr
    exact notMem_sizesLine (by decide) (by decide) parts (List.mem_of_getElem? hcr)

theorem mapM_tryParse {lib : StringLibrary} (hlib : lib.Documented) {parts : List Bytes}
    (h : ∀ e ∈ parts, e.length < 2 ^ 64) :
    (parts.map fun e => decimal e.length).mapM lib.tryParse = some (parts.map List.length) := by
  induction parts with
  | nil => rfl
  | cons e parts ih =>
      obtain ⟨he, hrest⟩ := List.forall_mem_cons.mp h
      rw [List.map_cons, List.mapM_cons, hlib.tryParse _ he, ih hrest]
      rfl

theorem lib_split_sizesLine {lib : StringLibrary} (hlib : lib.Documented) (parts : List Bytes) :
    lib.split (sizesLine parts) (asciiBytes ",") = parts.map fun e => decimal e.length := by
  apply hlib.split (ascii ',')
  intro w hw
  obtain ⟨e, -, rfl⟩ := List.mem_map.mp hw
  exact ⟨decimal_ne_nil _, notMem_decimal (by decide) _⟩

/-- A message whose line of sizes is within the bound is read back. -/
theorem tryParseMultiChunk_of_le {lib : StringLibrary} (hlib : lib.Documented)
    {parts : List Bytes} (hfits : (makeMultiChunk parts).length ≤ longMax)
    (hheader : (makeMultiChunkHeader parts).length ≤ maxHeaderBytes) :
    tryParseMultiChunk lib (makeMultiChunk parts) = .ok (some parts) := by
  by_cases h : parts = []
  · subst h
    rfl
  · have hbytes : makeMultiChunk parts = (sizesLine parts ++ crlf) ++ parts.flatten :=
      makeMultiChunk_eq h
    rw [makeMultiChunkHeader_eq h, List.length_append] at hheader
    have hflatten : lib.flattenSlowUntil (makeMultiChunk parts) crlf maxHeaderBytes
        = sizesLine parts ++ crlf := by
      rw [hlib.flattenSlowUntil _ _ _ _ (find_crlf h), min_eq_left hheader, hbytes,
        List.take_left' (List.length_append)]
    have hends : lib.endsWith (sizesLine parts ++ crlf) crlf = true :=
      (hlib.endsWith _ _).mpr (List.suffix_append _ _)
    have hdrop : (makeMultiChunk parts).drop (sizesLine parts ++ crlf).length
        = parts.flatten := by
      rw [hbytes, List.drop_left]
    have hline : (sizesLine parts ++ crlf).dropLast.dropLast = sizesLine parts := by
      have hcrlf : crlf = [ascii '\r'] ++ [ascii '\n'] := rfl
      rw [hcrlf, ← List.append_assoc, List.dropLast_concat, List.dropLast_concat]
    have hempty : (makeMultiChunk parts).isEmpty = false := by
      rw [hbytes]
      simp [crlf, asciiBytes]
    have hlength : parts.flatten.length < 2 ^ 64 := by
      rw [hbytes, List.length_append] at hfits
      have hmax : longMax < 2 ^ 64 := by decide
      omega
    have hsizes : ∀ e ∈ parts, e.length < 2 ^ 64 := by
      intro e he
      exact ((List.sublist_flatten_of_mem he).length_le).trans_lt hlength
    have hsum : (parts.map List.length).sum % 2 ^ 64 = parts.flatten.length := by
      rw [← List.length_flatten]
      exact Nat.mod_eq_of_lt hlength
    rw [tryParseMultiChunk, hempty]
    simp only [Bool.false_eq_true, if_false, hflatten, hends, Bool.not_true, hline,
      lib_split_sizesLine hlib, mapM_tryParse hlib hsizes, hdrop, hsum, ne_eq,
      not_true_eq_false, pieces_flatten]
    rfl

/-- A longer line of sizes is not recognised. -/
theorem tryParseMultiChunk_of_lt {lib : StringLibrary} (hlib : lib.Documented)
    {parts : List Bytes} (hheader : maxHeaderBytes < (makeMultiChunkHeader parts).length) :
    tryParseMultiChunk lib (makeMultiChunk parts) = .ok none := by
  have h : parts ≠ [] := by
    rintro rfl
    exact absurd hheader (by decide)
  have hbytes : makeMultiChunk parts
      = (sizesLine parts ++ [ascii '\r']) ++ ascii '\n' :: parts.flatten := by
    rw [makeMultiChunk_eq_client, makeMultiChunk_eq h]
    simp [crlf, asciiBytes]
  have hlong : maxHeaderBytes ≤ (sizesLine parts ++ [ascii '\r']).length := by
    rw [makeMultiChunkHeader_eq h, List.length_append] at hheader
    rw [List.length_append]
    have hcrlf : crlf.length = 1 + 1 := rfl
    exact Nat.le_of_lt_succ (by rw [hcrlf] at hheader; exact hheader)
  have hflatten : lib.flattenSlowUntil (makeMultiChunk parts) crlf maxHeaderBytes
      = (sizesLine parts ++ [ascii '\r']).take maxHeaderBytes := by
    have hle : maxHeaderBytes ≤ (sizesLine parts).length + crlf.length := by
      rw [List.length_append] at hlong
      exact hlong.trans (by simp [crlf, asciiBytes])
    rw [hlib.flattenSlowUntil _ _ _ _ (find_crlf h), min_eq_right hle, hbytes,
      List.take_append_of_le_length hlong]
  have hends : lib.endsWith ((sizesLine parts ++ [ascii '\r']).take maxHeaderBytes) crlf
      = false := by
    rw [Bool.eq_false_iff]
    intro hends
    -- The prefix has no line feed at all.
    have hmem : ascii '\n' ∈ (sizesLine parts ++ [ascii '\r']).take maxHeaderBytes :=
      ((hlib.endsWith _ _).mp hends).subset (by decide)
    rcases List.mem_append.mp (List.mem_of_mem_take hmem) with hmem | hmem
    · exact notMem_sizesLine (by decide) (by decide) parts hmem
    · exact absurd (List.mem_singleton.mp hmem) (by decide)
  have hempty : (makeMultiChunk parts).isEmpty = false := by
    rw [hbytes]
    simp
  rw [tryParseMultiChunk, hempty]
  simp only [Bool.false_eq_true, if_false, hflatten, hends, Bool.not_false, if_true]

/-- The encoders agree; a message that fits into an object is read back by the client if no
part is empty, and by the daemon exactly if its line of sizes is within the bound. -/
theorem multiChunk_roundTrip {lib : StringLibrary} (hlib : lib.Documented) {parts : List Bytes}
    (hfits : (makeMultiChunk parts).length ≤ longMax) :
    Client.makeMultiChunk parts = makeMultiChunk parts ∧
    ((∀ e ∈ parts, e ≠ []) →
      Client.tryParseMultiChunk (makeMultiChunk parts) = .ok (some parts)) ∧
    (tryParseMultiChunk lib (makeMultiChunk parts) = .ok (some parts) ↔
      (makeMultiChunkHeader parts).length ≤ maxHeaderBytes) := by
  refine ⟨rfl, fun hparts => tryParseMultiChunk_makeMultiChunk hparts hfits, ?_⟩
  constructor
  · intro hparse
    by_contra hheader
    rw [tryParseMultiChunk_of_lt hlib (Nat.lt_of_not_le hheader)] at hparse
    cases hparse
  · exact tryParseMultiChunk_of_le hlib hfits

/-- String functions as documented. -/
def referenceLibrary : StringLibrary where
  flattenSlowUntil buffer delim maxBytes :=
    match find delim buffer with
    | some n => buffer.take (min (n + delim.length) maxBytes)
    | none => buffer.take maxBytes
  endsWith s p := p.isSuffixOf s
  split s p := if h : p ≠ [] then split s ⟨p, h⟩ else [s]
  tryParse s :=
    if s ≠ [] ∧ s.all isDigit ∧ decimalValue s < 2 ^ 64 then some (decimalValue s) else none

theorem referenceLibrary_documented : referenceLibrary.Documented where
  flattenSlowUntil := by
    intro buffer delim maxBytes n h
    simp only [referenceLibrary, h]
  endsWith s p := List.isSuffixOf_iff_suffix
  split c words h := split_intercalate rfl h
  tryParse := by
    intro n hn
    have hdigits : (decimal n).all isDigit = true :=
      List.all_eq_true.mpr (isDigit_of_mem_decimal n)
    simp only [referenceLibrary, decimalValue_decimal]
    rw [if_pos ⟨decimal_ne_nil n, hdigits, hn⟩]

theorem multiChunk_roundTrip_twoParts :
    Client.tryParseMultiChunk (makeMultiChunk [asciiBytes "something", asciiBytes "fancy"])
      = .ok (some [asciiBytes "something", asciiBytes "fancy"]) ∧
    tryParseMultiChunk referenceLibrary (makeMultiChunk [asciiBytes "something", []])
      = .ok (some [asciiBytes "something", []]) := by
  have hboth : (makeMultiChunk [asciiBytes "something", asciiBytes "fancy"]).length ≤ longMax := by
    decide
  have hempty : (makeMultiChunk [asciiBytes "something", []]).length ≤ longMax := by
    decide
  exact ⟨(multiChunk_roundTrip referenceLibrary_documented hboth).2.1 (by decide),
    (multiChunk_roundTrip referenceLibrary_documented hempty).2.2.mpr (by decide)⟩

theorem length_header_replicate (n : ℕ) (b : UInt8) :
    (makeMultiChunkHeader (List.replicate (n + 1) [b])).length = 2 * n + 3 := by
  have hdecimal : (decimal 1).length = 1 := rfl
  simp [makeMultiChunkHeader, List.length_flatMap, hdecimal, asciiBytes, crlf]
  omega

/-- Ten thousand and more parts of one byte are too many for the daemon, and the client does
not read back a single empty part. -/
theorem multiChunk_rejected :
    tryParseMultiChunk referenceLibrary (makeMultiChunk (List.replicate 10240 [0])) = .ok none ∧
    Client.tryParseMultiChunk (Client.makeMultiChunk [[]]) = .ok none := by
  constructor
  · apply tryParseMultiChunk_of_lt referenceLibrary_documented
    rw [length_header_replicate 10239, maxHeaderBytes]
    decide
  · rw [tryParseMultiChunk_eq (by decide)]
    rfl

end Yadcc.Daemon.Local
