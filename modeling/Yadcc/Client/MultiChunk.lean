/-
# Multi-chunk messages of the client

A message of several parts is a line with the sizes of the parts, in decimal and separated
by commas, followed by the parts. This is the client's encoder and decoder. The decoder
reads the sizes with `strtol`, and takes its failure value, zero, for a failure.
-/

import Yadcc.Lib.Text
import Mathlib.Data.List.TakeWhile

namespace Yadcc.Client

open Yadcc.Lib
open Yadcc.Lib.Shell (ascii asciiBytes)

/-- The largest `long`, and the largest size of an object. -/
def longMax : ℕ := 2 ^ 63 - 1

/-! ## Splitting -/

/-- A pattern to split at is not empty. -/
abbrev Pattern := {p : Bytes // p ≠ []}

def splitLoop (pattern : Pattern) (rest : Bytes) : List Bytes :=
  match _h : find pattern.val rest with
  | none => if rest.isEmpty then [] else [rest]
  | some pos =>
      let part := rest.take pos
      (if part.isEmpty then [] else [part]) ++
        splitLoop pattern (rest.drop (pos + pattern.val.length))
termination_by rest.length
decreasing_by
  have hle := length_le_of_find _h
  have hpos := List.length_pos_of_ne_nil pattern.property
  rw [List.length_drop]
  omega

/-- The non-empty parts of a text between occurrences of a pattern. -/
def split (text : Bytes) (pattern : Pattern) : List Bytes :=
  if text.isEmpty then [] else splitLoop pattern text

def comma : Pattern := ⟨asciiBytes ",", by decide⟩

def crlf : Bytes := asciiBytes "\r\n"

/-! ## Reading numbers -/

def isSpace (b : UInt8) : Bool := b.toNat == 32 || (9 ≤ b.toNat && b.toNat ≤ 13)

/-- `strtol` in base ten: blanks, a sign and digits; what does not fit is clamped. -/
def strtol (str : Bytes) : ℤ :=
  let clamp (v : ℤ) : ℤ := max (-longMax - 1) (min longMax v)
  match str.dropWhile isSpace with
  | [] => 0
  | b :: rest =>
      if b = ascii '-' then clamp (-decimalValue (rest.takeWhile isDigit))
      else if b = ascii '+' then clamp (decimalValue (rest.takeWhile isDigit))
      else clamp (decimalValue ((b :: rest).takeWhile isDigit))

/-! ## Multi-chunk messages -/

def makeMultiChunkHeader (parts : List Bytes) : Bytes :=
  if parts.isEmpty then []
  else (parts.flatMap fun e => decimal e.length ++ asciiBytes ",").dropLast ++ crlf

def makeMultiChunk (parts : List Bytes) : Bytes :=
  if parts.isEmpty then []
  else (parts.flatMap fun e => decimal e.length ++ asciiBytes ",").dropLast ++ crlf ++
    parts.flatten

/-- One size of the header line. -/
def parseSize (e : Bytes) : Option ℕ :=
  let size := strtol e
  if size ≤ 0 ∨ size = longMax ∨ size = -longMax - 1 then none else some size.toNat

def tryParseMultiChunk (view : Bytes) : Except PastEnd (Option (List Bytes)) :=
  if view.isEmpty then .ok (some [])
  else match find (asciiBytes "\n") view with
  | none => .ok none
  | some delim =>
      if delim = 0 ∨ view[delim - 1]? ≠ some (ascii '\r') then .ok none
      else
        let restBytes := view.drop (delim + 1)
        match (split (view.take (delim - 1)) comma).mapM parseSize with
        | none => .ok none
        | some parsedSize =>
            -- The total is a 64-bit number.
            if parsedSize.sum % 2 ^ 64 ≠ restBytes.length then .ok none
            else some <$> pieces parsedSize restBytes

/-! ## The sizes are read back -/

/-- Words with a separator behind each, without the last separator. -/
theorem dropLast_flatMap (c : UInt8) (words : List Bytes) :
    (words.flatMap fun w => w ++ [c]).dropLast = [c].intercalate words := by
  induction words with
  | nil => rfl
  | cons w words ih =>
      cases words with
      | nil => simp
      | cons v words =>
          have hne : ((v :: words).flatMap fun w => w ++ [c]) ≠ [] := by simp
          rw [List.flatMap_cons, List.dropLast_append_of_ne_nil hne, ih,
            List.intercalate_cons_cons, List.append_assoc]

theorem splitLoop_intercalate {c : UInt8} {pattern : Pattern} (hpattern : pattern.val = [c])
    {words : List Bytes} (h : ∀ w ∈ words, w ≠ [] ∧ c ∉ w) :
    splitLoop pattern ([c].intercalate words) = words := by
  induction words with
  | nil =>
      rw [splitLoop, hpattern]
      rfl
  | cons w words ih =>
      obtain ⟨hw, hrest⟩ := List.forall_mem_cons.mp h
      cases words with
      | nil =>
          rw [List.intercalate_singleton, splitLoop, hpattern]
          split
          · simp [hw.1]
          · next pos hpos =>
              rw [find_singleton_none hw.2] at hpos
              cases hpos
      | cons v words =>
          rw [List.intercalate_cons_cons, List.append_assoc, List.singleton_append, splitLoop,
            hpattern]
          split
          · next hnone =>
              rw [find_singleton hw.2] at hnone
              cases hnone
          · next pos hpos =>
              rw [find_singleton hw.2] at hpos
              cases hpos
              have hdrop : (w ++ c :: [c].intercalate (v :: words)).drop (w.length + [c].length)
                  = [c].intercalate (v :: words) := by
                rw [List.append_cons, List.drop_left' (by simp)]
              have hne : w.isEmpty = false := by simpa using hw.1
              rw [hdrop, ih hrest, List.take_left]
              simp only [hne, Bool.false_eq_true, if_false, List.singleton_append]

theorem split_intercalate {c : UInt8} {pattern : Pattern} (hpattern : pattern.val = [c])
    {words : List Bytes} (h : ∀ w ∈ words, w ≠ [] ∧ c ∉ w) :
    split ([c].intercalate words) pattern = words := by
  unfold split
  split
  · next hempty =>
      rw [← splitLoop_intercalate hpattern h, List.isEmpty_iff.mp hempty, splitLoop, hpattern]
      rfl
  · exact splitLoop_intercalate hpattern h

theorem strtol_decimal {n : ℕ} (h : n ≤ longMax) : strtol (decimal n) = n := by
  have hdigits := isDigit_of_mem_decimal n
  have hvalue := decimalValue_decimal n
  cases hd : decimal n with
  | nil => exact absurd hd (decimal_ne_nil n)
  | cons b rest =>
      rw [hd] at hdigits hvalue
      have hb := hdigits b List.mem_cons_self
      have hb : 48 ≤ b.toNat ∧ b.toNat ≤ 57 := by simpa [isDigit] using hb
      have hspace : isSpace b = false := by
        simp [isSpace]
        omega
      have hminus : b ≠ ascii '-' := by
        rintro rfl
        exact absurd hb (by decide)
      have hplus : b ≠ ascii '+' := by
        rintro rfl
        exact absurd hb (by decide)
      have hall : (b :: rest).takeWhile isDigit = b :: rest :=
        List.takeWhile_eq_self_iff.mpr hdigits
      unfold strtol
      rw [List.dropWhile_cons_of_neg (by simp [hspace])]
      simp only [hminus, hplus, if_false, hall, hvalue]
      omega

theorem parseSize_decimal {n : ℕ} (hpos : 0 < n) (h : n < longMax) :
    parseSize (decimal n) = some n := by
  unfold parseSize
  rw [strtol_decimal h.le]
  have hok : ¬((n : ℤ) ≤ 0 ∨ (n : ℤ) = longMax ∨ (n : ℤ) = -longMax - 1) := by omega
  simp only [hok, if_false, Int.toNat_natCast]

/-- The sizes of the parts in decimal, separated by commas. -/
def sizesLine (parts : List Bytes) : Bytes :=
  [ascii ','].intercalate (parts.map fun e => decimal e.length)

theorem makeMultiChunkHeader_eq {parts : List Bytes} (h : parts ≠ []) :
    makeMultiChunkHeader parts = sizesLine parts ++ crlf := by
  have hempty : parts.isEmpty = false := by simpa using h
  have hline := dropLast_flatMap (ascii ',') (parts.map fun e => decimal e.length)
  rw [List.flatMap_map] at hline
  rw [makeMultiChunkHeader, hempty, sizesLine, ← hline]
  rfl

theorem makeMultiChunk_eq {parts : List Bytes} (h : parts ≠ []) :
    makeMultiChunk parts = sizesLine parts ++ crlf ++ parts.flatten := by
  have hempty : parts.isEmpty = false := by simpa using h
  rw [← makeMultiChunkHeader_eq h, makeMultiChunkHeader, makeMultiChunk, hempty]
  rfl

theorem mem_intercalate {c b : UInt8} {words : List Bytes} (h : b ∈ [c].intercalate words) :
    b = c ∨ ∃ w ∈ words, b ∈ w := by
  rw [← dropLast_flatMap] at h
  obtain ⟨w, hw, hb⟩ := List.mem_flatMap.mp (List.mem_of_mem_dropLast h)
  rw [List.mem_append, List.mem_singleton] at hb
  rcases hb with hb | rfl
  · exact .inr ⟨w, hw, hb⟩
  · exact .inl rfl

/-- The line of sizes has digits and commas only. -/
theorem notMem_sizesLine {b : UInt8} (hcomma : b ≠ ascii ',') (hdigit : isDigit b = false)
    (parts : List Bytes) : b ∉ sizesLine parts := by
  intro hb
  rcases mem_intercalate hb with rfl | ⟨w, hw, hb⟩
  · exact hcomma rfl
  · obtain ⟨e, -, rfl⟩ := List.mem_map.mp hw
    exact notMem_decimal hdigit e.length hb

theorem split_sizesLine (parts : List Bytes) :
    split (sizesLine parts) comma = parts.map fun e => decimal e.length := by
  apply split_intercalate rfl
  intro w hw
  obtain ⟨e, -, rfl⟩ := List.mem_map.mp hw
  exact ⟨decimal_ne_nil _, notMem_decimal (by decide) _⟩

theorem mapM_parseSize {parts : List Bytes}
    (h : ∀ e ∈ parts, e ≠ [] ∧ e.length < longMax) :
    (parts.map fun e => decimal e.length).mapM parseSize = some (parts.map List.length) := by
  induction parts with
  | nil => rfl
  | cons e parts ih =>
      obtain ⟨he, hrest⟩ := List.forall_mem_cons.mp h
      rw [List.map_cons, List.mapM_cons, parseSize_decimal (List.length_pos_of_ne_nil he.1) he.2,
        ih hrest]
      rfl

/-- The decoder behind the first line end. -/
theorem tryParseMultiChunk_line {line : Bytes} (hline : ascii '\n' ∉ line) (body : Bytes) :
    tryParseMultiChunk (line ++ crlf ++ body)
      = match (split line comma).mapM parseSize with
        | none => .ok none
        | some parsedSize =>
            if parsedSize.sum % 2 ^ 64 ≠ body.length then .ok none
            else some <$> pieces parsedSize body := by
  have hbytes : line ++ crlf ++ body = (line ++ [ascii '\r']) ++ ascii '\n' :: body := by
    simp [crlf, asciiBytes]
  have hnotMem : ascii '\n' ∉ line ++ [ascii '\r'] := by
    rw [List.mem_append, List.mem_singleton]
    rintro (hmem | heq)
    · exact hline hmem
    · exact absurd heq (by decide)
  have hfind : find (asciiBytes "\n") (line ++ crlf ++ body) = some (line.length + 1) := by
    rw [hbytes]
    exact (find_singleton hnotMem).trans (by rw [List.length_append]; rfl)
  have hempty : (line ++ crlf ++ body).isEmpty = false := by
    rw [hbytes]
    simp
  have hcr : (line ++ crlf ++ body)[line.length]? = some (ascii '\r') := by
    rw [hbytes]
    simp
  have htake : (line ++ crlf ++ body).take line.length = line := by
    rw [hbytes, List.append_assoc, List.take_left]
  have hdrop : (line ++ crlf ++ body).drop (line.length + 1 + 1) = body := by
    rw [hbytes, List.append_cons, List.drop_left' (by simp)]
  rw [tryParseMultiChunk, hempty, hfind]
  simp only [Bool.false_eq_true, if_false, Nat.add_sub_cancel, hcr, htake, hdrop]
  rw [if_neg (by simp)]

/-- Without a line end the decoder has no answer. -/
theorem tryParseMultiChunk_cases {view : Bytes} (hne : view ≠ []) :
    tryParseMultiChunk view = .ok none ∨
      ∃ line body, ascii '\n' ∉ line ∧ view = line ++ crlf ++ body := by
  have hempty : view.isEmpty = false := by simpa using hne
  unfold tryParseMultiChunk
  rw [hempty]
  simp only [Bool.false_eq_true, if_false]
  cases hfind : find (asciiBytes "\n") view with
  | none => exact .inl rfl
  | some delim =>
      dsimp only
      split
      · exact .inl rfl
      · next hbefore =>
          right
          obtain ⟨hzero, hcr⟩ := not_or.mp hbefore
          obtain ⟨-, hoccurs, hfirst⟩ := find_spec hfind
          have hlf := singleton_prefix_drop.mp hoccurs
          rw [not_ne_iff] at hcr
          refine ⟨view.take (delim - 1), view.drop (delim + 1), ?_, ?_⟩
          · intro hmem
            obtain ⟨i, hi⟩ := List.mem_iff_getElem?.mp hmem
            have hlt := (List.getElem?_eq_some_iff.mp hi).1
            rw [List.length_take] at hlt
            rw [List.getElem?_take_of_lt (by omega)] at hi
            exact hfirst i (by omega) (singleton_prefix_drop.mpr hi)
          · obtain ⟨n, rfl⟩ := Nat.exists_eq_succ_of_ne_zero hzero
            rw [Nat.succ_eq_add_one, Nat.add_sub_cancel] at hcr ⊢
            obtain ⟨hn, hcr⟩ := List.getElem?_eq_some_iff.mp hcr
            obtain ⟨hn', hlf⟩ := List.getElem?_eq_some_iff.mp hlf
            have hlf : view[n + 1] = ascii '\n' := hlf
            have hdrop : view.drop n = crlf ++ view.drop (n + 1 + 1) := by
              rw [List.drop_eq_getElem_cons hn, hcr, List.drop_eq_getElem_cons hn', hlf]
              rfl
            rw [List.append_assoc, ← hdrop, List.take_append_drop]

/-- The decoder, once the line of sizes has been found. -/
theorem tryParseMultiChunk_eq {parts : List Bytes} (h : parts ≠ []) :
    tryParseMultiChunk (makeMultiChunk parts)
      = match (parts.map fun e => decimal e.length).mapM parseSize with
        | none => .ok none
        | some parsedSize =>
            if parsedSize.sum % 2 ^ 64 ≠ parts.flatten.length then .ok none
            else some <$> pieces parsedSize parts.flatten := by
  have hline : ascii '\n' ∉ sizesLine parts := notMem_sizesLine (by decide) (by decide) parts
  rw [makeMultiChunk_eq h, tryParseMultiChunk_line hline, split_sizesLine]

/-- Parts that are not empty come back, when the message fits into an object. -/
theorem tryParseMultiChunk_makeMultiChunk {parts : List Bytes} (hparts : ∀ e ∈ parts, e ≠ [])
    (hfits : (makeMultiChunk parts).length ≤ longMax) :
    tryParseMultiChunk (makeMultiChunk parts) = .ok (some parts) := by
  by_cases h : parts = []
  · subst h
    rfl
  · have hlength : parts.flatten.length + 2 ≤ longMax := by
      rw [makeMultiChunk_eq h, List.length_append, List.length_append] at hfits
      have hcrlf : crlf.length = 2 := rfl
      omega
    have hsizes : ∀ e ∈ parts, e ≠ [] ∧ e.length < longMax := by
      intro e he
      have hle := (List.sublist_flatten_of_mem he).length_le
      exact ⟨hparts e he, by omega⟩
    have hsum : (parts.map List.length).sum % 2 ^ 64 = parts.flatten.length := by
      rw [← List.length_flatten]
      apply Nat.mod_eq_of_lt
      have hmax : longMax < 2 ^ 64 := by decide
      omega
    rw [tryParseMultiChunk_eq h, mapM_parseSize hsizes]
    simp only [hsum, ne_eq, not_true_eq_false, if_false, pieces_flatten]
    rfl

end Yadcc.Client
