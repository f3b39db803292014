/-
# Multi-chunk messages from anyone

What the two decoders do with bytes that no encoder made. Both add up the announced sizes in
64 bits, so that sizes beyond the length of the message can pass the check of their sum, and
are cut off past its end. Both skip empty fields, and read numbers with routines that accept
more than digits. This module tells exactly for which messages the answer is right.
-/

import Yadcc.Daemon.Local.MultiChunk

namespace Yadcc.Daemon.Local

open Yadcc.Lib Yadcc.Client
open Yadcc.Lib.Shell (ascii asciiBytes)

/-! ## What is asked for -/

/-- A field with a decimal number. -/
def IsNumber (field : Bytes) : Prop := field ≠ [] ∧ ∀ b ∈ field, isDigit b = true

instance (field : Bytes) : Decidable (IsNumber field) := inferInstanceAs (Decidable (_ ∧ _))

/-- The message is a line of numbers, separated by commas, and a body whose length is their
sum, and the parts are the pieces of the body that have these lengths. -/
def Denotes (view : Bytes) (parts : List Bytes) : Prop :=
  ∃ fields body, fields ≠ [] ∧ (∀ field ∈ fields, IsNumber field) ∧
    view = [ascii ','].intercalate fields ++ crlf ++ body ∧
    (fields.map decimalValue).sum = body.length ∧
    parts.map List.length = fields.map decimalValue ∧ parts.flatten = body

/-- No cut is past the end, and parts come back only from a message that denotes them. -/
def ParsesSafely (result : Except PastEnd (Option (List Bytes))) (view : Bytes) : Prop :=
  ∃ answer, result = .ok answer ∧ ∀ parts, answer = some parts → view ≠ [] → Denotes view parts

/-- The fields are all of the line, each is a number and was read as what it denotes, and the
sum fits into 64 bits. -/
structure ExactLine (fields : List Bytes) (line : Bytes) (sizes : List ℕ) : Prop where
  nonempty : fields ≠ []
  line : [ascii ','].intercalate fields = line
  numbers : ∀ field ∈ fields, IsNumber field
  values : sizes = fields.map decimalValue
  fits : sizes.sum < 2 ^ 64

/-- The client's line of sizes is exact, if its numbers are all read and their sum passes the
check. -/
def ClientExact (view : Bytes) : Prop :=
  ∀ line body sizes, ascii '\n' ∉ line → view = line ++ crlf ++ body →
    (split line comma).mapM parseSize = some sizes → sizes.sum % 2 ^ 64 = body.length →
    ExactLine (split line comma) line sizes

/-- The same for the daemon's, as far as it looks for the end of the line. -/
def DaemonExact (lib : StringLibrary) (view : Bytes) : Prop :=
  ∀ line body sizes, find crlf view = some line.length → view = line ++ crlf ++ body →
    line.length + crlf.length ≤ maxHeaderBytes →
    (lib.split line (asciiBytes ",")).mapM lib.tryParse = some sizes →
    sizes.sum % 2 ^ 64 = body.length → ExactLine (lib.split line (asciiBytes ",")) line sizes

/-! ## Lines of numbers -/

theorem isNumber_notMem {b : UInt8} (hb : isDigit b = false) {field : Bytes}
    (h : IsNumber field) : b ∉ field := by
  intro hmem
  rw [h.2 b hmem] at hb
  cases hb

theorem notMem_numbers {b : UInt8} (hcomma : b ≠ ascii ',') (hdigit : isDigit b = false)
    {fields : List Bytes} (h : ∀ field ∈ fields, IsNumber field) :
    b ∉ [ascii ','].intercalate fields := by
  intro hmem
  rcases mem_intercalate hmem with heq | ⟨field, hfield, hmem⟩
  · exact hcomma heq
  · exact isNumber_notMem hdigit (h field hfield) hmem

/-- Fields with numbers have no comma in them. -/
theorem separable_numbers {fields : List Bytes} (h : ∀ field ∈ fields, IsNumber field) :
    ∀ field ∈ fields, field ≠ [] ∧ ascii ',' ∉ field :=
  fun field hfield => ⟨(h field hfield).1, isNumber_notMem (by decide) (h field hfield)⟩

/-- A line of numbers ends at the first line end. -/
theorem find_crlf_numbers {fields : List Bytes} (h : ∀ field ∈ fields, IsNumber field)
    (body : Bytes) :
    find crlf ([ascii ','].intercalate fields ++ crlf ++ body)
      = some ([ascii ','].intercalate fields).length := by
  refine find_of_first (by simp) ?_ ?_
  · rw [List.append_assoc, List.drop_left]
    exact List.prefix_append _ _
  · intro m hm hoccurs
    have hcr : [ascii '\r'] <+: ([ascii ','].intercalate fields ++ crlf ++ body).drop m :=
      List.IsPrefix.trans (List.prefix_append [ascii '\r'] [ascii '\n']) hoccurs
    rw [singleton_prefix_drop, List.append_assoc, List.getElem?_append_left hm] at hcr
    exact notMem_numbers (by decide) (by decide) h (List.mem_of_getElem? hcr)

/-- A line without line feed is all that stands before the first one. -/
theorem line_unique {line line' body body' : Bytes} (hline : ascii '\n' ∉ line)
    (hline' : ascii '\n' ∉ line') (h : line ++ crlf ++ body = line' ++ crlf ++ body') :
    line = line' ∧ body = body' := by
  have hlength : ∀ {l b : Bytes}, ascii '\n' ∉ l →
      find [ascii '\n'] (l ++ crlf ++ b) = some (l.length + 1) := by
    intro l b hl
    have hnotMem : ascii '\n' ∉ l ++ [ascii '\r'] := by
      rw [List.mem_append, not_or]
      exact ⟨hl, by decide⟩
    have hbytes : l ++ crlf ++ b = (l ++ [ascii '\r']) ++ ascii '\n' :: b := by
      simp [crlf, asciiBytes]
    rw [hbytes, find_singleton hnotMem, List.length_append]
    rfl
  have hfind : find [ascii '\n'] (line ++ crlf ++ body) = some (line'.length + 1) := by
    rw [h]
    exact hlength hline'
  rw [hlength hline, Option.some.injEq] at hfind
  rw [List.append_assoc, List.append_assoc] at h
  obtain ⟨rfl, hrest⟩ := List.append_inj h (by omega)
  exact ⟨rfl, List.append_cancel_left hrest⟩

/-! ## Behind the line of sizes -/

/-- Once the sum has passed the check, the answer is right exactly if the line is exact. The
last hypothesis says that the line is the only one that could be meant. -/
theorem parsesSafely_pieces_iff {fields : List Bytes} {line body view : Bytes} {sizes : List ℕ}
    (hview : view = line ++ crlf ++ body) (hsum : sizes.sum % 2 ^ 64 = body.length)
    (honly : ∀ fields' body', (∀ field ∈ fields', IsNumber field) →
      view = [ascii ','].intercalate fields' ++ crlf ++ body' →
      fields = fields' ∧ line = [ascii ','].intercalate fields' ∧ body = body') :
    ParsesSafely (some <$> pieces sizes body) view ↔ ExactLine fields line sizes := by
  have hne : view ≠ [] := by
    rw [hview]
    simp [crlf, asciiBytes]
  have hbody : body.length < 2 ^ 64 := by
    rw [← hsum]
    exact Nat.mod_lt _ (Nat.two_pow_pos 64)
  constructor
  · rintro ⟨answer, hanswer, hdenotes⟩
    cases hpieces : pieces sizes body with
    | error e =>
        rw [hpieces] at hanswer
        cases hanswer
    | ok parts =>
        rw [hpieces] at hanswer
        cases hanswer
        obtain ⟨fields', body', hnonempty, hnumbers, hwhole, hlengths, hparts, -⟩ :=
          hdenotes parts rfl hne
        obtain ⟨rfl, rfl, rfl⟩ := honly fields' body' hnumbers hwhole
        have hsizes : sizes = fields.map decimalValue := by
          rw [← hparts, (pieces_eq_ok_iff.mp hpieces).1]
        refine ⟨hnonempty, rfl, hnumbers, hsizes, ?_⟩
        rw [hsizes, hlengths]
        exact hbody
  · intro h
    have hlength : sizes.sum = body.length := by
      rw [← hsum, Nat.mod_eq_of_lt h.fits]
    obtain ⟨parts, hparts⟩ := exists_pieces hlength.le
    obtain ⟨hlengths, hfront⟩ := pieces_eq_ok_iff.mp hparts
    have hflatten : parts.flatten = body := by
      apply hfront.eq_of_length
      rw [List.length_flatten, hlengths, hlength]
    refine ⟨some parts, by rw [hparts]; rfl, ?_⟩
    rintro _ ⟨⟩ -
    refine ⟨fields, body, h.nonempty, h.numbers, ?_, ?_, ?_, hflatten⟩
    · rw [h.line, hview]
    · rw [← h.values, hlength]
    · rw [hlengths, h.values]

/-- The answer once the line of sizes has been found and its numbers were read. -/
def answer (body : Bytes) : Option (List ℕ) → Except PastEnd (Option (List Bytes))
  | none => .ok none
  | some sizes =>
      if sizes.sum % 2 ^ 64 ≠ body.length then .ok none else some <$> pieces sizes body

theorem parsesSafely_answer_iff (fields : List Bytes) {line body view : Bytes}
    {read : Option (List ℕ)} (hview : view = line ++ crlf ++ body)
    (honly : ∀ fields' body', (∀ field ∈ fields', IsNumber field) →
      view = [ascii ','].intercalate fields' ++ crlf ++ body' →
      fields = fields' ∧ line = [ascii ','].intercalate fields' ∧ body = body') :
    ParsesSafely (answer body read) view ↔ ∀ sizes, read = some sizes →
      sizes.sum % 2 ^ 64 = body.length → ExactLine fields line sizes := by
  cases read with
  | none => exact iff_of_true ⟨none, rfl, nofun⟩ nofun
  | some sizes =>
      by_cases hsum : sizes.sum % 2 ^ 64 = body.length
      · simp only [answer, hsum, ne_eq, not_true_eq_false, if_false]
        rw [parsesSafely_pieces_iff hview hsum honly]
        constructor
        · rintro h _ ⟨⟩ -
          exact h
        · intro h
          exact h sizes rfl hsum
      · simp only [answer, hsum, ne_eq, not_false_eq_true, if_true]
        refine iff_of_true ⟨none, rfl, nofun⟩ ?_
        rintro _ ⟨⟩ hsum'
        exact absurd hsum' hsum

/-- A message without parts is no message of a line and a body. -/
theorem ne_nil_of_line (line body : Bytes) : line ++ crlf ++ body ≠ [] := by
  simp [crlf, asciiBytes]

/-- What a parser says of an empty message is right. -/
theorem parsesSafely_nil : ParsesSafely (.ok (some [])) [] :=
  ⟨some [], rfl, fun _ _ h => absurd rfl h⟩

/-! ## The client -/

theorem client_parsesSafely_iff (view : Bytes) :
    ParsesSafely (Client.tryParseMultiChunk view) view ↔ ClientExact view := by
  by_cases hne : view = []
  · subst hne
    refine iff_of_true parsesSafely_nil ?_
    intro line body sizes _ hview
    exact absurd hview.symm (ne_nil_of_line line body)
  by_cases hex : ∃ line body, ascii '\n' ∉ line ∧ view = line ++ crlf ++ body
  · obtain ⟨line, body, hline, rfl⟩ := hex
    have hanswer : Client.tryParseMultiChunk (line ++ crlf ++ body)
        = answer body ((split line comma).mapM parseSize) := tryParseMultiChunk_line hline body
    rw [hanswer, parsesSafely_answer_iff (split line comma) rfl ?_]
    · constructor
      · intro h line' body' sizes hline' hview
        obtain ⟨rfl, rfl⟩ := line_unique hline hline' hview
        exact h sizes
      · intro h sizes
        exact h line body sizes hline rfl
    · intro fields' body' hnumbers hview
      obtain ⟨rfl, rfl⟩ := line_unique hline
        (notMem_numbers (by decide) (by decide) hnumbers) hview
      exact ⟨split_intercalate rfl (separable_numbers hnumbers), rfl, rfl⟩
  · have hnone := (tryParseMultiChunk_cases hne).resolve_right hex
    refine iff_of_true ⟨none, hnone, nofun⟩ ?_
    intro line body sizes hline hview
    exact absurd ⟨line, body, hline, hview⟩ hex

/-! ## The daemon -/

/-- What else the library documents: flattening takes bytes from the front only. -/
structure StringLibrary.Specified (lib : StringLibrary) : Prop extends lib.Documented where
  flattened : ∀ buffer delim maxBytes, lib.flattenSlowUntil buffer delim maxBytes <+: buffer

section Daemon

variable {lib : StringLibrary}

theorem tryParseMultiChunk_line (hlib : lib.Documented) {line body : Bytes}
    (hfind : find crlf (line ++ crlf ++ body) = some line.length)
    (hfits : line.length + crlf.length ≤ maxHeaderBytes) :
    tryParseMultiChunk lib (line ++ crlf ++ body)
      = answer body ((lib.split line (asciiBytes ",")).mapM lib.tryParse) := by
  have hflatten : lib.flattenSlowUntil (line ++ crlf ++ body) crlf maxHeaderBytes
      = line ++ crlf := by
    rw [hlib.flattenSlowUntil _ _ _ _ hfind, min_eq_left hfits,
      List.take_left' List.length_append]
  have hends : lib.endsWith (line ++ crlf) crlf = true :=
    (hlib.endsWith _ _).mpr (List.suffix_append _ _)
  have hline : (line ++ crlf).dropLast.dropLast = line := by
    have hcrlf : crlf = [ascii '\r'] ++ [ascii '\n'] := rfl
    rw [hcrlf, ← List.append_assoc, List.dropLast_concat, List.dropLast_concat]
  have hempty : (line ++ crlf ++ body).isEmpty = false := by
    simpa using ne_nil_of_line line body
  rw [tryParseMultiChunk, hempty]
  simp only [Bool.false_eq_true, if_false, hflatten, hends, Bool.not_true, hline, List.drop_left]
  cases (lib.split line (asciiBytes ",")).mapM lib.tryParse with
  | none => rfl
  | some sizes => simp only [answer, ne_comm]

/-- Without a line end in the part that is looked at the decoder has no answer. -/
theorem tryParseMultiChunk_none (hlib : lib.Specified) {buffer : Bytes} (hne : buffer ≠ [])
    (hex : ¬∃ line body, find crlf buffer = some line.length ∧ buffer = line ++ crlf ++ body ∧
      line.length + crlf.length ≤ maxHeaderBytes) :
    tryParseMultiChunk lib buffer = .ok none := by
  have hempty : buffer.isEmpty = false := by simpa using hne
  have hends : lib.endsWith (lib.flattenSlowUntil buffer crlf maxHeaderBytes) crlf = false := by
    rw [Bool.eq_false_iff]
    intro hends
    obtain ⟨front, hfront⟩ := (hlib.endsWith _ _).mp hends
    obtain ⟨rest, hrest⟩ := hlib.flattened buffer crlf maxHeaderBytes
    have hinfix : crlf <:+: buffer := ⟨front, rest, by rw [hfront, hrest]⟩
    obtain ⟨n, hn⟩ := Option.isSome_iff_exists.mp (find_isSome_iff.mpr hinfix)
    obtain ⟨hle, ⟨body, hbody⟩, hfirst⟩ := find_spec hn
    have hflatten := hlib.flattenSlowUntil buffer crlf maxHeaderBytes n hn
    have hbuffer : buffer = buffer.take n ++ crlf ++ body := by
      rw [List.append_assoc, hbody, List.take_append_drop]
    have hlength : (buffer.take n).length = n := by
      rw [List.length_take]
      omega
    refine hex ⟨buffer.take n, body, by rw [hlength]; exact hn, hbuffer, ?_⟩
    -- A shorter front has no line end in it.
    by_contra hlong
    rw [hlength] at hlong
    rw [hflatten, min_eq_right (by omega)] at hfront
    have hcut := congrArg List.length hfront
    rw [List.length_append, List.length_take] at hcut
    have hcrlf : crlf.length = 2 := rfl
    apply hfirst front.length (by omega)
    rw [← List.take_append_drop maxHeaderBytes buffer, ← hfront, List.append_assoc,
      List.drop_left]
    exact List.prefix_append _ _
  rw [tryParseMultiChunk, hempty]
  simp only [Bool.false_eq_true, if_false, hends, Bool.not_false, if_true]

theorem daemon_parsesSafely_iff (hlib : lib.Specified) (view : Bytes) :
    ParsesSafely (tryParseMultiChunk lib view) view ↔ DaemonExact lib view := by
  by_cases hne : view = []
  · subst hne
    refine iff_of_true parsesSafely_nil ?_
    intro line body sizes _ hview
    exact absurd hview.symm (ne_nil_of_line line body)
  by_cases hex : ∃ line body, find crlf view = some line.length ∧ view = line ++ crlf ++ body ∧
      line.length + crlf.length ≤ maxHeaderBytes
  · obtain ⟨line, body, hfind, rfl, hfits⟩ := hex
    have hunique : ∀ line' body', find crlf (line ++ crlf ++ body) = some line'.length →
        line ++ crlf ++ body = line' ++ crlf ++ body' → line = line' ∧ body = body' := by
      intro line' body' hfind' hview
      rw [hfind, Option.some.injEq] at hfind'
      rw [List.append_assoc, List.append_assoc] at hview
      obtain ⟨rfl, hrest⟩ := List.append_inj hview hfind'
      exact ⟨rfl, List.append_cancel_left hrest⟩
    rw [tryParseMultiChunk_line hlib.toDocumented hfind hfits,
      parsesSafely_answer_iff (lib.split line (asciiBytes ",")) rfl ?_]
    · constructor
      · intro h line' body' sizes hfind' hview _
        obtain ⟨rfl, rfl⟩ := hunique line' body' hfind' hview
        exact h sizes
      · intro h sizes
        exact h line body sizes hfind rfl hfits
    · intro fields' body' hnumbers hview
      have hfind' := find_crlf_numbers hnumbers body'
      rw [← hview] at hfind'
      obtain ⟨rfl, rfl⟩ := hunique _ body' hfind' hview
      exact ⟨hlib.split (ascii ',') fields' (separable_numbers hnumbers), rfl, rfl⟩
  · refine iff_of_true ⟨none, tryParseMultiChunk_none hlib hne hex, nofun⟩ ?_
    intro line body sizes hfind hview hfits
    exact absurd ⟨line, body, hfind, hview, hfits⟩ hex

end Daemon

/-- For every message, the decoders cut nothing past the end and accept only what is a list of
decimal numbers and a body of that many bytes, exactly if the line of sizes is exact whenever
its numbers are read and their sum, in 64 bits, is the length of the body. -/
theorem parsesSafely_iff {lib : StringLibrary} (hlib : lib.Specified) (view : Bytes) :
    (ParsesSafely (Client.tryParseMultiChunk view) view ↔ ClientExact view) ∧
    (ParsesSafely (tryParseMultiChunk lib view) view ↔ DaemonExact lib view) :=
  ⟨client_parsesSafely_iff view, daemon_parsesSafely_iff hlib view⟩

theorem referenceLibrary_specified : referenceLibrary.Specified where
  toDocumented := referenceLibrary_documented
  flattened := by
    intro buffer delim maxBytes
    unfold referenceLibrary
    dsimp only
    split
    · exact List.take_prefix _ _
    · exact List.take_prefix _ _

theorem parsesSafely_onePart :
    ParsesSafely (Client.tryParseMultiChunk (asciiBytes "3\r\nabc")) (asciiBytes "3\r\nabc") ∧
    ParsesSafely (tryParseMultiChunk referenceLibrary (asciiBytes "3\r\nabc"))
      (asciiBytes "3\r\nabc") := by
  have hview : asciiBytes "3\r\nabc" = asciiBytes "3" ++ crlf ++ asciiBytes "abc" := by decide
  have hsplit : split (asciiBytes "3") comma = [asciiBytes "3"] :=
    @split_intercalate (ascii ',') comma rfl [asciiBytes "3"] (by decide)
  have hexact : ExactLine [asciiBytes "3"] (asciiBytes "3") [3] :=
    ⟨by decide, by decide, by decide +kernel, by decide, by decide⟩
  have hsafe := parsesSafely_iff referenceLibrary_specified (asciiBytes "3\r\nabc")
  rw [hview] at hsafe ⊢
  refine ⟨hsafe.1.mpr ?_, hsafe.2.mpr ?_⟩
  · intro line body sizes hline hline' hread _
    obtain ⟨rfl, rfl⟩ := line_unique (by decide) hline hline'
    rw [hsplit] at hread ⊢
    have hsizes : [asciiBytes "3"].mapM parseSize = some [3] := by decide
    rw [hsizes, Option.some.injEq] at hread
    exact hread ▸ hexact
  · intro line body sizes hline hline' _ hread _
    have hfind : find crlf (asciiBytes "3" ++ crlf ++ asciiBytes "abc") = some 1 := by decide
    rw [hfind, Option.some.injEq] at hline
    rw [List.append_assoc, List.append_assoc] at hline'
    obtain ⟨rfl, -⟩ := List.append_inj hline' hline
    have hsplit' : referenceLibrary.split (asciiBytes "3") (asciiBytes ",") = [asciiBytes "3"] :=
      hsplit
    rw [hsplit'] at hread ⊢
    have hsizes : [asciiBytes "3"].mapM referenceLibrary.tryParse = some [3] := by decide
    rw [hsizes, Option.some.injEq] at hread
    exact hread ▸ hexact

/-- Sizes whose sum is one more than the range of 64-bit numbers are cut off a body of one
byte. -/
theorem cut_past_end :
    Client.tryParseMultiChunk (asciiBytes "9223372036854775806,9223372036854775806,5\r\nx")
      = .error .pastEnd ∧
    tryParseMultiChunk referenceLibrary (asciiBytes "18446744073709551615,2\r\nx")
      = .error .pastEnd ∧
    ¬ParsesSafely
      (Client.tryParseMultiChunk (asciiBytes "9223372036854775806,9223372036854775806,5\r\nx"))
      (asciiBytes "9223372036854775806,9223372036854775806,5\r\nx") ∧
    ¬ParsesSafely (tryParseMultiChunk referenceLibrary (asciiBytes "18446744073709551615,2\r\nx"))
      (asciiBytes "18446744073709551615,2\r\nx") := by
  have hclient : Client.tryParseMultiChunk
      (asciiBytes "9223372036854775806,9223372036854775806,5\r\nx") = .error .pastEnd := by
    have hview : asciiBytes "9223372036854775806,9223372036854775806,5\r\nx"
        = [ascii ','].intercalate [asciiBytes "9223372036854775806",
            asciiBytes "9223372036854775806", asciiBytes "5"] ++ crlf ++ asciiBytes "x" := by
      decide
    rw [hview, Client.tryParseMultiChunk_line (by decide), split_intercalate rfl (by decide)]
    decide +kernel
  have hdaemon : tryParseMultiChunk referenceLibrary
      (asciiBytes "18446744073709551615,2\r\nx") = .error .pastEnd := by
    have hview : asciiBytes "18446744073709551615,2\r\nx"
        = [ascii ','].intercalate [asciiBytes "18446744073709551615", asciiBytes "2"] ++ crlf ++
            asciiBytes "x" := by
      decide
    rw [hview, tryParseMultiChunk_line referenceLibrary_documented (by decide) (by decide)]
    have hsplit : referenceLibrary.split ([ascii ','].intercalate
        [asciiBytes "18446744073709551615", asciiBytes "2"]) (asciiBytes ",")
        = [asciiBytes "18446744073709551615", asciiBytes "2"] :=
      referenceLibrary_documented.split (ascii ',') _ (by decide)
    rw [hsplit]
    decide +kernel
  refine ⟨hclient, hdaemon, ?_, ?_⟩
  · rintro ⟨answer, hanswer, -⟩
    rw [hclient] at hanswer
    cases hanswer
  · rintro ⟨answer, hanswer, -⟩
    rw [hdaemon] at hanswer
    cases hanswer

end Yadcc.Daemon.Local
