/-
# Responses and how they are cut

A peer sends a stream of bytes, and the reads get it in pieces. What arrives together with the
end of the header is in the buffer of the header too: the length is searched for in all of it,
and too much of it is an error. This module tells exactly for which streams the response does
not depend on the pieces, the length comes from the header, and nothing goes wrong.
-/

import Yadcc.Client.ReadResponse

namespace Yadcc.Client

open Yadcc.Lib
open Yadcc.Lib.Shell (ascii asciiBytes)

/-! ## Delivering a stream -/

/-- How many bytes are asked for. -/
def request : Stage → ℕ
  | .status buffer => statusSize - buffer.length
  | .header _ buffer => kMaxHeaderSize - buffer.length
  | .body _ bodySize body => bodySize - body.length
  | _ => 0

/-- A round that delivers some of what is left of the stream before the deadline. Only when
all is delivered can the peer be silent or close the connection. -/
inductive Delivery (timeout : ℕ) : Stage × Bytes → ReadRound → Stage × Bytes → Prop
  | bytes {stage : Stage} {clock : ℕ} {bs remaining : Bytes} (hbytes : bs ≠ [])
      (hsize : bs.length ≤ request stage) (hclock : clock < timeout) :
      Delivery timeout (stage, bs ++ remaining) ⟨clock, .ready, .bytes bs⟩
        (readStep timeout stage ⟨clock, .ready, .bytes bs⟩, remaining)
  | interrupted {stage : Stage} {clock : ℕ} {errno : Errno} {remaining : Bytes}
      (herrno : errno ≠ .other) (hclock : remaining ≠ [] → clock < timeout) :
      Delivery timeout (stage, remaining) ⟨clock, .ready, .failed errno⟩
        (readStep timeout stage ⟨clock, .ready, .failed errno⟩, remaining)
  | silent {stage : Stage} {clock : ℕ} {read : ReadResult} :
      Delivery timeout (stage, []) ⟨clock, .timeout, read⟩
        (readStep timeout stage ⟨clock, .timeout, read⟩, [])
  | closed {stage : Stage} {clock : ℕ} :
      Delivery timeout (stage, []) ⟨clock, .ready, .bytes []⟩
        (readStep timeout stage ⟨clock, .ready, .bytes []⟩, [])

/-- Some way to deliver the stream leads to the stage. -/
def Reaches (timeout : ℕ) (stream : Bytes) (stage : Stage) : Prop :=
  ∃ rounds remaining, Lib.Run (Delivery timeout) (.status [], stream) rounds (stage, remaining)

/-- What is behind the status line. -/
def behindStatus (stream : Bytes) : Bytes := stream.drop statusSize

/-- Where the header ends, its empty line included. -/
def headerEnd (rest : Bytes) : Option ℕ :=
  (find kHeaderEnd rest).bind fun ptr =>
    if ptr + kHeaderEnd.length ≤ kMaxHeaderSize then some (ptr + kHeaderEnd.length) else none

/-- The header alone has this length. -/
def HeaderLength (stream : Bytes) (n : ℕ) : Prop :=
  ∃ h, headerEnd (behindStatus stream) = some h ∧
    scanContentLength ((behindStatus stream).take h) = some (.number n)

/-- The response does not depend on how the stream is cut, nothing goes wrong, and every
length that is used is that of the header. -/
structure Determined (stream : Bytes) : Prop where
  same : ∀ timeout r r', Reaches timeout stream (.returned r) →
    Reaches timeout stream (.returned r') → r = r'
  safe : ∀ timeout fault, ¬Reaches timeout stream (.aborted fault)
  body : ∀ timeout status bodySize body, Reaches timeout stream (.body status bodySize body) →
    HeaderLength stream bodySize
  returned : ∀ timeout r, Reaches timeout stream (.returned r) → 100 ≤ r.status →
    HeaderLength stream r.body.length

/-- A header with a length has one that can be used, and behind the body nothing can arrive
together with the header. In a stream whose header has no length, none shows up behind it. -/
def FieldOk (rest : Bytes) (h : ℕ) : Prop :=
  match scanContentLength (rest.take h) with
  | none => find kContentLength (rest.take (kMaxHeaderSize - 1)) = none
  | some .noMatch => True
  | some (.number v) => 0 ≤ v ∧ (rest.length ≤ h + v.toNat ∨ kMaxHeaderSize ≤ h + v.toNat)
  | some .ranOut | some .unrepresentable => False

/-- The stream has a status line of an HTTP response. -/
structure Answers (stream : Bytes) (status : ℤ) : Prop where
  length : statusSize ≤ stream.length
  line : readHttpStatus (stream.take statusSize) = status
  response : 100 ≤ status

/-- The condition on the stream. -/
def WellDelimited (stream : Bytes) : Prop :=
  ∀ status h, Answers stream status → headerEnd (behindStatus stream) = some h →
    FieldOk (behindStatus stream) h

/-! ## Scanning in the header -/

section Scanning

variable {text more rest : Bytes} {n h : ℕ}

theorem scanDigits_append {negative terminated : Bool}
    (hscan : scanDigits negative text false ≠ .ranOut) :
    scanDigits negative (text ++ more) terminated = scanDigits negative text false := by
  cases text with
  | nil => exact absurd rfl hscan
  | cons d text =>
      unfold scanDigits at hscan ⊢
      dsimp only [List.cons_append] at hscan ⊢
      split
      · rfl
      · next hdigit =>
          rw [if_neg hdigit] at hscan
          have hall : (d :: text).all isDigit = false := by
            rw [← Bool.not_eq_true]
            intro hall
            rw [hall] at hscan
            exact hscan rfl
          have hmore : (d :: (text ++ more)).all isDigit = false := by
            rw [← List.cons_append, List.all_append, hall, Bool.false_and]
          have hends : ∀ digits t, digits = false → ¬(digits && !t) = true := by
            rintro digits t rfl
            simp
          have htake : (d :: (text ++ more)).takeWhile isDigit
              = (d :: text).takeWhile isDigit := by
            rw [← List.cons_append, List.takeWhile_append, if_neg]
            intro hlength
            have hprefix := (List.takeWhile_prefix isDigit).eq_of_length hlength
            rw [List.takeWhile_eq_self_iff] at hprefix
            rw [List.all_eq_true.mpr hprefix] at hall
            cases hall
          rw [if_neg (hends _ _ hmore), if_neg (hends _ _ hall), htake]

theorem scanInt_append {terminated : Bool} (hscan : scanInt text false ≠ .ranOut) :
    scanInt (text ++ more) terminated = scanInt text false := by
  unfold scanInt at hscan ⊢
  cases hdrop : text.dropWhile isSpace with
  | nil =>
      rw [hdrop] at hscan
      exact absurd rfl hscan
  | cons b digits =>
      have happend : (text ++ more).dropWhile isSpace = b :: (digits ++ more) := by
        rw [List.dropWhile_append, hdrop]
        rfl
      rw [hdrop] at hscan
      rw [happend]
      dsimp only at hscan ⊢
      split
      · next hsign =>
          rw [if_pos hsign] at hscan
          exact scanDigits_append hscan
      · next hsign =>
          rw [if_neg hsign] at hscan
          rw [← List.cons_append]
          exact scanDigits_append hscan

theorem headerEnd_eq_some_iff :
    headerEnd rest = some h ↔ ∃ ptr, find kHeaderEnd rest = some ptr ∧
      ptr + kHeaderEnd.length = h ∧ h ≤ kMaxHeaderSize := by
  unfold headerEnd
  rw [Option.bind_eq_some_iff]
  constructor
  · rintro ⟨ptr, hptr, hh⟩
    split at hh
    · next hle =>
        cases hh
        exact ⟨ptr, hptr, rfl, hle⟩
    · cases hh
  · rintro ⟨ptr, hptr, rfl, hle⟩
    exact ⟨ptr, hptr, if_pos hle⟩

theorem headerEnd_le (hh : headerEnd rest = some h) : h ≤ rest.length ∧ h ≤ kMaxHeaderSize := by
  obtain ⟨ptr, hptr, rfl, hle⟩ := headerEnd_eq_some_iff.mp hh
  exact ⟨length_le_of_find hptr, hle⟩

theorem scannedInt_number {v w : ℤ} (hscan : scannedInt w = .number v) :
    -2 ^ 31 ≤ v ∧ v < 2 ^ 31 := by
  unfold scannedInt at hscan
  split at hscan
  · next hrange =>
      cases hscan
      exact hrange
  · cases hscan

/-- A number that was scanned is an `int`. -/
theorem scanDigits_number {negative terminated : Bool} {v : ℤ}
    (hscan : scanDigits negative text terminated = .number v) : -2 ^ 31 ≤ v ∧ v < 2 ^ 31 := by
  unfold scanDigits at hscan
  split at hscan
  · split at hscan <;> cases hscan
  · split at hscan
    · cases hscan
    · split at hscan
      · cases hscan
      · exact scannedInt_number hscan

theorem scanInt_number {terminated : Bool} {v : ℤ} (hscan : scanInt text terminated = .number v) :
    -2 ^ 31 ≤ v ∧ v < 2 ^ 31 := by
  unfold scanInt at hscan
  split at hscan
  · split at hscan <;> cases hscan
  · split at hscan
    · exact scanDigits_number hscan
    · exact scanDigits_number hscan

/-- What is scanned within the header is scanned with more in the buffer, too. -/
theorem scanContentLength_more {scanned : Scanned}
    (hscan : scanContentLength (rest.take h) = some scanned) (hran : scanned ≠ .ranOut)
    (hhn : h ≤ n) (hn : n ≤ rest.length) (hmax : n ≤ kMaxHeaderSize) :
    scanContentLength (rest.take n) = some scanned := by
  rcases Nat.eq_or_lt_of_le hhn with heq | hlt
  · rw [← heq]
    exact hscan
  · have hlength : (rest.take h).length = h := List.length_take_of_le (hhn.trans hn)
    obtain ⟨c, hc, hscan⟩ := Option.map_eq_some_iff.mp hscan
    have hinside := length_le_of_find hc
    rw [hlength, decide_eq_false (by omega)] at hscan
    have hsplit : (rest.take n).drop (c + kContentLength.length)
        = (rest.take h).drop (c + kContentLength.length) ++ (rest.take n).drop h := by
      have htake : rest.take h = (rest.take n).take h := by
        rw [List.take_take, Nat.min_eq_left hhn]
      rw [← List.drop_append_of_le_length hinside, htake, List.take_append_drop]
    unfold scanContentLength
    rw [find_of_front (List.take_prefix_take_left hhn) hc, Option.map_some, hsplit,
      scanInt_append (hscan ▸ hran), hscan]

/-- A length that shows up at the very end of a full buffer only is no number. -/
theorem scanContentLength_late
    (hnone : find kContentLength (rest.take (kMaxHeaderSize - 1)) = none)
    (hn : n ≤ rest.length) (hmax : n ≤ kMaxHeaderSize) :
    scanContentLength (rest.take n) = none ∨
      scanContentLength (rest.take n) = some .noMatch := by
  have hlength : (rest.take n).length = n := List.length_take_of_le hn
  unfold scanContentLength
  cases hc : find kContentLength (rest.take n) with
  | none => exact Or.inl rfl
  | some c =>
      have hinside := length_le_of_find hc
      rw [hlength] at hinside
      have hbehind : kMaxHeaderSize - 1 < c + kContentLength.length := by
        by_contra hfront
        have hearly := find_take hc (Nat.le_of_not_lt hfront)
        rw [List.take_take] at hearly
        have hwhole := find_of_front (List.take_prefix_take_left (Nat.min_le_left _ n)) hearly
        rw [hnone] at hwhole
        cases hwhole
      have hpos : 0 < kMaxHeaderSize := by decide
      have hfull : n = kMaxHeaderSize := by omega
      right
      rw [Option.map_some, List.drop_eq_nil_of_le (by omega), hlength, decide_eq_true hfull]
      rfl

/-- Whatever more is in the buffer, a header with a length leads to a body of this length. -/
theorem readHttpBody_take (status : ℤ) (hh : headerEnd rest = some h) (hfield : FieldOk rest h)
    (hhn : h ≤ n) (hn : n ≤ rest.length) (hmax : n ≤ kMaxHeaderSize) :
    (∃ v : ℕ, scanContentLength (rest.take h) = some (.number v) ∧ n ≤ h + v ∧
      readHttpBody status (rest.take n) = startBody status v ((rest.drop h).take (n - h))) ∨
    (readHttpBody status (rest.take n) = failedRead ∧
      ∀ v, scanContentLength (rest.take h) ≠ some (.number v)) := by
  obtain ⟨ptr, hptr, hend, -⟩ := headerEnd_eq_some_iff.mp hh
  rw [readHttpBody, find_take hptr (by omega)]
  dsimp only
  rw [hend, List.drop_take]
  unfold FieldOk at hfield
  cases hscan : scanContentLength (rest.take h) with
  | none =>
      rw [hscan] at hfield
      refine Or.inr ⟨?_, fun v hv => by cases hv⟩
      rcases scanContentLength_late hfield hn hmax with hmore | hmore
      · rw [hmore]
      · rw [hmore]
  | some scanned =>
      rw [hscan] at hfield
      have hran : scanned ≠ .ranOut := by
        rintro rfl
        exact hfield
      rw [scanContentLength_more hscan hran hhn hn hmax]
      cases scanned with
      | ranOut => exact hfield.elim
      | unrepresentable => exact hfield.elim
      | noMatch => exact Or.inr ⟨rfl, fun v hv => by cases hv⟩
      | number v =>
          obtain ⟨hsize, hexcess⟩ := hfield
          obtain ⟨c, -, hnumber⟩ := Option.map_eq_some_iff.mp hscan
          have hrange := scanInt_number hnumber
          obtain ⟨size, rfl⟩ := Int.eq_ofNat_of_zero_le hsize
          have hfits : ¬((size : ℤ) % 2 ^ 64).toNat < ((rest.drop h).take (n - h)).length := by
            rw [List.length_take, List.length_drop]
            omega
          dsimp only
          rw [if_neg hfits, if_neg (Int.not_lt.mpr hsize)]
          exact Or.inl ⟨size, rfl, by omega, rfl⟩

end Scanning

/-! ## The response of a stream -/

section Response

variable {stream : Bytes} {status : ℤ} {h : ℕ}

/-- The response that a stream determines. -/
def expected (stream : Bytes) : DaemonResponse :=
  if stream.length < statusSize then ⟨ERROR_FAILED_TO_READ, []⟩
  else if readHttpStatus (stream.take statusSize) < 100 then
    ⟨readHttpStatus (stream.take statusSize), []⟩
  else
    match headerEnd (behindStatus stream) with
    | none => ⟨ERROR_FAILED_TO_READ, []⟩
    | some h =>
        match scanContentLength ((behindStatus stream).take h) with
        | some (.number v) =>
            if h + v.toNat ≤ (behindStatus stream).length then
              ⟨readHttpStatus (stream.take statusSize),
                ((behindStatus stream).drop h).take v.toNat⟩
            else ⟨ERROR_FAILED_TO_READ, []⟩
        | _ => ⟨ERROR_FAILED_TO_READ, []⟩

theorem expected_short (hshort : stream.length < statusSize) :
    expected stream = ⟨ERROR_FAILED_TO_READ, []⟩ :=
  if_pos hshort

theorem expected_answers (hstatus : Answers stream status) :
    expected stream = match headerEnd (behindStatus stream) with
    | none => ⟨ERROR_FAILED_TO_READ, []⟩
    | some h =>
        match scanContentLength ((behindStatus stream).take h) with
        | some (.number v) =>
            if h + v.toNat ≤ (behindStatus stream).length then
              ⟨status, ((behindStatus stream).drop h).take v.toNat⟩
            else ⟨ERROR_FAILED_TO_READ, []⟩
        | _ => ⟨ERROR_FAILED_TO_READ, []⟩ := by
  unfold expected
  rw [if_neg (Nat.not_lt.mpr hstatus.length), hstatus.line,
    if_neg (Int.not_lt.mpr hstatus.response)]

theorem expected_noHeader (hstatus : Answers stream status)
    (hnone : headerEnd (behindStatus stream) = none) :
    expected stream = ⟨ERROR_FAILED_TO_READ, []⟩ := by
  rw [expected_answers hstatus, hnone]

theorem expected_noLength (hstatus : Answers stream status)
    (hh : headerEnd (behindStatus stream) = some h)
    (hnone : ∀ v, scanContentLength ((behindStatus stream).take h) ≠ some (.number v)) :
    expected stream = ⟨ERROR_FAILED_TO_READ, []⟩ := by
  rw [expected_answers hstatus, hh]
  dsimp only
  split
  · next v hv => exact absurd hv (hnone v)
  · rfl

theorem expected_length {n : ℕ} (hstatus : Answers stream status)
    (hh : headerEnd (behindStatus stream) = some h)
    (hn : scanContentLength ((behindStatus stream).take h) = some (.number n)) :
    expected stream = if h + n ≤ (behindStatus stream).length then
      ⟨status, ((behindStatus stream).drop h).take n⟩ else ⟨ERROR_FAILED_TO_READ, []⟩ := by
  rw [expected_answers hstatus, hh]
  dsimp only
  rw [hn]
  rfl

/-! ## Nothing goes wrong in a well delimited stream -/

/-- What holds of a stage and what is left of the stream. -/
def Consistent (stream : Bytes) : Stage × Bytes → Prop
  | (.status buffer, remaining) => buffer ++ remaining = stream ∧ buffer.length < statusSize
  | (.header status buffer, remaining) =>
      Answers stream status ∧ buffer ++ remaining = behindStatus stream ∧
        find kHeaderEnd buffer = none ∧ buffer.length < kMaxHeaderSize
  | (.body status n body, remaining) =>
      Answers stream status ∧ body.length < n ∧ ∃ h, headerEnd (behindStatus stream) = some h ∧
        scanContentLength ((behindStatus stream).take h) = some (.number n) ∧
        body ++ remaining = (behindStatus stream).drop h
  | (.returned r, _) =>
      r = expected stream ∧ (100 ≤ r.status → HeaderLength stream r.body.length)
  | (.aborted _, _) => False

theorem consistent_failedRead {remaining : Bytes}
    (h : expected stream = ⟨ERROR_FAILED_TO_READ, []⟩) :
    Consistent stream (failedRead, remaining) := by
  refine ⟨h.symm, ?_⟩
  intro hstatus
  exact absurd hstatus (by decide)

/-- A body that has all or a part of its bytes. -/
theorem consistent_startBody {n : ℕ} {body remaining : Bytes} (hstatus : Answers stream status)
    (hh : headerEnd (behindStatus stream) = some h)
    (hn : scanContentLength ((behindStatus stream).take h) = some (.number n))
    (hbody : body ++ remaining = (behindStatus stream).drop h) (hle : body.length ≤ n) :
    Consistent stream (startBody status n body, remaining) := by
  unfold startBody
  split
  · next heq =>
      have hlength := congrArg List.length hbody
      rw [List.length_append, List.length_drop] at hlength
      have hend := (headerEnd_le hh).1
      have htake : ((behindStatus stream).drop h).take n = body := by
        rw [← hbody, ← heq, List.take_left]
      refine ⟨?_, fun _ => ⟨h, hh, ?_⟩⟩
      · rw [expected_length hstatus hh hn, if_pos (by omega), htake]
      · rw [heq]
        exact hn
  · next hne => exact ⟨hstatus, by omega, h, hh, hn, hbody⟩

/-- Where all is delivered and a body is not complete, it is too short. -/
theorem consistent_shortBody {n : ℕ} {body : Bytes}
    (hbody : Consistent stream (.body status n body, [])) :
    expected stream = ⟨ERROR_FAILED_TO_READ, []⟩ := by
  obtain ⟨hstatus, hlt, h, hh, hn, hrest⟩ := hbody
  have hlength := congrArg List.length hrest
  rw [List.length_append, List.length_nil, List.length_drop] at hlength
  have hend := (headerEnd_le hh).1
  rw [expected_length hstatus hh hn, if_neg (by omega)]

end Response

section Steps

variable {timeout : ℕ} {stream : Bytes} {stage : Stage} {clock : ℕ} {bs remaining : Bytes}

/-- A read of what was asked for. -/
theorem performIo_bytes {size : ℕ} {done : Bytes} (hclock : clock < timeout)
    (hsize : bs.length ≤ size - done.length) :
    performIo timeout size done ⟨clock, .ready, .bytes bs⟩ = .ok (some (done ++ bs)) := by
  unfold performIo
  rw [if_neg (Nat.not_le.mpr hclock)]
  dsimp only
  rw [List.take_of_length_le hsize]

theorem received_of_le {buffer : Bytes} (hsize : bs.length ≤ kMaxHeaderSize - buffer.length) :
    received buffer bs = buffer ++ bs := by
  rw [received, List.take_of_length_le hsize]

/-- The prefix that a buffer is. -/
theorem take_of_append {rest buffer : Bytes} (h : buffer ++ remaining = rest) :
    buffer = rest.take buffer.length := by
  rw [← h, List.take_left]

theorem consistent_bytes_status {buffer : Bytes} (hsize : bs.length ≤ statusSize - buffer.length)
    (hclock : clock < timeout) (h : Consistent stream (.status buffer, bs ++ remaining)) :
    Consistent stream
      (readStep timeout (.status buffer) ⟨clock, .ready, .bytes bs⟩, remaining) := by
  obtain ⟨hstream, hlt⟩ := h
  rw [readStep, performIo_bytes hclock hsize]
  dsimp only
  rw [← List.append_assoc] at hstream
  have hlength : (buffer ++ bs).length = buffer.length + bs.length := List.length_append
  split
  · exact ⟨hstream, by omega⟩
  · next hfull =>
      rw [ne_eq, Decidable.not_not] at hfull
      have hbuffer := take_of_append hstream
      rw [hfull] at hbuffer
      have hstreamLength : statusSize ≤ stream.length := by
        rw [← hstream, List.length_append]
        omega
      split
      · next hstatus =>
          refine ⟨?_, ?_⟩
          · rw [hbuffer] at hstatus ⊢
            rw [expected, if_neg (Nat.not_lt.mpr hstreamLength), if_pos hstatus]
          · intro hresponse
            exact absurd hstatus (not_lt_of_ge hresponse)
      · next hstatus =>
          refine ⟨⟨hstreamLength, by rw [hbuffer], Int.not_lt.mp hstatus⟩, ?_, by decide,
            Nat.zero_lt_succ _⟩
          rw [behindStatus, ← hstream, ← hfull, List.drop_left, List.nil_append]

/-- What arrives with the end of the header is a front of what is behind the status line. -/
theorem consistent_bytes_header (hwell : WellDelimited stream) {status : ℤ} {buffer : Bytes}
    (hsize : bs.length ≤ kMaxHeaderSize - buffer.length)
    (h : Consistent stream (.header status buffer, bs ++ remaining)) :
    Consistent stream
      (readStep timeout (.header status buffer) ⟨clock, .ready, .bytes bs⟩, remaining) := by
  obtain ⟨hstatus, hrest, -, hlt⟩ := h
  rw [readStep_header_bytes timeout status buffer rfl rfl, received_of_le hsize]
  rw [← List.append_assoc] at hrest
  have hlength : (buffer ++ bs).length = buffer.length + bs.length := List.length_append
  have hbuffer := take_of_append hrest
  have hfront : buffer ++ bs <+: behindStatus stream := by
    rw [← hrest]
    exact List.prefix_append _ _
  have hinside := hfront.length_le
  split
  · next hend =>
      obtain ⟨ptr, hptr⟩ := Option.isSome_iff_exists.mp hend
      have hle := length_le_of_find hptr
      have hh : headerEnd (behindStatus stream) = some (ptr + kHeaderEnd.length) :=
        headerEnd_eq_some_iff.mpr ⟨ptr, find_of_front hfront hptr, rfl, by omega⟩
      rcases readHttpBody_take status hh (hwell status _ hstatus hh) hle hinside (by omega)
        with ⟨v, hv, hfits, hbody⟩ | ⟨hbody, hnone⟩
      · have hpart : ((behindStatus stream).drop (ptr + kHeaderEnd.length)).take
            ((buffer ++ bs).length - (ptr + kHeaderEnd.length))
            = (buffer ++ bs).drop (ptr + kHeaderEnd.length) := by
          rw [← List.drop_take, ← hbuffer]
        rw [hbuffer, hbody, hpart]
        apply consistent_startBody hstatus hh hv
        · rw [← hrest, List.drop_append_of_le_length hle]
        · rw [List.length_drop]
          omega
      · rw [hbuffer, hbody]
        exact consistent_failedRead (expected_noLength hstatus hh hnone)
  · next hend =>
      rw [Bool.not_eq_true, Option.isSome_eq_false_iff, Option.isNone_iff_eq_none] at hend
      split
      · next hfull =>
          apply consistent_failedRead
          apply expected_noHeader hstatus
          rw [Option.eq_none_iff_forall_ne_some]
          intro h hh
          obtain ⟨ptr, hptr, hptrEnd, hmax⟩ := headerEnd_eq_some_iff.mp hh
          have htake := find_take (k := (buffer ++ bs).length) hptr (by omega)
          rw [← hbuffer, hend] at htake
          cases htake
      · exact ⟨hstatus, hrest, hend, by omega⟩

theorem consistent_bytes_body {status : ℤ} {bodySize : ℕ} {body : Bytes}
    (hsize : bs.length ≤ bodySize - body.length) (hclock : clock < timeout)
    (h : Consistent stream (.body status bodySize body, bs ++ remaining)) :
    Consistent stream
      (readStep timeout (.body status bodySize body) ⟨clock, .ready, .bytes bs⟩, remaining) := by
  obtain ⟨hstatus, hlt, h, hh, hn, hrest⟩ := h
  rw [readStep, performIo_bytes hclock hsize]
  rw [← List.append_assoc] at hrest
  apply consistent_startBody hstatus hh hn hrest
  rw [List.length_append]
  omega

theorem consistent_bytes (hwell : WellDelimited stream) (hbytes : bs ≠ [])
    (hsize : bs.length ≤ request stage) (hclock : clock < timeout)
    (h : Consistent stream (stage, bs ++ remaining)) :
    Consistent stream (readStep timeout stage ⟨clock, .ready, .bytes bs⟩, remaining) := by
  cases stage with
  | status buffer => exact consistent_bytes_status hsize hclock h
  | header status buffer => exact consistent_bytes_header hwell hsize h
  | body status bodySize body => exact consistent_bytes_body hsize hclock h
  | returned response =>
      have hnil : bs = [] := List.eq_nil_of_length_eq_zero (Nat.le_zero.mp hsize)
      exact absurd hnil hbytes
  | aborted fault => exact h.elim

/-- Rounds that deliver nothing keep the stage, or all is delivered and the read fails. -/
theorem consistent_quiet {round : ReadRound} (h : Consistent stream (stage, remaining))
    (hstage : readStep timeout stage round = stage ∨
      (remaining = [] ∧ readStep timeout stage round = failedRead)) :
    Consistent stream (readStep timeout stage round, remaining) := by
  rcases hstage with hsame | ⟨rfl, hfailed⟩
  · rw [hsame]
    exact h
  · rw [hfailed]
    cases stage with
    | status buffer =>
        obtain ⟨hstream, hlt⟩ := h
        rw [List.append_nil] at hstream
        exact consistent_failedRead (expected_short (hstream ▸ hlt))
    | header status buffer =>
        obtain ⟨hstatus, hrest, hnone, hlt⟩ := h
        rw [List.append_nil] at hrest
        apply consistent_failedRead
        apply expected_noHeader hstatus
        rw [headerEnd, ← hrest, hnone]
        rfl
    | body status bodySize body => exact consistent_failedRead (consistent_shortBody h)
    | returned response =>
        change Stage.returned response = failedRead at hfailed
        rw [← hfailed]
        exact h
    | aborted fault => exact h.elim

/-- A round that adds nothing, for the stages that look at the clock. -/
theorem performIo_empty (timeout size : ℕ) (done : Bytes) {clock : ℕ} {read : ReadResult}
    (hread : read = .bytes [] ∨ read = .failed .eintr ∨ read = .failed .eagain) :
    performIo timeout size done ⟨clock, .ready, read⟩
      = if timeout ≤ clock then .ok none else .ok (some done) := by
  unfold performIo
  dsimp only
  rcases hread with rfl | rfl | rfl
  · dsimp only
    rw [List.take_nil, List.append_nil]
  · rfl
  · rfl

theorem consistent_empty {read : ReadResult}
    (hread : read = .bytes [] ∨ read = .failed .eintr ∨ read = .failed .eagain)
    (hclock : remaining ≠ [] → clock < timeout) (h : Consistent stream (stage, remaining)) :
    Consistent stream (readStep timeout stage ⟨clock, .ready, read⟩, remaining) := by
  apply consistent_quiet h
  have hlate : timeout ≤ clock → remaining = [] := by
    intro hle
    by_contra hne
    exact absurd (hclock hne) (Nat.not_lt_of_le hle)
  cases stage with
  | status buffer =>
      rw [readStep, performIo_empty timeout statusSize buffer hread]
      by_cases hle : timeout ≤ clock
      · rw [if_pos hle]
        exact Or.inr ⟨hlate hle, rfl⟩
      · have hne : buffer.length ≠ statusSize := Nat.ne_of_lt h.2
        rw [if_neg hle]
        exact Or.inl (if_pos hne)
  | header status buffer =>
      obtain ⟨-, -, hnone, hlt⟩ := h
      left
      rw [readStep]
      dsimp only
      rcases hread with rfl | rfl | rfl
      · dsimp only
        rw [received_of_le (Nat.zero_le _), List.append_nil, hnone, if_neg (by simp),
          if_neg (Nat.ne_of_lt hlt)]
      · rfl
      · rfl
  | body status bodySize body =>
      rw [readStep, performIo_empty timeout bodySize body hread]
      by_cases hle : timeout ≤ clock
      · rw [if_pos hle]
        exact Or.inr ⟨hlate hle, rfl⟩
      · have hne : body.length ≠ bodySize := Nat.ne_of_lt h.2.1
        rw [if_neg hle]
        exact Or.inl (if_neg hne)
  | returned response => exact Or.inl rfl
  | aborted fault => exact h.elim

theorem consistent_silent {read : ReadResult} (h : Consistent stream (stage, [])) :
    Consistent stream (readStep timeout stage ⟨clock, .timeout, read⟩, []) := by
  have hio : ∀ size done, performIo timeout size done ⟨clock, .timeout, read⟩ = .ok none := by
    intro size done
    unfold performIo
    split <;> rfl
  apply consistent_quiet h
  cases stage with
  | status buffer =>
      rw [readStep, hio]
      exact Or.inr ⟨rfl, rfl⟩
  | header status buffer => exact Or.inr ⟨rfl, rfl⟩
  | body status bodySize body =>
      rw [readStep, hio]
      exact Or.inr ⟨rfl, rfl⟩
  | returned response => exact Or.inl rfl
  | aborted fault => exact h.elim

theorem consistent_delivery (hwell : WellDelimited stream) {s t : Stage × Bytes}
    {round : ReadRound} (h : Consistent stream s) (hstep : Delivery timeout s round t) :
    Consistent stream t := by
  cases hstep with
  | bytes hbytes hsize hclock => exact consistent_bytes hwell hbytes hsize hclock h
  | @interrupted _ _ errno _ herrno hclock =>
      apply consistent_empty _ hclock h
      cases errno with
      | eintr => exact Or.inr (Or.inl rfl)
      | eagain => exact Or.inr (Or.inr rfl)
      | other => exact absurd rfl herrno
  | silent => exact consistent_silent h
  | closed => exact consistent_empty (Or.inl rfl) (fun hne => absurd rfl hne) h

theorem consistent_of_reaches (hwell : WellDelimited stream)
    (h : Reaches timeout stream stage) : ∃ remaining, Consistent stream (stage, remaining) := by
  obtain ⟨rounds, remaining, hrun⟩ := h
  have hstart : Consistent stream (.status [], stream) :=
    ⟨List.nil_append stream, Nat.zero_lt_succ _⟩
  exact ⟨remaining, Lib.Run.invariant (I := Consistent stream)
    (fun s a t hs hstep => consistent_delivery hwell hs hstep) hrun hstart⟩

theorem determined_of_wellDelimited (hwell : WellDelimited stream) : Determined stream where
  same timeout r r' hr hr' := by
    obtain ⟨_, hr, -⟩ := consistent_of_reaches hwell hr
    obtain ⟨_, hr', -⟩ := consistent_of_reaches hwell hr'
    rw [hr, hr']
  safe timeout fault h := by
    obtain ⟨_, habsurd⟩ := consistent_of_reaches hwell h
    exact habsurd
  body timeout status bodySize body h := by
    obtain ⟨_, -, -, h, hh, hn, -⟩ := consistent_of_reaches hwell h
    exact ⟨h, hh, hn⟩
  returned timeout r h := by
    obtain ⟨_, -, hlength⟩ := consistent_of_reaches hwell h
    exact hlength

end Steps

/-! ## What goes wrong otherwise -/

section Otherwise

variable {stream : Bytes} {status : ℤ} {h n : ℕ}

/-- The status line and the header can arrive in one read each, with as much behind the header
as fits into the buffer. -/
theorem run_buffer (hstatus : Answers stream status)
    (hh : headerEnd (behindStatus stream) = some h) (hhn : h ≤ n)
    (hn : n ≤ (behindStatus stream).length) (hmax : n ≤ kMaxHeaderSize) :
    ∃ rounds, Lib.Run (Delivery 1) (.status [], stream) rounds
      (readHttpBody status ((behindStatus stream).take n), (behindStatus stream).drop n) := by
  have hline : (stream.take statusSize).length = statusSize :=
    List.length_take_of_le hstatus.length
  have hlineStep : readStep 1 (.status []) ⟨0, .ready, .bytes (stream.take statusSize)⟩
      = .header status [] := by
    rw [readStep, performIo_bytes one_pos hline.le, List.nil_append]
    dsimp only
    rw [if_neg (not_not.mpr hline), hstatus.line, if_neg (Int.not_lt.mpr hstatus.response)]
  have hlineNe : stream.take statusSize ≠ [] := by
    intro hnil
    rw [hnil] at hline
    cases hline
  have hfirst : Delivery 1 (.status [], stream.take statusSize ++ stream.drop statusSize)
      ⟨0, .ready, .bytes (stream.take statusSize)⟩
      (readStep 1 (.status []) ⟨0, .ready, .bytes (stream.take statusSize)⟩,
        stream.drop statusSize) := .bytes hlineNe hline.le one_pos
  rw [List.take_append_drop, hlineStep] at hfirst
  obtain ⟨ptr, hptr, hend, -⟩ := headerEnd_eq_some_iff.mp hh
  have hbuffer : ((behindStatus stream).take n).length = n := List.length_take_of_le hn
  have hfound : find kHeaderEnd ((behindStatus stream).take n) = some ptr :=
    find_take hptr (by omega)
  have hpos : 0 < kHeaderEnd.length := by decide
  have hbufferNe : (behindStatus stream).take n ≠ [] := by
    intro hnil
    rw [hnil, List.length_nil] at hbuffer
    omega
  have hroom : ((behindStatus stream).take n).length ≤ request (.header status []) := by
    rw [hbuffer]
    exact hmax
  have hbufferStep : readStep 1 (.header status [])
      ⟨0, .ready, .bytes ((behindStatus stream).take n)⟩
      = readHttpBody status ((behindStatus stream).take n) := by
    rw [readStep]
    dsimp only
    rw [received_of_le hroom, List.nil_append, hfound]
    exact if_pos rfl
  have hsecond : Delivery 1
      (.header status [], (behindStatus stream).take n ++ (behindStatus stream).drop n)
      ⟨0, .ready, .bytes ((behindStatus stream).take n)⟩
      (readStep 1 (.header status []) ⟨0, .ready, .bytes ((behindStatus stream).take n)⟩,
        (behindStatus stream).drop n) := .bytes hbufferNe hroom one_pos
  rw [List.take_append_drop, hbufferStep] at hsecond
  exact ⟨_, .cons hfirst (.cons hsecond (.nil _))⟩

/-- A header that arrives alone is followed by its body. -/
theorem reaches_success (hstatus : Answers stream status)
    (hh : headerEnd (behindStatus stream) = some h)
    (hn : scanContentLength ((behindStatus stream).take h) = some (.number n))
    (hlength : h + n ≤ (behindStatus stream).length) :
    ∃ body, Reaches 1 stream (.returned ⟨status, body⟩) := by
  obtain ⟨hend, hmax⟩ := headerEnd_le hh
  obtain ⟨rounds, hrun⟩ := run_buffer hstatus hh le_rfl hend hmax
  obtain ⟨ptr, hptr, hptrEnd, -⟩ := headerEnd_eq_some_iff.mp hh
  have hbody : readHttpBody status ((behindStatus stream).take h) = startBody status n [] := by
    have hnil : ((behindStatus stream).take h).drop h = [] :=
      List.drop_eq_nil_of_le (List.length_take_le h _)
    rw [readHttpBody, find_take hptr hptrEnd.le]
    dsimp only
    rw [hn, hptrEnd, hnil]
    rfl
  rw [hbody] at hrun
  by_cases hzero : n = 0
  · subst hzero
    exact ⟨[], rounds, _, hrun⟩
  · have hstart : startBody status n [] = .body status n [] := if_neg (Ne.symm hzero)
    rw [hstart] at hrun
    have htake : (((behindStatus stream).drop h).take n).length = n := by
      rw [List.length_take, List.length_drop]
      omega
    have hne : ((behindStatus stream).drop h).take n ≠ [] := by
      intro hnil
      rw [hnil] at htake
      exact hzero htake.symm
    have hlast : Delivery 1
        (.body status n [], ((behindStatus stream).drop h).take n
          ++ ((behindStatus stream).drop h).drop n)
        ⟨0, .ready, .bytes (((behindStatus stream).drop h).take n)⟩
        (readStep 1 (.body status n [])
          ⟨0, .ready, .bytes (((behindStatus stream).drop h).take n)⟩,
          ((behindStatus stream).drop h).drop n) := .bytes hne htake.le one_pos
    have hstep : readStep 1 (.body status n [])
        ⟨0, .ready, .bytes (((behindStatus stream).drop h).take n)⟩
        = .returned ⟨status, ((behindStatus stream).drop h).take n⟩ := by
      rw [readStep, performIo_bytes one_pos htake.le, List.nil_append]
      exact if_pos htake
    rw [List.take_append_drop, hstep] at hlast
    exact ⟨_, _, _, hrun.append (.cons hlast (.nil _))⟩

/-- The program does not end when the header arrives alone, so its length can be used. -/
theorem scanned_of_determined (hdetermined : Determined stream) (hstatus : Answers stream status)
    (hh : headerEnd (behindStatus stream) = some h) {scanned : Scanned}
    (hscan : scanContentLength ((behindStatus stream).take h) = some scanned) :
    scanned = .noMatch ∨ ∃ n : ℕ, scanned = .number n := by
  obtain ⟨hend, hmax⟩ := headerEnd_le hh
  obtain ⟨rounds, hrun⟩ := run_buffer hstatus hh le_rfl hend hmax
  obtain ⟨ptr, hptr, hptrEnd, -⟩ := headerEnd_eq_some_iff.mp hh
  have hfound : find kHeaderEnd ((behindStatus stream).take h) = some ptr :=
    find_take hptr hptrEnd.le
  have hsafe : ∀ fault, readHttpBody status ((behindStatus stream).take h) ≠ .aborted fault := by
    intro fault heq
    rw [heq] at hrun
    exact hdetermined.safe 1 fault ⟨rounds, _, hrun⟩
  rw [readHttpBody, hfound] at hsafe
  dsimp only at hsafe
  rw [hscan] at hsafe
  cases scanned with
  | noMatch => exact Or.inl rfl
  | ranOut => exact absurd rfl (hsafe _)
  | unrepresentable => exact absurd rfl (hsafe _)
  | number v =>
      right
      by_cases hnegative : v < 0
      · obtain ⟨c, -, hnumber⟩ := Option.map_eq_some_iff.mp hscan
        have hrange := scanInt_number hnumber
        have hnil : ((behindStatus stream).take h).drop (ptr + kHeaderEnd.length) = [] := by
          rw [hptrEnd]
          exact List.drop_eq_nil_of_le (List.length_take_le h _)
        dsimp only at hsafe
        rw [hnil, List.length_nil, if_neg (Nat.not_lt_zero _), if_pos hnegative] at hsafe
        exact absurd rfl (hsafe _)
      · obtain ⟨n, rfl⟩ := Int.eq_ofNat_of_zero_le (Int.not_lt.mp hnegative)
        exact ⟨n, rfl⟩

/-- Two reads of the header, one with too much behind it, would give different responses. -/
theorem noExcess_of_determined (hdetermined : Determined stream) (hstatus : Answers stream status)
    (hh : headerEnd (behindStatus stream) = some h)
    (hn : scanContentLength ((behindStatus stream).take h) = some (.number n)) :
    (behindStatus stream).length ≤ h + n ∨ kMaxHeaderSize ≤ h + n := by
  by_contra hexcess
  push Not at hexcess
  obtain ⟨body, hsuccess⟩ := reaches_success hstatus hh hn hexcess.1.le
  obtain ⟨hend, hmax⟩ := headerEnd_le hh
  obtain ⟨ptr, hptr, hptrEnd, -⟩ := headerEnd_eq_some_iff.mp hh
  -- As much as fits arrives together with the header.
  obtain ⟨m, hm⟩ : ∃ m, m = min kMaxHeaderSize (behindStatus stream).length := ⟨_, rfl⟩
  obtain ⟨rounds, hrun⟩ := run_buffer (n := m) hstatus hh (by omega) (by omega) (by omega)
  obtain ⟨c, -, hnumber⟩ := Option.map_eq_some_iff.mp hn
  have hrange := scanInt_number hnumber
  have hbody : readHttpBody status ((behindStatus stream).take m) = failedRead := by
    have hmore : ((n : ℤ) % 2 ^ 64).toNat
        < (((behindStatus stream).take m).drop (ptr + kHeaderEnd.length)).length := by
      rw [List.length_drop, List.length_take]
      omega
    rw [readHttpBody, find_take hptr (by omega)]
    dsimp only
    rw [scanContentLength_more hn (fun hran => by cases hran) (by omega) (by omega) (by omega)]
    exact if_pos hmore
  rw [hbody] at hrun
  have heq := hdetermined.same 1 _ _ hsuccess ⟨rounds, _, hrun⟩
  have hstatusEq : status = ERROR_FAILED_TO_READ := congrArg DaemonResponse.status heq
  have hresponse := hstatus.response
  rw [hstatusEq] at hresponse
  exact absurd hresponse (by decide)

/-- A length behind a header without one is found when the read ends with its name, and what
is behind it is scanned. -/
theorem noField_of_determined (hdetermined : Determined stream) (hstatus : Answers stream status)
    (hh : headerEnd (behindStatus stream) = some h)
    (hnone : scanContentLength ((behindStatus stream).take h) = none) :
    find kContentLength ((behindStatus stream).take (kMaxHeaderSize - 1)) = none := by
  rw [Option.eq_none_iff_forall_ne_some]
  intro c hc
  obtain ⟨ptr, hptr, hptrEnd, -⟩ := headerEnd_eq_some_iff.mp hh
  have hinside := length_le_of_find hc
  rw [List.length_take] at hinside
  have hwhole := find_of_front (List.take_prefix _ (behindStatus stream)) hc
  have hbehind : h < c + kContentLength.length := by
    by_contra hfront
    rw [scanContentLength, find_take hwhole (Nat.le_of_not_lt hfront)] at hnone
    cases hnone
  have hpos : 0 < kMaxHeaderSize := by decide
  obtain ⟨rounds, hrun⟩ := run_buffer (n := c + kContentLength.length) hstatus hh hbehind.le
    (by omega) (by omega)
  have hlength : ((behindStatus stream).take (c + kContentLength.length)).length
      = c + kContentLength.length := List.length_take_of_le (by omega)
  have hscan : scanContentLength ((behindStatus stream).take (c + kContentLength.length))
      = some .ranOut := by
    rw [scanContentLength, find_take hwhole le_rfl, Option.map_some,
      List.drop_eq_nil_of_le hlength.le, hlength, decide_eq_false (by omega)]
    rfl
  have hbody : readHttpBody status ((behindStatus stream).take (c + kContentLength.length))
      = .aborted .pastEnd := by
    rw [readHttpBody, find_take hptr (by omega)]
    dsimp only
    rw [hscan]
  rw [hbody] at hrun
  exact hdetermined.safe 1 _ ⟨rounds, _, hrun⟩

theorem wellDelimited_of_determined (hdetermined : Determined stream) : WellDelimited stream := by
  intro status h hstatus hh
  unfold FieldOk
  cases hscan : scanContentLength ((behindStatus stream).take h) with
  | none => exact noField_of_determined hdetermined hstatus hh hscan
  | some scanned =>
      rcases scanned_of_determined hdetermined hstatus hh hscan with rfl | ⟨n, rfl⟩
      · trivial
      · exact ⟨Int.natCast_nonneg n, noExcess_of_determined hdetermined hstatus hh hscan⟩

end Otherwise

/-- Exactly for well delimited streams the response does not depend on how they are cut, and
nothing goes wrong. -/
theorem determined_iff (stream : Bytes) : Determined stream ↔ WellDelimited stream :=
  ⟨wellDelimited_of_determined, determined_of_wellDelimited⟩

/-- A body of one byte, and one more byte behind it. -/
def excessStream : Bytes :=
  asciiBytes "HTTP/1.1 200 OK\r\nContent-Length: 1\r\n\r\nab"

/-- The status line of the streams here, in one read. -/
def okLine : ReadRound := ⟨0, .ready, .bytes (asciiBytes "HTTP/1.1 200 ")⟩

/-- One byte too much is an error in one read and no error in two. A length can come from the
body, and a negative one ends the program. -/
theorem response_depends_on_cut :
    ¬Determined excessStream ∧
    readDaemonResponse 9 [okLine,
      ⟨1, .ready, .bytes (asciiBytes "OK\r\nContent-Length: 1\r\n\r\n")⟩,
      ⟨2, .ready, .bytes (asciiBytes "a")⟩] = .returned ⟨200, asciiBytes "a"⟩ ∧
    readDaemonResponse 9 [okLine,
      ⟨1, .ready, .bytes (asciiBytes "OK\r\nContent-Length: 1\r\n\r\nab")⟩]
      = .returned ⟨ERROR_FAILED_TO_READ, []⟩ ∧
    readDaemonResponse 9 [okLine,
      ⟨1, .ready, .bytes (asciiBytes "OK\r\n\r\nContent-Length: 19 ")⟩]
      = .returned ⟨200, asciiBytes "Content-Length: 19 "⟩ ∧
    readDaemonResponse 9 [okLine,
      ⟨1, .ready, .bytes (asciiBytes "OK\r\nContent-Length: -1\r\n\r\n")⟩]
      = .aborted .lengthError := by
  refine ⟨?_, by decide +kernel, by decide +kernel, by decide +kernel, by decide +kernel⟩
  intro hdetermined
  have hstatus : Answers excessStream 200 := ⟨by decide +kernel, by decide +kernel, by decide⟩
  have hfield := wellDelimited_of_determined hdetermined 200 25 hstatus (by decide +kernel)
  have hscan : scanContentLength ((behindStatus excessStream).take 25) = some (.number 1) := by
    decide +kernel
  unfold FieldOk at hfield
  rw [hscan] at hfield
  exact absurd hfield.2 (by decide +kernel)

end Yadcc.Client
