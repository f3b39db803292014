/-
# Reading the response of the daemon

A response is read in three stages: a status line of 13 bytes, a header up to its empty line,
and a body of the length that the header has. Each iteration of the loops waits for data and
reads once. The peer sends what it likes, in any pieces, and reads nothing at all from a
connection that is closed. The loop over the header looks neither at the end of the stream nor
at the clock. This module tells for which runs the response is returned in bounded time.
-/

import Yadcc.Client.DaemonCall
import Yadcc.Client.MultiChunk
import Yadcc.Lib.Transition

namespace Yadcc.Client

open Yadcc.Lib
open Yadcc.Lib.Shell (ascii asciiBytes)

/-! ## Scanning a number -/

/-- What `sscanf` with `%d` does. Behind text that is not terminated it reads past the end, and
a number that is no `int` is undefined. -/
inductive Scanned
  | number (v : ℤ)
  | noMatch
  | ranOut
  | unrepresentable
  deriving DecidableEq

/-- An `int` that has been scanned. -/
def scannedInt (v : ℤ) : Scanned :=
  if -2 ^ 31 ≤ v ∧ v < 2 ^ 31 then .number v else .unrepresentable

def scanDigits (negative : Bool) (text : Bytes) (terminated : Bool) : Scanned :=
  match text with
  | [] => if terminated then .noMatch else .ranOut
  | d :: _ =>
      if isDigit d = false then .noMatch
      else if text.all isDigit && !terminated then .ranOut
      else
        let value : ℤ := decimalValue (text.takeWhile isDigit)
        scannedInt (if negative then -value else value)

def scanInt (text : Bytes) (terminated : Bool) : Scanned :=
  match text.dropWhile isSpace with
  | [] => if terminated then .noMatch else .ranOut
  | b :: rest =>
      if b = ascii '-' ∨ b = ascii '+' then scanDigits (decide (b = ascii '-')) rest terminated
      else scanDigits false (b :: rest) terminated

/-! ## Stages -/

def ERROR_FAILED_TO_READ : ℤ := -3
def ERROR_MALFORMED_DATA : ℤ := -4

structure DaemonResponse where
  status : ℤ
  body : Bytes
  deriving DecidableEq

/-- Checks that end the program, exceptions, and what is undefined. -/
inductive ReadFault
  | pollFailed
  | noEndOfHeader
  | pastEnd
  | unrepresentable
  | lengthError
  deriving DecidableEq

/-- What `read` gives. No bytes are the end of the stream. -/
inductive ReadResult
  | bytes (bs : Bytes)
  | failed (errno : Errno)
  deriving DecidableEq

/-- One iteration of a loop, with the reading of the clock at its beginning. -/
structure ReadRound where
  clock : ℕ
  poll : PollResult
  read : ReadResult

/-- Where `ReadDaemonResponse` is, with what it has read there. -/
inductive Stage
  | status (buffer : Bytes)
  | header (status : ℤ) (buffer : Bytes)
  | body (status : ℤ) (bodySize : ℕ) (body : Bytes)
  | returned (response : DaemonResponse)
  | aborted (fault : ReadFault)
  deriving DecidableEq

def failedRead : Stage := .returned ⟨ERROR_FAILED_TO_READ, []⟩

/-- One iteration of the loop of `PerformIo`, of a read that is not done. No bytes in the
result is that it fails. -/
def performIo (timeout size : ℕ) (done : Bytes) (round : ReadRound) :
    Except ReadFault (Option Bytes) :=
  if timeout ≤ round.clock then .ok none
  else
    match round.poll with
    | .failed => .error .pollFailed
    | .timeout => .ok none
    | .ready =>
        match round.read with
        | .bytes bs => .ok (some (done ++ bs.take (size - done.length)))
        | .failed .eintr | .failed .eagain => .ok (some done)
        | .failed .other => .ok none

def statusPrefix : Bytes := asciiBytes "HTTP/1.1 "

def statusSize : ℕ := 13

/-- The status in a line that has been read, or an error. The last byte is overwritten. -/
def readHttpStatus (statusBuffer : Bytes) : ℤ :=
  if statusBuffer.take statusPrefix.length ≠ statusPrefix then ERROR_MALFORMED_DATA
  else
    match scanInt ((statusBuffer.take (statusSize - 1)).drop statusPrefix.length) true with
    | .number status => status
    | _ => ERROR_MALFORMED_DATA

def kHeaderEnd : Bytes := asciiBytes "\r\n\r\n"
def kContentLength : Bytes := asciiBytes "Content-Length:"

/-- The first length in the buffer. Only behind a full buffer there is a terminator. -/
def scanContentLength (buffer : Bytes) : Option Scanned :=
  (find kContentLength buffer).map fun lengthPtr =>
    scanInt (buffer.drop (lengthPtr + kContentLength.length))
      (decide (buffer.length = kMaxHeaderSize))

def startBody (status : ℤ) (bodySize : ℕ) (body : Bytes) : Stage :=
  if body.length = bodySize then .returned ⟨status, body⟩ else .body status bodySize body

/-- What `ReadHttpBody` does when it has the header. -/
def readHttpBody (status : ℤ) (buffer : Bytes) : Stage :=
  match find kHeaderEnd buffer with
  | none => .aborted .noEndOfHeader
  | some ptr =>
      let body := buffer.drop (ptr + kHeaderEnd.length)
      match scanContentLength buffer with
      | none | some .noMatch => failedRead
      | some .ranOut => .aborted .pastEnd
      | some .unrepresentable => .aborted .unrepresentable
      | some (.number bodySize) =>
          -- The comparison is without signs, and so is the size for `resize`.
          if (bodySize % 2 ^ 64).toNat < body.length then failedRead
          else if bodySize < 0 then .aborted .lengthError
          else startBody status bodySize.toNat body

/-- The buffer of the header with what was read into it. -/
def received (buffer bs : Bytes) : Bytes := buffer ++ bs.take (kMaxHeaderSize - buffer.length)

/-- One iteration of a loop of `ReadDaemonResponse`. -/
def readStep (timeout : ℕ) : Stage → ReadRound → Stage
  | .status buffer, round =>
      match performIo timeout statusSize buffer round with
      | .error fault => .aborted fault
      | .ok none => failedRead
      | .ok (some buffer) =>
          if buffer.length ≠ statusSize then .status buffer
          else if readHttpStatus buffer < 100 then .returned ⟨readHttpStatus buffer, []⟩
          else .header (readHttpStatus buffer) []
  | .header status buffer, round =>
      match round.poll with
      | .failed => .aborted .pollFailed
      | .timeout => failedRead
      | .ready =>
          match round.read with
          | .bytes bs =>
              let buffer := received buffer bs
              if (find kHeaderEnd buffer).isSome then readHttpBody status buffer
              else if buffer.length = kMaxHeaderSize then failedRead
              else .header status buffer
          | .failed .eintr | .failed .eagain => .header status buffer
          | .failed .other => failedRead
  | .body status bodySize body, round =>
      match performIo timeout bodySize body round with
      | .error fault => .aborted fault
      | .ok none => failedRead
      | .ok (some body) => startBody status bodySize body
  | stage, _ => stage

/-- One iteration as a step of a system. -/
def Reads (timeout : ℕ) (stage : Stage) (round : ReadRound) (stage' : Stage) : Prop :=
  readStep timeout stage round = stage'

/-- `ReadDaemonResponse`, for as long as the rounds last. -/
def readDaemonResponse (timeout : ℕ) (rounds : List ReadRound) : Stage :=
  rounds.foldl (readStep timeout) (.status [])

theorem run_foldl (timeout : ℕ) (stage : Stage) (rounds : List ReadRound) :
    Lib.Run (Reads timeout) stage rounds (rounds.foldl (readStep timeout) stage) := by
  induction rounds generalizing stage with
  | nil => exact .nil stage
  | cons round rounds ih => exact .cons rfl (ih _)

theorem reads_unique {timeout : ℕ} (stage : Stage) (round : ReadRound) (t t' : Stage)
    (h : Reads timeout stage round t) (h' : Reads timeout stage round t') : t = t' :=
  h.symm.trans h'

example : readDaemonResponse 9
    [⟨0, .ready, .bytes (asciiBytes "HTTP/1.1 ")⟩, ⟨1, .ready, .failed .eintr⟩,
      ⟨2, .ready, .bytes (asciiBytes "200 ")⟩,
      ⟨3, .ready, .bytes (asciiBytes "OK\r\nContent-Length: 2\r\n\r\nh")⟩,
      ⟨4, .ready, .bytes (asciiBytes "i")⟩]
    = .returned ⟨200, asciiBytes "hi"⟩ := by
  decide +kernel

/-! ## The rounds that are wanted -/

/-- `read` is interrupted, or there is nothing to read after all. -/
def interrupted (round : ReadRound) : Bool :=
  decide (round.poll = .ready ∧
    (round.read = .failed .eintr ∨ round.read = .failed .eagain))

/-- The connection is closed: it can be read, and nothing is read. -/
def closed (round : ReadRound) : Bool :=
  decide (round.poll = .ready ∧ round.read = .bytes [])

/-- The length in the buffer is missing, no number, or a size. -/
def Usable (buffer : Bytes) : Prop :=
  ∀ scanned, scanContentLength buffer = some scanned →
    scanned = .noMatch ∨ ∃ n : ℕ, scanned = .number n

/-- A round that does not close the connection before the header is complete, and does not end
the program. -/
structure Fine (stage : Stage) (round : ReadRound) : Prop where
  poll : round.poll ≠ .failed
  header : ∀ status buffer, stage = .header status buffer → closed round = false ∧
    ∀ bs, round.read = .bytes bs → (find kHeaderEnd (received buffer bs)).isSome = true →
      Usable (received buffer bs)

/-- The clock advances at least once in `k` readings. -/
def Advances (start k : ℕ) (rounds : List ReadRound) : Prop :=
  ∀ i round, rounds[i]? = some round → start + i / k ≤ round.clock

def late (timeout : ℕ) (round : ReadRound) : Bool := decide (timeout ≤ round.clock)

/-! ## Bounded time -/

section Bounded

variable {timeout : ℕ} {stage stage' : Stage} {round : ReadRound} {rounds : List ReadRound}

/-- Between two rounds the buffer of the header is not full, and nothing has gone wrong. -/
def Healthy : Stage → Prop
  | .header _ buffer => buffer.length < kMaxHeaderSize
  | .aborted _ => False
  | _ => True

/-- How many more rounds there can be behind the deadline. -/
def lateRounds : Stage → ℕ
  | .status _ => kMaxHeaderSize
  | .header _ buffer => kMaxHeaderSize - buffer.length
  | _ => 0

theorem length_received (buffer bs : Bytes) :
    (received buffer bs).length
      = buffer.length + min (kMaxHeaderSize - buffer.length) bs.length := by
  rw [received, List.length_append, List.length_take]

theorem startBody_cases (status : ℤ) (bodySize : ℕ) (body : Bytes) :
    startBody status bodySize body = .body status bodySize body ∨
      startBody status bodySize body = .returned ⟨status, body⟩ := by
  unfold startBody
  split
  · exact Or.inr rfl
  · exact Or.inl rfl

/-- A complete header leads to the body with the length that was scanned, or the read fails.
Only with a length that is not usable the program ends. -/
theorem readHttpBody_cases (status : ℤ) {buffer : Bytes}
    (hend : (find kHeaderEnd buffer).isSome = true) :
    (∃ (n : ℕ) (body : Bytes), scanContentLength buffer = some (.number n) ∧
      readHttpBody status buffer = startBody status n body) ∨
    readHttpBody status buffer = failedRead ∨
    (¬Usable buffer ∧ ∃ fault, readHttpBody status buffer = .aborted fault) := by
  obtain ⟨ptr, hptr⟩ := Option.isSome_iff_exists.mp hend
  have hunusable : ∀ scanned, scanContentLength buffer = some scanned →
      scanned ≠ .noMatch → (∀ n : ℕ, scanned ≠ .number n) → ¬Usable buffer := by
    intro scanned hscan hmatch hnumber husable
    rcases husable scanned hscan with h | ⟨n, h⟩
    · exact hmatch h
    · exact hnumber n h
  rw [readHttpBody, hptr]
  dsimp only
  cases hscan : scanContentLength buffer with
  | none => exact Or.inr (Or.inl rfl)
  | some scanned =>
      cases scanned with
      | noMatch => exact Or.inr (Or.inl rfl)
      | ranOut => exact Or.inr (Or.inr ⟨hunusable _ hscan nofun nofun, _, rfl⟩)
      | unrepresentable => exact Or.inr (Or.inr ⟨hunusable _ hscan nofun nofun, _, rfl⟩)
      | number v =>
          dsimp only
          split
          · exact Or.inr (Or.inl rfl)
          · split
            · next hnegative =>
                refine Or.inr (Or.inr ⟨hunusable _ hscan nofun ?_, _, rfl⟩)
                intro n hn
                cases hn
                omega
            · next hsize =>
                obtain ⟨n, rfl⟩ := Int.eq_ofNat_of_zero_le (Int.not_lt.mp hsize)
                exact Or.inl ⟨n, _, rfl, rfl⟩

/-- A stage that looks at the clock goes on only before the deadline. -/
theorem performIo_cases (timeout size : ℕ) (done : Bytes) (h : round.poll ≠ .failed) :
    performIo timeout size done round = .ok none ∨
      (late timeout round = false ∧
        ∃ done', performIo timeout size done round = .ok (some done')) := by
  unfold performIo
  split
  · exact Or.inl rfl
  · next hearly =>
      have hlate : late timeout round = false := decide_eq_false hearly
      split
      · next hpoll => exact absurd hpoll h
      · exact Or.inl rfl
      · split
        · exact Or.inr ⟨hlate, _, rfl⟩
        · exact Or.inr ⟨hlate, _, rfl⟩
        · exact Or.inr ⟨hlate, _, rfl⟩
        · exact Or.inl rfl

/-- Bytes of the header. -/
theorem readStep_header_bytes (timeout : ℕ) (status : ℤ) (buffer : Bytes) {bs : Bytes}
    (hpoll : round.poll = .ready) (hread : round.read = .bytes bs) :
    readStep timeout (.header status buffer) round
      = if (find kHeaderEnd (received buffer bs)).isSome then
          readHttpBody status (received buffer bs)
        else if (received buffer bs).length = kMaxHeaderSize then failedRead
        else .header status (received buffer bs) := by
  rw [readStep, hpoll, hread]

/-- What a round can do while the header is read. -/
theorem readStep_header_cases (timeout : ℕ) (status : ℤ) (buffer : Bytes) (round : ReadRound) :
    readStep timeout (.header status buffer) round = failedRead ∨
    (round.poll = .failed ∧
      readStep timeout (.header status buffer) round = .aborted .pollFailed) ∨
    (interrupted round = true ∧
      readStep timeout (.header status buffer) round = .header status buffer) ∨
    ∃ bs, round.poll = .ready ∧ round.read = .bytes bs := by
  rw [readStep]
  cases hpoll : round.poll with
  | failed => exact Or.inr (Or.inl ⟨rfl, rfl⟩)
  | timeout => exact Or.inl rfl
  | ready =>
      cases hread : round.read with
      | bytes bs => exact Or.inr (Or.inr (Or.inr ⟨bs, rfl, rfl⟩))
      | failed errno =>
          cases errno with
          | eintr => exact Or.inr (Or.inr (Or.inl ⟨decide_eq_true ⟨hpoll, Or.inl hread⟩, rfl⟩))
          | eagain => exact Or.inr (Or.inr (Or.inl ⟨decide_eq_true ⟨hpoll, Or.inr hread⟩, rfl⟩))
          | other => exact Or.inl rfl

/-- What a round does to the number of late rounds that are left. -/
structure Progress (timeout : ℕ) (stage : Stage) (round : ReadRound) (stage' : Stage) : Prop where
  healthy : Healthy stage'
  le : lateRounds stage' ≤ lateRounds stage
  lt : late timeout round = true → interrupted round = false →
    (∃ response, stage' = .returned response) ∨ lateRounds stage' < lateRounds stage

theorem progress_returned (response : DaemonResponse) :
    Progress timeout stage round (.returned response) :=
  ⟨trivial, Nat.zero_le _, fun _ _ => Or.inl ⟨response, rfl⟩⟩

theorem progress_status {buffer : Bytes} (hfine : Fine (.status buffer) round) :
    Progress timeout (.status buffer) round (readStep timeout (.status buffer) round) := by
  rw [readStep]
  rcases performIo_cases timeout statusSize buffer hfine.poll with
    hnone | ⟨hearly, buffer', hsome⟩
  · rw [hnone]
    exact progress_returned _
  · rw [hsome]
    dsimp only
    split
    · refine ⟨trivial, le_rfl, ?_⟩
      rw [hearly]
      nofun
    · split
      · exact progress_returned _
      · refine ⟨Nat.zero_lt_succ _, Nat.sub_le _ _, ?_⟩
        rw [hearly]
        nofun

theorem progress_body {status : ℤ} {bodySize : ℕ} {body : Bytes}
    (hfine : Fine (.body status bodySize body) round) :
    Progress timeout (.body status bodySize body) round
      (readStep timeout (.body status bodySize body) round) := by
  rw [readStep]
  rcases performIo_cases timeout bodySize body hfine.poll with hnone | ⟨hearly, body', hsome⟩
  · rw [hnone]
    exact progress_returned _
  · rw [hsome]
    dsimp only
    rcases startBody_cases status bodySize body' with h | h
    · rw [h]
      refine ⟨trivial, le_rfl, ?_⟩
      rw [hearly]
      nofun
    · rw [h]
      exact progress_returned _

/-- Each read of the header adds a byte, as the connection is not closed. -/
theorem progress_header {status : ℤ} {buffer : Bytes}
    (hbuffer : Healthy (.header status buffer)) (hfine : Fine (.header status buffer) round) :
    Progress timeout (.header status buffer) round
      (readStep timeout (.header status buffer) round) := by
  obtain ⟨hopen, husable⟩ := hfine.header status buffer rfl
  change buffer.length < kMaxHeaderSize at hbuffer
  rcases readStep_header_cases timeout status buffer round with
    hstep | ⟨hpoll, -⟩ | ⟨hinterrupted, hstep⟩ | ⟨bs, hpoll, hread⟩
  · rw [hstep]
    exact progress_returned _
  · exact absurd hpoll hfine.poll
  · rw [hstep]
    refine ⟨hbuffer, le_rfl, ?_⟩
    rw [hinterrupted]
    nofun
  · have hbytes : bs ≠ [] := by
      rintro rfl
      exact of_decide_eq_false hopen ⟨hpoll, hread⟩
    have hpos := List.length_pos_of_ne_nil hbytes
    have hlength := length_received buffer bs
    rw [readStep_header_bytes timeout status buffer hpoll hread]
    split
    · next hend =>
        rcases readHttpBody_cases status hend with ⟨n, body, -, h⟩ | h | ⟨hunusable, -⟩
        · rw [h]
          rcases startBody_cases status n body with hbody | hbody
          · rw [hbody]
            exact ⟨trivial, Nat.zero_le _, fun _ _ => Or.inr (Nat.sub_pos_of_lt hbuffer)⟩
          · rw [hbody]
            exact progress_returned _
        · rw [h]
          exact progress_returned _
        · exact absurd (husable bs hread hend) hunusable
    · split
      · exact progress_returned _
      · next hfull =>
          have hlt : lateRounds (.header status (received buffer bs))
              < lateRounds (.header status buffer) := by
            change kMaxHeaderSize - (received buffer bs).length
              < kMaxHeaderSize - buffer.length
            omega
          refine ⟨?_, hlt.le, fun _ _ => Or.inr hlt⟩
          change (received buffer bs).length < kMaxHeaderSize
          omega

theorem progress_readStep (timeout : ℕ) (hstage : Healthy stage) (hfine : Fine stage round) :
    Progress timeout stage round (readStep timeout stage round) := by
  cases stage with
  | status buffer => exact progress_status hfine
  | header status buffer => exact progress_header hstage hfine
  | body status bodySize body => exact progress_body hfine
  | returned response => exact progress_returned response
  | aborted fault => exact hstage.elim

theorem run_returned {response : DaemonResponse}
    (h : Lib.Run (Reads timeout) (.returned response) rounds stage) :
    stage = .returned response := by
  apply Lib.Run.invariant (I := fun s => s = .returned response) _ h rfl
  rintro s round t rfl ht
  exact ht.symm

/-- Each late round that is not interrupted uses up one of those that are left. -/
theorem late_rounds_le (h : Lib.Run (Guarded (Reads timeout) Fine) stage rounds stage')
    (hstage : Healthy stage) :
    Healthy stage' ∧ ((∃ response, stage' = .returned response) ∨
      lateRounds stage' + rounds.countP (fun r => late timeout r && !interrupted r)
        ≤ lateRounds stage) := by
  induction h with
  | nil stage => exact ⟨hstage, Or.inr le_rfl⟩
  | @cons stage t stage' round rounds hstep hrest ih =>
      obtain ⟨rfl, hfine⟩ := hstep
      have hprogress := progress_readStep timeout hstage hfine
      obtain ⟨hhealthy, hresult⟩ := ih hprogress.healthy
      refine ⟨hhealthy, ?_⟩
      rcases hresult with hreturned | hle
      · exact Or.inl hreturned
      · rw [List.countP_cons]
        split
        · next hlate =>
            rw [Bool.and_eq_true, Bool.not_eq_true'] at hlate
            rcases hprogress.lt hlate.1 hlate.2 with ⟨response, hreturned⟩ | hlt
            · rw [hreturned] at hrest
              exact Or.inl ⟨response, run_returned (hrest.mono fun _ _ _ h => h.1)⟩
            · exact Or.inr (by omega)
        · have hle' := hprogress.le
          exact Or.inr (by omega)

/-- Before the deadline there is time for so many rounds. -/
theorem early_rounds_le (timeout : ℕ) {start k : ℕ} (hk : 0 < k) (h : Advances start k rounds) :
    rounds.countP (fun r => !late timeout r) ≤ k * (timeout - start) := by
  rw [← List.take_append_drop (k * (timeout - start)) rounds, List.countP_append]
  have hdrop : (rounds.drop (k * (timeout - start))).countP (fun r => !late timeout r) = 0 := by
    rw [List.countP_eq_zero]
    intro round hround
    obtain ⟨i, hi⟩ := List.mem_iff_getElem?.mp hround
    rw [List.getElem?_drop] at hi
    have hclock := h _ round hi
    have hdiv : timeout - start ≤ (k * (timeout - start) + i) / k := by
      rw [Nat.mul_add_div hk]
      exact Nat.le_add_right _ _
    rw [Bool.not_eq_true', Bool.not_eq_false]
    exact decide_eq_true (by omega)
  have htake := List.countP_le_length (p := fun r => !late timeout r)
    (l := rounds.take (k * (timeout - start)))
  rw [List.length_take] at htake
  omega

theorem length_eq_countP (timeout : ℕ) (rounds : List ReadRound) :
    rounds.length = rounds.countP (fun r => !late timeout r)
      + rounds.countP (fun r => late timeout r && interrupted r)
      + rounds.countP (fun r => late timeout r && !interrupted r) := by
  induction rounds with
  | nil => rfl
  | cons round rounds ih =>
      rw [List.length_cons, List.countP_cons, List.countP_cons, List.countP_cons, ih]
      cases late timeout round <;> cases interrupted round <;> simp <;> omega

end Bounded

/-! ## A success is complete -/

section Complete

variable {timeout : ℕ} {stage stage' : Stage} {rounds : List ReadRound} {n : ℕ}

/-- The header is completed by one of the rounds, and has this length. -/
def Completes (timeout : ℕ) (stage : Stage) (rounds : List ReadRound) (n : ℕ) : Prop :=
  ∃ before round after status buffer bs, rounds = before ++ round :: after ∧
    Lib.Run (Reads timeout) stage before (.header status buffer) ∧ round.read = .bytes bs ∧
    (find kHeaderEnd (received buffer bs)).isSome = true ∧
    scanContentLength (received buffer bs) = some (.number n)

theorem Completes.cons {round : ReadRound}
    (h : Completes timeout (readStep timeout stage round) rounds n) :
    Completes timeout stage (round :: rounds) n := by
  obtain ⟨before, last, after, status, buffer, bs, rfl, hrun, hrest⟩ := h
  exact ⟨round :: before, last, after, status, buffer, bs, rfl, .cons rfl hrun, hrest⟩

/-- What a success from a stage on says about its length. -/
def Exact (timeout : ℕ) (rounds : List ReadRound) (response : DaemonResponse) : Stage → Prop
  | .status buffer => Completes timeout (.status buffer) rounds response.body.length
  | .header status buffer => Completes timeout (.header status buffer) rounds response.body.length
  | .body _ bodySize _ => response.body.length = bodySize
  | .returned response' => response' = response
  | .aborted _ => False

theorem exact_startBody {response : DaemonResponse} {status : ℤ} {bodySize : ℕ} {body : Bytes}
    (h : Exact timeout rounds response (startBody status bodySize body)) :
    response.body.length = bodySize := by
  unfold startBody at h
  split at h
  · next hlength =>
      change _ = response at h
      rw [← h]
      exact hlength
  · exact h

theorem not_exact_failedRead {response : DaemonResponse} (hsuccess : 100 ≤ response.status) :
    ¬Exact timeout rounds response failedRead := by
  intro h
  change _ = response at h
  rw [← h] at hsuccess
  exact absurd hsuccess (by decide)

theorem exact_of_status_step {response : DaemonResponse} (hsuccess : 100 ≤ response.status)
    {buffer : Bytes} {round : ReadRound}
    (h : Exact timeout rounds response (readStep timeout (.status buffer) round)) :
    Exact timeout (round :: rounds) response (.status buffer) := by
  apply Completes.cons
  rw [readStep] at h ⊢
  split at h
  · exact h.elim
  · exact absurd h (not_exact_failedRead hsuccess)
  · split at h
    · next hsize =>
        rw [if_pos hsize]
        exact h
    · next hsize =>
        rw [if_neg hsize]
        split at h
        · next hstatus =>
            change _ = response at h
            rw [← h] at hsuccess
            exact absurd hsuccess (not_le_of_gt hstatus)
        · next hstatus =>
            rw [if_neg hstatus]
            exact h

theorem exact_of_header_step {response : DaemonResponse} (hsuccess : 100 ≤ response.status)
    {status : ℤ} {buffer : Bytes} {round : ReadRound}
    (h : Exact timeout rounds response (readStep timeout (.header status buffer) round)) :
    Exact timeout (round :: rounds) response (.header status buffer) := by
  have hfailed : ¬Exact timeout rounds response failedRead := not_exact_failedRead hsuccess
  rcases readStep_header_cases timeout status buffer round with
    hstep | ⟨-, hstep⟩ | ⟨-, hstep⟩ | ⟨bs, hpoll, hread⟩
  · rw [hstep] at h
    exact absurd h hfailed
  · rw [hstep] at h
    exact h.elim
  · apply Completes.cons
    rw [hstep] at h ⊢
    exact h
  · have hstep := readStep_header_bytes timeout status buffer hpoll hread
    rw [hstep] at h
    split at h
    · next hend =>
        rcases readHttpBody_cases status hend with
          ⟨n, body, hscan, hbody⟩ | hbody | ⟨-, fault, hbody⟩
        · rw [hbody] at h
          rw [← exact_startBody h] at hscan
          exact ⟨[], round, rounds, status, buffer, bs, rfl, .nil _, hread, hend, hscan⟩
        · rw [hbody] at h
          exact absurd h hfailed
        · rw [hbody] at h
          exact h.elim
    · next hend =>
        rw [if_neg hend] at hstep
        split at h
        · exact absurd h hfailed
        · next hfull =>
            apply Completes.cons
            rw [hstep, if_neg hfull]
            exact h

theorem exact_of_body_step {response : DaemonResponse} (hsuccess : 100 ≤ response.status)
    {status : ℤ} {bodySize : ℕ} {body : Bytes} {round : ReadRound}
    (h : Exact timeout rounds response (readStep timeout (.body status bodySize body) round)) :
    Exact timeout (round :: rounds) response (.body status bodySize body) := by
  rw [readStep] at h
  split at h
  · exact h.elim
  · exact absurd h (not_exact_failedRead hsuccess)
  · exact exact_startBody h

/-- From its end on, by what each stage hands on to the next. -/
theorem exact_of_run {response : DaemonResponse} (hsuccess : 100 ≤ response.status)
    (h : Lib.Run (Reads timeout) stage rounds (.returned response)) :
    Exact timeout rounds response stage := by
  generalize hlast : Stage.returned response = last at h
  induction h with
  | nil =>
      rw [← hlast]
      rfl
  | @cons stage t last round rounds hstep hrest ih =>
      subst hstep
      have hexact := ih hlast
      cases stage with
      | status buffer => exact exact_of_status_step hsuccess hexact
      | header status buffer => exact exact_of_header_step hsuccess hexact
      | body status bodySize body => exact exact_of_body_step hsuccess hexact
      | returned response' => exact hexact
      | aborted fault => exact hexact

end Complete

/-- Once the connection is closed while the header is read, nothing is ever returned. -/
theorem header_of_closed {timeout : ℕ} {status : ℤ} {buffer : Bytes} {rounds : List ReadRound}
    (hheader : find kHeaderEnd buffer = none) (hbuffer : buffer.length ≠ kMaxHeaderSize)
    (hclosed : ∀ round ∈ rounds, closed round = true) :
    Lib.Run (Reads timeout) (.header status buffer) rounds (.header status buffer) := by
  induction rounds with
  | nil => exact .nil _
  | cons round rounds ih =>
      rw [List.forall_mem_cons] at hclosed
      obtain ⟨hpoll, hread⟩ := of_decide_eq_true hclosed.1
      apply Lib.Run.cons _ (ih hclosed.2)
      have hsame : received buffer [] = buffer := by simp [received]
      change readStep timeout (.header status buffer) round = _
      rw [readStep_header_bytes timeout status buffer hpoll hread, hsame, hheader,
        if_neg (by simp), if_neg hbuffer]

/-- In a run in which the connection is not closed before the header is complete, and no round
ends the program, the response is returned: at any time, before the clock has got to the
deadline or behind it, only so many more rounds are needed. A success has as many bytes as the
header says. -/
theorem readDaemonResponse_returns {timeout start k : ℕ} {before after : List ReadRound}
    {stage stage' : Stage}
    (hbefore : Lib.Run (Guarded (Reads timeout) Fine) (.status []) before stage)
    (hafter : Lib.Run (Guarded (Reads timeout) Fine) stage after stage')
    (hk : 0 < k) (hclock : Advances start k after) :
    (k * (timeout - start) + kMaxHeaderSize
        + after.countP (fun r => late timeout r && interrupted r) < after.length →
      ∃ response, stage' = .returned response) ∧
    ∀ response, stage' = .returned response → 100 ≤ response.status →
      Completes timeout (.status []) (before ++ after) response.body.length := by
  constructor
  · intro hlong
    have hhealthy := (late_rounds_le hbefore trivial).1
    rcases (late_rounds_le hafter hhealthy).2 with hreturned | hle
    · exact hreturned
    · have hearly := early_rounds_le timeout hk hclock
      have hlength := length_eq_countP timeout after
      have hmax : lateRounds stage ≤ kMaxHeaderSize := by
        cases stage with
        | status buffer => exact le_rfl
        | header status buffer => exact Nat.sub_le _ _
        | body status bodySize body => exact Nat.zero_le _
        | returned response => exact Nat.zero_le _
        | aborted fault => exact Nat.zero_le _
      omega
  · rintro response rfl hsuccess
    have hrun := (hbefore.append hafter).mono fun _ _ _ h => h.1
    exact exact_of_run hsuccess hrun

/-- A closed connection, as often as it is read. -/
def closedRounds (start n : ℕ) : List ReadRound :=
  (List.range n).map fun i => ⟨start + i, .ready, .bytes []⟩

theorem closed_of_mem {start n : ℕ} {round : ReadRound} (h : round ∈ closedRounds start n) :
    closed round = true := by
  obtain ⟨i, -, rfl⟩ := List.mem_map.mp h
  rfl

/-- Behind the header the run can go on with any rounds in which `poll` does not fail. -/
theorem exists_run_body (timeout : ℕ) {rounds : List ReadRound}
    (hpoll : ∀ round ∈ rounds, round.poll ≠ .failed) {stage : Stage}
    (hstage : (∃ status bodySize body, stage = .body status bodySize body) ∨
      ∃ response, stage = .returned response) :
    ∃ stage', Lib.Run (Guarded (Reads timeout) Fine) stage rounds stage' := by
  induction rounds generalizing stage with
  | nil => exact ⟨stage, .nil stage⟩
  | cons round rounds ih =>
      rw [List.forall_mem_cons] at hpoll
      have hfine : Fine stage round := by
        refine ⟨hpoll.1, ?_⟩
        rintro status buffer rfl
        rcases hstage with ⟨_, _, _, h⟩ | ⟨_, h⟩ <;> cases h
      have hnext : (∃ status bodySize body,
            readStep timeout stage round = .body status bodySize body) ∨
          ∃ response, readStep timeout stage round = .returned response := by
        rcases hstage with ⟨status, bodySize, body, rfl⟩ | ⟨response, rfl⟩
        · rw [readStep]
          rcases performIo_cases timeout bodySize body hpoll.1 with hnone | ⟨-, body', hsome⟩
          · rw [hnone]
            exact Or.inr ⟨_, rfl⟩
          · rw [hsome]
            rcases startBody_cases status bodySize body' with h | h
            · exact Or.inl ⟨_, _, _, h⟩
            · exact Or.inr ⟨_, h⟩
        · exact Or.inr ⟨response, rfl⟩
      obtain ⟨stage', hrun⟩ := ih hpoll.2 hnext
      exact ⟨stage', .cons ⟨rfl, hfine⟩ hrun⟩

/-- The peer closes the connection within the body, and the read of it ends at the deadline. -/
theorem readDaemonResponse_returns_closedBody :
    ∃ response, readDaemonResponse 5
      ([⟨0, .ready, .bytes (asciiBytes "HTTP/1.1 200 ")⟩,
        ⟨1, .ready, .bytes (asciiBytes "OK\r\nContent-Length: 2\r\n\r\nh")⟩]
        ++ closedRounds 2 9000) = .returned response := by
  have hscan : scanContentLength (received [] (asciiBytes "OK\r\nContent-Length: 2\r\n\r\nh"))
      = some (.number 2) := by decide +kernel
  have hbefore : Lib.Run (Guarded (Reads 5) Fine) (.status [])
      [⟨0, .ready, .bytes (asciiBytes "HTTP/1.1 200 ")⟩,
        ⟨1, .ready, .bytes (asciiBytes "OK\r\nContent-Length: 2\r\n\r\nh")⟩]
      (.body 200 2 (asciiBytes "h")) := by
    refine .cons (t := .header 200 []) ⟨?_, nofun, nofun⟩
      (.cons (t := .body 200 2 (asciiBytes "h")) ⟨?_, nofun, ?_⟩ (.nil _))
    · change readStep 5 _ _ = _
      decide +kernel
    · change readStep 5 _ _ = _
      decide +kernel
    · rintro status buffer ⟨⟩
      refine ⟨by decide, ?_⟩
      rintro bs ⟨⟩ - scanned hscanned
      rw [hscan, Option.some.injEq] at hscanned
      exact Or.inr ⟨2, hscanned.symm⟩
  have hpoll : ∀ round ∈ closedRounds 2 9000, round.poll ≠ .failed := by
    intro round hround
    rw [(of_decide_eq_true (closed_of_mem hround)).1]
    nofun
  obtain ⟨stage', hafter⟩ := exists_run_body 5 hpoll
    (Or.inl ⟨200, 2, asciiBytes "h", rfl⟩)
  have hclock : Advances 2 1 (closedRounds 2 9000) := by
    intro i round hround
    obtain ⟨j, hj, rfl⟩ := List.getElem?_map.symm.trans hround |> Option.map_eq_some_iff.mp
    obtain ⟨hlt, rfl⟩ := List.getElem?_eq_some_iff.mp hj
    rw [List.getElem_range, Nat.div_one]
  have hquiet : (closedRounds 2 9000).countP (fun r => late 5 r && interrupted r) = 0 := by
    rw [List.countP_eq_zero]
    intro round hround
    have hread := (of_decide_eq_true (closed_of_mem hround)).2
    simp [interrupted, hread]
  obtain ⟨response, hreturned⟩ := (readDaemonResponse_returns hbefore hafter one_pos hclock).1 (by
    rw [hquiet, closedRounds, List.length_map, List.length_range]
    decide)
  have hrun := (hbefore.append hafter).mono fun _ _ _ h => h.1
  exact ⟨response, (Lib.Run.unique reads_unique (run_foldl 5 _ _) hrun).trans hreturned⟩

/-- The peer closes the connection within the header. -/
def closedInHeader (n : ℕ) : List ReadRound :=
  [⟨0, .ready, .bytes (asciiBytes "HTTP/1.1 200 ")⟩, ⟨1, .ready, .bytes (asciiBytes "OK")⟩]
    ++ closedRounds 2 n

theorem readDaemonResponse_closedInHeader (n : ℕ) :
    readDaemonResponse 5 (closedInHeader n) = .header 200 (asciiBytes "OK") := by
  have hfirst : readDaemonResponse 5
      [⟨0, .ready, .bytes (asciiBytes "HTTP/1.1 200 ")⟩, ⟨1, .ready, .bytes (asciiBytes "OK")⟩]
      = .header 200 (asciiBytes "OK") := by decide +kernel
  have hrest : Lib.Run (Reads 5) (.header 200 (asciiBytes "OK")) (closedRounds 2 n)
      (.header 200 (asciiBytes "OK")) :=
    header_of_closed (by decide +kernel) (by decide +kernel) fun round h => closed_of_mem h
  rw [readDaemonResponse] at hfirst
  rw [readDaemonResponse, closedInHeader, List.foldl_append, hfirst]
  exact Lib.Run.unique reads_unique (run_foldl 5 _ _) hrest

/-- However often the connection is read, and however late it is, nothing is returned. -/
theorem header_closed_forever :
    ¬∃ n response, readDaemonResponse 5 (closedInHeader n) = .returned response := by
  rintro ⟨n, response, hreturned⟩
  rw [readDaemonResponse_closedInHeader] at hreturned
  cases hreturned

end Yadcc.Client
