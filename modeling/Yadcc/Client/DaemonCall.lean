/-
# Writing a request to the daemon

A request is an HTTP header and any number of bodies, which are written with gathering writes
of at most 128 vectors. After a short write the vectors are sliced again. The kernel is a list
of rounds: it can take any part of what it is offered, be interrupted, or fail. Whatever it
does, what it has taken is a prefix of the request, and arrays are never overrun. The deadline
is compared with the clock at the beginning of a round only, so the last round can take bytes
after it. Sizes in memory are natural numbers here.
-/

import Yadcc.Lib.Text
import Yadcc.Lib.Checked

namespace Yadcc.Client

open Yadcc.Lib
open Yadcc.Lib.Shell (asciiBytes)

/-! ## The header -/

/-- Checks that end the program, and accesses out of bounds. -/
inductive WriteFault
  | overrun
  | outside
  | uninitialized
  | badSize
  | notImplemented
  | tooMany
  | pollFailed
  deriving DecidableEq

/-- The largest header, and the size of the buffer on the stack. -/
def kMaxHeaderSize : ℕ := 8192

def kStartLinePrefix : Bytes := asciiBytes "POST "
def kStartLinePostfix : Bytes := asciiBytes " HTTP/1.1"
def kLineDelimiter : Bytes := asciiBytes "\r\n"

/-- `memcpy` behind what was copied, into a buffer with the capacity. -/
def appendToBuffer (capacity : ℕ) (copied data : Bytes) : Except WriteFault Bytes :=
  if capacity < copied.length + data.length then .error .overrun else .ok (copied ++ data)

def writePostHeader (path : Bytes) (headers : List Bytes) (bodySize : ℕ) :
    Except WriteFault Bytes := do
  let contentLengthHdr := asciiBytes "Content-Length: " ++ decimal bodySize
  let startLineSize := kStartLinePrefix.length + path.length + kStartLinePostfix.length +
    kLineDelimiter.length
  let desiredHeaderSize := headers.foldl (fun size h => size + (h.length + kLineDelimiter.length))
    startLineSize + (contentLengthHdr.length + kLineDelimiter.length) + kLineDelimiter.length
  let capacity := if desiredHeaderSize < kMaxHeaderSize then kMaxHeaderSize else desiredHeaderSize
  let copied ← appendToBuffer capacity [] kStartLinePrefix
  let copied ← appendToBuffer capacity copied path
  let copied ← appendToBuffer capacity copied kStartLinePostfix
  let copied ← appendToBuffer capacity copied kLineDelimiter
  let copied ← headers.foldlM (fun copied h => do
    let copied ← appendToBuffer capacity copied h
    appendToBuffer capacity copied kLineDelimiter) copied
  let copied ← appendToBuffer capacity copied contentLengthHdr
  let copied ← appendToBuffer capacity copied kLineDelimiter
  let copied ← appendToBuffer capacity copied kLineDelimiter
  if copied.length = desiredHeaderSize then return copied else .error .badSize

/-! ## The kernel -/

/-- `errno` of a write. -/
inductive Errno
  | eintr
  | eagain
  | other
  deriving DecidableEq

/-- Whether the socket is writable within the time that is left. -/
inductive PollResult
  | ready
  | timeout
  | failed
  deriving DecidableEq

/-- `writev` takes some of the bytes, at most those that it is offered, or fails. -/
inductive WritevResult
  | taken (n : ℕ)
  | failed (errno : Errno)
  deriving DecidableEq

/-- One iteration of the loop: the reading of the clock at its beginning, what the calls
return, and how long after that reading the kernel takes the bytes. -/
structure WriteRound where
  clock : ℕ
  poll : PollResult
  writev : WritevResult
  elapsed : ℕ

/-- The time at which the kernel takes the bytes of a round. -/
def WriteRound.time (round : WriteRound) : ℕ := round.clock + round.elapsed

/-- `running` is a call for which no more rounds are given. -/
inductive WriteOutcome
  | succeeded
  | failed
  | aborted (fault : WriteFault)
  | running
  deriving DecidableEq

/-- Bytes that the kernel has taken, and the round in which it did. -/
structure Taken where
  round : WriteRound
  bytes : Bytes

/-- What the kernel has taken, and its rounds to come. -/
structure Sending where
  log : List Taken
  rounds : List WriteRound

/-! ## Gathering -/

/-- The array `writing` of 128 vectors: what is left of the first vector that is not written
completely, and the vectors behind it. -/
def gather (bytesWritten : ℕ) : (skipped : ℕ) → List Bytes → Except WriteFault (List Bytes)
  | _, [] => .error .uninitialized
  | skipped, v :: iov =>
      if skipped + v.length ≤ bytesWritten then gather bytesWritten (skipped + v.length) iov
      else
        let writingBytes := skipped + v.length - bytesWritten
        if v.length < writingBytes then .error .outside
        else if 128 < iov.length + 1 then .error .overrun
        else .ok (v.drop (v.length - writingBytes) :: iov)

/-- The loop of `TimedWriteV`, over the rounds of the kernel. -/
def timedWriteVLoop (timeout : ℕ) (iov : List Bytes) (size : ℕ) :
    List WriteRound → (bytesWritten : ℕ) → (log : List Taken) → WriteOutcome × Sending
  | rounds, bytesWritten, log =>
      if bytesWritten = size then (.succeeded, ⟨log, rounds⟩)
      else
        match rounds with
        | [] => (.running, ⟨log, []⟩)
        | round :: rounds =>
            if timeout ≤ round.clock then
              if size < bytesWritten then (.aborted .tooMany, ⟨log, rounds⟩)
              else (.failed, ⟨log, rounds⟩)
            else
              match round.poll with
              | .failed => (.aborted .pollFailed, ⟨log, rounds⟩)
              | .timeout => (.failed, ⟨log, rounds⟩)
              | .ready =>
                  if 128 < iov.length then (.aborted .notImplemented, ⟨log, rounds⟩)
                  else
                    match gather bytesWritten 0 iov with
                    | .error fault => (.aborted fault, ⟨log, rounds⟩)
                    | .ok writing =>
                        match round.writev with
                        | .taken n =>
                            let bytes := writing.flatten.take n
                            timedWriteVLoop timeout iov size rounds (bytesWritten + bytes.length)
                              (log ++ [⟨round, bytes⟩])
                        | .failed .eintr | .failed .eagain =>
                            timedWriteVLoop timeout iov size rounds bytesWritten log
                        | .failed .other => (.failed, ⟨log, rounds⟩)

def timedWriteV (timeout : ℕ) (iov : List Bytes) (s : Sending) : WriteOutcome × Sending :=
  timedWriteVLoop timeout iov (iov.foldl (fun size v => size + v.length) 0) s.rounds 0 s.log

/-- The array `writing_bytes` is filled up to 128 vectors, written, and filled again. -/
def writeParts (timeout : ℕ) : (writingBytes bodies : List Bytes) → Sending →
    WriteOutcome × Sending
  | writingBytes, [], s => timedWriteV timeout writingBytes s
  | writingBytes, body :: bodies, s =>
      if writingBytes.length ≠ 128 then
        if 128 ≤ writingBytes.length then (.aborted .overrun, s)
        else writeParts timeout (writingBytes ++ [body]) bodies s
      else
        match timedWriteV timeout writingBytes s with
        | (.succeeded, s) => writeParts timeout [body] bodies s
        | result => result

/-- The write phase of `DaemonCallGathered`. -/
def writeRequest (timeout : ℕ) (path : Bytes) (headers bodies : List Bytes)
    (rounds : List WriteRound) : WriteOutcome × Sending :=
  let bodySize := bodies.foldl (fun size e => size + e.length) 0
  match writePostHeader path headers bodySize with
  | .error fault => (.aborted fault, ⟨[], rounds⟩)
  | .ok header =>
      if bodies.isEmpty then timedWriteV timeout [header] ⟨[], rounds⟩
      else writeParts timeout [header] bodies ⟨[], rounds⟩

/-! ## The header is complete -/

/-- The header of a request. -/
def postHeader (path : Bytes) (headers : List Bytes) (bodySize : ℕ) : Bytes :=
  kStartLinePrefix ++ path ++ kStartLinePostfix ++ kLineDelimiter ++
    headers.flatMap (· ++ kLineDelimiter) ++ (asciiBytes "Content-Length: " ++ decimal bodySize) ++
    kLineDelimiter ++ kLineDelimiter

theorem appendToBuffer_ok {capacity : ℕ} {copied data : Bytes}
    (h : (copied ++ data).length ≤ capacity) :
    appendToBuffer capacity copied data = .ok (copied ++ data) := by
  rw [List.length_append] at h
  exact if_neg (Nat.not_lt_of_le h)

theorem foldlM_appendToBuffer {capacity : ℕ} {headers : List Bytes} {copied : Bytes}
    (h : (copied ++ headers.flatMap (· ++ kLineDelimiter)).length ≤ capacity) :
    headers.foldlM (fun copied h => do
      let copied ← appendToBuffer capacity copied h
      appendToBuffer capacity copied kLineDelimiter) copied
      = .ok (copied ++ headers.flatMap (· ++ kLineDelimiter)) := by
  induction headers generalizing copied with
  | nil =>
      rw [List.flatMap_nil, List.append_nil]
      rfl
  | cons header headers ih =>
      have hsplit : copied ++ (header :: headers).flatMap (· ++ kLineDelimiter)
          = copied ++ header ++ kLineDelimiter ++ headers.flatMap (· ++ kLineDelimiter) := by
        rw [List.flatMap_cons]
        simp only [List.append_assoc]
      rw [hsplit] at h ⊢
      have hline : (copied ++ header ++ kLineDelimiter).length ≤ capacity := by
        rw [List.length_append] at h
        omega
      have hheader : (copied ++ header).length ≤ capacity := by
        rw [List.length_append] at hline
        omega
      rw [List.foldlM_cons, appendToBuffer_ok hheader, ok_bind, appendToBuffer_ok hline, ok_bind]
      exact ih h

theorem foldl_length {α : Type*} (f : α → ℕ) (as : List α) (size : ℕ) :
    as.foldl (fun size a => size + f a) size = size + (as.map f).sum := by
  induction as generalizing size with
  | nil => rfl
  | cons a as ih => rw [List.foldl_cons, ih, List.map_cons, List.sum_cons, Nat.add_assoc]

/-- The buffer is large enough, and it is filled exactly. -/
theorem writePostHeader_eq (path : Bytes) (headers : List Bytes) (bodySize : ℕ) :
    writePostHeader path headers bodySize = .ok (postHeader path headers bodySize) := by
  have hdesired : headers.foldl (fun size h => size + (h.length + kLineDelimiter.length))
      (kStartLinePrefix.length + path.length + kStartLinePostfix.length + kLineDelimiter.length)
      + ((asciiBytes "Content-Length: " ++ decimal bodySize).length + kLineDelimiter.length)
      + kLineDelimiter.length = (postHeader path headers bodySize).length := by
    rw [foldl_length, postHeader]
    simp only [List.length_append, List.length_flatMap]
    omega
  unfold writePostHeader
  dsimp only
  rw [hdesired]
  have hcapacity : (postHeader path headers bodySize).length ≤
      if (postHeader path headers bodySize).length < kMaxHeaderSize then kMaxHeaderSize
      else (postHeader path headers bodySize).length := by
    split
    · next hlt => exact hlt.le
    · exact le_rfl
  generalize (if (postHeader path headers bodySize).length < kMaxHeaderSize then kMaxHeaderSize
    else (postHeader path headers bodySize).length) = capacity at hcapacity ⊢
  unfold postHeader at hcapacity
  simp only [List.append_assoc] at hcapacity
  rw [appendToBuffer_ok, ok_bind, appendToBuffer_ok, ok_bind, appendToBuffer_ok, ok_bind,
    appendToBuffer_ok, ok_bind, foldlM_appendToBuffer, ok_bind, appendToBuffer_ok, ok_bind,
    appendToBuffer_ok, ok_bind, appendToBuffer_ok, ok_bind]
  · rw [List.nil_append]
    exact if_pos rfl
  all_goals
    simp only [List.length_append, List.length_nil] at hcapacity ⊢
    omega

/-! ## What the kernel takes -/

section Writes

variable {timeout : ℕ} {iov : List Bytes} {s : Sending}

/-- The bytes of a log, in order. -/
def bytesOf (log : List Taken) : Bytes := log.flatMap Taken.bytes

theorem bytesOf_append (log log' : List Taken) :
    bytesOf (log ++ log') = bytesOf log ++ bytesOf log' :=
  List.flatMap_append

/-- The bytes that were taken before the deadline. -/
def bytesBefore (timeout : ℕ) (log : List Taken) : Bytes :=
  bytesOf (log.filter fun e => decide (e.round.time < timeout))

theorem length_bytesBefore_le (timeout : ℕ) (log : List Taken) :
    (bytesBefore timeout log).length ≤ (bytesOf log).length := by
  rw [bytesBefore, bytesOf, bytesOf, List.length_flatMap, List.length_flatMap]
  apply List.Sublist.sum_le_sum
  · exact List.filter_sublist.map _
  · exact fun _ _ => Nat.zero_le _

/-- The gathered vectors are exactly what has not been written. -/
theorem gather_ok {bytesWritten skipped : ℕ} (hskipped : skipped ≤ bytesWritten)
    (hwritten : bytesWritten < skipped + iov.flatten.length) (hiov : iov.length ≤ 128) :
    ∃ writing, gather bytesWritten skipped iov = .ok writing ∧
      writing.flatten = iov.flatten.drop (bytesWritten - skipped) := by
  induction iov generalizing skipped with
  | nil =>
      rw [List.flatten_nil, List.length_nil] at hwritten
      omega
  | cons v iov ih =>
      rw [List.flatten_cons, List.length_append] at hwritten
      rw [List.length_cons] at hiov
      rw [gather]
      split
      · next hle =>
          obtain ⟨writing, hgather, hflatten⟩ := ih hle (by omega) (by omega)
          refine ⟨writing, hgather, ?_⟩
          have hv : v.drop (bytesWritten - skipped) = [] := List.drop_eq_nil_of_le (by omega)
          rw [hflatten, List.flatten_cons, List.drop_append, hv, List.nil_append, Nat.sub_sub]
      · next hlt =>
          have hinside : ¬v.length < skipped + v.length - bytesWritten := by omega
          have hroom : ¬128 < iov.length + 1 := by omega
          dsimp only
          rw [if_neg hinside, if_neg hroom]
          refine ⟨_, rfl, ?_⟩
          have hoffset : v.length - (skipped + v.length - bytesWritten)
              = bytesWritten - skipped := by omega
          rw [List.flatten_cons, List.flatten_cons, hoffset,
            List.drop_append_of_le_length (by omega)]

/-- What a call that is to write the message adds to the log, and the rounds that it uses. -/
structure Adds (timeout : ℕ) (message : Bytes) (used : List WriteRound) (outcome : WriteOutcome)
    (entries : List Taken) : Prop where
  front : bytesOf entries <+: message
  early : ∀ e ∈ entries, e.round.clock < timeout
  inOrder : List.Sublist (entries.map Taken.round) used
  succeeded : outcome = .succeeded ↔ bytesOf entries = message
  aborted : ∀ fault, outcome = .aborted fault → fault = .pollFailed

/-- A call from one state to its result. -/
def Writes (timeout : ℕ) (message : Bytes) (s : Sending) (result : WriteOutcome × Sending) :
    Prop :=
  ∃ entries used, result.2.log = s.log ++ entries ∧ s.rounds = used ++ result.2.rounds ∧
    Adds timeout message used result.1 entries

/-- A call that takes nothing and uses at most one round. -/
theorem writes_nothing {message : Bytes} {log : List Taken} {outcome : WriteOutcome}
    {used rounds : List WriteRound} (hmessage : message ≠ []) (houtcome : outcome ≠ .succeeded)
    (haborted : ∀ fault, outcome = .aborted fault → fault = .pollFailed) :
    Writes timeout message ⟨log, used ++ rounds⟩ (outcome, ⟨log, rounds⟩) :=
  ⟨[], used, (List.append_nil log).symm, rfl, List.nil_prefix, nofun, List.nil_sublist used,
    iff_of_false houtcome hmessage.symm, haborted⟩

/-- Entries in front of those of the rest of the message. -/
theorem Adds.append {first rest : Bytes} {entries entries' : List Taken}
    {used used' : List WriteRound} {outcome : WriteOutcome}
    (h : Adds timeout rest used' outcome entries') (hbytes : bytesOf entries = first)
    (hearly : ∀ e ∈ entries, e.round.clock < timeout)
    (hused : List.Sublist (entries.map Taken.round) used) :
    Adds timeout (first ++ rest) (used ++ used') outcome (entries ++ entries') where
  front := by
    rw [bytesOf_append, hbytes, List.prefix_append_right_inj]
    exact h.front
  early := by
    intro e he
    rcases List.mem_append.mp he with he | he
    · exact hearly e he
    · exact h.early e he
  inOrder := by
    rw [List.map_append]
    exact hused.append h.inOrder
  succeeded := by
    rw [bytesOf_append, hbytes, List.append_cancel_left_eq]
    exact h.succeeded
  aborted := h.aborted

/-- A part that did not succeed is part of a message that did not succeed. -/
theorem Adds.unfinished {first rest : Bytes} {entries : List Taken} {used : List WriteRound}
    {outcome : WriteOutcome} (h : Adds timeout first used outcome entries)
    (houtcome : outcome ≠ .succeeded) : Adds timeout (first ++ rest) used outcome entries where
  front := h.front.trans (List.prefix_append first rest)
  early := h.early
  inOrder := h.inOrder
  succeeded := by
    refine iff_of_false houtcome ?_
    intro heq
    have hlength := h.front.length_le
    rw [heq, List.length_append] at hlength
    have hrest : rest = [] := List.eq_nil_of_length_eq_zero (by omega)
    rw [hrest, List.append_nil] at heq
    exact houtcome (h.succeeded.mpr heq)
  aborted := h.aborted

/-- Nothing is left to write. -/
theorem writes_done (s : Sending) : Writes timeout [] s (.succeeded, s) :=
  ⟨[], [], (List.append_nil s.log).symm, rfl, List.prefix_rfl, nofun, List.nil_sublist [],
    iff_of_true rfl rfl, nofun⟩

/-- A round that is interrupted only passes. -/
theorem Writes.skip {message : Bytes} {log : List Taken} {round : WriteRound}
    {rounds : List WriteRound} {result : WriteOutcome × Sending}
    (h : Writes timeout message ⟨log, rounds⟩ result) :
    Writes timeout message ⟨log, round :: rounds⟩ result := by
  obtain ⟨entries, used, hlog, hrounds, hadds⟩ := h
  refine ⟨entries, round :: used, hlog, congrArg (round :: ·) hrounds, ?_⟩
  exact { hadds with inOrder := hadds.inOrder.cons round }

/-- The front of a message is taken in a round that begins in time, and the rest is written. -/
theorem Writes.taken {message : Bytes} {log : List Taken} {round : WriteRound} {n : ℕ}
    {rounds : List WriteRound} {result : WriteOutcome × Sending} (hclock : round.clock < timeout)
    (h : Writes timeout (message.drop (message.take n).length)
      ⟨log ++ [⟨round, message.take n⟩], rounds⟩ result) :
    Writes timeout message ⟨log, round :: rounds⟩ result := by
  obtain ⟨entries, used, hlog, hrounds, hadds⟩ := h
  have hbytes : bytesOf [⟨round, message.take n⟩] = message.take n := by simp [bytesOf]
  have hearly : ∀ e ∈ [(⟨round, message.take n⟩ : Taken)], e.round.clock < timeout := by
    intro e he
    rw [List.mem_singleton.mp he]
    exact hclock
  have hall := hadds.append hbytes hearly (List.Sublist.refl [round])
  rw [List.prefix_iff_eq_append.mp (List.take_prefix n message)] at hall
  exact ⟨_, _, hlog.trans (List.append_assoc _ _ _), congrArg (round :: ·) hrounds, hall⟩

/-- By induction on the rounds: each one that takes something shortens what is left. -/
theorem writes_timedWriteVLoop (timeout : ℕ) (hiov : iov.length ≤ 128)
    (rounds : List WriteRound) : ∀ (bytesWritten : ℕ) (log : List Taken),
      bytesWritten ≤ iov.flatten.length →
      Writes timeout (iov.flatten.drop bytesWritten) ⟨log, rounds⟩
        (timedWriteVLoop timeout iov iov.flatten.length rounds bytesWritten log) := by
  induction rounds with
  | nil =>
      intro bytesWritten log hle
      rw [timedWriteVLoop]
      split
      · next heq =>
          rw [heq, List.drop_length]
          exact writes_done ⟨log, []⟩
      · next hne =>
          have hrest : iov.flatten.drop bytesWritten ≠ [] := by
            rw [ne_eq, List.drop_eq_nil_iff]
            omega
          show Writes timeout _ ⟨log, [] ++ []⟩ _
          exact writes_nothing hrest nofun nofun
  | cons round rounds ih =>
      intro bytesWritten log hle
      rw [timedWriteVLoop]
      split
      · next heq =>
          rw [heq, List.drop_length]
          exact writes_done ⟨log, round :: rounds⟩
      · next hne =>
          have hrest : iov.flatten.drop bytesWritten ≠ [] := by
            rw [ne_eq, List.drop_eq_nil_iff]
            omega
          have hnothing {outcome : WriteOutcome} (houtcome : outcome ≠ .succeeded)
              (haborted : ∀ fault, outcome = .aborted fault → fault = .pollFailed) :
              Writes timeout (iov.flatten.drop bytesWritten) ⟨log, [round] ++ rounds⟩
                (outcome, ⟨log, rounds⟩) :=
            writes_nothing hrest houtcome haborted
          dsimp only
          split
          · rw [if_neg (by omega)]
            exact hnothing nofun nofun
          · next hearly =>
              split
              · exact hnothing nofun fun fault h => by cases h; rfl
              · exact hnothing nofun nofun
              · rw [if_neg (by omega)]
                obtain ⟨writing, hgather, hflatten⟩ :=
                  gather_ok (Nat.zero_le bytesWritten) (by omega) hiov
                rw [hgather]
                dsimp only
                split
                · next n _ =>
                    rw [hflatten, Nat.sub_zero]
                    apply Writes.taken (Nat.lt_of_not_le hearly)
                    rw [List.drop_drop]
                    apply ih
                    rw [List.length_take, List.length_drop]
                    omega
                · exact (ih bytesWritten log hle).skip
                · exact (ih bytesWritten log hle).skip
                · exact hnothing nofun nofun

theorem writes_timedWriteV (timeout : ℕ) {iov : List Bytes} (hiov : iov.length ≤ 128)
    (s : Sending) : Writes timeout iov.flatten s (timedWriteV timeout iov s) := by
  have hsize : iov.foldl (fun size v => size + v.length) 0 = iov.flatten.length := by
    rw [foldl_length, List.length_flatten, Nat.zero_add]
  have hwrites := writes_timedWriteVLoop timeout hiov s.rounds 0 s.log (Nat.zero_le _)
  rw [List.drop_zero] at hwrites
  rw [timedWriteV, hsize]
  exact hwrites

/-- Each round of filling and writing continues where the one before has stopped. -/
theorem writes_writeParts (timeout : ℕ) (bodies : List Bytes) :
    ∀ (writingBytes : List Bytes) (s : Sending), writingBytes.length ≤ 128 →
    Writes timeout (writingBytes.flatten ++ bodies.flatten) s
      (writeParts timeout writingBytes bodies s) := by
  induction bodies with
  | nil =>
      intro writingBytes s hparts
      rw [writeParts, List.flatten_nil, List.append_nil]
      exact writes_timedWriteV timeout hparts s
  | cons body bodies ih =>
      intro writingBytes s hparts
      rw [writeParts]
      split
      · rw [if_neg (by omega)]
        have hmessage : writingBytes.flatten ++ (body :: bodies).flatten
            = (writingBytes ++ [body]).flatten ++ bodies.flatten := by simp
        rw [hmessage]
        apply ih
        rw [List.length_append, List.length_singleton]
        omega
      · obtain ⟨entries, used, hlog, hrounds, hadds⟩ := writes_timedWriteV timeout hparts s
        generalize timedWriteV timeout writingBytes s = result at hlog hrounds hadds
        obtain ⟨outcome, s'⟩ := result
        split
        · next s₁ heq =>
            cases heq
            obtain ⟨entries', used', hlog', hrounds', hadds'⟩ := ih [body] s' (by simp)
            have hbytes := hadds.succeeded.mp rfl
            have hall := hadds'.append hbytes hadds.early hadds.inOrder
            refine ⟨entries ++ entries', used ++ used', ?_, ?_, ?_⟩
            · rw [hlog', hlog, List.append_assoc]
            · rw [hrounds, hrounds', List.append_assoc]
            · rw [List.flatten_cons]
              simpa using hall
        · next hfailed =>
            have houtcome : outcome ≠ .succeeded := by
              rintro rfl
              exact hfailed s' rfl
            exact ⟨entries, used, hlog, hrounds, hadds.unfinished houtcome⟩

/-- The whole request is one message. -/
theorem writes_writeRequest (timeout : ℕ) (path : Bytes) (headers bodies : List Bytes)
    (rounds : List WriteRound) :
    Writes timeout (postHeader path headers bodies.flatten.length ++ bodies.flatten) ⟨[], rounds⟩
      (writeRequest timeout path headers bodies rounds) := by
  have hsize : bodies.foldl (fun size e => size + e.length) 0 = bodies.flatten.length := by
    rw [foldl_length, List.length_flatten, Nat.zero_add]
  unfold writeRequest
  rw [hsize]
  dsimp only
  rw [writePostHeader_eq]
  cases bodies with
  | nil =>
      have hlength : [postHeader path headers 0].length ≤ 128 := by simp
      have hone := writes_timedWriteV timeout hlength ⟨[], rounds⟩
      simpa using hone
  | cons body bodies =>
      have hparts := writes_writeParts timeout (body :: bodies)
        [postHeader path headers (body :: bodies).flatten.length] ⟨[], rounds⟩ (by simp)
      rw [List.flatten_singleton] at hparts
      exact hparts

/-- Each round begins when the bytes of those before it have been taken. -/
def Chronological (rounds : List WriteRound) : Prop :=
  rounds.Pairwise fun round later => round.time ≤ later.clock

/-- Only what is taken last can be late: a round behind it has begun in time. -/
theorem Adds.onTime {message : Bytes} {used : List WriteRound} {outcome : WriteOutcome}
    {entries : List Taken} (h : Adds timeout message used outcome entries)
    (hused : Chronological used) : ∀ e ∈ entries.dropLast, e.round.time < timeout := by
  intro e he
  have hne : entries ≠ [] := List.ne_nil_of_mem (List.dropLast_subset _ he)
  have hordered := List.pairwise_map.mp (List.Pairwise.sublist h.inOrder hused)
  rw [← List.dropLast_append_getLast hne, List.pairwise_append] at hordered
  calc
    e.round.time ≤ (entries.getLast hne).round.clock :=
      hordered.2.2 e he _ (List.mem_singleton_self _)
    _ < timeout := h.early _ (List.getLast_mem hne)

end Writes

/-- Whatever the kernel does, what it has taken is a prefix of the header and the bodies, in
which the length is the total length of the bodies, and each round in which it took something
has begun before the deadline. The write phase succeeds exactly if all of this was taken, so in
particular if all was taken before the deadline, and only what is taken last can be late. It is
aborted only if `poll` fails, so no array is overrun. -/
theorem writeRequest_exact (timeout : ℕ) (path : Bytes) (headers bodies : List Bytes)
    (rounds : List WriteRound) :
    writePostHeader path headers (bodies.map List.length).sum
      = .ok (postHeader path headers bodies.flatten.length) ∧
    bytesOf (writeRequest timeout path headers bodies rounds).2.log
      <+: postHeader path headers bodies.flatten.length ++ bodies.flatten ∧
    (∀ e ∈ (writeRequest timeout path headers bodies rounds).2.log, e.round.clock < timeout) ∧
    ((writeRequest timeout path headers bodies rounds).1 = .succeeded ↔
      bytesOf (writeRequest timeout path headers bodies rounds).2.log
        = postHeader path headers bodies.flatten.length ++ bodies.flatten) ∧
    (bytesBefore timeout (writeRequest timeout path headers bodies rounds).2.log
        = postHeader path headers bodies.flatten.length ++ bodies.flatten →
      (writeRequest timeout path headers bodies rounds).1 = .succeeded) ∧
    (Chronological rounds →
      ∀ e ∈ (writeRequest timeout path headers bodies rounds).2.log.dropLast,
        e.round.time < timeout) ∧
    ∀ fault, (writeRequest timeout path headers bodies rounds).1 = .aborted fault →
      fault = .pollFailed := by
  obtain ⟨entries, used, hlog, hrounds, hadds⟩ :=
    writes_writeRequest timeout path headers bodies rounds
  rw [List.nil_append] at hlog
  dsimp only at hrounds
  rw [hlog]
  refine ⟨?_, hadds.front, hadds.early, hadds.succeeded, ?_, ?_, hadds.aborted⟩
  · rw [← List.length_flatten]
    exact writePostHeader_eq path headers bodies.flatten.length
  · intro hall
    have hlength := length_bytesBefore_le timeout entries
    rw [hall] at hlength
    exact hadds.succeeded.mpr (hadds.front.eq_of_length_le hlength)
  · intro hchronological
    rw [Chronological, hrounds, List.pairwise_append] at hchronological
    exact hadds.onTime hchronological.1

/-- The socket blocks, so a `writev` that began before the deadline can take the whole request
behind it, and the write phase succeeds. -/
theorem writeRequest_late :
    (writeRequest 3 (asciiBytes "/a") [] [[1, 2]] [⟨2, .ready, .taken 4096, 2⟩]).1
      = .succeeded ∧
    bytesBefore 3
        (writeRequest 3 (asciiBytes "/a") [] [[1, 2]] [⟨2, .ready, .taken 4096, 2⟩]).2.log
      ≠ postHeader (asciiBytes "/a") [] 2 ++ [1, 2] := by
  decide +kernel

/-- A short write, an interruption, and empty bodies. -/
example : (writeRequest 3 (asciiBytes "/a") [] [[], [1, 2], []]
    [⟨0, .ready, .taken 9, 1⟩, ⟨1, .ready, .failed .eagain, 0⟩, ⟨2, .ready, .taken 4096, 0⟩]).1
    = .succeeded := by
  decide +kernel

end Yadcc.Client
