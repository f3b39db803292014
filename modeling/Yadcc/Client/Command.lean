/-
# Running a command

The client feeds a child process its input and reads its two outputs at the same time, from
pipes that do not block. Each round of the loop polls the pipes that are still open and then
writes or reads each of them once. What the kernel makes of a round is arbitrary, as long as
it takes no more than it is offered and gives each output in order.

However the bytes are cut up by the rounds, nothing is lost or reordered, and each pipe is
closed once and left alone from then on.
-/

import Yadcc.Client.RewriteRuns
import Yadcc.Lib.Checked
import Yadcc.Lib.Transition

namespace Yadcc.Client

open Yadcc.Lib
open Yadcc.Lib.Shell (asciiBytes)

namespace Command

/-- The ends of the pipes. -/
inductive Fd
  | stdin
  | stdout
  | stderr
  deriving DecidableEq

inductive Use
  | io
  | close
  deriving DecidableEq

/-- The variables of the loop of `HandleProgramIoAndCloseHandles`. What was written, the writes
to the output stream and the uses of the handles are kept. -/
structure Pump where
  input : Bytes
  stdinBytes : ℕ
  inDone : Bool
  outDone : Bool
  errDone : Bool
  written : Bytes
  standardOutput : List Bytes
  standardError : Bytes
  uses : List (Fd × Use)

/-- The result of `WriteTo`; a pipe that is full takes no bytes. -/
inductive WriteToResult
  | bytes (n : ℕ)
  | failed
  deriving DecidableEq

/-- How much was taken. -/
def WriteToResult.taken : WriteToResult → ℕ
  | .bytes n => n
  | .failed => 0

/-- The result of `ReadBytes`; no bytes are the end of the stream. -/
inductive ReadBytesResult
  | bytes (bs : Bytes)
  | failed
  deriving DecidableEq

/-- The handles with events, with what comes of using them. -/
structure Ready where
  stdin : Option WriteToResult
  stdout : Option ReadBytesResult
  stderr : Option ReadBytesResult

/-- A round of the loop, by how `poll` ends. -/
inductive Round
  | interrupted
  | failed
  | ready (events : Ready)

/-- Checks that end the program. -/
inductive Fault
  | poll
  | read
  deriving DecidableEq

/-- The size of the buffer for reading. -/
def ioBufferSize : ℕ := 131072

namespace Pump

/-- Without input the child's standard input is closed at once. -/
def start (input : Bytes) : Pump where
  input := input
  stdinBytes := 0
  inDone := input.isEmpty
  outDone := false
  errDone := false
  written := []
  standardOutput := []
  standardError := []
  uses := if input.isEmpty then [(.stdin, .close)] else []

def use (s : Pump) (fd : Fd) (use : Use) : Pump := { s with uses := s.uses ++ [(fd, use)] }

def isDone (s : Pump) : Fd → Bool
  | .stdin => s.inDone
  | .stdout => s.outDone
  | .stderr => s.errDone

/-- The loop goes on. -/
def running (s : Pump) : Bool := !s.inDone || !s.outDone || !s.errDone

/-! The three branches for the handles. -/

def wrote (s : Pump) (n : ℕ) : Pump :=
  { s.use .stdin .io with
    stdinBytes := s.stdinBytes + n
    written := s.written ++ (s.input.drop s.stdinBytes).take n }

def onStdin (s : Pump) : WriteToResult → Pump
  | .bytes n =>
      let s := s.wrote n
      if s.stdinBytes = s.input.length then { s.use .stdin .close with inDone := true } else s
  | .failed => { (s.use .stdin .io).use .stdin .close with inDone := true }

def onStdout (s : Pump) : ReadBytesResult → Except Fault Pump
  | .bytes bs =>
      let s := s.use .stdout .io
      if bs.isEmpty then .ok { s.use .stdout .close with outDone := true }
      else .ok { s with standardOutput := s.standardOutput ++ [bs] }
  | .failed => .error .read

def onStderr (s : Pump) : ReadBytesResult → Except Fault Pump
  | .bytes bs =>
      let s := s.use .stderr .io
      if bs.isEmpty then .ok { s.use .stderr .close with errDone := true }
      else .ok { s with standardError := s.standardError ++ bs }
  | .failed => .error .read

def afterStdin (s : Pump) : Option WriteToResult → Pump
  | some result => if s.inDone then s else s.onStdin result
  | none => s

/-- The events of a round are for the handles that were open at its start. -/
def handle (s : Pump) (events : Ready) : Except Fault Pump := do
  let afterStdin := s.afterStdin events.stdin
  let afterStdout ←
    (match events.stdout with
    | some result => if s.outDone then .ok afterStdin else afterStdin.onStdout result
    | none => .ok afterStdin)
  match events.stderr with
  | some result => if s.errDone then .ok afterStdout else afterStdout.onStderr result
  | none => .ok afterStdout

def next (s : Pump) : Round → Except Fault Pump
  | .interrupted => .ok s
  | .failed => .error .poll
  | .ready events => s.handle events

end Pump

/-- A round that does not end the program. -/
def Step (s : Pump) (round : Round) (t : Pump) : Prop :=
  s.running = true ∧ s.next round = .ok t

/-- What the child writes until it closes its outputs. -/
structure Child where
  out : Bytes
  err : Bytes

/-- A read gives the next bytes of an output, as many as there are at the moment, and no bytes
at the end of it. -/
def ReadsOf (output done : Bytes) : ReadBytesResult → Prop
  | .bytes bs => bs <+: output.drop done.length ∧ bs.length ≤ ioBufferSize ∧
      (bs = [] → output.drop done.length = [])
  | .failed => True

instance (output done : Bytes) (result : ReadBytesResult) :
    Decidable (ReadsOf output done result) := by
  cases result with
  | failed => exact instDecidableTrue
  | bytes bs => exact inferInstanceAs (Decidable (_ ∧ _))

/-- What a kernel may do: events are for handles that are polled, a write takes no more than it
is offered, and reads give the outputs of the child. -/
def Honest (child : Child) (s : Pump) : Round → Prop
  | .ready events =>
      (∀ result ∈ events.stdin, s.inDone = false ∧
        result.taken ≤ s.input.length - s.stdinBytes) ∧
      (∀ result ∈ events.stdout, s.outDone = false ∧
        ReadsOf child.out s.standardOutput.flatten result) ∧
      (∀ result ∈ events.stderr, s.errDone = false ∧ ReadsOf child.err s.standardError result)
  | _ => True

/-! ## What is done with each handle -/

/-- The uses of a handle. -/
def usesOf (s : Pump) (fd : Fd) : List Use := (s.uses.filter fun e => e.1 = fd).map Prod.snd

/-- A handle that is done was closed by its last use, and no handle was before. -/
def ClosedOnce (s : Pump) (fd : Fd) : Prop :=
  ∃ k, usesOf s fd = List.replicate k .io ++ if s.isDone fd then [.close] else []

/-- What was written is the front of the input, and there is more as long as the handle is
open. -/
structure Fed (input : Bytes) (s : Pump) : Prop where
  input_eq : s.input = input
  written : s.written = s.input.take s.stdinBytes
  le : s.stdinBytes ≤ s.input.length
  open_lt : s.inDone = false → s.stdinBytes < s.input.length

/-- What was read is the front of an output, and all of it once the handle is done. -/
structure Drained (output done : Bytes) (isDone : Bool) : Prop where
  isPrefix : done <+: output
  whole : isDone = true → done = output

structure Pumped (child : Child) (input : Bytes) (s : Pump) : Prop where
  fed : Fed input s
  out : Drained child.out s.standardOutput.flatten s.outDone
  err : Drained child.err s.standardError s.errDone
  closed : ∀ fd, ClosedOnce s fd

section Handles

variable {child : Child} {input : Bytes} {s t : Pump} {fd : Fd}

/-- Another use of an open handle, which may be closed then. -/
theorem ClosedOnce.use (h : ClosedOnce s fd) (hopen : s.isDone fd = false)
    (huses : usesOf t fd = usesOf s fd ++ .io :: if t.isDone fd then [.close] else []) :
    ClosedOnce t fd := by
  obtain ⟨k, hk⟩ := h
  refine ⟨k + 1, ?_⟩
  rw [huses, hk, hopen, List.replicate_succ']
  simp

theorem ClosedOnce.congr (h : ClosedOnce s fd) (huses : usesOf t fd = usesOf s fd)
    (hdone : t.isDone fd = s.isDone fd) : ClosedOnce t fd := by
  obtain ⟨k, hk⟩ := h
  exact ⟨k, by rw [huses, hk, hdone]⟩

/-- The next bytes of an output extend what was read of it. -/
theorem ReadsOf.append {output done bs : Bytes} (hdone : done <+: output)
    (h : ReadsOf output done (.bytes bs)) : done ++ bs <+: output := by
  obtain ⟨rest, rfl⟩ := hdone
  have hbs := h.1
  rw [List.drop_left] at hbs
  exact (List.prefix_append_right_inj done).mpr hbs

/-- At the end of the stream all of it was read. -/
theorem ReadsOf.eq {output done : Bytes} (hdone : done <+: output)
    (h : ReadsOf output done (.bytes [])) : done = output := by
  obtain ⟨rest, rfl⟩ := hdone
  have hrest := h.2.2 rfl
  rw [List.drop_left] at hrest
  rw [hrest, List.append_nil]

theorem drained_nil (output : Bytes) : Drained output [] false :=
  ⟨List.nil_prefix, fun h => nomatch h⟩

/-- A read of an open handle. -/
theorem Drained.read {output done bs : Bytes} {isDone : Bool} (h : Drained output done isDone)
    (hreads : ReadsOf output done (.bytes bs)) : Drained output (done ++ bs) bs.isEmpty := by
  refine ⟨hreads.append h.isPrefix, fun hempty => ?_⟩
  rw [List.isEmpty_iff] at hempty
  subst hempty
  rw [List.append_nil]
  exact hreads.eq h.isPrefix

theorem pumped_start (child : Child) (input : Bytes) : Pumped child input (.start input) where
  fed :=
    { input_eq := rfl
      written := rfl
      le := Nat.zero_le _
      open_lt := fun hopen => by
        refine List.length_pos_iff.mpr ?_
        rintro rfl
        cases hopen }
  out := drained_nil _
  err := drained_nil _
  closed fd := by
    refine ⟨0, ?_⟩
    cases hinput : input.isEmpty with
    | true => cases fd <;> simp [usesOf, Pump.start, Pump.isDone, hinput]
    | false => cases fd <;> simp [usesOf, Pump.start, Pump.isDone, hinput]

/-- The handles but one are left as they were. -/
theorem closed_of_use (h : ∀ fd, ClosedOnce s fd) (fd : Fd) (hopen : s.isDone fd = false)
    (huses : usesOf t fd = usesOf s fd ++ .io :: if t.isDone fd then [.close] else [])
    (hothers : ∀ fd', fd' ≠ fd → usesOf t fd' = usesOf s fd' ∧ t.isDone fd' = s.isDone fd')
    (fd' : Fd) : ClosedOnce t fd' := by
  by_cases heq : fd' = fd
  · rw [heq]
    exact (h fd).use hopen huses
  · exact (h fd').congr (hothers fd' heq).1 (hothers fd' heq).2

/-- A write ends the input or leaves some of it. -/
theorem onStdin_cases (s : Pump) (n : ℕ) :
    (s.stdinBytes + n = s.input.length ∧
      s.onStdin (.bytes n) = { (s.wrote n).use .stdin .close with inDone := true }) ∨
    (s.stdinBytes + n ≠ s.input.length ∧ s.onStdin (.bytes n) = s.wrote n) := by
  by_cases hall : s.stdinBytes + n = s.input.length
  · exact .inl ⟨hall, if_pos hall⟩
  · exact .inr ⟨hall, if_neg hall⟩

theorem Pumped.onStdin (h : Pumped child input s) (hopen : s.inDone = false)
    {result : WriteToResult}
    (hresult : result.taken ≤ s.input.length - s.stdinBytes) :
    Pumped child input (s.onStdin result) := by
  have hlt := h.fed.open_lt hopen
  cases result with
  | failed =>
      refine ⟨⟨h.fed.input_eq, h.fed.written, h.fed.le, fun hfalse => nomatch hfalse⟩,
        h.out, h.err, ?_⟩
      refine closed_of_use h.closed .stdin hopen ?_ fun fd' hne => ?_
      · simp [usesOf, Pump.onStdin, Pump.use, Pump.isDone]
      · cases fd' <;> simp_all [usesOf, Pump.onStdin, Pump.use, Pump.isDone]
  | bytes n =>
      have hn : n ≤ s.input.length - s.stdinBytes := hresult
      have hwritten : s.written ++ (s.input.drop s.stdinBytes).take n =
          s.input.take (s.stdinBytes + n) := by
        rw [h.fed.written, List.take_add]
      rcases onStdin_cases s n with ⟨hall, heq⟩ | ⟨hsome, heq⟩
      · rw [heq]
        refine ⟨⟨h.fed.input_eq, hwritten, hall.le, fun hfalse => nomatch hfalse⟩, h.out, h.err, ?_⟩
        refine closed_of_use h.closed .stdin hopen ?_ fun fd' hne => ?_
        · simp [usesOf, Pump.wrote, Pump.use, Pump.isDone]
        · cases fd' <;> simp_all [usesOf, Pump.wrote, Pump.use, Pump.isDone]
      · have hle : (s.wrote n).stdinBytes ≤ (s.wrote n).input.length := by
          show s.stdinBytes + n ≤ s.input.length
          omega
        rw [heq]
        refine ⟨⟨h.fed.input_eq, hwritten, hle, fun _ => lt_of_le_of_ne hle hsome⟩,
          h.out, h.err, ?_⟩
        refine closed_of_use h.closed .stdin hopen ?_ fun fd' hne => ?_
        · simp [usesOf, Pump.wrote, Pump.use, Pump.isDone, hopen]
        · cases fd' <;> simp_all [usesOf, Pump.wrote, Pump.use, Pump.isDone]

theorem Pumped.onStdout (h : Pumped child input s) (hopen : s.outDone = false)
    {result : ReadBytesResult} (hreads : ReadsOf child.out s.standardOutput.flatten result)
    (hstep : s.onStdout result = .ok t) : Pumped child input t := by
  cases result with
  | failed => cases hstep
  | bytes bs =>
      have hread := h.out.read hreads
      cases hempty : bs.isEmpty with
      | true =>
          simp only [Pump.onStdout, hempty, if_true, Except.ok.injEq] at hstep
          subst hstep
          rw [List.isEmpty_iff.mp hempty, List.append_nil] at hread
          refine ⟨⟨h.fed.input_eq, h.fed.written, h.fed.le, h.fed.open_lt⟩, hread, h.err, ?_⟩
          refine closed_of_use h.closed .stdout hopen ?_ fun fd' hne => ?_
          · simp [usesOf, Pump.use, Pump.isDone]
          · cases fd' <;> simp_all [usesOf, Pump.use, Pump.isDone]
      | false =>
          simp only [Pump.onStdout, hempty, Bool.false_eq_true, if_false, Except.ok.injEq]
            at hstep
          subst hstep
          refine ⟨⟨h.fed.input_eq, h.fed.written, h.fed.le, h.fed.open_lt⟩, ?_, h.err, ?_⟩
          · show Drained child.out (s.standardOutput ++ [bs]).flatten s.outDone
            rw [List.flatten_append, List.flatten_singleton, hopen, ← hempty]
            exact hread
          refine closed_of_use h.closed .stdout hopen ?_ fun fd' hne => ?_
          · simp [usesOf, Pump.use, Pump.isDone, hopen]
          · cases fd' <;> simp_all [usesOf, Pump.use, Pump.isDone]

theorem Pumped.onStderr (h : Pumped child input s) (hopen : s.errDone = false)
    {result : ReadBytesResult} (hreads : ReadsOf child.err s.standardError result)
    (hstep : s.onStderr result = .ok t) : Pumped child input t := by
  cases result with
  | failed => cases hstep
  | bytes bs =>
      have hread := h.err.read hreads
      cases hempty : bs.isEmpty with
      | true =>
          simp only [Pump.onStderr, hempty, if_true, Except.ok.injEq] at hstep
          subst hstep
          rw [List.isEmpty_iff.mp hempty, List.append_nil] at hread
          refine ⟨⟨h.fed.input_eq, h.fed.written, h.fed.le, h.fed.open_lt⟩, h.out, hread, ?_⟩
          refine closed_of_use h.closed .stderr hopen ?_ fun fd' hne => ?_
          · simp [usesOf, Pump.use, Pump.isDone]
          · cases fd' <;> simp_all [usesOf, Pump.use, Pump.isDone]
      | false =>
          simp only [Pump.onStderr, hempty, Bool.false_eq_true, if_false, Except.ok.injEq]
            at hstep
          subst hstep
          refine ⟨⟨h.fed.input_eq, h.fed.written, h.fed.le, h.fed.open_lt⟩, h.out, ?_, ?_⟩
          · show Drained child.err (s.standardError ++ bs) s.errDone
            rw [hopen, ← hempty]
            exact hread
          refine closed_of_use h.closed .stderr hopen ?_ fun fd' hne => ?_
          · simp [usesOf, Pump.use, Pump.isDone, hopen]
          · cases fd' <;> simp_all [usesOf, Pump.use, Pump.isDone]

/-! What a branch leaves to the next ones. -/

theorem onStdin_outputs (s : Pump) (result : WriteToResult) :
    (s.onStdin result).outDone = s.outDone ∧ (s.onStdin result).errDone = s.errDone ∧
      (s.onStdin result).standardOutput = s.standardOutput ∧
      (s.onStdin result).standardError = s.standardError := by
  cases result with
  | failed => exact ⟨rfl, rfl, rfl, rfl⟩
  | bytes n =>
      rcases onStdin_cases s n with ⟨-, heq⟩ | ⟨-, heq⟩
      · rw [heq]
        exact ⟨rfl, rfl, rfl, rfl⟩
      · rw [heq]
        exact ⟨rfl, rfl, rfl, rfl⟩

theorem onStdout_err {result : ReadBytesResult} (hstep : s.onStdout result = .ok t) :
    t.errDone = s.errDone ∧ t.standardError = s.standardError := by
  cases result with
  | failed => cases hstep
  | bytes bs =>
      simp only [Pump.onStdout] at hstep
      split_ifs at hstep
      · cases hstep
        exact ⟨rfl, rfl⟩
      · cases hstep
        exact ⟨rfl, rfl⟩

/-- A round goes through the branches of the open handles that have events. -/
theorem handle_cases {events : Ready} (h : s.handle events = .ok t) :
    ∃ u v,
      ((u = s ∧ ∀ result ∈ events.stdin, s.inDone = true) ∨
        ∃ result ∈ events.stdin, s.inDone = false ∧ u = s.onStdin result) ∧
      ((v = u ∧ ∀ result ∈ events.stdout, s.outDone = true) ∨
        ∃ result ∈ events.stdout, s.outDone = false ∧ u.onStdout result = .ok v) ∧
      ((t = v ∧ ∀ result ∈ events.stderr, s.errDone = true) ∨
        ∃ result ∈ events.stderr, s.errDone = false ∧ v.onStderr result = .ok t) := by
  rw [Pump.handle] at h
  obtain ⟨v, hv, ht⟩ := bind_eq_ok.mp h
  refine ⟨s.afterStdin events.stdin, v, ?_, ?_, ?_⟩
  · cases hevent : events.stdin with
    | none => exact .inl ⟨rfl, fun _ hnone => by cases hnone⟩
    | some result =>
        cases hdone : s.inDone with
        | true => exact .inl ⟨if_pos hdone, fun _ _ => rfl⟩
        | false => exact .inr ⟨result, rfl, rfl, if_neg (by simp [hdone])⟩
  · cases hevent : events.stdout with
    | none =>
        rw [hevent] at hv
        exact .inl ⟨(Except.ok.inj hv).symm, fun _ hnone => by cases hnone⟩
    | some result =>
        simp only [hevent] at hv
        cases hdone : s.outDone with
        | true =>
            rw [hdone, if_pos rfl] at hv
            exact .inl ⟨(Except.ok.inj hv).symm, fun _ _ => rfl⟩
        | false =>
            rw [hdone, if_neg (by simp)] at hv
            exact .inr ⟨result, rfl, rfl, hv⟩
  · cases hevent : events.stderr with
    | none =>
        rw [hevent] at ht
        exact .inl ⟨(Except.ok.inj ht).symm, fun _ hnone => by cases hnone⟩
    | some result =>
        simp only [hevent] at ht
        cases hdone : s.errDone with
        | true =>
            rw [hdone, if_pos rfl] at ht
            exact .inl ⟨(Except.ok.inj ht).symm, fun _ _ => rfl⟩
        | false =>
            rw [hdone, if_neg (by simp)] at ht
            exact .inr ⟨result, rfl, rfl, ht⟩

end Handles

/-! ## What is left to do -/

section Progress

variable {child : Child} {input : Bytes} {s t : Pump}

/-- Something is done in a round: a write to a full pipe does nothing. -/
def Productive : Round → Prop
  | .ready events =>
      (∃ result ∈ events.stdin, result ≠ .bytes 0) ∨ events.stdout ≠ none ∨ events.stderr ≠ none
  | _ => False

instance (round : Round) : Decidable (Productive round) := by
  cases round with
  | interrupted => exact instDecidableFalse
  | failed => exact instDecidableFalse
  | ready events => exact inferInstanceAs (Decidable (_ ∨ _))

def leftToWrite (s : Pump) : ℕ := (s.input.length - s.stdinBytes) + (!s.inDone).toNat

/-- The bytes of an output that were not read, and the end of it. -/
def leftToRead (output done : Bytes) (isDone : Bool) : ℕ :=
  (output.length - done.length) + (!isDone).toNat

def left (child : Child) (s : Pump) : ℕ :=
  leftToWrite s + leftToRead child.out s.standardOutput.flatten s.outDone +
    leftToRead child.err s.standardError s.errDone

theorem leftToRead_read {output done bs : Bytes} (h : Drained output done false)
    (hreads : ReadsOf output done (.bytes bs)) :
    leftToRead output (done ++ bs) bs.isEmpty < leftToRead output done false := by
  have hle := (h.read hreads).isPrefix.length_le
  rw [List.length_append] at hle
  cases bs with
  | nil => simp [leftToRead]
  | cons c bs =>
      simp only [leftToRead, List.length_append, List.length_cons, List.isEmpty_cons] at hle ⊢
      omega

theorem leftToWrite_onStdin (h : Fed input s) (hopen : s.inDone = false) {result : WriteToResult}
    (hresult : result.taken ≤ s.input.length - s.stdinBytes) :
    leftToWrite (s.onStdin result) ≤ leftToWrite s ∧
      (result ≠ .bytes 0 → leftToWrite (s.onStdin result) < leftToWrite s) := by
  have hlt := h.open_lt hopen
  cases result with
  | failed =>
      have hfewer : leftToWrite (s.onStdin .failed) < leftToWrite s := by
        simp [leftToWrite, Pump.onStdin, Pump.use, hopen]
      exact ⟨hfewer.le, fun _ => hfewer⟩
  | bytes n =>
      have hn : n ≤ s.input.length - s.stdinBytes := hresult
      have hfewer : leftToWrite (s.onStdin (.bytes n)) + n ≤ leftToWrite s := by
        rcases onStdin_cases s n with ⟨hall, heq⟩ | ⟨hsome, heq⟩
        · rw [heq]
          simp only [leftToWrite, Pump.use, Pump.wrote, hopen, Bool.not_true, Bool.not_false,
            Bool.toNat_false, Bool.toNat_true]
          omega
        · rw [heq]
          simp only [leftToWrite, Pump.use, Pump.wrote, hopen, Bool.not_false, Bool.toNat_true]
          omega
      refine ⟨by omega, fun hne => ?_⟩
      have hpos : 0 < n := Nat.pos_of_ne_zero fun hzero => hne (by rw [hzero])
      omega

theorem left_onStdin (h : Pumped child input s) (hopen : s.inDone = false)
    {result : WriteToResult}
    (hresult : result.taken ≤ s.input.length - s.stdinBytes) :
    left child (s.onStdin result) ≤ left child s ∧
      (result ≠ .bytes 0 → left child (s.onStdin result) < left child s) := by
  obtain ⟨hout, herr, houtput, herror⟩ := onStdin_outputs s result
  obtain ⟨hle, hlt⟩ := leftToWrite_onStdin h.fed hopen hresult
  simp only [left, hout, herr, houtput, herror]
  exact ⟨by omega, fun hne => by have := hlt hne; omega⟩

theorem left_onStdout (h : Pumped child input s) (hopen : s.outDone = false)
    {result : ReadBytesResult} (hreads : ReadsOf child.out s.standardOutput.flatten result)
    (hstep : s.onStdout result = .ok t) : left child t < left child s := by
  cases result with
  | failed => cases hstep
  | bytes bs =>
      have hlt := leftToRead_read (hopen ▸ h.out) hreads
      cases hempty : bs.isEmpty with
      | true =>
          simp only [Pump.onStdout, hempty, if_true, Except.ok.injEq] at hstep
          subst hstep
          rw [hempty, List.isEmpty_iff.mp hempty, List.append_nil] at hlt
          simp only [left, leftToWrite, Pump.use, hopen]
          omega
      | false =>
          simp only [Pump.onStdout, hempty, Bool.false_eq_true, if_false, Except.ok.injEq]
            at hstep
          subst hstep
          rw [hempty] at hlt
          simp only [left, leftToWrite, Pump.use, hopen, List.flatten_append,
            List.flatten_singleton]
          omega

theorem left_onStderr (h : Pumped child input s) (hopen : s.errDone = false)
    {result : ReadBytesResult} (hreads : ReadsOf child.err s.standardError result)
    (hstep : s.onStderr result = .ok t) : left child t < left child s := by
  cases result with
  | failed => cases hstep
  | bytes bs =>
      have hlt := leftToRead_read (hopen ▸ h.err) hreads
      cases hempty : bs.isEmpty with
      | true =>
          simp only [Pump.onStderr, hempty, if_true, Except.ok.injEq] at hstep
          subst hstep
          rw [hempty, List.isEmpty_iff.mp hempty, List.append_nil] at hlt
          simp only [left, leftToWrite, Pump.use, hopen]
          omega
      | false =>
          simp only [Pump.onStderr, hempty, Bool.false_eq_true, if_false, Except.ok.injEq]
            at hstep
          subst hstep
          rw [hempty] at hlt
          simp only [left, leftToWrite, Pump.use, hopen]
          omega

/-- An honest round keeps the invariant, and there is less left to do if it does anything. -/
theorem Pumped.step (h : Pumped child input s) {round : Round} (hhonest : Honest child s round)
    (hstep : Step s round t) :
    Pumped child input t ∧ left child t ≤ left child s ∧
      (Productive round → left child t < left child s) := by
  have hnext := hstep.2
  cases round with
  | interrupted =>
      cases hnext
      exact ⟨h, le_refl _, False.elim⟩
  | failed => cases hnext
  | ready events =>
      obtain ⟨hstdin, hstdout, hstderr⟩ := hhonest
      obtain ⟨u, v, hu, hv, ht⟩ := handle_cases hnext
      have hfirst : Pumped child input u ∧ u.outDone = s.outDone ∧ u.errDone = s.errDone ∧
          u.standardOutput = s.standardOutput ∧ u.standardError = s.standardError ∧
          left child u ≤ left child s ∧
          ((∃ result ∈ events.stdin, result ≠ .bytes 0) → left child u < left child s) := by
        rcases hu with ⟨rfl, hdone⟩ | ⟨result, hevent, hopen, rfl⟩
        · refine ⟨h, rfl, rfl, rfl, rfl, le_refl _, ?_⟩
          rintro ⟨result, hevent, -⟩
          exact Bool.noConfusion ((hdone result hevent).symm.trans (hstdin result hevent).1)
        · obtain ⟨hout, herr, houtput, herror⟩ := onStdin_outputs s result
          obtain ⟨hle, hlt⟩ := left_onStdin h hopen (hstdin result hevent).2
          refine ⟨h.onStdin hopen (hstdin result hevent).2, hout, herr, houtput, herror, hle, ?_⟩
          rintro ⟨result', hevent', hne⟩
          cases Option.mem_unique hevent hevent'
          exact hlt hne
      obtain ⟨hu, houtDone, herrDone, houtput, herror, hleu, hltu⟩ := hfirst
      have hsecond : Pumped child input v ∧ v.errDone = s.errDone ∧
          v.standardError = s.standardError ∧ left child v ≤ left child u ∧
          (events.stdout ≠ none → left child v < left child u) := by
        rcases hv with ⟨rfl, hdone⟩ | ⟨result, hevent, hopen, hv⟩
        · refine ⟨hu, herrDone, herror, le_refl _, fun hsome => ?_⟩
          obtain ⟨result, hevent⟩ := Option.ne_none_iff_exists'.mp hsome
          exact Bool.noConfusion ((hdone result hevent).symm.trans (hstdout result hevent).1)
        · obtain ⟨hdone, hsame⟩ := onStdout_err hv
          have hreads := houtput ▸ (hstdout result hevent).2
          have hlt := left_onStdout hu (houtDone.trans hopen) hreads hv
          exact ⟨hu.onStdout (houtDone.trans hopen) hreads hv, hdone.trans herrDone,
            hsame.trans herror, hlt.le, fun _ => hlt⟩
      obtain ⟨hv, herrDone, herror, hlev, hltv⟩ := hsecond
      have hthird : Pumped child input t ∧ left child t ≤ left child v ∧
          (events.stderr ≠ none → left child t < left child v) := by
        rcases ht with ⟨rfl, hdone⟩ | ⟨result, hevent, hopen, ht⟩
        · refine ⟨hv, le_refl _, fun hsome => ?_⟩
          obtain ⟨result, hevent⟩ := Option.ne_none_iff_exists'.mp hsome
          exact Bool.noConfusion ((hdone result hevent).symm.trans (hstderr result hevent).1)
        · have hreads := herror ▸ (hstderr result hevent).2
          have hlt := left_onStderr hv (herrDone.trans hopen) hreads ht
          exact ⟨hv.onStderr (herrDone.trans hopen) hreads ht, hlt.le, fun _ => hlt⟩
      obtain ⟨ht, hlet, hltt⟩ := hthird
      refine ⟨ht, by omega, ?_⟩
      rintro (hsome | hsome | hsome)
      · have := hltu hsome
        omega
      · have := hltv hsome
        omega
      · have := hltt hsome
        omega

end Progress

/-! ## The runs of the loop -/

section Loop

variable {child : Child} {input : Bytes} {rounds : List Round} {t : Pump}

theorem Pumped.run (run : Lib.Run (Guarded Step (Honest child)) (.start input) rounds t) :
    Pumped child input t :=
  run.invariant (I := Pumped child input) (fun _ _ _ h hstep => (h.step hstep.2 hstep.1).1)
    (pumped_start child input)

theorem left_start (child : Child) (input : Bytes) :
    left child (.start input) ≤ input.length + child.out.length + child.err.length + 3 := by
  have hopen : (!input.isEmpty).toNat ≤ 1 := Bool.toNat_le _
  simp only [left, leftToWrite, leftToRead, Pump.start, List.flatten_nil, List.length_nil,
    Bool.not_false, Bool.toNat_true]
  omega

theorem productive_add_left
    (run : Lib.Run (Guarded Step (Honest child)) (.start input) rounds t) :
    rounds.countP (fun round => Productive round) + left child t ≤ left child (.start input) := by
  have hinvariant : Pumped child input t ∧
      rounds.countP (fun round => Productive round) + left child t ≤ left child (.start input) := by
    refine run.invariant_labels (I := fun rounds t => Pumped child input t ∧
      rounds.countP (fun round => Productive round) + left child t ≤ left child (.start input))
      ⟨pumped_start child input, by simp⟩ ?_
    rintro rounds s round t ⟨hpumped, hcount⟩ hstep
    obtain ⟨ht, hle, hlt⟩ := hpumped.step hstep.2 hstep.1
    refine ⟨ht, ?_⟩
    rw [List.countP_append, List.countP_singleton]
    by_cases hproductive : Productive round
    · have := hlt hproductive
      rw [if_pos (decide_eq_true hproductive)]
      omega
    · rw [if_neg (by simpa using hproductive)]
      omega
  exact hinvariant.2

theorem done_of_not_running (h : t.running = false) (fd : Fd) : t.isDone fd = true := by
  simp only [Pump.running, Bool.or_eq_false_iff, Bool.not_eq_false'] at h
  cases fd with
  | stdin => exact h.1.1
  | stdout => exact h.1.2
  | stderr => exact h.2

end Loop

end Command

/-- However the pipes cut up what the preprocessor writes, once the loop ends the digest is that
of the whole output, the compressed source holds all of it, every message for the user was read,
the child got its input up to where it may have closed its end, and each handle was closed once,
by its last use. -/
theorem rewritten_of_pumped (z : Zstd) (b : Blake3) (cacheControl : CacheControl)
    (child : Command.Child) (input : Bytes) (rounds : List Command.Round) (t : Command.Pump)
    (run : Lib.Run (Guarded Command.Step (Command.Honest child)) (.start input) rounds t)
    (hend : t.running = false) :
    (∃ zstdRewritten,
      tryRewriteThroughStreams z b ⟨0, t.standardOutput⟩ cacheControl =
          some (zstdRewritten, cacheControl,
            digestUnlessDisallowed b.toHash cacheControl child.out) ∧
        z.decompress zstdRewritten = some child.out) ∧
      t.standardError = child.err ∧
      t.written <+: input ∧
      ∀ fd, ∃ k, Command.usesOf t fd = List.replicate k .io ++ [.close] := by
  have hpumped := Command.Pumped.run run
  have hdone := Command.done_of_not_running hend
  have hout := hpumped.out.whole (hdone .stdout)
  refine ⟨⟨z.compress t.standardOutput, ?_, ?_⟩, hpumped.err.whole (hdone .stderr), ?_, ?_⟩
  · rcases tryRewriteThroughStreams_cases (z := z) (b := b) ⟨0, t.standardOutput⟩ cacheControl with
      ⟨-, heq⟩ | ⟨hnonzero, -⟩
    · rw [heq, hout]
    · exact absurd rfl hnonzero
  · rw [z.decompress_compress, hout]
  · rw [hpumped.fed.written, hpumped.fed.input_eq]
    exact List.take_prefix _ _
  · intro fd
    obtain ⟨k, hk⟩ := hpumped.closed fd
    exact ⟨k, by rw [hk, hdone fd, if_pos rfl]⟩

namespace Command

/-- A preprocessor that warns. -/
def sampleChild : Child := ⟨asciiBytes "int x;\n", asciiBytes "w"⟩

/-- The output arrives in two pieces, and the input is written with the first. -/
def sampleRounds : List Round :=
  [.ready ⟨some (.bytes 1), some (.bytes (asciiBytes "int ")), none⟩, .interrupted,
    .ready ⟨none, some (.bytes (asciiBytes "x;\n")), some (.bytes (asciiBytes "w"))⟩,
    .ready ⟨none, some (.bytes []), some (.bytes [])⟩]

def sampleEnd : Pump where
  input := asciiBytes "i"
  stdinBytes := 1
  inDone := true
  outDone := true
  errDone := true
  written := asciiBytes "i"
  standardOutput := [asciiBytes "int ", asciiBytes "x;\n"]
  standardError := asciiBytes "w"
  uses := [(.stdin, .io), (.stdin, .close), (.stdout, .io), (.stdout, .io), (.stderr, .io),
    (.stdout, .io), (.stdout, .close), (.stderr, .io), (.stderr, .close)]

theorem sampleRun :
    Lib.Run (Guarded Step (Honest sampleChild)) (.start (asciiBytes "i")) sampleRounds
      sampleEnd := by
  refine .cons ⟨⟨rfl, rfl⟩, ?_⟩ (.cons ⟨⟨rfl, rfl⟩, trivial⟩
    (.cons ⟨⟨rfl, rfl⟩, ?_⟩ (.cons ⟨⟨rfl, rfl⟩, ?_⟩ (.nil _))))
  all_goals
    show (_ ∧ _ ∧ _)
    decide

end Command

/-- The two pieces are one source. -/
theorem rewritten_of_pumped_sample :
    (∃ zstdRewritten,
      tryRewriteThroughStreams StoredZstd.zstd RewriteSample.blake3
          ⟨0, [asciiBytes "int ", asciiBytes "x;\n"]⟩ .allow =
          some (zstdRewritten, .allow, RewriteSample.hash.hex (asciiBytes "int x;\n")) ∧
        StoredZstd.zstd.decompress zstdRewritten = some (asciiBytes "int x;\n")) ∧
      Command.sampleEnd.standardError = asciiBytes "w" ∧
      asciiBytes "i" <+: asciiBytes "i" ∧
      ∀ fd, ∃ k, Command.usesOf Command.sampleEnd fd = List.replicate k .io ++ [.close] :=
  rewritten_of_pumped StoredZstd.zstd RewriteSample.blake3 .allow Command.sampleChild
    (asciiBytes "i") Command.sampleRounds Command.sampleEnd Command.sampleRun rfl

end Yadcc.Client
