/-
# The runs of the preprocessor

`RewriteFile` runs the preprocessor once or twice, each time with fresh streams behind its
output. Its runs are kept here, so that the result can be compared with the run it is made
from.
-/

import Yadcc.Client.OutputStream
import Yadcc.Client.RewriteFile

namespace Yadcc.Client

open Yadcc.Lib
open Yadcc.Lib.Shell (asciiBytes)

/-! ## The runs -/

/-- A command that was run, and what came of it. -/
structure Run where
  command : RewrittenArgs
  execution : Execution

section Runs

variable (z : Zstd) (b : Blake3)

/-- The streams before a run. -/
def freshStreams (cacheControl : CacheControl) : OutputStreams z b where
  zstd := .new z
  cacheParams := if cacheControl = .disallow then none else some b.hasherInit

/-- The streams take what the command writes; their contents count if it succeeds. -/
def tryRewriteThroughStreams (execution : Execution) (cacheControl : CacheControl) :
    Option (Bytes × CacheControl × Bytes) :=
  let output := execution.writes.foldl OutputStreams.write (freshStreams z b cacheControl)
  if execution.exitCode = 0 then
    let sourceDigest :=
      match output.cacheParams with
      | some state => hexBytes (b.hasherFinalize state)
      | none => []
    some (output.zstd.flushAndGet, cacheControl, sourceDigest)
  else none

/-- `RewriteFile` with the runs it makes. -/
def rewriteFileRuns (execute : RewrittenArgs → Execution) (cacheControl : CacheControl)
    (args : CompilerArgs) : Option (Option RewriteResult × List Run) := do
  match ← determineProgramLanguage args with
  | none => some (none, [])
  | some language =>
      match args.filenames with
      | [sourcePath] =>
          let result (rewritten : Bytes × CacheControl × Bytes) : RewriteResult :=
            { language
              sourcePath
              directivesOnly := true
              cacheControl := rewritten.2.1
              zstdRewritten := rewritten.1
              sourceDigest := rewritten.2.2 }
          let first : Run := ⟨directivesOnlyCommand args, execute (directivesOnlyCommand args)⟩
          match tryRewriteThroughStreams z b first.execution cacheControl with
          | some rewritten => some (some (result rewritten), [first])
          | none =>
              let second : Run := ⟨preprocessCommand args, execute (preprocessCommand args)⟩
              some ((tryRewriteThroughStreams z b second.execution cacheControl).map result,
                [first, second])
      | _ => none

end Runs

/-- The words that the servant's compiler gets. -/
def submittedArgs (args : CompilerArgs) (rewrittenSource : RewriteResult) : RewrittenArgs :=
  args.rewrite (kIgnoredArgs.map asciiBytes) (kIgnoredArgPrefixes.map asciiBytes)
    [asciiBytes "-fpreprocessed",
      if rewrittenSource.directivesOnly then asciiBytes "-fdirectives-only" else [],
      asciiBytes "-x", rewrittenSource.language, asciiBytes "-"] false

/-! ## The streams are the functions they compute -/

section Streams

variable {z : Zstd} {b : Blake3}

theorem tryRewriteThroughStreams_eq (execution : Execution) (cacheControl : CacheControl) :
    tryRewriteThroughStreams z b execution cacheControl =
      tryRewriteFileWithCommandLine b.toHash z.compress execution cacheControl := by
  rw [tryRewriteThroughStreams, OutputStreams.foldl_write, tryRewriteFileWithCommandLine]
  split
  · cases cacheControl with
    | disallow => rfl
    | allow | refill =>
        simp [freshStreams, b.finalize_update, Hash.hex, Zstd.compress]
  · rfl

/-- The result that comes of a run that succeeds. -/
def resultOf (z : Zstd) (b : Blake3) (language sourcePath : Bytes) (cacheControl : CacheControl)
    (execution : Execution) : RewriteResult where
  language := language
  sourcePath := sourcePath
  directivesOnly := true
  cacheControl := cacheControl
  zstdRewritten := z.compress execution.writes
  sourceDigest := digestUnlessDisallowed b.toHash cacheControl execution.writes.flatten

/-- A run gives its result if it succeeds. -/
theorem tryRewriteThroughStreams_cases (execution : Execution) (cacheControl : CacheControl) :
    (execution.exitCode = 0 ∧ tryRewriteThroughStreams z b execution cacheControl =
      some (z.compress execution.writes, cacheControl,
        digestUnlessDisallowed b.toHash cacheControl execution.writes.flatten)) ∨
    (execution.exitCode ≠ 0 ∧ tryRewriteThroughStreams z b execution cacheControl = none) := by
  rw [tryRewriteThroughStreams_eq]
  rcases tryRewriteFileWithCommandLine_cases b.toHash z.compress execution cacheControl with
    ⟨hzero, -, heq⟩ | ⟨hzero, -, heq⟩
  · exact .inl ⟨hzero, heq⟩
  · exact .inr ⟨hzero, heq⟩

variable {execute : RewrittenArgs → Execution} {cacheControl : CacheControl} {args : CompilerArgs}
  {result : Option RewriteResult} {runs : List Run}

/-- There is no run without a language. Otherwise there is a second run if the first fails, and
the result is that of the last run. -/
theorem rewriteFileRuns_cases
    (h : rewriteFileRuns z b execute cacheControl args = some (result, runs)) :
    (determineProgramLanguage args = some none ∧ result = none ∧ runs = []) ∨
    ∃ language sourcePath, determineProgramLanguage args = some (some language) ∧
      args.filenames = [sourcePath] ∧
      (((execute (directivesOnlyCommand args)).exitCode = 0 ∧
          result = some (resultOf z b language sourcePath cacheControl
            (execute (directivesOnlyCommand args))) ∧
          runs = [⟨directivesOnlyCommand args, execute (directivesOnlyCommand args)⟩]) ∨
        ((execute (directivesOnlyCommand args)).exitCode ≠ 0 ∧
          runs = [⟨directivesOnlyCommand args, execute (directivesOnlyCommand args)⟩,
            ⟨preprocessCommand args, execute (preprocessCommand args)⟩] ∧
          (((execute (preprocessCommand args)).exitCode = 0 ∧
              result = some (resultOf z b language sourcePath cacheControl
                (execute (preprocessCommand args)))) ∨
            ((execute (preprocessCommand args)).exitCode ≠ 0 ∧ result = none)))) := by
  obtain ⟨language, hlanguage, h⟩ := Option.bind_eq_some_iff.mp h
  cases language with
  | none =>
      cases h
      exact .inl ⟨hlanguage, rfl, rfl⟩
  | some language =>
      simp only at h
      split at h
      · next sourcePath hfilenames =>
          refine .inr ⟨language, sourcePath, hlanguage, hfilenames, ?_⟩
          rcases tryRewriteThroughStreams_cases (z := z) (b := b)
              (execute (directivesOnlyCommand args)) cacheControl with
            ⟨hfirst, hrewritten⟩ | ⟨hfirst, hrewritten⟩
          · rw [hrewritten] at h
            cases h
            exact .inl ⟨hfirst, rfl, rfl⟩
          · rw [hrewritten] at h
            rcases tryRewriteThroughStreams_cases (z := z) (b := b)
                (execute (preprocessCommand args)) cacheControl with
              ⟨hsecond, hrewritten⟩ | ⟨hsecond, hrewritten⟩
            · rw [hrewritten] at h
              cases h
              exact .inr ⟨hfirst, rfl, .inl ⟨hsecond, rfl⟩⟩
            · rw [hrewritten] at h
              cases h
              exact .inr ⟨hfirst, rfl, .inr ⟨hsecond, rfl⟩⟩
      · cases h

/-- With a language and one file name the preprocessor is run. -/
theorem exists_rewriteFileRuns (execute : RewrittenArgs → Execution) (cacheControl : CacheControl)
    {language sourcePath : Bytes} (hlanguage : determineProgramLanguage args = some (some language))
    (hfilenames : args.filenames = [sourcePath]) :
    ∃ result runs, rewriteFileRuns z b execute cacheControl args = some (result, runs) := by
  rw [rewriteFileRuns, hlanguage, Option.bind_eq_bind, Option.bind_some]
  simp only [hfilenames]
  split
  · exact ⟨_, _, rfl⟩
  · exact ⟨_, _, rfl⟩

/-- Without its runs it is the function that the other modules use. -/
theorem rewriteFileRuns_fst (execute : RewrittenArgs → Execution) (cacheControl : CacheControl)
    (args : CompilerArgs) :
    (rewriteFileRuns z b execute cacheControl args).map Prod.fst =
      rewriteFile b.toHash z.compress execute cacheControl args := by
  rw [rewriteFileRuns, rewriteFile]
  cases determineProgramLanguage args with
  | none => rfl
  | some language =>
      rw [Option.bind_eq_bind, Option.bind_some, Option.bind_eq_bind, Option.bind_some]
      cases language with
      | none => rfl
      | some language =>
          simp only [tryRewriteThroughStreams_eq]
          cases args.filenames with
          | nil => rfl
          | cons sourcePath others =>
              cases others with
              | cons other others => rfl
              | nil =>
                  dsimp only
                  cases tryRewriteFileWithCommandLine b.toHash z.compress
                      (execute (directivesOnlyCommand args)) cacheControl with
                  | none => rfl
                  | some rewritten => rfl

end Streams

/-! ## What a result says about its run -/

section Faithful

variable (z : Zstd) (b : Blake3)

/-- The option that keeps the directives. -/
def directivesOnlyFlag : Bytes := asciiBytes "-fdirectives-only"

/-- A result is what its run wrote, and says whether the run was to keep the directives, as do
the arguments that are submitted for it. -/
structure Matches (cacheControl : CacheControl) (args : CompilerArgs) (r : RewriteResult)
    (run : Run) : Prop where
  payload : z.decompress r.zstdRewritten = some run.execution.writes.flatten
  digest : cacheControl ≠ .disallow → r.sourceDigest = b.hex run.execution.writes.flatten
  mode : r.directivesOnly = true ↔ directivesOnlyFlag ∈ run.command.args
  flags : directivesOnlyFlag ∈ (submittedArgs args r).args ↔
    directivesOnlyFlag ∈ run.command.args

/-- There is a result exactly if a run succeeds, and it is that of the first one that does. -/
def RewritesFaithfully (execute : RewrittenArgs → Execution) (cacheControl : CacheControl)
    (args : CompilerArgs) : Prop :=
  ∀ result runs, rewriteFileRuns z b execute cacheControl args = some (result, runs) →
    (result.isSome = true ↔ ∃ run ∈ runs, run.execution.exitCode = 0) ∧
    ∀ r, result = some r →
      ∃ run, (runs.find? fun run => run.execution.exitCode = 0) = some run ∧
        Matches z b cacheControl args r run

end Faithful

/-- The user's own arguments keep the directives in either run. -/
def KeepsDirectives (args : CompilerArgs) : Prop :=
  (∃ e ∈ args.args, e.1 ∉ ["-c", "-o", "-fworking-directory"].map asciiBytes ∧
    directivesOnlyFlag ∈ e.1 :: e.2) ∨ directivesOnlyFlag ∈ args.filenames

section Directives

variable {z : Zstd} {b : Blake3} {args : CompilerArgs}

theorem flag_mem_directivesOnlyCommand (args : CompilerArgs) :
    directivesOnlyFlag ∈ (directivesOnlyCommand args).args := by
  rw [directivesOnlyCommand, CompilerArgs.rewrite, List.mem_append, List.mem_append]
  exact .inl (.inr (by decide))

theorem flag_mem_preprocessCommand (args : CompilerArgs) :
    directivesOnlyFlag ∈ (preprocessCommand args).args ↔ KeepsDirectives args := by
  have hadded : directivesOnlyFlag ∉ ["-fno-working-directory", "-E"].map asciiBytes := by decide
  rw [preprocessCommand, CompilerArgs.rewrite, List.mem_append, List.mem_append,
    or_iff_left hadded, KeepsDirectives]
  refine or_congr ?_ (by simp)
  simp [List.mem_flatMap, and_assoc]

/-- Whatever the run, the result says that the directives were kept, and so do the submitted
arguments. -/
theorem matches_resultOf_iff (language sourcePath : Bytes) (cacheControl : CacheControl)
    (run : Run) :
    Matches z b cacheControl args (resultOf z b language sourcePath cacheControl run.execution)
        run ↔ directivesOnlyFlag ∈ run.command.args := by
  constructor
  · intro h
    exact h.mode.mp rfl
  · intro hflag
    refine ⟨z.decompress_compress _, ?_, iff_of_true rfl hflag, iff_of_true ?_ hflag⟩
    · intro hcontrol
      exact if_neg hcontrol
    · rw [submittedArgs, CompilerArgs.rewrite, List.mem_append, List.mem_append]
      exact .inl (.inr (by simp [resultOf, directivesOnlyFlag]))

/-- A right result of the second run has the user's arguments to thank for it. -/
theorem keepsDirectives_of_faithful {execute : RewrittenArgs → Execution}
    {cacheControl : CacheControl} {language : Bytes}
    (hfaithful : RewritesFaithfully z b execute cacheControl args)
    (hlanguage : determineProgramLanguage args = some (some language))
    (hlength : args.filenames.length = 1)
    (hfirst : (execute (directivesOnlyCommand args)).exitCode ≠ 0)
    (hsecond : (execute (preprocessCommand args)).exitCode = 0) : KeepsDirectives args := by
  obtain ⟨sourcePath, hfilenames⟩ := List.length_eq_one_iff.mp hlength
  obtain ⟨result, runs, h⟩ := exists_rewriteFileRuns (z := z) (b := b) execute cacheControl
    hlanguage hfilenames
  obtain ⟨-, hmatches⟩ := hfaithful result runs h
  rcases rewriteFileRuns_cases h with ⟨hnone, -⟩ |
    ⟨language, sourcePath, -, -, ⟨hzero, -⟩ | ⟨-, rfl, ⟨-, rfl⟩ | ⟨hnonzero, -⟩⟩⟩
  · rw [hlanguage] at hnone
    cases hnone
  · exact absurd hzero hfirst
  · obtain ⟨run, hrun, hmatches⟩ := hmatches _ rfl
    rw [List.find?_cons_of_neg (by simp [hfirst]), List.find?_cons_of_pos (by simp [hsecond])]
      at hrun
    cases hrun
    exact (flag_mem_preprocessCommand args).mp (hmatches.mode.mp rfl)
  · exact absurd hsecond hnonzero

/-- The result is right about its run unless it comes from the second one and nothing in the
user's arguments keeps the directives. -/
theorem rewritesFaithfully_iff (execute : RewrittenArgs → Execution)
    (cacheControl : CacheControl) (args : CompilerArgs) :
    RewritesFaithfully z b execute cacheControl args ↔
      ((∃ language, determineProgramLanguage args = some (some language)) →
        args.filenames.length = 1 → (execute (directivesOnlyCommand args)).exitCode ≠ 0 →
        (execute (preprocessCommand args)).exitCode = 0 → KeepsDirectives args) := by
  constructor
  · rintro hfaithful ⟨language, hlanguage⟩ hlength hfirst hsecond
    exact keepsDirectives_of_faithful hfaithful hlanguage hlength hfirst hsecond
  · intro hkeeps result runs h
    rcases rewriteFileRuns_cases h with ⟨-, rfl, rfl⟩ |
      ⟨language, sourcePath, hlanguage, hfilenames, ⟨hfirst, rfl, rfl⟩ | ⟨hfirst, rfl, hsecond⟩⟩
    · exact ⟨by simp, nofun⟩
    · refine ⟨by simp [hfirst], ?_⟩
      rintro r ⟨⟩
      refine ⟨_, List.find?_cons_of_pos (by simp [hfirst]), ?_⟩
      exact (matches_resultOf_iff _ _ _ ⟨_, _⟩).mpr (flag_mem_directivesOnlyCommand args)
    · rcases hsecond with ⟨hsecond, rfl⟩ | ⟨hsecond, rfl⟩
      · refine ⟨by simp [hsecond], ?_⟩
        rintro r ⟨⟩
        refine ⟨_, ?_, (matches_resultOf_iff _ _ _ ⟨preprocessCommand args, _⟩).mpr ?_⟩
        · rw [List.find?_cons_of_neg (by simp [hfirst]), List.find?_cons_of_pos (by simp [hsecond])]
        · apply (flag_mem_preprocessCommand args).mpr
          exact hkeeps ⟨language, hlanguage⟩ (by rw [hfilenames]; rfl) hfirst hsecond
      · exact ⟨by simp [hfirst, hsecond], nofun⟩

end Directives

/-! ## A compressor that stores -/

namespace StoredZstd

/-- The compressor holds its input back until the frame is ended, and then the rest of the
frame. -/
inductive Ctx
  | buffering (held : Bytes)
  | ending (rest : Bytes)

/-- A frame of one block that is stored as it is. -/
def frame (src : Bytes) : Bytes :=
  [0x28, 0xb5, 0x2f, 0xfd, 0x00, 0x48] ++
    [UInt8.ofNat (8 * src.length + 1), UInt8.ofNat (src.length / 32),
      UInt8.ofNat (src.length / 8192)] ++ src

def put (rest : Bytes) (room taken : ℕ) : ZstdCall Ctx where
  ctx := .ending (rest.drop room)
  produced := rest.take room
  consumed := taken
  result := (rest.drop room).length

def api : ZstdApi where
  Ctx := Ctx
  initCStream := .buffering []
  compressStream2 ctx directive room src :=
    match ctx, directive with
    | .buffering held, .eContinue => ⟨.buffering (held ++ src), [], src.length, 0⟩
    | .buffering held, .eEnd => put (frame (held ++ src)) room src.length
    | .ending rest, .eContinue => ⟨.ending rest, [], src.length, 0⟩
    | .ending rest, .eEnd => put rest room src.length
  decompress src := some (src.drop 9)

/-- What is held back is the input, or what is missing of its frame. -/
theorem session {ending : Bool} {ctx : api.Ctx} {output taken : Bytes}
    (h : api.Session ending ctx output taken) :
    (ctx = Ctx.buffering taken ∧ output = []) ∨
      (ending = true ∧ ∃ rest, ctx = Ctx.ending rest ∧ output ++ rest = frame taken) := by
  induction h with
  | init => exact .inl ⟨rfl, rfl⟩
  | @input _ _ taken room src h ih =>
      rcases ih with ⟨rfl, rfl⟩ | ⟨hending, -⟩
      · refine .inl ⟨?_, rfl⟩
        change Ctx.buffering (taken ++ src) = .buffering (taken ++ src.take src.length)
        rw [List.take_length]
      · cases hending
  | @flush _ _ _ taken room h ih =>
      rcases ih with ⟨rfl, rfl⟩ | ⟨-, rest, rfl, hrest⟩
      · refine .inr ⟨rfl, _, rfl, ?_⟩
        change [] ++ (frame (taken ++ [])).take room ++ (frame (taken ++ [])).drop room = _
        rw [List.nil_append, List.take_append_drop, List.append_nil]
      · refine .inr ⟨rfl, _, rfl, ?_⟩
        change _ ++ rest.take room ++ rest.drop room = _
        rw [List.append_assoc, List.take_append_drop, hrest]

def zstd : Zstd where
  toZstdApi := api
  pending
    | .buffering held => (frame held).length
    | .ending rest => rest.length
  produced_le := by
    rintro (held | rest) (_ | _) room src
    all_goals simp [api, put]
  consumed_le := by
    rintro (held | rest) (_ | _) room src
    all_goals simp [api, put]
  pending_le := by
    rintro (held | rest) (_ | _) room src hconsumed
    all_goals
      have hsrc : src = [] := List.eq_nil_of_length_eq_zero hconsumed
      subst hsrc
      simp [api, put]
    all_goals omega
  input_progress := by
    rintro (held | rest) room src - hsrc
    all_goals exact .inl (List.length_pos_iff.mpr hsrc)
  flush_progress := by
    rintro (held | rest) room hroom hresult
    all_goals
      simp only [api, put, List.length_take, List.length_drop] at hresult ⊢
      omega
  decompress_frame := by
    intro ending ctx output taken room h hresult
    have hend := session (h.flush room)
    rcases hend with ⟨hctx, -⟩ | ⟨-, rest, hctx, hrest⟩
    · cases ctx <;> cases hctx
    · have hdrop : rest = [] := by
        cases ctx with
        | buffering held =>
            cases hctx
            exact List.eq_nil_of_length_eq_zero hresult
        | ending rest =>
            cases hctx
            exact List.eq_nil_of_length_eq_zero hresult
      rw [hdrop, List.append_nil] at hrest
      change some (List.drop 9 _) = _
      rw [hrest]
      rfl

end StoredZstd

namespace RewriteSample

/-- BLAKE3 of `int x;` with its newline, and of nothing. -/
def hash : Hash 32 where
  digest text :=
    if text = asciiBytes "int x;\n" then
      [0x08, 0x3a, 0xa9, 0x68, 0xc0, 0xa8, 0x98, 0xc4, 0xc1, 0x06, 0xb0, 0xc8, 0x99, 0x91, 0xb1,
        0x7e, 0x5c, 0x03, 0x5e, 0x5c, 0xc0, 0x40, 0xe2, 0xb1, 0x80, 0xc2, 0xd7, 0x14, 0x9f, 0x95,
        0x61, 0xdf]
    else
      [0xaf, 0x13, 0x49, 0xb9, 0xf5, 0xf9, 0xa1, 0xa6, 0xa0, 0x40, 0x4d, 0xea, 0x36, 0xdc, 0xc9,
        0x49, 0x9b, 0xcb, 0x25, 0xc9, 0xad, 0xc1, 0x12, 0xb7, 0xcc, 0x9a, 0x93, 0xca, 0xe4, 0x1f,
        0x32, 0x62]
  length_digest := by
    intro text
    split_ifs
    · rfl
    · rfl

/-- The state is what was hashed so far. -/
def blake3 : Blake3 where
  toHash := hash
  State := Bytes
  hasherInit := []
  hasherUpdate state data := state ++ data
  hasherFinalize := hash.digest
  finalize_update writes := by
    rw [List.foldl_append_eq_append, List.map_id', List.nil_append]

/-- `g++ -c a.cc`. -/
def args : CompilerArgs :=
  ⟨asciiBytes "/usr/bin/g++", [(asciiBytes "-c", [])], [asciiBytes "a.cc"]⟩

/-- A compiler that cannot keep the directives. -/
def fallback (command : RewrittenArgs) : Execution :=
  if directivesOnlyFlag ∈ command.args then ⟨1, []⟩ else ⟨0, [asciiBytes "int x;\n"]⟩

theorem fallback_first : (fallback (directivesOnlyCommand args)).exitCode ≠ 0 := by
  rw [fallback, if_pos (flag_mem_directivesOnlyCommand args)]
  decide

theorem fallback_second : (fallback (preprocessCommand args)).exitCode = 0 := by
  have hplain : directivesOnlyFlag ∉ (preprocessCommand args).args := by decide
  rw [fallback, if_neg hplain]

end RewriteSample

/-- A run that succeeds at once is reported as it is. -/
theorem rewritesFaithfully_first :
    RewritesFaithfully StoredZstd.zstd RewriteSample.blake3
      (fun _ => ⟨0, [asciiBytes "int x;\n"]⟩) .allow RewriteSample.args :=
  (rewritesFaithfully_iff _ _ _).mpr fun _ _ hfirst => absurd rfl hfirst

/-- The fallback reports that it kept the directives. -/
theorem stale_mode_of_fallback :
    ¬RewritesFaithfully StoredZstd.zstd RewriteSample.blake3 RewriteSample.fallback .allow
      RewriteSample.args := by
  intro h
  have hlanguage : determineProgramLanguage RewriteSample.args = some (some (asciiBytes "c++")) :=
    rfl
  have hkeeps := keepsDirectives_of_faithful h hlanguage rfl RewriteSample.fallback_first
    RewriteSample.fallback_second
  rw [← flag_mem_preprocessCommand] at hkeeps
  exact absurd hkeeps (by decide)

end Yadcc.Client
