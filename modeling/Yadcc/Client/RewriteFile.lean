/-
# Preprocessing for a remote compilation

The client runs the preprocessor on the source file, first keeping its directives and, if
that fails, in full. What the preprocessor writes goes through the compressor and, unless
caching is disallowed, through the hash function. Running a command, compression and the
hash function are parameters.
-/

import Yadcc.Client.CompilerArgs
import Yadcc.Lib.Hex

namespace Yadcc.Client

open Yadcc.Lib
open Yadcc.Lib.Shell (asciiBytes)

/-! ## Rewriting -/

/-- `YADCC_CACHE_CONTROL`. -/
inductive CacheControl
  | disallow
  | allow
  | refill
  deriving DecidableEq

structure RewriteResult where
  language : Bytes
  sourcePath : Bytes
  directivesOnly : Bool
  cacheControl : CacheControl
  zstdRewritten : Bytes
  sourceDigest : Bytes

/-- What comes of running a command: its exit code, and what it writes to its output. -/
structure Execution where
  exitCode : ℤ
  writes : List Bytes

/-- The output of a command that succeeds. -/
def Execution.output (execution : Execution) : Option Bytes :=
  if execution.exitCode = 0 then some execution.writes.flatten else none

/-- Without an answer a check fails: an option without its value, or not one file name. -/
def determineProgramLanguage (args : CompilerArgs) : Option (Option Bytes) :=
  match args.tryGet (asciiBytes "-x") with
  | some opt => opt.head?.map some
  | none =>
      match args.filenames with
      | [filename] =>
          if [".cc", ".cpp", ".cxx"].any fun e => (asciiBytes e).isSuffixOf filename then
            some (some (asciiBytes "c++"))
          else if (asciiBytes ".c").isSuffixOf filename then some (some (asciiBytes "c"))
          else some none
      | _ => none

section Rewriting

variable (blake3 : Hash 32) (compress : List Bytes → Bytes)

/-- The compressed output, how it may be cached, and its digest, if it may. -/
def tryRewriteFileWithCommandLine (execution : Execution) (cacheControl : CacheControl) :
    Option (Bytes × CacheControl × Bytes) :=
  if execution.exitCode = 0 then
    let sourceDigest :=
      if cacheControl = .disallow then [] else blake3.hex execution.writes.flatten
    some (compress execution.writes, cacheControl, sourceDigest)
  else none

/-- The first command of the preprocessor keeps the directives. -/
def directivesOnlyCommand (args : CompilerArgs) : RewrittenArgs :=
  args.rewrite (["-c", "-o", "-fworking-directory"].map asciiBytes) []
    (["-fno-working-directory", "-E", "-fdirectives-only"].map asciiBytes) true

def preprocessCommand (args : CompilerArgs) : RewrittenArgs :=
  args.rewrite (["-c", "-o", "-fworking-directory"].map asciiBytes) []
    (["-fno-working-directory", "-E"].map asciiBytes) true

/-- Without an answer a check fails. Both ways report that the directives were kept. -/
def rewriteFile (execute : RewrittenArgs → Execution) (cacheControl : CacheControl)
    (args : CompilerArgs) : Option (Option RewriteResult) := do
  match ← determineProgramLanguage args with
  | none => some none
  | some language =>
      match args.filenames with
      | [sourcePath] =>
          let result (rewritten : Bytes × CacheControl × Bytes) : RewriteResult :=
            { language
              sourcePath
              directivesOnly := true
              cacheControl := rewritten.2.1
              zstdRewritten := rewritten.1
              sourceDigest := rewritten.2.2 }
          match tryRewriteFileWithCommandLine blake3 compress
              (execute (directivesOnlyCommand args)) cacheControl with
          | some rewritten => some (some (result rewritten))
          | none =>
              some ((tryRewriteFileWithCommandLine blake3 compress
                (execute (preprocessCommand args)) cacheControl).map result)
      | _ => none

end Rewriting

/-- The preprocessed source: the output of the first command that succeeds. -/
def preprocessed (execute : RewrittenArgs → Execution) (args : CompilerArgs) : Option Bytes :=
  (execute (directivesOnlyCommand args)).output.or (execute (preprocessCommand args)).output

/-! ## The arguments of the remote compiler -/

def kIgnoredArgs : List String :=
  ["-MMD", "-MF", "-MD", "-MT", "-MP", "-o", "-Wmissing-include-dirs"]

def kIgnoredArgPrefixes : List String :=
  ["-Wp,-MMD", "-Wp,-MF", "-Wp,-MD", "-Wp,-MD", "-Wp,-MP", "-I", "-include", "-isystem"]

/-- The arguments that the servant's compiler gets; it reads its standard input. -/
def invocationArguments (args : CompilerArgs) (rewrittenSource : RewriteResult) : Bytes :=
  (args.rewrite (kIgnoredArgs.map asciiBytes) (kIgnoredArgPrefixes.map asciiBytes)
    [asciiBytes "-fpreprocessed",
      if rewrittenSource.directivesOnly then asciiBytes "-fdirectives-only" else [],
      asciiBytes "-x", rewrittenSource.language, asciiBytes "-"] false).toCommandLine false

/-! ## What comes of it -/

section Result

variable {blake3 : Hash 32} {compress : List Bytes → Bytes}
  {execute : RewrittenArgs → Execution} {cacheControl : CacheControl} {args : CompilerArgs}

/-- The digest of a source, which is left empty where caching is disallowed. -/
def digestUnlessDisallowed (blake3 : Hash 32) (cacheControl : CacheControl) (source : Bytes) :
    Bytes :=
  if cacheControl = .disallow then [] else blake3.hex source

theorem tryRewriteFileWithCommandLine_cases (blake3 : Hash 32) (compress : List Bytes → Bytes)
    (execution : Execution) (cacheControl : CacheControl) :
    (execution.exitCode = 0 ∧ execution.output = some execution.writes.flatten ∧
      tryRewriteFileWithCommandLine blake3 compress execution cacheControl =
        some (compress execution.writes, cacheControl,
          digestUnlessDisallowed blake3 cacheControl execution.writes.flatten)) ∨
    (execution.exitCode ≠ 0 ∧ execution.output = none ∧
      tryRewriteFileWithCommandLine blake3 compress execution cacheControl = none) := by
  by_cases hzero : execution.exitCode = 0
  · left
    simp [tryRewriteFileWithCommandLine, Execution.output, digestUnlessDisallowed, hzero]
  · right
    simp [tryRewriteFileWithCommandLine, Execution.output, hzero]

/-- A result is the preprocessed source, compressed, with its digest. -/
theorem rewriteFile_spec {r : RewriteResult}
    (h : rewriteFile blake3 compress execute cacheControl args = some (some r)) :
    ∃ writes : List Bytes, preprocessed execute args = some writes.flatten ∧
      r.zstdRewritten = compress writes ∧ r.cacheControl = cacheControl ∧
      r.sourceDigest = digestUnlessDisallowed blake3 cacheControl writes.flatten := by
  obtain ⟨language, -, h⟩ := Option.bind_eq_some_iff.mp h
  cases language with
  | none => cases h
  | some language =>
      simp only at h
      split at h
      · rcases tryRewriteFileWithCommandLine_cases blake3 compress
            (execute (directivesOnlyCommand args)) cacheControl with
          ⟨-, hfirst, hrewritten⟩ | ⟨-, hfirst, hrewritten⟩
        · rw [hrewritten] at h
          cases h
          exact ⟨_, by rw [preprocessed, hfirst, Option.some_or], rfl, rfl, rfl⟩
        · rw [hrewritten] at h
          rcases tryRewriteFileWithCommandLine_cases blake3 compress
              (execute (preprocessCommand args)) cacheControl with
            ⟨-, hsecond, hrewritten⟩ | ⟨-, -, hrewritten⟩
          · rw [hrewritten] at h
            cases h
            exact ⟨_, by rw [preprocessed, hfirst, hsecond, Option.none_or], rfl, rfl, rfl⟩
          · rw [hrewritten] at h
            cases h
      · cases h

end Result

end Yadcc.Client
