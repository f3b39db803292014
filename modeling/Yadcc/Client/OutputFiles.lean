/-
# Where the compilation's files go

The client names the object file after the `-o` option or after the source, writes it there,
and writes the other files beside it. The paths inside those files were patched to what the
client expects their names to be. Three functions cut extensions off, each in its own way.
-/

import Yadcc.Client.CompilerArgs

namespace Yadcc.Client

open Yadcc.Lib
open Yadcc.Lib.Shell (ascii asciiBytes)

/-! ## Which invocations are distributed -/

/-- The value of `-x` is C or C++, if the option is there. -/
def languageDistributable (argv : List Bytes) (args : ParsedArgs) : Except ArgsFault Bool :=
  match args.tryGet (asciiBytes "-x") with
  | some opt => do
      let language ← load argv opt.data
      .ok (language.str == asciiBytes "c" || language.str == asciiBytes "c++")
  | none => .ok true

/-- Whether the arguments can be sent to a servant. -/
def isCompilerInvocationDistributable (argv : List Bytes) (args : ParsedArgs) :
    Except ArgsFault Bool := do
  if (args.tryGet (asciiBytes "-c")).isNone then .ok false
  else
    let known ← languageDistributable argv args
    if !known then .ok false
    else if (args.tryGet (asciiBytes "-")).isSome then .ok false
    else
      match args.filenames with
      | [filename] =>
          .ok !((asciiBytes ".s").isSuffixOf filename.str ||
            (asciiBytes ".S").isSuffixOf filename.str)
      | _ => .ok false

/-! ## The names of the files -/

/-- A path as an absolute one. -/
def absolute (cwd path : Bytes) : Bytes :=
  if path.head? = some (ascii '/') then path else cwd ++ asciiBytes "/" ++ path

/-- The path that is patched into the outputs, without their suffixes. -/
def getExpectedPath (cwd outputFile : Bytes) : Bytes :=
  absolute cwd (beforeLast (ascii '.') outputFile)

def destinationPrefix (destination : Bytes) : Bytes :=
  if (asciiBytes ".o").isSuffixOf destination then destination.take (destination.length - 2)
  else destination

/-- The name a file with this suffix is written to. -/
def resultPath (destination suffix : Bytes) : Bytes :=
  if suffix = asciiBytes ".o" then destination else destinationPrefix destination ++ suffix

/-- The files that are written, in their order. -/
def writeCompilationResults (destination : Bytes) (outputFiles : List (Bytes × Bytes)) :
    List (Bytes × Bytes) :=
  outputFiles.map fun e => (resultPath destination e.1, e.2)

/-! ## What GCC does -/

/-- The part of a path behind its last slash. -/
def baseName (path : Bytes) : Bytes :=
  match findLast (ascii '/') path with
  | some pos => path.drop (pos + 1)
  | none => path

/-- A base name without its last extension. A dot at its front begins none. -/
def baseStem (base : Bytes) : Bytes :=
  match findLast (ascii '.') base with
  | some 0 => base
  | some pos => base.take pos
  | none => base

/-- The values of all output options, `-o f` and `-of`. -/
def outputValues (args : CompilerArgs) : List Bytes :=
  args.args.filterMap fun e =>
    if e.1 = asciiBytes "-o" then e.2.head?
    else if (asciiBytes "-o").isPrefixOf e.1 then some (e.1.drop 2) else none

/-- GCC's object file: the last output option counts, and without one the name comes from the
source. -/
def gccOutputFile (args : CompilerArgs) (filename : Bytes) : Bytes :=
  ((outputValues args).getLast?).getD (baseStem (baseName filename) ++ asciiBytes ".o")

/-! ## Paths and their parts -/

/-- Nothing, or a path up to a slash. -/
def IsDirectory (dir : Bytes) : Prop := dir = [] ∨ ∃ front, dir = front ++ [ascii '/']

/-- A path is cut in front of its last dot, and in front of what stands behind the last slash
before that. -/
structure Cut (path dir stem tail : Bytes) : Prop where
  eq : path = dir ++ stem ++ tail
  directory : IsDirectory dir
  noSlash : ascii '/' ∉ stem
  lastDot : (tail = [] ∧ ascii '.' ∉ path) ∨ ∃ ext, tail = ascii '.' :: ext ∧ ascii '.' ∉ ext

section Parts

variable {path dir stem tail base : Bytes}

theorem exists_directory (path : Bytes) :
    ∃ dir base, path = dir ++ base ∧ IsDirectory dir ∧ ascii '/' ∉ base := by
  by_cases h : ascii '/' ∈ path
  · obtain ⟨front, rest, rfl, hrest⟩ := exists_last h
    exact ⟨front ++ [ascii '/'], rest, by simp, .inr ⟨front, rfl⟩, hrest⟩
  · exact ⟨[], path, rfl, .inl rfl, h⟩

theorem exists_cut (path : Bytes) : ∃ dir stem tail, Cut path dir stem tail := by
  by_cases h : ascii '.' ∈ path
  · obtain ⟨front, ext, rfl, hext⟩ := exists_last h
    obtain ⟨dir, stem, rfl, hdir, hstem⟩ := exists_directory front
    exact ⟨dir, stem, _, rfl, hdir, hstem, .inr ⟨ext, rfl, hext⟩⟩
  · obtain ⟨dir, stem, rfl, hdir, hstem⟩ := exists_directory path
    exact ⟨dir, stem, [], (List.append_nil _).symm, hdir, hstem, .inl ⟨rfl, h⟩⟩

theorem baseName_append (hdir : IsDirectory dir) (hbase : ascii '/' ∉ base) :
    baseName (dir ++ base) = base := by
  rw [baseName]
  rcases hdir with rfl | ⟨front, rfl⟩
  · rw [List.nil_append, findLast_none hbase]
  · rw [List.append_assoc, List.singleton_append, findLast_append hbase]
    simp

theorem Cut.beforeLast_eq (h : Cut path dir stem tail) :
    beforeLast (ascii '.') path = dir ++ stem := by
  rcases h.lastDot with ⟨rfl, hdot⟩ | ⟨ext, rfl, hext⟩
  · rw [beforeLast_none hdot, h.eq, List.append_nil]
  · rw [h.eq, beforeLast_append hext]

/-- The object file's name keeps the directories of the source only where they are a single
slash. -/
theorem Cut.objectName_eq (h : Cut path dir stem tail) :
    objectName path =
      (if dir = [ascii '/'] then [ascii '/'] else []) ++ stem ++ asciiBytes ".o" := by
  rw [objectName, h.beforeLast_eq]
  rcases h.directory with rfl | ⟨front, rfl⟩
  · rw [List.nil_append, findLast_none h.noSlash]
    rfl
  · rw [List.append_assoc, List.singleton_append, findLast_append h.noSlash]
    cases front with
    | nil => rfl
    | cons b front =>
        rw [if_neg (by simp)]
        simp

theorem baseStem_of_notMem (h : ascii '.' ∉ base) : baseStem base = base := by
  rw [baseStem, findLast_none h]

theorem baseStem_append {ext : Bytes} (hstem : stem ≠ []) (hext : ascii '.' ∉ ext) :
    baseStem (stem ++ ascii '.' :: ext) = stem := by
  rw [baseStem, findLast_append hext]
  cases stem with
  | nil => exact absurd rfl hstem
  | cons b stem => exact List.take_left

theorem baseStem_dot {ext : Bytes} (hext : ascii '.' ∉ ext) :
    baseStem (ascii '.' :: ext) = ascii '.' :: ext := by
  rw [baseStem, ← List.nil_append (ascii '.' :: ext), findLast_append hext]
  rfl

/-- The stem in front of the last dot is GCC's: the dot is in the base name and not at its
front, or the base name has none and, where a directory has, repeats what stands before it. -/
def SameStem (stem tail : Bytes) : Prop :=
  (ascii '/' ∉ tail ∧ (tail = [] ∨ stem ≠ [])) ∨ ∃ front, tail = front ++ ascii '/' :: stem

/-- A base name behind the last dot is kept whole. -/
theorem Cut.baseStem_of_slash {front : Bytes} (h : Cut path dir stem (front ++ ascii '/' :: base))
    (hbase : ascii '/' ∉ base) : baseStem (baseName path) = base := by
  have hdot : ascii '.' ∉ base := by
    rcases h.lastDot with ⟨htail, -⟩ | ⟨ext, htail, hext⟩
    · simp at htail
    · cases front with
      | nil => cases List.head_eq_of_cons_eq htail
      | cons b front =>
          rw [← List.tail_eq_of_cons_eq htail] at hext
          exact fun hmem => hext (by simp [hmem])
  have hpath : path = (dir ++ stem ++ front ++ [ascii '/']) ++ base := by
    rw [h.eq]
    simp
  rw [hpath, baseName_append (.inr ⟨_, rfl⟩) hbase, baseStem_of_notMem hdot]

theorem Cut.baseName_of_noSlash (h : Cut path dir stem tail) (htail : ascii '/' ∉ tail) :
    baseName path = stem ++ tail := by
  rw [h.eq, List.append_assoc]
  apply baseName_append h.directory
  rw [List.mem_append, not_or]
  exact ⟨h.noSlash, htail⟩

theorem Cut.baseStem_eq_iff (h : Cut path dir stem tail) :
    baseStem (baseName path) = stem ↔ SameStem stem tail := by
  by_cases hslash : ascii '/' ∈ tail
  · obtain ⟨front, base, rfl, hbase⟩ := exists_last hslash
    rw [h.baseStem_of_slash hbase]
    constructor
    · rintro rfl
      exact .inr ⟨front, rfl⟩
    · rintro (⟨hnone, -⟩ | ⟨front', htail⟩)
      · exact absurd hslash hnone
      · -- Both are what stands behind the last slash.
        have hsame := h.baseStem_of_slash hbase
        rw [htail] at h
        rw [← hsame, h.baseStem_of_slash h.noSlash]
  · rw [h.baseName_of_noSlash hslash]
    rcases h.lastDot with ⟨rfl, hdot⟩ | ⟨ext, rfl, hext⟩
    · have hstem : ascii '.' ∉ stem := by
        rw [h.eq, List.append_nil, List.mem_append, not_or] at hdot
        exact hdot.2
      rw [List.append_nil, baseStem_of_notMem hstem]
      exact iff_of_true rfl (.inl ⟨hslash, .inl rfl⟩)
    · by_cases hstem : stem = []
      · subst hstem
        rw [List.nil_append, baseStem_dot hext]
        refine iff_of_false (List.cons_ne_nil _ _) ?_
        rintro (⟨-, hcut | hcut⟩ | ⟨front, htail⟩)
        · exact List.cons_ne_nil _ _ hcut
        · exact hcut rfl
        · exact hslash (by rw [htail]; simp)
      · rw [baseStem_append hstem hext]
        exact iff_of_true rfl (.inl ⟨hslash, .inr hstem⟩)

theorem slash_notMem_baseStem (path : Bytes) : ascii '/' ∉ baseStem (baseName path) := by
  obtain ⟨dir, base, rfl, hdir, hbase⟩ := exists_directory path
  rw [baseName_append hdir hbase, baseStem]
  split
  · exact hbase
  · exact fun hmem => hbase (List.mem_of_mem_take hmem)
  · exact hbase

/-- The object file has GCC's name exactly if the stems are the same and the directories are
not a single slash. -/
theorem Cut.objectName_eq_iff (h : Cut path dir stem tail) :
    objectName path = baseStem (baseName path) ++ asciiBytes ".o" ↔
      dir ≠ [ascii '/'] ∧ SameStem stem tail := by
  rw [h.objectName_eq, List.append_cancel_right_eq, ← h.baseStem_eq_iff]
  split
  · next hdir =>
      refine iff_of_false ?_ fun hne => hne.1 hdir
      intro heq
      apply slash_notMem_baseStem path
      rw [← heq]
      simp
  · next hdir =>
      rw [List.nil_append, and_iff_right hdir, eq_comm]

end Parts

/-! ## The files beside the object -/

section Beside

variable {cwd destination suffix : Bytes}

/-- Working directories have absolute paths, and of different lengths: a path that means the
same below all of them is the same. -/
theorem absolute_inj {path path' : Bytes}
    (h : ∀ cwd, cwd.head? = some (ascii '/') → absolute cwd path = absolute cwd path') :
    path = path' := by
  have hroot := congrArg List.length (h (asciiBytes "/") (by decide))
  have hbelow := h (asciiBytes "/a") (by decide)
  have hlength := congrArg List.length hbelow
  rw [absolute, absolute] at hroot hbelow hlength
  by_cases hpath : path.head? = some (ascii '/')
  · by_cases hpath' : path'.head? = some (ascii '/')
    · rwa [if_pos hpath, if_pos hpath'] at hbelow
    · rw [if_pos hpath, if_neg hpath'] at hroot hlength
      simp only [List.length_append] at hroot hlength
      have hdifferent : (asciiBytes "/a").length ≠ (asciiBytes "/").length := by decide
      omega
  · by_cases hpath' : path'.head? = some (ascii '/')
    · rw [if_neg hpath, if_pos hpath'] at hroot hlength
      simp only [List.length_append] at hroot hlength
      have hdifferent : (asciiBytes "/a").length ≠ (asciiBytes "/").length := by decide
      omega
    · rw [if_neg hpath, if_neg hpath'] at hbelow
      exact List.append_cancel_left hbelow

/-- A suffix behind a path that is not empty does not change where the path begins. -/
theorem absolute_append {path : Bytes} (hpath : path ≠ []) :
    absolute cwd (path ++ suffix) = absolute cwd path ++ suffix := by
  cases path with
  | nil => exact absurd rfl hpath
  | cons b path =>
      rw [absolute, absolute, List.cons_append, List.head?_cons, List.head?_cons]
      split
      · rfl
      · rw [List.append_assoc, List.append_assoc, List.append_assoc, List.cons_append]

/-- What follows a path that is empty or relative still follows it. -/
theorem length_absolute_append {path rest : Bytes} (hrest : rest.head? ≠ some (ascii '/')) :
    (absolute cwd (path ++ rest)).length = (absolute cwd path).length + rest.length := by
  cases path with
  | nil =>
      rw [List.nil_append, absolute, absolute, if_neg hrest, if_neg (by simp)]
      simp only [List.length_append, List.length_nil, Nat.add_zero]
  | cons b path => rw [absolute_append (List.cons_ne_nil _ _), List.length_append]

theorem absolute_append_nil :
    absolute cwd suffix = absolute cwd [] ++ suffix ↔ suffix.head? ≠ some (ascii '/') := by
  have hnil : absolute cwd [] ++ suffix = cwd ++ asciiBytes "/" ++ suffix := by
    rw [absolute, if_neg (by simp), List.append_nil]
  rw [hnil, absolute]
  split
  · next hslash =>
      refine iff_of_false ?_ fun hne => hne hslash
      intro heq
      have hlength := congrArg List.length heq
      have hone : (asciiBytes "/").length = 1 := rfl
      simp only [List.length_append] at hlength
      omega
  · next hslash => exact iff_of_true rfl hslash

/-- With a literal `.o` at the end, the two ways to cut the extension agree. -/
theorem destinationPrefix_suffix {front : Bytes} :
    destinationPrefix (front ++ asciiBytes ".o") = front ∧
      beforeLast (ascii '.') (front ++ asciiBytes ".o") = front := by
  constructor
  · rw [destinationPrefix, if_pos]
    · rw [List.length_append]
      exact List.take_left
    · exact List.isSuffixOf_iff_suffix.mpr (List.suffix_append _ _)
  · have hext : ascii '.' ∉ [ascii 'o'] := by decide
    exact beforeLast_append hext

/-- The name of the output file lets its neighbours be found: it ends in `.o` or has no dot. -/
def CutAlike (destination suffix : Bytes) : Prop :=
  (asciiBytes ".o" <:+ destination ∨ ascii '.' ∉ destination) ∧
    (destination = asciiBytes ".o" ∨ destination = [] → suffix.head? ≠ some (ascii '/'))

theorem resultPath_eq_iff (hsuffix : suffix ≠ asciiBytes ".o") :
    absolute cwd (resultPath destination suffix) = getExpectedPath cwd destination ++ suffix ↔
      CutAlike destination suffix := by
  rw [resultPath, if_neg hsuffix, getExpectedPath, CutAlike]
  by_cases ho : asciiBytes ".o" <:+ destination
  · obtain ⟨front, rfl⟩ := ho
    rw [destinationPrefix_suffix.1, destinationPrefix_suffix.2,
      and_iff_right (.inl (List.suffix_append _ _))]
    by_cases hfront : front = []
    · subst hfront
      rw [List.nil_append, absolute_append_nil]
      exact ⟨fun h _ => h, fun h => h (.inl rfl)⟩
    · refine iff_of_true (absolute_append hfront) ?_
      rintro (heq | heq)
      · exact absurd (List.append_left_eq_self.mp heq) hfront
      · exact absurd (List.append_eq_nil_iff.mp heq).1 hfront
  · have hkept : destinationPrefix destination = destination := by
      rw [destinationPrefix, if_neg (mt List.isSuffixOf_iff_suffix.mp ho)]
    rw [hkept]
    by_cases hdot : ascii '.' ∈ destination
    · obtain ⟨front, ext, rfl, hext⟩ := exists_last hdot
      rw [beforeLast_append hext]
      refine iff_of_false ?_ ?_
      · -- The extension makes one path longer.
        intro heq
        have hlength := congrArg List.length heq
        have hext : (ascii '.' :: ext).head? ≠ some (ascii '/') := by
          rw [List.head?_cons]
          decide
        rw [absolute_append (by simp), List.length_append, List.length_append,
          length_absolute_append hext, List.length_cons] at hlength
        omega
      · rintro ⟨hcut | hcut, -⟩
        · exact ho hcut
        · exact hcut hdot
    · rw [beforeLast_none hdot, and_iff_right (.inr hdot)]
      by_cases hempty : destination = []
      · subst hempty
        rw [List.nil_append, absolute_append_nil]
        exact ⟨fun h _ => h, fun h => h (.inr rfl)⟩
      · refine iff_of_true (absolute_append hempty) ?_
        rintro (heq | heq)
        · exact absurd (heq ▸ List.suffix_refl _) ho
        · exact absurd heq hempty

end Beside

/-! ## Where every file goes -/

/-- The value of the first option `-o` with a value of its own. -/
def firstOutput (args : CompilerArgs) : Option Bytes :=
  (args.tryGet (asciiBytes "-o")).bind List.head?

/-- The source and the output options for which the object file goes where GCC puts it: the
first `-o` counts for the last; an output joined to its option is the name of the source's
object; and without an output the source's stem is GCC's, and not below a lone slash. -/
def ObjectAgrees (args : CompilerArgs) (filename : Bytes) : Prop :=
  match firstOutput args, (outputValues args).getLast? with
  | some output, last => last = some output
  | none, some joined =>
      ∃ dir stem tail, Cut filename dir stem tail ∧
        joined = (if dir = [ascii '/'] then [ascii '/'] else []) ++ stem ++ asciiBytes ".o"
  | none, none =>
      ∃ dir stem tail, Cut filename dir stem tail ∧ dir ≠ [ascii '/'] ∧ SameStem stem tail

/-- The output options and suffixes for which another file goes where it is expected. The name
made from a source ends in `.o`. -/
def NeighbourAgrees (args : CompilerArgs) (filename suffix : Bytes) : Prop :=
  match firstOutput args with
  | some output => CutAlike output suffix
  | none =>
      ∃ dir stem tail, Cut filename dir stem tail ∧
        (stem = [] → dir ≠ [ascii '/'] → suffix.head? ≠ some (ascii '/'))

/-- Where a file belongs: the object file where GCC would put it, another file at the path that
was patched into the outputs. -/
def expectedResult (cwd : Bytes) (args : CompilerArgs) (filename destination suffix : Bytes) :
    Bytes :=
  if suffix = asciiBytes ".o" then absolute cwd (gccOutputFile args filename)
  else getExpectedPath cwd destination ++ suffix

/-- In any working directory, every file that came back is written where it belongs. -/
def WritesWhereExpected (argv : List Bytes) (args : ParsedArgs)
    (outputFiles : List (Bytes × Bytes)) : Prop :=
  ∃ destination filename, args.getOutputFile argv = .ok destination ∧
    (args.view argv).filenames = [filename] ∧
    ∀ cwd, cwd.head? = some (ascii '/') →
      (writeCompilationResults destination outputFiles).map (fun e => (absolute cwd e.1, e.2)) =
        outputFiles.map fun e =>
          (expectedResult cwd (args.view argv) filename destination e.1, e.2)

section Where

variable {argv : List Bytes} {args : ParsedArgs} {filename : Arg}

theorem filenames_of_distributable
    (h : isCompilerInvocationDistributable argv args = .ok true) :
    ∃ filename, args.filenames = [filename] := by
  rw [isCompilerInvocationDistributable] at h
  split at h
  · cases h
  · obtain ⟨known, -, h⟩ := bind_eq_ok.mp h
    split at h
    · cases h
    · split at h
      · cases h
      · split at h
        · next filename hfilename => exact ⟨filename, hfilename⟩
        · cases h

theorem getOutputFile_eq (h : Splits argv argv.length args.args args.filenames)
    (hfilename : args.filenames = [filename]) :
    args.getOutputFile argv =
      .ok ((firstOutput (args.view argv)).getD (objectName filename.str)) := by
  rw [ParsedArgs.getOutputFile, firstOutput]
  cases hopt : args.tryGet (asciiBytes "-o") with
  | some opt =>
      obtain ⟨value, hload, hview⟩ := ParsedArgs.tryGet_some h (by decide) hopt
      rw [hview]
      exact congrArg (Arg.str <$> ·) hload
  | none =>
      rw [ParsedArgs.tryGet_none hopt, hfilename]
      rfl

/-- The first `-o` with a value is one of the output options. -/
theorem outputValues_ne_nil {args : CompilerArgs} {output : Bytes}
    (h : firstOutput args = some output) : outputValues args ≠ [] := by
  obtain ⟨values, hvalues, hhead⟩ := Option.bind_eq_some_iff.mp h
  obtain ⟨e, hfind, rfl⟩ := Option.map_eq_some_iff.mp hvalues
  have hname := List.find?_some hfind
  rw [beq_iff_eq] at hname
  apply List.ne_nil_of_mem (a := output)
  refine List.mem_filterMap.mpr ⟨e, List.mem_of_find?_eq_some hfind, ?_⟩
  rw [if_pos hname, hhead]

theorem objectAgrees_iff (args : CompilerArgs) (filename : Bytes) :
    (firstOutput args).getD (objectName filename) = gccOutputFile args filename ↔
      ObjectAgrees args filename := by
  rw [ObjectAgrees, gccOutputFile]
  cases houtput : firstOutput args with
  | some output =>
      have hlast := List.getLast?_eq_some_getLast (outputValues_ne_nil houtput)
      rw [hlast, Option.getD_some, Option.getD_some]
      constructor
      · intro heq
        exact congrArg some heq.symm
      · intro heq
        exact (Option.some_inj.mp heq).symm
  | none =>
      cases hlast : (outputValues args).getLast? with
      | some joined =>
          constructor
          · intro heq
            obtain ⟨dir, stem, tail, hcut⟩ := exists_cut filename
            exact ⟨dir, stem, tail, hcut, by rw [← hcut.objectName_eq]; exact heq.symm⟩
          · rintro ⟨dir, stem, tail, hcut, rfl⟩
            exact hcut.objectName_eq
      | none =>
          constructor
          · intro heq
            obtain ⟨dir, stem, tail, hcut⟩ := exists_cut filename
            exact ⟨dir, stem, tail, hcut, hcut.objectName_eq_iff.mp heq⟩
          · rintro ⟨dir, stem, tail, hcut, hsame⟩
            exact hcut.objectName_eq_iff.mpr hsame

theorem neighbourAgrees_iff (args : CompilerArgs) (filename suffix : Bytes) :
    CutAlike ((firstOutput args).getD (objectName filename)) suffix ↔
      NeighbourAgrees args filename suffix := by
  rw [NeighbourAgrees]
  cases houtput : firstOutput args with
  | some output => rfl
  | none =>
      have hcutAlike : ∀ {dir stem tail : Bytes}, Cut filename dir stem tail →
          (CutAlike (objectName filename) suffix ↔
            (stem = [] → dir ≠ [ascii '/'] → suffix.head? ≠ some (ascii '/'))) := by
        intro dir stem tail hcut
        have hname := hcut.objectName_eq
        rw [CutAlike, hname, and_iff_right (.inl (List.suffix_append _ _))]
        constructor
        · rintro h rfl hdir
          rw [if_neg hdir] at h
          exact h (.inl rfl)
        · rintro h (heq | heq)
          · rw [List.append_left_eq_self, List.append_eq_nil_iff] at heq
            refine h heq.2 fun hdir => ?_
            rw [if_pos hdir] at heq
            cases heq.1
          · exact absurd (List.append_eq_nil_iff.mp heq).2 (by decide)
      obtain ⟨dir, stem, tail, hcut⟩ := exists_cut filename
      constructor
      · intro h
        exact ⟨dir, stem, tail, hcut, (hcutAlike hcut).mp h⟩
      · rintro ⟨dir, stem, tail, hcut, h⟩
        exact (hcutAlike hcut).mpr h

/-- What is asked of one file. -/
theorem expectedResult_iff (args : CompilerArgs) (filename suffix : Bytes) :
    (∀ cwd, cwd.head? = some (ascii '/') →
      absolute cwd (resultPath ((firstOutput args).getD (objectName filename)) suffix) =
        expectedResult cwd args filename ((firstOutput args).getD (objectName filename)) suffix) ↔
      if suffix = asciiBytes ".o" then ObjectAgrees args filename
      else NeighbourAgrees args filename suffix := by
  by_cases hsuffix : suffix = asciiBytes ".o"
  · simp only [expectedResult, if_pos hsuffix, resultPath]
    rw [← objectAgrees_iff]
    constructor
    · exact absolute_inj
    · intro heq cwd _
      rw [heq]
  · simp only [expectedResult, if_neg hsuffix]
    rw [← neighbourAgrees_iff]
    constructor
    · intro h
      exact (resultPath_eq_iff hsuffix).mp (h (asciiBytes "/") (by decide))
    · intro h cwd _
      exact (resultPath_eq_iff hsuffix).mpr h

/-- Files are written where they belong one by one. -/
theorem writeCompilationResults_eq_iff {cwd destination : Bytes}
    {outputFiles : List (Bytes × Bytes)} {expected : Bytes → Bytes} :
    (writeCompilationResults destination outputFiles).map (fun e => (absolute cwd e.1, e.2)) =
        outputFiles.map (fun e => (expected e.1, e.2)) ↔
      ∀ e ∈ outputFiles, absolute cwd (resultPath destination e.1) = expected e.1 := by
  rw [writeCompilationResults, List.map_map, List.map_inj_left]
  refine forall₂_congr fun e _ => ?_
  rw [Function.comp_apply, Prod.mk.injEq, and_iff_left rfl]

/-- For the command lines that are distributed, each file that came back is written where it
belongs exactly if the output options and the source say so. -/
theorem writesWhereExpected_iff (hparsed : ParsedArgs.construct argv = .ok args)
    (haccepted : isCompilerInvocationDistributable argv args = .ok true)
    (outputFiles : List (Bytes × Bytes)) :
    WritesWhereExpected argv args outputFiles ↔
      ∃ filename, (args.view argv).filenames = [filename] ∧ ∀ e ∈ outputFiles,
        if e.1 = asciiBytes ".o" then ObjectAgrees (args.view argv) filename
        else NeighbourAgrees (args.view argv) filename e.1 := by
  obtain ⟨source, hsource⟩ := filenames_of_distributable haccepted
  have hview : (args.view argv).filenames = [source.str] := by
    change args.filenames.map Arg.str = _
    rw [hsource, List.map_singleton]
  have hdestination := getOutputFile_eq (splits_of_construct hparsed) hsource
  constructor
  · rintro ⟨destination, filename, hd, hfilename, hwrites⟩
    rw [hdestination] at hd
    cases hd
    refine ⟨filename, hfilename, fun e he => ?_⟩
    rw [hview] at hfilename
    cases hfilename
    apply (expectedResult_iff _ _ _).mp
    intro cwd hcwd
    exact writeCompilationResults_eq_iff.mp (hwrites cwd hcwd) e he
  · rintro ⟨filename, hfilename, hagrees⟩
    refine ⟨_, filename, hdestination, hfilename, fun cwd hcwd => ?_⟩
    rw [hview] at hfilename
    cases hfilename
    apply writeCompilationResults_eq_iff.mpr
    intro e he
    exact (expectedResult_iff _ _ _).mpr (hagrees e he) cwd hcwd

end Where

namespace OutputSample

/-- `-c -o out/a.o src/a.cc`. -/
def named : ParsedArgs where
  compiler := []
  args := [(⟨0, asciiBytes "-c"⟩, ⟨0, 0⟩), (⟨1, asciiBytes "-o"⟩, ⟨2, 1⟩)]
  filenames := [⟨3, asciiBytes "src/a.cc"⟩]
  rebuilt := asciiBytes "-c -o out/a.o src/a.cc"

/-- `-c /a.cc`. -/
def root : ParsedArgs where
  compiler := []
  args := [(⟨0, asciiBytes "-c"⟩, ⟨0, 0⟩)]
  filenames := [⟨1, asciiBytes "/a.cc"⟩]
  rebuilt := asciiBytes "-c /a.cc"

end OutputSample

/-- An output option ending in `.o` puts the object and its coverage notes where they belong. -/
theorem writesWhereExpected_named :
    WritesWhereExpected (["-c", "-o", "out/a.o", "src/a.cc"].map asciiBytes) OutputSample.named
      [(asciiBytes ".o", [1]), (asciiBytes ".gcno", [2])] := by
  refine (writesWhereExpected_iff (by decide +kernel) (by decide +kernel) _).mpr
    ⟨asciiBytes "src/a.cc", rfl, ?_⟩
  rw [List.forall_mem_cons, List.forall_mem_singleton, if_pos rfl, if_neg (by decide)]
  constructor
  · rw [ObjectAgrees]
    rfl
  · have hoption : firstOutput (OutputSample.named.view
        (["-c", "-o", "out/a.o", "src/a.cc"].map asciiBytes)) = some (asciiBytes "out/a.o") := rfl
    rw [NeighbourAgrees, hoption]
    exact ⟨.inl (by decide), by decide⟩

/-- The object file of a source in the root directory is written beside it and not in the
working directory. -/
theorem misplaced_object_of_root_source :
    ParsedArgs.construct (["-c", "/a.cc"].map asciiBytes) = .ok OutputSample.root ∧
      isCompilerInvocationDistributable (["-c", "/a.cc"].map asciiBytes) OutputSample.root =
        .ok true ∧
      ¬WritesWhereExpected (["-c", "/a.cc"].map asciiBytes) OutputSample.root
        [(asciiBytes ".o", [1])] := by
  refine ⟨by decide +kernel, by decide +kernel, ?_⟩
  rintro ⟨destination, filename, hdestination, hfilename, hwrites⟩
  have hcode : OutputSample.root.getOutputFile (["-c", "/a.cc"].map asciiBytes) =
      .ok (asciiBytes "/a.o") := by decide +kernel
  rw [hcode] at hdestination
  cases hdestination
  cases hfilename
  exact absurd (hwrites (asciiBytes "/w") (by decide)) (by decide +kernel)

end Yadcc.Client
