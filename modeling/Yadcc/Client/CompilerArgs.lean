/-
# Compiler arguments

The client splits the command line of a compiler into options, with the value that some of
them take, and file names. The values are not copied: an option keeps a range of `argv`,
which is read when the value is asked for. A read at or behind the end of `argv` is an error
here, with the index that was read.
-/

import Mathlib.Data.List.TakeWhile
import Yadcc.Client.CommandLine
import Yadcc.Lib.Checked
import Yadcc.Lib.Text

namespace Yadcc.Client

open Yadcc.Lib
open Yadcc.Lib.Shell (ascii asciiBytes)
open scoped List

/-- The parsed command line of a compiler: each option comes with its values. -/
structure CompilerArgs where
  compiler : Bytes
  args : List (Bytes × List Bytes)
  filenames : List Bytes

namespace CompilerArgs

/-- The values of the first option with this name. -/
def tryGet (self : CompilerArgs) (key : Bytes) : Option (List Bytes) :=
  (self.args.find? fun e => e.1 == key).map Prod.snd

/-- The options that are not removed, with their values, then those that are added, then the
file names if they are kept. -/
def rewrite (self : CompilerArgs) (remove removePrefix add : List Bytes) (keepFilenames : Bool) :
    RewrittenArgs where
  program := self.compiler
  args :=
    (self.args.filter fun e => !remove.contains e.1 && !removePrefix.any (·.isPrefixOf e.1)).flatMap
        (fun e => e.1 :: e.2) ++
      add ++ if keepFilenames then self.filenames else []

end CompilerArgs

/-! ## The command line as it is parsed -/

/-- How a use of the command line goes wrong. -/
inductive ArgsFault
  | read (index : ℕ)
  | diverged
  | check
  deriving DecidableEq

/-- The options that take the next argument as their value. -/
def kOneValueArguments : List Bytes :=
  ["-o", "-x", "-dyld-prefix", "-gcc-toolchain", "--param", "--sysroot", "--system-header-prefix",
    "-target", "--assert", "--allowable_client", "-arch", "-arch_only",
    "-arcmt-migrate-report-output", "--prefix", "-bundle_loader", "-dependency-dot",
    "-dependency-file", "-dylib_file", "-exported_symbols_list", "--bootclasspath", "--CLASSPATH",
    "--classpath", "--resource", "--encoding", "--extdirs", "-filelist",
    "-fmodule-implementation-of", "-fmodule-name", "-fmodules-user-build-path", "-fnew-alignment",
    "-force_load", "--output-class-directory", "-framework", "-frewrite-map-file",
    "-ftrapv-handler", "-image_base", "-init", "-install_name", "-lazy_framework",
    "-lazy_library", "-meabi", "-mhwdiv", "-mllvm", "-module-dependency-dir", "-mthread-model",
    "-multiply_defined", "-multiply_defined_unused", "-rpath", "--rtlib", "-seg_addr_table",
    "-seg_addr_table_filename", "-segs_read_only_addr", "-segs_read_write_addr",
    "-serialize-diagnostics", "--serialize-diagnostics", "-std", "--stdlib", "--force-link",
    "-umbrella", "-unexported_symbols_list", "-weak_library", "-weak_reference_mismatches", "-B",
    "-D", "-U", "-I", "-i", "--include-directory", "-L", "-l", "--library-directory", "-MF",
    "-MT", "-MQ", "-cxx-isystem", "-c-isystem", "-idirafter", "--include-directory-after",
    "-iframework", "-iframeworkwithsysroot", "-imacros", "-imultilib", "-iprefix",
    "--include-prefix", "-iquote", "-include", "-include-pch", "-isysroot", "-isystem",
    "-isystem-after", "-ivfsoverlay", "-iwithprefix", "--include-with-prefix",
    "--include-with-prefix-after", "-iwithprefixbefore", "--include-with-prefix-before",
    "-iwithsysroot"].map asciiBytes

/-- A string of the command line, with the place it was loaded from. -/
structure Arg where
  place : ℕ
  str : Bytes
  deriving DecidableEq

/-- A range of the command line: `size` elements from `&argv[data]`. -/
structure OptionArgs where
  data : ℕ
  size : ℕ
  deriving DecidableEq

/-- `argv[i]`. -/
def load (argv : List Bytes) (i : ℕ) : Except ArgsFault Arg :=
  match argv[i]? with
  | some str => .ok ⟨i, str⟩
  | none => .error (.read i)

/-- The elements of a range, read from its front. -/
def OptionArgs.load (argv : List Bytes) (opt : OptionArgs) : Except ArgsFault (List Bytes) :=
  (List.range' opt.data opt.size).mapM fun i => Arg.str <$> Client.load argv i

/-- `CompilerArgs` as its constructor leaves it. -/
structure ParsedArgs where
  compiler : Bytes
  args : List (Arg × OptionArgs)
  filenames : List Arg
  rebuilt : Bytes
  deriving DecidableEq

/-- The variables of the constructor's loop. -/
structure ParseState where
  i : ℕ
  args : List (Arg × OptionArgs)
  filenames : List Arg

/-- One iteration. An option with a value moves the index twice. -/
def parseStep (argv : List Bytes) (s : ParseState) : Except ArgsFault ParseState := do
  let arg ← load argv s.i
  if kOneValueArguments.contains arg.str then
    .ok { s with i := s.i + 2, args := s.args ++ [(arg, ⟨s.i + 1, 1⟩)] }
  else if arg.str.head? = some (ascii '-') then
    .ok { s with i := s.i + 1, args := s.args ++ [(arg, ⟨0, 0⟩)] }
  else
    .ok { s with i := s.i + 1, filenames := s.filenames ++ [arg] }

/-- The loop runs until its index is equal to `argc`. -/
def parse (argv : List Bytes) : Except ArgsFault ParseState :=
  whileLoop (fun s => s.i != argv.length) (parseStep argv) .diverged (argv.length + 2) ⟨0, [], []⟩

namespace ParsedArgs

/-- The constructor. -/
def construct (argv : List Bytes) : Except ArgsFault ParsedArgs := do
  if argv.length < 1 then .error .check
  else
    let s ← parse argv
    .ok
      { compiler := []
        args := s.args
        filenames := s.filenames
        rebuilt := (argv.flatMap fun e => escapeCommandArgument e ++ asciiBytes " ").dropLast }

/-- The range of the first option with this name. Nothing of the range is read. -/
def tryGet (self : ParsedArgs) (key : Bytes) : Option OptionArgs :=
  (self.args.find? fun e => e.1.str == key).map Prod.snd

end ParsedArgs

/-- The name that an object file gets from its source. The offset of the last slash is tested
as a truth value: the offset that stands for no slash is true, and one more than it is zero;
the offset of a slash at the front is false. -/
def objectName (filename : Bytes) : Bytes :=
  let path := beforeLast (ascii '.') filename
  let path :=
    match findLast (ascii '/') path with
    | some 0 => path
    | some pos => path.drop (pos + 1)
    | none => path
  path ++ asciiBytes ".o"

namespace ParsedArgs

/-- The value of `-o`, which is read without a look at its number, or a name made from the only
file name. -/
def getOutputFile (argv : List Bytes) (self : ParsedArgs) : Except ArgsFault Bytes :=
  match self.tryGet (asciiBytes "-o") with
  | some opt => Arg.str <$> load argv opt.data
  | none =>
      match self.filenames with
      | [filename] => .ok (objectName filename.str)
      | _ => .error .check

/-- One option of `Rewrite`: left out, or appended with its values. -/
def rewriteStep (argv remove removePrefix : List Bytes) (result : List Bytes)
    (e : Arg × OptionArgs) : Except ArgsFault (List Bytes) :=
  if remove.contains e.1.str then .ok result
  else if removePrefix.any (·.isPrefixOf e.1.str) then .ok result
  else do
    let values ← e.2.load argv
    .ok (result ++ e.1.str :: values)

def rewrite (argv : List Bytes) (self : ParsedArgs) (remove removePrefix add : List Bytes)
    (keepFilenames : Bool) : Except ArgsFault RewrittenArgs := do
  let result ← self.args.foldlM (rewriteStep argv remove removePrefix) []
  .ok
    { program := self.compiler
      args := result ++ add ++ if keepFilenames then self.filenames.map Arg.str else [] }

end ParsedArgs

/-! ## What the command line is split into -/

/-- The places of a range. -/
def OptionArgs.places (opt : OptionArgs) : List ℕ := List.range' opt.data opt.size

namespace ParsedArgs

/-- The places of the options and of their values. -/
def optionPlaces (args : List (Arg × OptionArgs)) : List ℕ :=
  args.flatMap fun e => e.1.place :: e.2.places

/-- The command line with the values of its options in place. -/
def view (argv : List Bytes) (self : ParsedArgs) : CompilerArgs where
  compiler := self.compiler
  args := self.args.map fun e => (e.1.str, e.2.places.filterMap (argv[·]?))
  filenames := self.filenames.map Arg.str

end ParsedArgs

/-- What the first `i` elements of `argv` have become: each is the name or the value of one
option, or one file name, and both keep their order. -/
structure Splits (argv : List Bytes) (i : ℕ) (args : List (Arg × OptionArgs))
    (filenames : List Arg) : Prop where
  loaded : ∀ e ∈ args, argv[e.1.place]? = some e.1.str
  named : ∀ f ∈ filenames, argv[f.place]? = some f.str
  value : ∀ e ∈ args,
    e.2 = if kOneValueArguments.contains e.1.str then ⟨e.1.place + 1, 1⟩ else ⟨0, 0⟩
  covered : (ParsedArgs.optionPlaces args ++ filenames.map Arg.place).Perm (List.range i)
  optionsInOrder : (ParsedArgs.optionPlaces args).Sublist (List.range i)
  filenamesInOrder : (filenames.map Arg.place).Sublist (List.range i)

/-- The number of options with a value that stand in a row at the end of the command line. -/
def trailingOptions (argv : List Bytes) : ℕ :=
  (argv.reverse.takeWhile kOneValueArguments.contains).length

section Trailing

variable {a v : Bytes} {rest : List Bytes}

theorem trailingOptions_of_forall (h : ∀ e ∈ rest, kOneValueArguments.contains e = true) :
    trailingOptions rest = rest.length := by
  rw [trailingOptions, List.takeWhile_eq_self_iff.mpr, List.length_reverse]
  intro e he
  exact h e (List.mem_reverse.mp he)

/-- An element in front counts only if everything behind it does. -/
theorem trailingOptions_cons_of_exists
    (h : ¬∀ e ∈ rest, kOneValueArguments.contains e = true) :
    trailingOptions (a :: rest) = trailingOptions rest := by
  rw [trailingOptions, List.reverse_cons, List.takeWhile_append, if_neg, trailingOptions]
  intro hall
  apply h
  intro e he
  have hself := (List.takeWhile_prefix kOneValueArguments.contains).eq_of_length hall
  exact List.takeWhile_eq_self_iff.mp hself e (List.mem_reverse.mpr he)

theorem trailingOptions_cons_of_plain (ha : kOneValueArguments.contains a = false) :
    trailingOptions (a :: rest) = trailingOptions rest := by
  by_cases h : ∀ e ∈ rest, kOneValueArguments.contains e = true
  · have hrest : ∀ e ∈ rest.reverse, kOneValueArguments.contains e = true :=
      fun e he => h e (List.mem_reverse.mp he)
    rw [trailingOptions, List.reverse_cons, List.takeWhile_append_of_pos hrest,
      List.takeWhile_cons_of_neg (by rw [ha]; decide), List.append_nil, List.length_reverse,
      trailingOptions_of_forall h]
  · exact trailingOptions_cons_of_exists h

/-- An option takes its value with it, whatever that is. -/
theorem even_trailingOptions_cons_cons (ha : kOneValueArguments.contains a = true) :
    Even (trailingOptions (a :: v :: rest)) ↔ Even (trailingOptions rest) := by
  cases hv : kOneValueArguments.contains v with
  | false =>
      have h : ¬∀ e ∈ v :: rest, kOneValueArguments.contains e = true := by
        intro hall
        rw [hall v (List.mem_cons_self ..)] at hv
        cases hv
      rw [trailingOptions_cons_of_exists h, trailingOptions_cons_of_plain hv]
  | true =>
      by_cases h : ∀ e ∈ rest, kOneValueArguments.contains e = true
      · have hboth : ∀ e ∈ a :: v :: rest, kOneValueArguments.contains e = true := by
          rw [List.forall_mem_cons, List.forall_mem_cons]
          exact ⟨ha, hv, h⟩
        rw [trailingOptions_of_forall hboth, trailingOptions_of_forall h, List.length_cons,
          List.length_cons, Nat.even_add_one, Nat.even_add_one, not_not]
      · have h' : ¬∀ e ∈ v :: rest, kOneValueArguments.contains e = true :=
          fun hall => h fun e he => hall e (List.mem_cons_of_mem _ he)
        rw [trailingOptions_cons_of_exists h', trailingOptions_cons_of_exists h]

end Trailing

/-! ## One iteration -/

section Step

variable {argv : List Bytes} {i n : ℕ} {args : List (Arg × OptionArgs)} {filenames : List Arg}

theorem load_of_some {a : Bytes} (h : argv[i]? = some a) : load argv i = .ok ⟨i, a⟩ := by
  rw [load, h]

theorem load_of_le (h : argv.length ≤ i) : load argv i = .error (.read i) := by
  rw [load, List.getElem?_eq_none h]

theorem range_append_range' (i n : ℕ) : List.range i ++ List.range' i n = List.range (i + n) := by
  rw [List.range_eq_range', List.range_eq_range', ← List.range'_append_1, Nat.zero_add]

theorem Splits.empty : Splits argv 0 [] [] where
  loaded _ he := by cases he
  named _ hf := by cases hf
  value _ he := by cases he
  covered := List.Perm.refl _
  optionsInOrder := List.Sublist.refl _
  filenamesInOrder := List.Sublist.refl _

/-- The next elements are an option with its values. -/
theorem Splits.option (h : Splits argv i args filenames) {e : Arg × OptionArgs}
    (hload : argv[e.1.place]? = some e.1.str)
    (hvalue : e.2 = if kOneValueArguments.contains e.1.str then ⟨e.1.place + 1, 1⟩ else ⟨0, 0⟩)
    (hplaces : e.1.place :: e.2.places = List.range' i n) :
    Splits argv (i + n) (args ++ [e]) filenames := by
  have hoptions : ParsedArgs.optionPlaces (args ++ [e]) =
      ParsedArgs.optionPlaces args ++ List.range' i n := by
    rw [ParsedArgs.optionPlaces, List.flatMap_append, List.flatMap_singleton, hplaces]
    rfl
  refine ⟨?_, h.named, ?_, ?_, ?_, ?_⟩
  · exact List.forall_mem_append.mpr ⟨h.loaded, List.forall_mem_singleton.mpr hload⟩
  · exact List.forall_mem_append.mpr ⟨h.value, List.forall_mem_singleton.mpr hvalue⟩
  · rw [hoptions, ← range_append_range']
    calc ParsedArgs.optionPlaces args ++ List.range' i n ++ filenames.map Arg.place
        _ ~ ParsedArgs.optionPlaces args ++ filenames.map Arg.place ++ List.range' i n := by
          rw [List.append_assoc, List.append_assoc]
          exact List.perm_append_comm.append_left _
        _ ~ List.range i ++ List.range' i n := h.covered.append_right _
  · rw [hoptions, ← range_append_range']
    exact h.optionsInOrder.append (List.Sublist.refl _)
  · rw [← range_append_range']
    exact h.filenamesInOrder.trans (List.sublist_append_left _ _)

/-- The next element is a file name. -/
theorem Splits.filename (h : Splits argv i args filenames) {f : Arg}
    (hload : argv[f.place]? = some f.str) (hplace : f.place = i) :
    Splits argv (i + 1) args (filenames ++ [f]) := by
  refine ⟨h.loaded, ?_, h.value, ?_, ?_, ?_⟩
  · exact List.forall_mem_append.mpr ⟨h.named, List.forall_mem_singleton.mpr hload⟩
  · rw [List.map_append, List.map_singleton, hplace, List.range_succ, ← List.append_assoc]
    exact h.covered.append_right _
  · rw [List.range_succ]
    exact h.optionsInOrder.trans (List.sublist_append_left _ _)
  · rw [List.map_append, List.map_singleton, hplace, List.range_succ]
    exact h.filenamesInOrder.append (List.Sublist.refl _)

/-- What one iteration does with the element at its index. -/
theorem parseStep_cases {s : ParseState} {a : Bytes} (h : argv[s.i]? = some a) :
    (kOneValueArguments.contains a = true ∧
      parseStep argv s =
        .ok { s with i := s.i + 2, args := s.args ++ [(⟨s.i, a⟩, ⟨s.i + 1, 1⟩)] }) ∨
    (kOneValueArguments.contains a = false ∧ a.head? = some (ascii '-') ∧
      parseStep argv s = .ok { s with i := s.i + 1, args := s.args ++ [(⟨s.i, a⟩, ⟨0, 0⟩)] }) ∨
    (kOneValueArguments.contains a = false ∧ a.head? ≠ some (ascii '-') ∧
      parseStep argv s = .ok { s with i := s.i + 1, filenames := s.filenames ++ [⟨s.i, a⟩] }) := by
  rw [parseStep, load_of_some h, ok_bind]
  cases hvalue : kOneValueArguments.contains a with
  | true => exact .inl ⟨rfl, if_pos rfl⟩
  | false =>
      rw [if_neg Bool.false_ne_true]
      by_cases hdash : a.head? = some (ascii '-')
      · exact .inr (.inl ⟨rfl, hdash, if_pos hdash⟩)
      · exact .inr (.inr ⟨rfl, hdash, if_neg hdash⟩)

theorem parseStep_of_le {s : ParseState} (h : argv.length ≤ s.i) :
    parseStep argv s = .error (.read s.i) := by
  rw [parseStep, load_of_le h, error_bind]

end Step

/-! ## The loop -/

section Loop

variable {argv : List Bytes} {i : ℕ} {a : Bytes}

theorem drop_of_some (h : argv[i]? = some a) : argv.drop i = a :: argv.drop (i + 1) := by
  obtain ⟨hi, rfl⟩ := List.getElem?_eq_some_iff.mp h
  exact List.drop_eq_getElem_cons hi

/-- An option with a value keeps the parity of the row at the end if it is not the last
element; alone it is a row of one. -/
theorem even_drop_add_two (h : argv[i]? = some a) (ha : kOneValueArguments.contains a = true) :
    Even (trailingOptions (argv.drop i)) ↔
      i + 1 < argv.length ∧ Even (trailingOptions (argv.drop (i + 2))) := by
  rw [drop_of_some h]
  cases hnext : argv[i + 1]? with
  | none =>
      have hend := List.getElem?_eq_none_iff.mp hnext
      have hlast : ∀ e ∈ [a], kOneValueArguments.contains e = true :=
        List.forall_mem_singleton.mpr ha
      rw [List.drop_eq_nil_of_le hend, trailingOptions_of_forall hlast]
      constructor
      · intro hodd
        exact absurd hodd Nat.not_even_one
      · rintro ⟨hlt, -⟩
        omega
  | some v =>
      have hlt := (List.getElem?_eq_some_iff.mp hnext).1
      rw [drop_of_some hnext, even_trailingOptions_cons_cons ha]
      exact (and_iff_right hlt).symm

theorem even_drop_succ (h : argv[i]? = some a) (ha : kOneValueArguments.contains a = false) :
    Even (trailingOptions (argv.drop i)) ↔ Even (trailingOptions (argv.drop (i + 1))) := by
  rw [drop_of_some h, trailingOptions_cons_of_plain ha]

/-- The loop is in front of an even row of options at the end. -/
structure ParsesToEnd (argv : List Bytes) (s : ParseState) : Prop where
  le : s.i ≤ argv.length
  splits : Splits argv s.i s.args s.filenames
  even : Even (trailingOptions (argv.drop s.i))

/-- The loop is in front of an odd row, or behind the end. -/
def ParsesPastEnd (argv : List Bytes) (s : ParseState) : Prop :=
  s.i < argv.length ∧ ¬Even (trailingOptions (argv.drop s.i)) ∨ s.i = argv.length + 1

theorem lt_of_not_even_drop (hle : i ≤ argv.length)
    (hodd : ¬Even (trailingOptions (argv.drop i))) : i < argv.length := by
  refine lt_of_le_of_ne hle ?_
  rintro rfl
  rw [List.drop_length] at hodd
  exact hodd (by decide)

theorem ParsesToEnd.step {s : ParseState} (h : ParsesToEnd argv s) (hcond : s.i ≠ argv.length) :
    ∃ t, parseStep argv s = .ok t ∧ ParsesToEnd argv t ∧
      argv.length - t.i < argv.length - s.i := by
  obtain ⟨hle, hsplits, hparity⟩ := h
  have hlt : s.i < argv.length := lt_of_le_of_ne hle hcond
  obtain ⟨a, ha⟩ : ∃ a, argv[s.i]? = some a := ⟨_, List.getElem?_eq_getElem hlt⟩
  rcases parseStep_cases ha with ⟨hvalue, hstep⟩ | ⟨hplain, -, hstep⟩ | ⟨hplain, -, hstep⟩
  · obtain ⟨hnext, hrest⟩ := (even_drop_add_two ha hvalue).mp hparity
    refine ⟨_, hstep, ⟨hnext, ?_, hrest⟩, by simp only; omega⟩
    exact hsplits.option ha (by rw [if_pos hvalue]) rfl
  · refine ⟨_, hstep, ⟨hlt, ?_, (even_drop_succ ha hplain).mp hparity⟩, by simp only; omega⟩
    exact hsplits.option ha (by rw [if_neg (by rw [hplain]; decide)]) rfl
  · refine ⟨_, hstep, ⟨hlt, ?_, (even_drop_succ ha hplain).mp hparity⟩, by simp only; omega⟩
    exact hsplits.filename ha rfl

theorem ParsesPastEnd.step {s : ParseState} (h : ParsesPastEnd argv s) :
    parseStep argv s = .error (.read (argv.length + 1)) ∨
      ∃ t, parseStep argv s = .ok t ∧ ParsesPastEnd argv t ∧
        argv.length + 1 - t.i < argv.length + 1 - s.i := by
  rcases h with ⟨hlt, hparity⟩ | hend
  · obtain ⟨a, ha⟩ : ∃ a, argv[s.i]? = some a := ⟨_, List.getElem?_eq_getElem hlt⟩
    rcases parseStep_cases ha with ⟨hvalue, hstep⟩ | ⟨hplain, -, hstep⟩ | ⟨hplain, -, hstep⟩
    · refine .inr ⟨_, hstep, ?_, by simp only; omega⟩
      by_cases hnext : s.i + 1 < argv.length
      · have hrest : ¬Even (trailingOptions (argv.drop (s.i + 2))) := fun h =>
          hparity ((even_drop_add_two ha hvalue).mpr ⟨hnext, h⟩)
        exact .inl ⟨lt_of_not_even_drop hnext hrest, hrest⟩
      · exact .inr (by simp only; omega)
    all_goals
      have hrest := mt (even_drop_succ ha hplain).mpr hparity
      exact .inr ⟨_, hstep, .inl ⟨lt_of_not_even_drop hlt hrest, hrest⟩, by simp only; omega⟩
  · left
    rw [parseStep_of_le (by omega), hend]

/-- With an even row of options at the end, the loop stops at the end of the command line. -/
theorem parse_ok (heven : Even (trailingOptions argv)) :
    ∃ s, parse argv = .ok s ∧ Splits argv argv.length s.args s.filenames := by
  have hbody : ∀ s, ParsesToEnd argv s → (s.i != argv.length) = true →
      ∃ t, parseStep argv s = .ok t ∧ ParsesToEnd argv t ∧
        argv.length - t.i < argv.length - s.i := fun s h hcond => h.step (bne_iff_ne.mp hcond)
  have hstart : ParsesToEnd argv ⟨0, [], []⟩ := ⟨Nat.zero_le _, Splits.empty, heven⟩
  obtain ⟨s, hs, ⟨-, hsplits, -⟩, hcond⟩ :=
    whileLoop_ok ArgsFault.diverged hbody (argv.length + 2) _ hstart (by simp only; omega)
  have hend : s.i = argv.length := bne_eq_false_iff_eq.mp hcond
  exact ⟨s, hs, hend ▸ hsplits⟩

/-- With an odd row, the last option takes the end for its value, and the loop goes on behind
it. -/
theorem parse_error (hodd : ¬Even (trailingOptions argv)) :
    parse argv = .error (.read (argv.length + 1)) := by
  refine whileLoop_error ArgsFault.diverged (I := ParsesPastEnd argv)
    (μ := fun s => argv.length + 1 - s.i) ?_ (fun s h => h.step) _ _ ?_ ?_
  · rintro s (⟨hlt, -⟩ | hend)
    · exact bne_iff_ne.mpr hlt.ne
    · exact bne_iff_ne.mpr (by omega)
  · exact .inl ⟨lt_of_not_even_drop (Nat.zero_le _) hodd, hodd⟩
  · simp only
    omega

end Loop

/-! ## What is read later -/

namespace Splits

variable {argv : List Bytes} {args : List (Arg × OptionArgs)} {filenames : List Arg}

theorem lt_of_mem_places (h : Splits argv argv.length args filenames) {e : Arg × OptionArgs}
    (he : e ∈ args) : ∀ i ∈ e.2.places, i < argv.length := by
  intro i hi
  refine List.mem_range.mp (h.optionsInOrder.subset ?_)
  exact List.mem_flatMap.mpr ⟨e, he, List.mem_cons_of_mem _ hi⟩

/-- The value of an option is read where it stands. -/
theorem load_eq (h : Splits argv argv.length args filenames) {e : Arg × OptionArgs}
    (he : e ∈ args) : e.2.load argv = .ok (e.2.places.filterMap (argv[·]?)) := by
  have hlt := h.lt_of_mem_places he
  rw [OptionArgs.load, ← OptionArgs.places]
  generalize e.2.places = places at hlt ⊢
  induction places with
  | nil => rfl
  | cons i places ih =>
      rw [List.forall_mem_cons] at hlt
      have hi := List.getElem?_eq_getElem hlt.1
      rw [List.mapM_cons, load_of_some hi, ih hlt.2, List.filterMap_cons_some hi]
      rfl

end Splits

namespace ParsedArgs

variable {argv : List Bytes} {p : ParsedArgs}

/-- An option whose values can be read is left out or appended with them. -/
theorem rewriteStep_eq {remove removePrefix result values : List Bytes} {e : Arg × OptionArgs}
    (h : e.2.load argv = .ok values) :
    rewriteStep argv remove removePrefix result e =
      .ok (result ++ if !remove.contains e.1.str && !removePrefix.any (·.isPrefixOf e.1.str) then
        e.1.str :: values else []) := by
  rw [rewriteStep, h]
  cases remove.contains e.1.str with
  | true => simp
  | false =>
      cases removePrefix.any (·.isPrefixOf e.1.str) with
      | true => simp
      | false => simp

/-- `Rewrite` reads values only, and does on the command line what it does with the values in
place. -/
theorem rewrite_eq (h : Splits argv argv.length p.args p.filenames)
    (remove removePrefix add : List Bytes) (keepFilenames : Bool) :
    p.rewrite argv remove removePrefix add keepFilenames =
      .ok ((p.view argv).rewrite remove removePrefix add keepFilenames) := by
  have hloop : ∀ (args : List (Arg × OptionArgs)) (result : List Bytes),
      (∀ e ∈ args, e.2.load argv = .ok (e.2.places.filterMap (argv[·]?))) →
      args.foldlM (rewriteStep argv remove removePrefix) result =
        .ok (result ++ ((args.map fun e => (e.1.str, e.2.places.filterMap (argv[·]?))).filter
          fun e => !remove.contains e.1 && !removePrefix.any (·.isPrefixOf e.1)).flatMap
            fun e => e.1 :: e.2) := by
    intro args
    induction args with
    | nil =>
        intro result _
        rw [List.map_nil, List.filter_nil, List.flatMap_nil, List.append_nil]
        rfl
    | cons e args ih =>
        intro result hargs
        rw [List.forall_mem_cons] at hargs
        rw [List.foldlM_cons, rewriteStep_eq hargs.1, ok_bind, ih _ hargs.2, List.map_cons,
          List.filter_cons, List.append_assoc]
        split
        · rw [List.flatMap_cons]
        · rw [List.nil_append]
  have hload : ∀ e ∈ p.args, e.2.load argv = .ok (e.2.places.filterMap (argv[·]?)) :=
    fun e he => h.load_eq he
  rw [rewrite, hloop _ _ hload]
  rfl

/-- The value of an option that takes one is found in place, and is read inside. -/
theorem tryGet_some (h : Splits argv argv.length p.args p.filenames) {key : Bytes}
    (hkey : kOneValueArguments.contains key = true) {opt : OptionArgs}
    (hopt : p.tryGet key = some opt) :
    ∃ value, load argv opt.data = .ok ⟨opt.data, value⟩ ∧
      (p.view argv).tryGet key = some [value] := by
  obtain ⟨e, hfind, rfl⟩ := Option.map_eq_some_iff.mp hopt
  have he := List.mem_of_find?_eq_some hfind
  have hname := List.find?_some hfind
  rw [beq_iff_eq] at hname
  have hvalue := h.value e he
  rw [hname, if_pos hkey] at hvalue
  have hplaces : e.2.places = [e.2.data] := by
    rw [OptionArgs.places, hvalue]
    rfl
  have hlt : e.2.data < argv.length := by
    apply h.lt_of_mem_places he
    rw [hplaces]
    exact List.mem_singleton_self _
  have hload := List.getElem?_eq_getElem hlt
  refine ⟨_, load_of_some hload, ?_⟩
  have hview : (p.view argv).args.find? (fun e => e.1 == key) =
      some (e.1.str, e.2.places.filterMap (argv[·]?)) := by
    rw [view, List.find?_map, Function.comp_def, hfind]
    rfl
  rw [CompilerArgs.tryGet, hview, Option.map_some, hplaces, List.filterMap_cons_some hload]
  rfl

theorem tryGet_none {key : Bytes} (hopt : p.tryGet key = none) :
    (p.view argv).tryGet key = none := by
  rw [tryGet, Option.map_eq_none_iff] at hopt
  rw [CompilerArgs.tryGet, view, List.find?_map, Function.comp_def, hopt]
  rfl

/-- The output file is asked for without a read behind the command line: an option `-o` has a
value. -/
theorem getOutputFile_inside (h : Splits argv argv.length p.args p.filenames) (index : ℕ) :
    p.getOutputFile argv ≠ .error (.read index) := by
  rw [getOutputFile]
  split
  · next opt hopt =>
      obtain ⟨value, hload, -⟩ := tryGet_some h (by decide) hopt
      rw [hload]
      nofun
  · split
    · nofun
    · nofun

/-- The elements at all places, in order, are the command line. -/
theorem filterMap_range (argv : List Bytes) :
    (List.range argv.length).filterMap (argv[·]?) = argv := by
  induction argv with
  | nil => rfl
  | cons a argv ih =>
      have hhead : (a :: argv)[0]? = some a := rfl
      rw [List.length_cons, List.range_succ_eq_map, List.filterMap_cons_some hhead,
        List.filterMap_map]
      exact congrArg (a :: ·) ih

/-- The words of an option are what stands at its places. -/
theorem optionWords_eq (h : Splits argv argv.length p.args p.filenames) :
    ((p.view argv).args.flatMap fun e => e.1 :: e.2) =
      (optionPlaces p.args).filterMap (argv[·]?) := by
  rw [view, optionPlaces, List.flatMap_map, List.filterMap_flatMap]
  refine List.flatMap_congr fun e he => ?_
  rw [List.filterMap_cons_some (h.loaded e he)]

theorem filenames_eq (h : Splits argv argv.length p.args p.filenames) :
    (p.view argv).filenames = (p.filenames.map Arg.place).filterMap (argv[·]?) := by
  change p.filenames.map Arg.str = _
  rw [List.filterMap_map, ← List.filterMap_eq_map]
  refine List.filterMap_congr fun f hf => ?_
  exact (h.named f hf).symm

/-- With nothing removed and nothing added, the command line comes back with its file names
behind its options. -/
theorem rewrite_perm (h : Splits argv argv.length p.args p.filenames) :
    ((p.view argv).rewrite [] [] [] true).args.Perm argv ∧
      ((p.view argv).args.flatMap fun e => e.1 :: e.2).Sublist argv ∧
      (p.view argv).filenames.Sublist argv := by
  have hargs : ((p.view argv).rewrite [] [] [] true).args =
      ((p.view argv).args.flatMap fun e => e.1 :: e.2) ++ (p.view argv).filenames := by
    simp [CompilerArgs.rewrite]
  have hcovered := h.covered.filterMap (argv[·]?)
  have hoptions := h.optionsInOrder.filterMap (argv[·]?)
  have hfilenames := h.filenamesInOrder.filterMap (argv[·]?)
  rw [filterMap_range] at hcovered hoptions hfilenames
  rw [List.filterMap_append] at hcovered
  rw [hargs, optionWords_eq h, filenames_eq h]
  exact ⟨hcovered, hoptions, hfilenames⟩

end ParsedArgs

/-! ## Which command lines are parsed -/

/-- A constructor that returns has split the whole command line. -/
theorem splits_of_construct {argv : List Bytes} {p : ParsedArgs}
    (h : ParsedArgs.construct argv = .ok p) : Splits argv argv.length p.args p.filenames := by
  rw [ParsedArgs.construct] at h
  split at h
  · cases h
  · by_cases heven : Even (trailingOptions argv)
    · obtain ⟨s, hs, hsplits⟩ := parse_ok heven
      rw [hs] at h
      cases h
      exact hsplits
    · rw [parse_error heven] at h
      cases h

/-- The constructor and what is called later read inside the command line only, and nothing of
it is lost: each element is the name or the value of one option or is one file name, and
`Rewrite` keeps, drops and adds whole options in order. -/
def ParsedInside (argv : List Bytes) : Prop :=
  ∃ p, ParsedArgs.construct argv = .ok p ∧ Splits argv argv.length p.args p.filenames ∧
    (∀ index, p.getOutputFile argv ≠ .error (.read index)) ∧
    (∀ remove removePrefix add keepFilenames,
      p.rewrite argv remove removePrefix add keepFilenames =
        .ok ((p.view argv).rewrite remove removePrefix add keepFilenames)) ∧
    ((p.view argv).rewrite [] [] [] true).args.Perm argv ∧
    ((p.view argv).args.flatMap fun e => e.1 :: e.2).Sublist argv ∧
    (p.view argv).filenames.Sublist argv

/-- The command line is parsed as it stands exactly when the options with a value that stand in
a row at its end are even in number. Of an odd row the last takes the end of the command line
for its value, and the next read is behind that. -/
theorem parsedInside_iff (argv : List Bytes) (hargc : 1 ≤ argv.length) :
    ParsedInside argv ↔ Even (trailingOptions argv) := by
  constructor
  · rintro ⟨p, hp, -⟩
    by_contra hodd
    rw [ParsedArgs.construct, if_neg (by omega), parse_error hodd, error_bind] at hp
    cases hp
  · intro heven
    obtain ⟨s, hs, hsplits⟩ := parse_ok heven
    let p : ParsedArgs :=
      { compiler := []
        args := s.args
        filenames := s.filenames
        rebuilt := (argv.flatMap fun e => escapeCommandArgument e ++ asciiBytes " ").dropLast }
    have hp : ParsedArgs.construct argv = .ok p := by
      rw [ParsedArgs.construct, if_neg (by omega), hs, ok_bind]
    have hsplits : Splits argv argv.length p.args p.filenames := hsplits
    exact ⟨p, hp, hsplits, ParsedArgs.getOutputFile_inside hsplits, ParsedArgs.rewrite_eq hsplits,
      ParsedArgs.rewrite_perm hsplits⟩

/-- `-c a.cc -o a.o`. -/
theorem parsedInside_output :
    ParsedInside (["-c", "a.cc", "-o", "a.o"].map asciiBytes) :=
  (parsedInside_iff _ (by decide)).mpr (by decide +kernel)

/-- `-c a.cc -o`: the constructor reads the element behind the terminating null. -/
theorem overread_of_output_without_value :
    ParsedArgs.construct (["-c", "a.cc", "-o"].map asciiBytes) = .error (.read 4) ∧
      ¬ParsedInside (["-c", "a.cc", "-o"].map asciiBytes) := by
  have hodd : ¬Even (trailingOptions (["-c", "a.cc", "-o"].map asciiBytes)) := by decide +kernel
  constructor
  · rw [ParsedArgs.construct, if_neg (by decide), parse_error hodd, error_bind]
    rfl
  · rintro ⟨p, hp, -⟩
    rw [ParsedArgs.construct, if_neg (by decide), parse_error hodd, error_bind] at hp
    cases hp

end Yadcc.Client
