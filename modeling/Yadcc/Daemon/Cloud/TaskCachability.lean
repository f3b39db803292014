/-
# Which tasks may be written to the cache

The servant looks for the definitions of the time macros in the arguments as one string, and
for the macros in the source. The arguments were escaped and joined by the client, which
leaves the definitions as they stand in the words, but does not keep them at the front of one.
-/

import Yadcc.Daemon.TaskIdentity

namespace Yadcc.Daemon.Cloud

open Yadcc.Lib
open Yadcc.Lib.Shell (ascii asciiBytes)
open Yadcc.Client (RewrittenArgs controlEscape backslashed escapeByte escapeCommandArgument)

/-! ## Plain text in a rendered command line -/

/-- Bytes that stand in escaped text only for themselves. -/
def plainByte (b : UInt8) : Bool :=
  (controlEscape b).isNone && !backslashed b &&
    !(['a', 'b', 'f', 'n', 'r', 't', 'v'].map ascii).contains b

/-- An escaped byte is the byte, or a backslash and a byte that is not plain either. -/
theorem escapeByte_plain_cases (c : UInt8) :
    escapeByte c = [c] ∨ ∃ b, escapeByte c = [ascii '\\', b] ∧ plainByte b = false := by
  have hletter : ∀ letter ∈ Client.controlLetters, plainByte letter = false :=
    Client.forall_mem_of_all (by decide +kernel)
  rcases Client.escapeByte_cases c with ⟨letter, hcontrol, hescape⟩ | ⟨-, hback, hescape⟩ |
    ⟨-, -, hescape⟩
  · exact .inr ⟨letter, hescape, hletter letter (Client.mem_controlLetters hcontrol)⟩
  · exact .inr ⟨c, hescape, by simp [plainByte, hback]⟩
  · exact .inl hescape

section Plain

variable {p : Bytes}

theorem notMem_of_not_plain (hp : ∀ b ∈ p, plainByte b = true) {c : UInt8}
    (hc : plainByte c = false) : c ∉ p := by
  intro hmem
  rw [hp c hmem] at hc
  cases hc

/-- The escaping of a word starts with a plain pattern only if the word does. -/
theorem prefix_of_prefix_escape (hp : ∀ b ∈ p, plainByte b = true) {w : Bytes}
    (h : p <+: escapeCommandArgument w) : p <+: w := by
  induction w generalizing p with
  | nil => exact h
  | cons c w ih =>
      cases p with
      | nil => exact List.nil_prefix
      | cons b p =>
          rw [escapeCommandArgument, List.flatMap_cons] at h
          rcases escapeByte_plain_cases c with hescape | ⟨x, hescape, -⟩
          · rw [hescape, List.singleton_append, List.cons_prefix_cons] at h
            obtain ⟨rfl, h⟩ := h
            rw [List.cons_prefix_cons]
            exact ⟨rfl, ih (fun b hb => hp b (List.mem_cons_of_mem _ hb)) h⟩
          · rw [hescape, List.cons_append, List.cons_prefix_cons] at h
            have hbackslash := hp b (List.mem_cons_self ..)
            rw [h.1] at hbackslash
            exact absurd hbackslash (by decide)

theorem escape_plain (hp : ∀ b ∈ p, plainByte b = true) : escapeCommandArgument p = p := by
  induction p with
  | nil => rfl
  | cons b p ih =>
      have hb : escapeByte b = [b] := by
        have hplain := hp b (List.mem_cons_self ..)
        rcases Client.escapeByte_cases b with
          ⟨letter, hcontrol, -⟩ | ⟨-, hback, -⟩ | ⟨-, -, hescape⟩
        · simp [plainByte, hcontrol] at hplain
        · simp [plainByte, hback] at hplain
        · exact hescape
      have hrest := ih fun c hc => hp c (List.mem_cons_of_mem _ hc)
      rw [escapeCommandArgument] at hrest ⊢
      rw [List.flatMap_cons, hb, hrest, List.singleton_append]

/-- A plain pattern stands in an escaped word if it stands in the word. -/
theorem infix_escape_iff (hp : ∀ b ∈ p, plainByte b = true) {w : Bytes} :
    p <:+: escapeCommandArgument w ↔ p <:+: w := by
  constructor
  · intro h
    induction w with
    | nil => exact h
    | cons c w ih =>
        rw [List.infix_cons_iff]
        by_cases hprefix : p <+: escapeCommandArgument (c :: w)
        · exact .inl (prefix_of_prefix_escape hp hprefix)
        · rw [escapeCommandArgument, List.flatMap_cons] at h hprefix
          rcases escapeByte_plain_cases c with hescape | ⟨x, hescape, hx⟩
          · rw [hescape, List.singleton_append] at h hprefix
            exact .inr (ih ((List.infix_cons_iff.mp h).resolve_left hprefix))
          · -- Neither byte of the pair is in the pattern.
            rw [hescape, List.cons_append, List.singleton_append] at h hprefix
            have hpair : p <:+: [] ++ x :: w.flatMap escapeByte :=
              (List.infix_cons_iff.mp h).resolve_left hprefix
            rcases (infix_append_cons_iff (notMem_of_not_plain hp hx)).mp hpair with hnil | hrest
            · exact .inr (hnil.trans List.nil_infix)
            · exact .inr (ih hrest)
  · rintro ⟨front, rest, rfl⟩
    have hplain := escape_plain hp
    refine ⟨escapeCommandArgument front, escapeCommandArgument rest, ?_⟩
    simp only [escapeCommandArgument, List.flatMap_append] at hplain ⊢
    rw [hplain]

/-- A plain pattern stands in a rendered command line if it stands in one of its words. -/
theorem infix_toCommandLine_iff (hp : ∀ b ∈ p, plainByte b = true) (hne : p ≠ [])
    (r : RewrittenArgs) : p <:+: r.toCommandLine false ↔ ∃ w ∈ r.args, p <:+: w := by
  have hblank := notMem_of_not_plain hp (c := ascii ' ') (by decide)
  have hnil : ¬p <:+: [] := fun h => hne (List.infix_nil.mp h)
  have hwords : ∀ words : List Bytes,
      (p <:+: words.flatMap fun e => escapeCommandArgument e ++ asciiBytes " ") ↔
        ∃ w ∈ words, p <:+: w := by
    intro words
    induction words with
    | nil => simp [hnil]
    | cons w words ih =>
        rw [List.flatMap_cons, List.append_assoc]
        refine (infix_append_cons_iff hblank).trans ?_
        rw [infix_escape_iff hp, List.exists_mem_cons_iff, ← ih]
        rfl
  rw [← hwords, RewrittenArgs.toCommandLine, if_neg Bool.false_ne_true, List.nil_append]
  -- The last blank that goes is not in the pattern.
  rcases List.eq_nil_or_concat r.args with hargs | ⟨words, w, hargs⟩
  · rw [hargs]
    rfl
  · rw [hargs, List.concat_eq_append, List.flatMap_append, List.flatMap_singleton,
      ← List.append_assoc]
    change p <:+: (_ ++ [ascii ' ']).dropLast ↔ p <:+: _ ++ [ascii ' ']
    rw [List.dropLast_concat]
    exact ⟨fun h => (infix_append_cons_iff hblank).mpr (.inl h),
      fun h => ((infix_append_cons_iff hblank).mp h).resolve_right hnil⟩

end Plain

/-! ## The macros -/

/-- How an argument that defines the macro begins. -/
def definitionOf (name : String) : Bytes := asciiBytes ("-D" ++ name ++ "=")

/-- Each macro is defined by a word of its own. -/
def MacrosDefined (words : List Bytes) : Prop :=
  ∀ e ∈ kMacros, ∃ w ∈ words, definitionOf e <+: w

/-- The source has the name of a macro somewhere. -/
def MacrosMentioned (source : Bytes) : Prop := ∃ e ∈ kMacros, asciiBytes e <:+: source

theorem plain_definitionOf : ∀ e ∈ kMacros,
    (∀ b ∈ definitionOf e, plainByte b = true) ∧ definitionOf e ≠ [] := by
  decide +kernel

/-- What the two searches find. -/
theorem verifyTaskCachability_iff (r : RewrittenArgs) (source : Bytes) :
    verifyTaskCachability true (r.toCommandLine false) source = true ↔
      (∀ e ∈ kMacros, ∃ w ∈ r.args, definitionOf e <:+: w) ∨ ¬MacrosMentioned source := by
  have harguments : (kMacros.all fun e =>
      (find (asciiBytes ("-D" ++ e ++ "=")) (r.toCommandLine false)).isSome) = true ↔
        ∀ e ∈ kMacros, ∃ w ∈ r.args, definitionOf e <:+: w := by
    rw [List.all_eq_true]
    refine forall₂_congr fun e he => ?_
    obtain ⟨hplain, hne⟩ := plain_definitionOf e he
    rw [find_isSome_iff]
    exact infix_toCommandLine_iff hplain hne r
  have hsource : (kMacros.all fun e => (find (asciiBytes e) source).isNone) = true ↔
      ¬MacrosMentioned source := by
    rw [List.all_eq_true, MacrosMentioned, not_exists]
    refine forall_congr' fun e => ?_
    rw [not_and]
    refine imp_congr_right fun _ => ?_
    rw [← find_isSome_iff, Option.isNone_iff_eq_none, Option.not_isSome_iff_eq_none]
  rw [verifyTaskCachability, if_neg (by decide), ← harguments, ← hsource]
  split
  · next hall => exact iff_of_true rfl (.inl hall)
  · next hall => exact (or_iff_right hall).symm

section Cachability

variable (lib : SubmissionLibrary) (view : List Bytes → Bytes)

/-- A task is written to the cache, its source read through a view of its blocks, only if the
words define every macro or the source mentions none; and the test says exactly that. -/
def TimelessOnly (r : RewrittenArgs) (blocks : List Bytes) : Prop :=
  (verifyTaskCachability true (r.toCommandLine false) (view blocks) = true ↔
    MacrosDefined r.args ∨ ¬MacrosMentioned blocks.flatten) ∧
  ∀ (allowCache : Bool) (task : PreparedTask),
    task.writeCache = verifyTaskCachability allowCache (r.toCommandLine false) (view blocks) →
    (task.getCacheKey lib).isSome = true →
    MacrosDefined r.args ∨ ¬MacrosMentioned blocks.flatten

variable {lib view}

/-- The test is right unless the definitions stand in the words but not all of them at the
front of one, and the source mentions a macro. -/
theorem timelessOnly_iff (hview : ∀ blocks, view blocks = blocks.flatten) (r : RewrittenArgs)
    (blocks : List Bytes) :
    TimelessOnly lib view r blocks ↔
      ((∀ e ∈ kMacros, ∃ w ∈ r.args, definitionOf e <:+: w) →
        MacrosDefined r.args ∨ ¬MacrosMentioned blocks.flatten) := by
  have hverify := verifyTaskCachability_iff r blocks.flatten
  rw [TimelessOnly, hview]
  constructor
  · rintro ⟨htest, -⟩ hinside
    exact htest.mp (hverify.mpr (.inl hinside))
  · intro hfront
    have hright : MacrosDefined r.args ∨ ¬MacrosMentioned blocks.flatten ↔
        (∀ e ∈ kMacros, ∃ w ∈ r.args, definitionOf e <:+: w) ∨
          ¬MacrosMentioned blocks.flatten := by
      constructor
      · rintro (hdefined | hnone)
        · refine .inl fun e he => ?_
          obtain ⟨w, hw, hprefix⟩ := hdefined e he
          exact ⟨w, hw, hprefix.isInfix⟩
        · exact .inr hnone
      · rintro (hinside | hnone)
        · exact hfront hinside
        · exact .inr hnone
    refine ⟨hverify.trans hright.symm, ?_⟩
    intro allowCache task hwrite hkey
    apply hright.mpr
    apply hverify.mp
    cases allowCache with
    | true =>
        rw [← hwrite]
        by_contra hnot
        rw [PreparedTask.getCacheKey, if_neg hnot] at hkey
        cases hkey
    | false =>
        have hoff : task.writeCache = false := hwrite
        rw [PreparedTask.getCacheKey, hoff] at hkey
        cases hkey

end Cachability

namespace CachabilitySample

/-- `-D__TIME__=0 -D__DATE__=0 -D__TIMESTAMP__=0`. -/
def defined : RewrittenArgs :=
  ⟨[], ["-D__TIME__=0", "-D__DATE__=0", "-D__TIMESTAMP__=0"].map asciiBytes⟩

/-- One word of another definition, which has all three in its value. -/
def quoted : RewrittenArgs :=
  ⟨[], ["-DFLAGS=-D__TIME__=0-D__DATE__=0-D__TIMESTAMP__=0"].map asciiBytes⟩

/-- `a=__TIME__;` in two blocks. -/
def blocks : List Bytes := ["a=__TI", "ME__;"].map asciiBytes

end CachabilitySample

/-- With all macros defined a source that mentions one is cached. -/
theorem timelessOnly_defined :
    TimelessOnly Submission.sampleLibrary List.flatten CachabilitySample.defined
      CachabilitySample.blocks :=
  (timelessOnly_iff (fun _ => rfl) _ _).mpr fun _ => .inl (by
    unfold MacrosDefined
    decide +kernel)

/-- The definitions are found in the value of another one, and the task may be written to the
cache with its time. -/
theorem cached_time_of_quoted :
    ¬TimelessOnly Submission.sampleLibrary List.flatten CachabilitySample.quoted
      CachabilitySample.blocks := by
  rintro ⟨htest, -⟩
  have hverify : verifyTaskCachability true (CachabilitySample.quoted.toCommandLine false)
      CachabilitySample.blocks.flatten = true := by decide +kernel
  rcases htest.mp hverify with hdefined | hnone
  · unfold MacrosDefined at hdefined
    exact absurd hdefined (by decide +kernel)
  · unfold MacrosMentioned at hnone
    exact hnone (by decide +kernel)

end Yadcc.Daemon.Cloud
