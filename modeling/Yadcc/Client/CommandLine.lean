/-
# Compiler arguments through the servant's shell

The client escapes each argument of the compiler and joins them with blanks. The servant
pastes the result between its own compiler path and an output option and hands the line
to `sh -c`. This module determines for which arguments the shell gets back exactly the
words the client was given.
-/

import Yadcc.Lib.Shell

namespace Yadcc.Client

open Yadcc.Lib Yadcc.Lib.Shell

/-! ## The client's command line -/

/-- The letter that stands for a control character after a backslash. -/
def controlEscape (b : UInt8) : Option UInt8 :=
  if b = 7 then some (ascii 'a')
  else if b = 8 then some (ascii 'b')
  else if b = 12 then some (ascii 'f')
  else if b = 10 then some (ascii 'n')
  else if b = 13 then some (ascii 'r')
  else if b = 9 then some (ascii 't')
  else if b = 11 then some (ascii 'v')
  else none

/-- The bytes that are put behind a backslash as they are. -/
def backslashed (b : UInt8) : Bool :=
  ([' ', '>', '<', '!', '"', '#', '$', '&', '(', ')', '*', ',', ':', ';', '?', '@', '[', '\\',
    ']', '`', '{', '}'].map ascii).contains b

def escapeByte (b : UInt8) : Bytes :=
  match controlEscape b with
  | some letter => [ascii '\\', letter]
  | none => if backslashed b then [ascii '\\', b] else [b]

def escapeCommandArgument (str : Bytes) : Bytes := str.flatMap escapeByte

/-- The (possibly rewritten) arguments of a compiler invocation. -/
structure RewrittenArgs where
  program : Bytes
  args : List Bytes

namespace RewrittenArgs

/-- Every argument is escaped and followed by a blank; the last blank goes. -/
def toCommandLine (withProgram : Bool) (r : RewrittenArgs) : Bytes :=
  ((if withProgram then r.program ++ asciiBytes " " else []) ++
    r.args.flatMap fun e => escapeCommandArgument e ++ asciiBytes " ").dropLast

/-- Without escaping, for logs. -/
def toString (r : RewrittenArgs) : Bytes :=
  r.program ++ r.args.flatMap fun e => asciiBytes " " ++ e

end RewrittenArgs

/-- The last argument that the servant adds. -/
def outputPath (workspaceDir extraDepth : Bytes) : Bytes :=
  workspaceDir ++ asciiBytes "/" ++ extraDepth ++ asciiBytes "/output.o"

/-- The line that the servant passes to `sh -c`. -/
def servantCommandLine (compiler invocationArguments workspaceDir extraDepth : Bytes) : Bytes :=
  compiler ++ asciiBytes " " ++ invocationArguments ++ asciiBytes " -o " ++
    outputPath workspaceDir extraDepth

/-! ## Which arguments survive -/

/-- A login-name prefix that the escaping leaves unquoted. -/
def tildePrefix (a : Bytes) : Bool :=
  a.head? == some (ascii '~') && !(a.takeWhile (· != ascii '/')).any backslashed

/-- An argument that the shell reads back: it is not empty, holds no single quote, bar or
control character with an escape, and begins with no login-name prefix. -/
def Survives (a : Bytes) : Prop :=
  a ≠ [] ∧ (∀ b ∈ a, controlEscape b = none ∧ b ≠ ascii '\'' ∧ b ≠ ascii '|') ∧
    tildePrefix a = false

/-- A word of the servant's own that needs no quoting. -/
def PlainWord (w : Bytes) : Prop :=
  w ≠ [] ∧ ∀ b ∈ w, role b = .ordinary ∧ controlEscape b = none

/-! ## One byte -/

/-- A property of the bytes of a word can be checked along the word. -/
theorem forall_mem_of_all {w : Bytes} {p : UInt8 → Prop} [DecidablePred p]
    (h : (w.all fun b => decide (p b)) = true) : ∀ b ∈ w, p b := by
  intro b hb
  exact of_decide_eq_true (List.all_eq_true.mp h b hb)

/-- The letters of the control characters. -/
def controlLetters : Bytes := ['a', 'b', 'f', 'n', 'r', 't', 'v'].map ascii

theorem mem_controlLetters {b letter : UInt8} (h : controlEscape b = some letter) :
    letter ∈ controlLetters := by
  unfold controlEscape at h
  split_ifs at h
  all_goals
    cases h
    decide

theorem mem_of_backslashed {b : UInt8} (h : backslashed b = true) :
    b ∈ [' ', '>', '<', '!', '"', '#', '$', '&', '(', ')', '*', ',', ':', ';', '?', '@', '[', '\\',
      ']', '`', '{', '}'].map ascii :=
  List.contains_iff_mem.mp h

/-- What stands behind a backslash is no newline, no single quote and no control
character. -/
theorem backslashed_clean (b : UInt8) : backslashed b = true →
    b ≠ ascii '\n' ∧ b ≠ ascii '\'' ∧ controlEscape b = none := by
  intro h
  exact forall_mem_of_all (p := fun b => b ≠ ascii '\n' ∧ b ≠ ascii '\'' ∧ controlEscape b = none)
    (by decide +kernel) b (mem_of_backslashed h)

theorem letter_clean (b : UInt8) : ∀ letter ∈ controlEscape b,
    letter ≠ ascii '\n' ∧ letter ≠ ascii '\'' ∧ controlEscape letter = none := by
  intro letter h
  exact forall_mem_of_all (p := fun b => b ≠ ascii '\n' ∧ b ≠ ascii '\'' ∧ controlEscape b = none)
    (by decide +kernel) letter (mem_controlLetters h)

theorem ordinary_not_quote (b : UInt8) : role b = .ordinary → b ≠ ascii '\'' := by
  rintro h rfl
  exact absurd h (by decide)

/-- The three shapes of an escaped byte. -/
theorem escapeByte_cases (b : UInt8) :
    (∃ letter, controlEscape b = some letter ∧ escapeByte b = [ascii '\\', letter]) ∨
    (controlEscape b = none ∧ backslashed b = true ∧ escapeByte b = [ascii '\\', b]) ∨
    (controlEscape b = none ∧ backslashed b = false ∧ escapeByte b = [b]) := by
  unfold escapeByte
  cases hcontrol : controlEscape b with
  | some letter => exact .inl ⟨letter, rfl, rfl⟩
  | none =>
      cases hback : backslashed b with
      | true => exact .inr (.inl ⟨rfl, rfl, rfl⟩)
      | false => exact .inr (.inr ⟨rfl, rfl, rfl⟩)

/-- The bytes that mean something to the shell. -/
def shellBytes : Bytes :=
  [' ', '\t', '\n', '|', '&', ';', '<', '>', '(', ')', '$', '`', '*', '?', '[', '#', '~', '\\', '\'',
    '"'].map ascii

theorem role_of_notMem {b : UInt8} (h : b ∉ shellBytes) : role b = .ordinary := by
  simp only [shellBytes, List.map_cons, List.map_nil, List.mem_cons, List.not_mem_nil, not_or,
    or_false] at h
  simp [role, h]

/-- A byte that is neither a single quote nor a control character is put behind a
backslash, or stays and is ordinary, a bar or a tilde. -/
theorem escapeByte_clean (b : UInt8) : controlEscape b = none → b ≠ ascii '\'' →
    (escapeByte b = [ascii '\\', b] ∧ backslashed b = true ∧ b ≠ ascii '\n' ∧
      b ≠ ascii '|' ∧ b ≠ ascii '~' ∧ b ≠ ascii '/') ∨
    (escapeByte b = [b] ∧ backslashed b = false ∧ role b = .ordinary ∧
      b ≠ ascii '|' ∧ b ≠ ascii '~') ∨
    b = ascii '|' ∨ b = ascii '~' := by
  intro hcontrol hquote
  rcases escapeByte_cases b with ⟨letter, hletter, -⟩ | ⟨-, hback, hescape⟩ | ⟨-, hback, hescape⟩
  · rw [hcontrol] at hletter
    cases hletter
  · have hother := forall_mem_of_all
      (p := fun b => b ≠ ascii '\n' ∧ b ≠ ascii '|' ∧ b ≠ ascii '~' ∧ b ≠ ascii '/')
      (by decide +kernel) b (mem_of_backslashed hback)
    exact .inl ⟨hescape, hback, hother⟩
  · by_cases hmem : b ∈ shellBytes
    · have hleft := forall_mem_of_all (p := fun b => controlEscape b = none → b ≠ ascii '\'' →
        backslashed b = false → b = ascii '|' ∨ b = ascii '~') (by decide +kernel) b hmem
      exact .inr (.inr (hleft hcontrol hquote hback))
    · refine .inr (.inl ⟨hescape, hback, role_of_notMem hmem, ?_, ?_⟩)
      · rintro rfl
        exact hmem (by decide)
      · rintro rfl
        exact hmem (by decide)

/-- Of the bytes left as they are, only three mean something to the shell. -/
theorem role_of_unescaped {b : UInt8} (hcontrol : controlEscape b = none)
    (hback : backslashed b = false) :
    role b = .ordinary ∨ b = ascii '\'' ∨ b = ascii '|' ∨ b = ascii '~' := by
  by_cases hquote : b = ascii '\''
  · exact .inr (.inl hquote)
  · rcases escapeByte_clean b hcontrol hquote with ⟨-, hback', -⟩ | ⟨-, -, hb, -⟩ | hb | hb
    · rw [hback] at hback'
      cases hback'
    · exact .inl hb
    · exact .inr (.inr (.inl hb))
    · exact .inr (.inr (.inr hb))

theorem escapeCommandArgument_cons (b : UInt8) (a s : Bytes) :
    escapeCommandArgument (b :: a) ++ s = escapeByte b ++ (escapeCommandArgument a ++ s) := by
  simp [escapeCommandArgument]

/-! ## What can be read back at all -/

/-- A text made of escaped bytes, blanks and the servant's own bytes. -/
inductive Rendered : Bytes → Prop
  | nil : Rendered []
  | escaped (b : UInt8) {rest : Bytes} : Rendered rest → Rendered (escapeByte b ++ rest)
  | blank {rest : Bytes} : Rendered rest → Rendered (ascii ' ' :: rest)
  | plain {b : UInt8} {rest : Bytes} : role b = .ordinary → controlEscape b = none →
      Rendered rest → Rendered (b :: rest)

/-- No single quote and no control character with an escape. -/
def Clean (w : Bytes) : Prop := ∀ b ∈ w, controlEscape b = none ∧ b ≠ ascii '\''

theorem Clean.append {w : Bytes} (hw : Clean w) {b : UInt8} (hcontrol : controlEscape b = none)
    (hquote : b ≠ ascii '\'') : Clean (w ++ [b]) := by
  intro c hc
  rcases List.mem_append.mp hc with hc | hc
  · exact hw c hc
  · rw [List.mem_singleton.mp hc]
    exact ⟨hcontrol, hquote⟩

theorem clean_finish {word : Option Bytes} {words : List Bytes} (hword : Clean (word.getD []))
    (hwords : ∀ w ∈ words, Clean w) : ∀ w ∈ finish word words, Clean w := by
  cases word with
  | none => exact hwords
  | some v =>
      intro w hw
      rcases List.mem_cons.mp hw with rfl | hw
      · exact hword
      · exact hwords w hw

/-- Whatever the arguments were, no word that is read back has a single quote or a
control character: the escaping leaves no byte of either kind for the shell to return. -/
theorem Rendered.clean {text : Bytes} (h : Rendered text) :
    ∀ {mode : Mode} {word : Option Bytes} {words : List Bytes},
      readWords mode word text = some words → mode ≠ .double → Clean (word.getD []) →
      ∀ w ∈ words, Clean w := by
  induction h with
  | nil =>
      intro mode word words hread hmode hword
      cases mode with
      | unquoted =>
          cases hread
          exact clean_finish hword (fun w hw => by cases hw)
      | single => cases hread
      | double => exact absurd rfl hmode
  | @escaped b rest _ ih =>
      intro mode word words hread hmode hword
      cases mode with
      | double => exact absurd rfl hmode
      | unquoted =>
          rcases escapeByte_cases b with ⟨letter, hletter, heq⟩ | ⟨hcontrol, hback, heq⟩ |
            ⟨hcontrol, hback, heq⟩
          · obtain ⟨hnewline, hquote, hclean⟩ := letter_clean b letter hletter
            rw [heq, List.cons_append, List.cons_append, read_backslash hnewline] at hread
            exact ih hread hmode (hword.append hclean hquote)
          · obtain ⟨hnewline, hquote, hclean⟩ := backslashed_clean b hback
            rw [heq, List.cons_append, List.cons_append, read_backslash hnewline] at hread
            exact ih hread hmode (hword.append hclean hquote)
          · rw [heq, List.cons_append] at hread
            rcases role_of_unescaped hcontrol hback with hb | rfl | rfl | rfl
            · rw [read_ordinary hb] at hread
              exact ih hread hmode (hword.append hcontrol (ordinary_not_quote b hb))
            · rw [List.nil_append, read_quote] at hread
              exact ih hread (by decide) hword
            · rw [List.nil_append, read_bar] at hread
              cases hread
            · cases word with
              | some w =>
                  rw [List.nil_append, read_tilde_inside] at hread
                  exact ih hread hmode (hword.append (by decide) (by decide))
              | none =>
                  rw [List.nil_append, read_tilde_first] at hread
                  split at hread
                  · exact ih hread hmode (hword.append (by decide) (by decide))
                  · cases hread
      | single =>
          rcases escapeByte_cases b with ⟨letter, hletter, heq⟩ | ⟨hcontrol, hback, heq⟩ |
            ⟨hcontrol, hback, heq⟩
          · obtain ⟨-, hquote, hclean⟩ := letter_clean b letter hletter
            rw [heq, List.cons_append, List.cons_append, read_single (by decide),
              read_single hquote] at hread
            exact ih hread hmode ((hword.append (by decide) (by decide)).append hclean hquote)
          · obtain ⟨-, hquote, hclean⟩ := backslashed_clean b hback
            rw [heq, List.cons_append, List.cons_append, read_single (by decide),
              read_single hquote] at hread
            exact ih hread hmode ((hword.append (by decide) (by decide)).append hclean hquote)
          · rw [heq, List.cons_append] at hread
            by_cases hb : b = ascii '\''
            · rw [hb, List.nil_append, read_single_end] at hread
              exact ih hread (by decide) hword
            · rw [List.nil_append, read_single hb] at hread
              exact ih hread hmode (hword.append hcontrol hb)
  | @blank rest _ ih =>
      intro mode word words hread hmode hword
      cases mode with
      | double => exact absurd rfl hmode
      | unquoted =>
          rw [read_blank, Option.map_eq_some_iff] at hread
          obtain ⟨words', hread', rfl⟩ := hread
          exact clean_finish hword (ih hread' hmode fun b hb => by cases hb)
      | single =>
          rw [read_single (by decide)] at hread
          exact ih hread hmode (hword.append (by decide) (by decide))
  | @plain b rest hb hcontrol _ ih =>
      intro mode word words hread hmode hword
      have hquote := ordinary_not_quote b hb
      cases mode with
      | double => exact absurd rfl hmode
      | unquoted =>
          rw [read_ordinary hb] at hread
          exact ih hread hmode (hword.append hcontrol hquote)
      | single =>
          rw [read_single hquote] at hread
          exact ih hread hmode (hword.append hcontrol hquote)

/-! ## Reading one argument -/

/-- Where a word ends: at the end of the text or at a blank. -/
def Boundary (s : Bytes) : Prop := s = [] ∨ ∃ rest, s = ascii ' ' :: rest

theorem readWords_boundary {s : Bytes} (hs : Boundary s) (w : Bytes) :
    readWords .unquoted (some w) s = (readWords .unquoted none s).map (w :: ·) := by
  rcases hs with rfl | ⟨rest, rfl⟩
  · rfl
  · rw [read_blank, read_blank, Option.map_map]
    rfl

/-- An argument that the shell refuses, provided it has no single quote: it has a bar
outside quotes, or begins with a login name. -/
def refused (a : Bytes) : Bool := a.contains (ascii '|') || tildePrefix a

/-- In a word that has begun, an argument is read back as it is, up to a bar. -/
theorem read_argument_inside {a : Bytes} (ha : Clean a) (w s : Bytes) :
    readWords .unquoted (some w) (escapeCommandArgument a ++ s)
      = if a.contains (ascii '|') then none else readWords .unquoted (some (w ++ a)) s := by
  induction a generalizing w with
  | nil => simp [escapeCommandArgument]
  | cons b a ih =>
      have ih' := ih (fun c hc => ha c (List.mem_cons_of_mem _ hc)) (w ++ [b])
      have hword : w ++ [b] ++ a = w ++ b :: a := by simp
      rw [hword] at ih'
      obtain ⟨hcontrol, hquote⟩ := ha b List.mem_cons_self
      rw [escapeCommandArgument_cons, List.contains_cons]
      rcases escapeByte_clean b hcontrol hquote with
        ⟨heq, -, hnewline, hbar, -, -⟩ | ⟨heq, -, hb, hbar, -⟩ | rfl | rfl
      · rw [heq, beq_eq_false_iff_ne.mpr hbar.symm, Bool.false_or, ← ih']
        exact read_backslash hnewline _ _
      · rw [heq, beq_eq_false_iff_ne.mpr hbar.symm, Bool.false_or, ← ih']
        exact read_ordinary hb _ _
      · rw [beq_self_eq_true, Bool.true_or, if_pos rfl]
        exact read_bar _ _
      · rw [show (ascii '|' == ascii '~') = false by decide, Bool.false_or, ← ih']
        exact read_tilde_inside _ _

/-- The escaping quotes a login-name prefix when it puts a backslash into it. -/
theorem tildeQuoted_argument {a s : Bytes} (ha : Clean a) (hbar : a.contains (ascii '|') = false)
    (hs : Boundary s) :
    tildeQuoted (escapeCommandArgument a ++ s)
      = (a.takeWhile (· != ascii '/')).any backslashed := by
  induction a with
  | nil =>
      rcases hs with rfl | ⟨rest, rfl⟩
      · rfl
      · rw [escapeCommandArgument, List.flatMap_nil, List.nil_append, tildeQuoted,
          show role (ascii ' ') = .blank by decide]
        rfl
  | cons b a ih =>
      rw [List.contains_cons, Bool.or_eq_false_iff] at hbar
      have ih' := ih (fun c hc => ha c (List.mem_cons_of_mem _ hc)) hbar.2
      obtain ⟨hcontrol, hquote⟩ := ha b List.mem_cons_self
      rw [escapeCommandArgument_cons]
      rcases escapeByte_clean b hcontrol hquote with
        ⟨heq, hback, -, -, -, hslash⟩ | ⟨heq, hback, hb, -, -⟩ | rfl | rfl
      · rw [heq, List.cons_append, tildeQuoted, show role (ascii '\\') = .backslash by decide]
        simp [hslash, hback]
      · rw [heq, List.cons_append, List.nil_append, tildeQuoted, hb, ih']
        by_cases hslash : b = ascii '/'
        · simp [hslash]
        · simp [hslash, hback]
      · exact absurd hbar.1 (by decide)
      · rw [show escapeByte (ascii '~') = [ascii '~'] by decide, List.cons_append,
          List.nil_append, tildeQuoted, show role (ascii '~') = .tilde by decide, ih']
        simp [show ascii '~' ≠ ascii '/' by decide, show backslashed (ascii '~') = false by decide]

/-- An argument without single quotes is refused, or read back unless it is empty. -/
theorem read_argument {a s : Bytes} (ha : Clean a) (hs : Boundary s) :
    readWords .unquoted none (escapeCommandArgument a ++ s) =
      if refused a then none
      else (readWords .unquoted none s).map ([a].filter (!·.isEmpty) ++ ·) := by
  cases a with
  | nil => simp [escapeCommandArgument, refused, tildePrefix]
  | cons b a =>
      have ha' : Clean a := fun c hc => ha c (List.mem_cons_of_mem _ hc)
      obtain ⟨hcontrol, hquote⟩ := ha b List.mem_cons_self
      -- Once the word has begun, the rest of the argument and its end are as above.
      have hinside : readWords .unquoted (some [b]) (escapeCommandArgument a ++ s)
          = if a.contains (ascii '|') then none
            else (readWords .unquoted none s).map ([b :: a] ++ ·) := by
        rw [read_argument_inside ha', List.singleton_append, readWords_boundary hs]
        rfl
      have htilde : b ≠ ascii '~' → tildePrefix (b :: a) = false := by
        intro hne
        simp [tildePrefix, hne]
      have hfilter : [b :: a].filter (!·.isEmpty) = [b :: a] := rfl
      rw [escapeCommandArgument_cons, hfilter, refused, List.contains_cons]
      rcases escapeByte_clean b hcontrol hquote with
        ⟨heq, -, hnewline, hbar, hne, -⟩ | ⟨heq, -, hb, hbar, hne⟩ | rfl | rfl
      · rw [heq, beq_eq_false_iff_ne.mpr hbar.symm, htilde hne, Bool.false_or, Bool.or_false,
          ← hinside]
        exact read_backslash hnewline _ _
      · rw [heq, beq_eq_false_iff_ne.mpr hbar.symm, htilde hne, Bool.false_or, Bool.or_false,
          ← hinside]
        exact read_ordinary hb _ _
      · rw [beq_self_eq_true, Bool.true_or, Bool.true_or, if_pos rfl]
        exact read_bar _ _
      · rw [show (ascii '|' == ascii '~') = false by decide, Bool.false_or,
          show escapeByte (ascii '~') = [ascii '~'] by decide, List.cons_append, List.nil_append,
          read_tilde_first, hinside]
        cases hcontains : a.contains (ascii '|') with
        | true =>
            rw [if_pos rfl, Bool.true_or, if_pos rfl]
            split
            · rfl
            · rfl
        | false =>
            have hprefix : tildePrefix (ascii '~' :: a)
                = !(a.takeWhile (· != ascii '/')).any backslashed := by
              simp [tildePrefix, show (ascii '~' != ascii '/') = true by decide,
                show backslashed (ascii '~') = false by decide]
            rw [tildeQuoted_argument ha' hcontains hs, hprefix, Bool.false_or]
            cases (a.takeWhile (· != ascii '/')).any backslashed with
            | true => rfl
            | false => rfl

/-! ## Reading all arguments -/

/-- The escaped arguments with a blank between every two. -/
def commandText : List Bytes → Bytes
  | [] => []
  | [a] => escapeCommandArgument a
  | a :: b :: rest => escapeCommandArgument a ++ ascii ' ' :: commandText (b :: rest)

theorem toCommandLine_eq (r : RewrittenArgs) : r.toCommandLine false = commandText r.args := by
  have hargs : ∀ args : List Bytes,
      (args.flatMap fun e => escapeCommandArgument e ++ asciiBytes " ").dropLast
        = commandText args := by
    intro args
    induction args with
    | nil => rfl
    | cons a rest ih =>
        cases rest with
        | nil =>
            rw [List.flatMap_cons, List.flatMap_nil, List.append_nil]
            exact List.dropLast_concat
        | cons b rest =>
            rw [List.flatMap_cons, List.dropLast_append_of_ne_nil, ih, commandText,
              List.append_assoc]
            · rfl
            · simp [asciiBytes]
  exact hargs r.args

theorem rendered_commandText {s : Bytes} (hs : Rendered s) (args : List Bytes) :
    Rendered (commandText args ++ s) := by
  have hargument : ∀ (a : Bytes) {s : Bytes}, Rendered s →
      Rendered (escapeCommandArgument a ++ s) := by
    intro a
    induction a with
    | nil => exact id
    | cons b a ih =>
        intro s hs
        rw [escapeCommandArgument_cons]
        exact .escaped b (ih hs)
  induction args with
  | nil => exact hs
  | cons a rest ih =>
      cases rest with
      | nil => exact hargument a hs
      | cons b rest =>
          rw [commandText, List.append_assoc]
          exact hargument a (.blank ih)

/-- Without single quotes every argument is read by itself: one that is refused spoils
the line, and an empty one is lost. -/
theorem read_commandText {args : List Bytes} {s : Bytes} (hargs : ∀ a ∈ args, Clean a)
    (hs : Boundary s) :
    readWords .unquoted none (commandText args ++ s) =
      if args.any refused then none
      else (readWords .unquoted none s).map (args.filter (!·.isEmpty) ++ ·) := by
  induction args with
  | nil => simp [commandText]
  | cons a rest ih =>
      have ha := hargs a List.mem_cons_self
      have ih' := ih fun b hb => hargs b (List.mem_cons_of_mem _ hb)
      cases rest with
      | nil => simpa [commandText] using read_argument ha hs
      | cons b rest =>
          have hany : (a :: b :: rest).any refused
              = (refused a || (b :: rest).any refused) := List.any_cons
          rw [commandText, List.append_assoc, List.cons_append,
            read_argument ha (.inr ⟨_, rfl⟩), read_blank, hany, ih']
          cases hrefused : refused a with
          | true => rfl
          | false =>
              cases (b :: rest).any refused with
              | true => rfl
              | false =>
                  simp only [Bool.false_or, Bool.false_eq_true, if_false, Option.map_map]
                  congr 1
                  funext words
                  have hcons : (a :: b :: rest).filter (!·.isEmpty)
                      = [a].filter (!·.isEmpty) ++ (b :: rest).filter (!·.isEmpty) :=
                    List.filter_append [a] (b :: rest)
                  rw [hcons, List.append_assoc]
                  rfl

/-- A word of the servant's own is read as it stands. -/
theorem read_plainWord {w s : Bytes} (hw : PlainWord w) (hs : Boundary s) :
    readWords .unquoted none (w ++ s) = (readWords .unquoted none s).map (w :: ·) := by
  have hinside : ∀ (v u : Bytes), (∀ b ∈ v, role b = .ordinary) →
      readWords .unquoted (some u) (v ++ s) = readWords .unquoted (some (u ++ v)) s := by
    intro v
    induction v with
    | nil => simp
    | cons b v ih =>
        intro u hv
        rw [List.cons_append, read_ordinary (hv b List.mem_cons_self),
          ih _ fun c hc => hv c (List.mem_cons_of_mem _ hc)]
        simp
  obtain ⟨hne, hplain⟩ := hw
  cases w with
  | nil => exact absurd rfl hne
  | cons b w =>
      rw [List.cons_append, read_ordinary (hplain b List.mem_cons_self).1,
        hinside w _ fun c hc => (hplain c (List.mem_cons_of_mem _ hc)).1, readWords_boundary hs]
      rfl

theorem PlainWord.rendered {w s : Bytes} (hw : ∀ b ∈ w, role b = .ordinary ∧ controlEscape b = none)
    (hs : Rendered s) : Rendered (w ++ s) := by
  induction w with
  | nil => exact hs
  | cons b w ih =>
      obtain ⟨hb, hcontrol⟩ := hw b List.mem_cons_self
      exact .plain hb hcontrol (ih fun c hc => hw c (List.mem_cons_of_mem _ hc))

/-- The words of the arguments, in front of an end that is read as `words`, are the
arguments themselves exactly when each survives. -/
theorem read_arguments_iff {args : List Bytes} {s : Bytes} {words : List Bytes} (hs : Boundary s)
    (hrendered : Rendered s) (hend : readWords .unquoted none s = some words) :
    readWords .unquoted none (commandText args ++ s) = some (args ++ words) ↔
      ∀ a ∈ args, Survives a := by
  constructor
  · intro hread a ha
    have hclean : ∀ a ∈ args, Clean a := by
      intro a ha
      have hall := (rendered_commandText hrendered args).clean hread (by decide)
        (fun b hb => by cases hb)
      exact hall a (List.mem_append_left _ ha)
    rw [read_commandText hclean hs, hend] at hread
    cases hrefused : args.any refused with
    | true =>
        rw [hrefused] at hread
        cases hread
    | false =>
        rw [hrefused, Option.map_some] at hread
        have hfilter : args.filter (!·.isEmpty) = args :=
          List.append_cancel_right (Option.some.inj hread)
        have hnot : refused a = false := by
          have := List.any_eq_false.mp hrefused a ha
          simpa using this
        rw [refused, Bool.or_eq_false_iff] at hnot
        refine ⟨?_, fun b hb => ⟨(hclean a ha b hb).1, (hclean a ha b hb).2, ?_⟩, hnot.2⟩
        · rintro rfl
          have := List.filter_eq_self.mp hfilter [] ha
          cases this
        · rintro rfl
          simp [hb] at hnot
  · intro hsurvive
    have hclean : ∀ a ∈ args, Clean a := by
      intro a ha b hb
      obtain ⟨hcontrol, hquote, -⟩ := (hsurvive a ha).2.1 b hb
      exact ⟨hcontrol, hquote⟩
    have hrefused : args.any refused = false := by
      rw [List.any_eq_false]
      intro a ha
      obtain ⟨-, hbytes, htilde⟩ := hsurvive a ha
      have hbar : a.contains (ascii '|') = false := by
        rw [List.contains_eq_mem, decide_eq_false_iff_not]
        intro hmem
        exact (hbytes _ hmem).2.2 rfl
      rw [refused, hbar, htilde]
      decide
    have hfilter : args.filter (!·.isEmpty) = args := by
      rw [List.filter_eq_self]
      intro a ha
      simpa using (hsurvive a ha).1
    rw [read_commandText hclean hs, hrefused, hend, hfilter]
    rfl

/-- The shell reads the escaped arguments back as the original list, by themselves and in
the servant's command line, if and only if every argument survives. -/
theorem shellWords_toCommandLine_iff (r : RewrittenArgs) :
    (shellWords (r.toCommandLine false) = some r.args ↔ ∀ a ∈ r.args, Survives a) ∧
    ∀ compiler workspaceDir extraDepth, PlainWord compiler →
      PlainWord (outputPath workspaceDir extraDepth) →
      (shellWords (servantCommandLine compiler (r.toCommandLine false) workspaceDir extraDepth)
          = some (compiler :: (r.args ++ [asciiBytes "-o", outputPath workspaceDir extraDepth])) ↔
        ∀ a ∈ r.args, Survives a) := by
  rw [toCommandLine_eq]
  constructor
  · have hend : readWords .unquoted none [] = some [] := rfl
    have hiff : readWords .unquoted none (commandText r.args ++ []) = some (r.args ++ []) ↔
        ∀ a ∈ r.args, Survives a := read_arguments_iff (.inl rfl) .nil hend
    rw [List.append_nil, List.append_nil] at hiff
    exact hiff
  · intro compiler workspaceDir extraDepth hcompiler houtput
    have hminus : PlainWord (asciiBytes "-o") := by
      refine ⟨by decide, ?_⟩
      exact forall_mem_of_all (by decide)
    -- The line is the compiler, the arguments, and an end that begins with a blank.
    have hline : servantCommandLine compiler (commandText r.args) workspaceDir extraDepth
        = compiler ++ ascii ' ' :: (commandText r.args ++ ascii ' ' ::
          (asciiBytes "-o" ++ ascii ' ' :: outputPath workspaceDir extraDepth)) := by
      simp [servantCommandLine, asciiBytes]
    have hpath := read_plainWord houtput (.inl rfl : Boundary [])
    rw [List.append_nil] at hpath
    have hend : readWords .unquoted none (ascii ' ' ::
        (asciiBytes "-o" ++ ascii ' ' :: outputPath workspaceDir extraDepth))
          = some [asciiBytes "-o", outputPath workspaceDir extraDepth] := by
      rw [read_blank, read_plainWord hminus (.inr ⟨_, rfl⟩), read_blank, hpath]
      rfl
    have hrendered : Rendered (ascii ' ' ::
        (asciiBytes "-o" ++ ascii ' ' :: outputPath workspaceDir extraDepth)) := by
      apply Rendered.blank
      apply PlainWord.rendered hminus.2
      apply Rendered.blank
      have hlast := PlainWord.rendered houtput.2 .nil
      rwa [List.append_nil] at hlast
    rw [shellWords, hline, read_plainWord hcompiler (.inr ⟨_, rfl⟩), read_blank,
      ← read_arguments_iff (.inr ⟨_, rfl⟩) hrendered hend, Option.map_map]
    constructor
    · intro h
      obtain ⟨words, hwords, heq⟩ := Option.map_eq_some_iff.mp h
      rw [hwords]
      exact congrArg some (List.cons.inj heq).2
    · intro h
      rw [h]
      rfl

/-- A macro with a blank and double quotes in its value, in the servant's command line. -/
theorem shellWords_toCommandLine_macro :
    shellWords (servantCommandLine (asciiBytes "/usr/bin/g++")
      (RewrittenArgs.toCommandLine false ⟨asciiBytes "g++", [asciiBytes "-DX=\"a b\""]⟩)
      (asciiBytes "/tmp/w") (asciiBytes "d"))
      = some [asciiBytes "/usr/bin/g++", asciiBytes "-DX=\"a b\"", asciiBytes "-o",
          asciiBytes "/tmp/w/d/output.o"] := by
  have hsurvive : ∀ a ∈ [asciiBytes "-DX=\"a b\""], Survives a := by
    intro a ha
    rw [List.mem_singleton.mp ha]
    exact ⟨by decide, forall_mem_of_all (by decide), by decide⟩
  exact ((shellWords_toCommandLine_iff ⟨asciiBytes "g++", [asciiBytes "-DX=\"a b\""]⟩).2
    (asciiBytes "/usr/bin/g++") (asciiBytes "/tmp/w") (asciiBytes "d")
    ⟨by decide, forall_mem_of_all (by decide)⟩
    ⟨by decide, forall_mem_of_all (by decide)⟩).mpr hsurvive

/-- A single quote is not escaped, so the shell removes it. -/
theorem shellWords_toCommandLine_quote :
    ¬ ∀ r : RewrittenArgs, shellWords (r.toCommandLine false) = some r.args := by
  intro h
  have hquote := h ⟨asciiBytes "g++", [asciiBytes "-DX='a'"]⟩
  revert hquote
  decide

end Yadcc.Client
