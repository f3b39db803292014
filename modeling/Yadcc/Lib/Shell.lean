/-
# Words of a POSIX shell command

`sh -c` reads its argument by the token recognition and quoting rules of the shell
command language. `shellWords` is that reader for the commands that are one simple
command made of literal words: blanks separate words, a backslash and both kinds of
quotes are removed, and what they quote is taken literally. It answers `none` when the
text has anything more, such as an operator, an expansion, a pattern, a comment, a
login-name prefix that is not quoted, or an unterminated quote. A command string has no
NUL, which gets no rule here.
-/

import Mathlib.Tactic

namespace Yadcc.Lib

abbrev Bytes := List UInt8

namespace Shell

/-- The byte of an ASCII character. -/
def ascii (c : Char) : UInt8 := c.toNat.toUInt8

/-- The bytes of an ASCII string. -/
def asciiBytes (s : String) : Bytes := s.toList.map ascii

/-- What a byte means where it is not quoted. -/
inductive Role
  | blank
  | operator
  | expansion
  | pattern
  | comment
  | tilde
  | backslash
  | singleQuote
  | doubleQuote
  | ordinary
  deriving DecidableEq

def role (b : UInt8) : Role :=
  if b ∈ [' ', '\t'].map ascii then .blank
  else if b ∈ ['\n', '|', '&', ';', '<', '>', '(', ')'].map ascii then .operator
  else if b ∈ ['$', '`'].map ascii then .expansion
  else if b ∈ ['*', '?', '['].map ascii then .pattern
  else if b = ascii '#' then .comment
  else if b = ascii '~' then .tilde
  else if b = ascii '\\' then .backslash
  else if b = ascii '\'' then .singleQuote
  else if b = ascii '"' then .doubleQuote
  else .ordinary

/-- Whether a login-name prefix, the text from after its tilde up to the first unquoted
slash or the end of the word, has a quoted character. Such a tilde is literal. -/
def tildeQuoted : Bytes → Bool
  | [] => false
  | b :: rest =>
      match role b with
      | .blank | .operator => false
      | .backslash | .singleQuote | .doubleQuote => true
      | _ => if b = ascii '/' then false else tildeQuoted rest

inductive Mode
  | unquoted
  | single
  | double
  deriving DecidableEq

/-- End the word read so far, if there is one. -/
def finish (word : Option Bytes) (words : List Bytes) : List Bytes :=
  match word with
  | none => words
  | some w => w :: words

/-- Read on after `word`, the part of the current word read so far. An empty pair of
quotes begins a word, so no word is not the same as the empty one. -/
def readWords : Mode → Option Bytes → Bytes → Option (List Bytes)
  | .unquoted, word, [] => some (finish word [])
  | .single, _, [] => none
  | .double, _, [] => none
  | .single, word, b :: rest =>
      if b = ascii '\'' then readWords .unquoted (some (word.getD [])) rest
      else readWords .single (some (word.getD [] ++ [b])) rest
  | .double, word, b :: rest =>
      match role b with
      | .doubleQuote => readWords .unquoted (some (word.getD [])) rest
      | .expansion => none
      | .backslash =>
          match rest with
          | [] => none
          | c :: rest =>
              if c = ascii '\n' then readWords .double word rest
              else if c ∈ ['$', '`', '"', '\\'].map ascii then
                readWords .double (some (word.getD [] ++ [c])) rest
              else readWords .double (some (word.getD [] ++ [b, c])) rest
      | _ => readWords .double (some (word.getD [] ++ [b])) rest
  | .unquoted, word, b :: rest =>
      match role b with
      | .blank => (readWords .unquoted none rest).map (finish word)
      | .operator | .expansion | .pattern => none
      | .comment =>
          match word with
          | none => none
          | some w => readWords .unquoted (some (w ++ [b])) rest
      | .tilde =>
          match word with
          | none => if tildeQuoted rest then readWords .unquoted (some [b]) rest else none
          | some w => readWords .unquoted (some (w ++ [b])) rest
      | .backslash =>
          match rest with
          | [] => none
          | c :: rest =>
              if c = ascii '\n' then readWords .unquoted word rest
              else readWords .unquoted (some (word.getD [] ++ [c])) rest
      | .singleQuote => readWords .single (some (word.getD [])) rest
      | .doubleQuote => readWords .double (some (word.getD [])) rest
      | .ordinary => readWords .unquoted (some (word.getD [] ++ [b])) rest

/-- The words of a command of literal words. -/
def shellWords (command : Bytes) : Option (List Bytes) :=
  readWords .unquoted none command

example : shellWords (asciiBytes "a\\ b  'c d'\"e\\\"f\" ''")
    = some [asciiBytes "a b", asciiBytes "c de\"f", []] := by decide

example : shellWords (asciiBytes "a | b") = none := by decide

/-! ## Reading one step -/

theorem read_backslash {c : UInt8} (hc : c ≠ ascii '\n') (word : Option Bytes) (rest : Bytes) :
    readWords .unquoted word (ascii '\\' :: c :: rest)
      = readWords .unquoted (some (word.getD [] ++ [c])) rest := by
  show (if c = ascii '\n' then readWords .unquoted word rest
    else readWords .unquoted (some (word.getD [] ++ [c])) rest) = _
  rw [if_neg hc]

theorem read_ordinary {b : UInt8} (hb : role b = .ordinary) (word : Option Bytes)
    (rest : Bytes) :
    readWords .unquoted word (b :: rest)
      = readWords .unquoted (some (word.getD [] ++ [b])) rest := by
  rw [readWords.eq_def]
  simp only [hb]

theorem read_blank (word : Option Bytes) (rest : Bytes) :
    readWords .unquoted word (ascii ' ' :: rest)
      = (readWords .unquoted none rest).map (finish word) := rfl

theorem read_bar (word : Option Bytes) (rest : Bytes) :
    readWords .unquoted word (ascii '|' :: rest) = none := rfl

theorem read_quote (word : Option Bytes) (rest : Bytes) :
    readWords .unquoted word (ascii '\'' :: rest)
      = readWords .single (some (word.getD [])) rest := rfl

theorem read_tilde_inside (w rest : Bytes) :
    readWords .unquoted (some w) (ascii '~' :: rest)
      = readWords .unquoted (some (w ++ [ascii '~'])) rest := rfl

theorem read_tilde_first (rest : Bytes) :
    readWords .unquoted none (ascii '~' :: rest)
      = if tildeQuoted rest then readWords .unquoted (some [ascii '~']) rest else none := rfl

theorem read_single {b : UInt8} (hb : b ≠ ascii '\'') (word : Option Bytes) (rest : Bytes) :
    readWords .single word (b :: rest) = readWords .single (some (word.getD [] ++ [b])) rest := by
  show (if b = ascii '\'' then readWords .unquoted (some (word.getD [])) rest
    else readWords .single (some (word.getD [] ++ [b])) rest) = _
  rw [if_neg hb]

theorem read_single_end (word : Option Bytes) (rest : Bytes) :
    readWords .single word (ascii '\'' :: rest)
      = readWords .unquoted (some (word.getD [])) rest := rfl

end Shell

end Yadcc.Lib
