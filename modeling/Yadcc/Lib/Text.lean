/-
# Searching and decimal numbers in byte strings

The first occurrence of a pattern in a text, and the decimal notation of natural numbers as
bytes. An occurrence is a place where the pattern is a prefix of what is left of the text;
the search is characterised by being the first such place, so that users never unfold it.
-/

import Yadcc.Lib.Shell

namespace Yadcc.Lib

open Shell (ascii)

/-! ## The first occurrence of a pattern -/

section Find

variable {α : Type*} {pattern text : List α} {n : ℕ}

theorem singleton_prefix_drop {c : α} : [c] <+: text.drop n ↔ text[n]? = some c := by
  rw [← List.head?_drop]
  cases text.drop n with
  | nil => simp
  | cons d rest => simp [eq_comm]

variable [DecidableEq α]

/-- The offset of the first occurrence of `pattern`. -/
def find (pattern : List α) : List α → Option ℕ
  | [] => if pattern.isPrefixOf [] then some 0 else none
  | c :: text =>
      if pattern.isPrefixOf (c :: text) then some 0 else (find pattern text).map (· + 1)

/-- An occurrence is found at its offset, and at no earlier one. -/
theorem find_eq_some_iff :
    find pattern text = some n ↔
      n ≤ text.length ∧ pattern <+: text.drop n ∧ ∀ m < n, ¬pattern <+: text.drop m := by
  induction text generalizing n with
  | nil =>
      rw [find]
      constructor
      · intro h
        split at h
        · next hp =>
            cases h
            exact ⟨le_rfl, List.isPrefixOf_iff_prefix.mp hp, fun m hm => absurd hm (by omega)⟩
        · cases h
      · rintro ⟨hle, hp, -⟩
        have hn : n = 0 := by simpa using hle
        rw [hn] at hp ⊢
        exact if_pos (List.isPrefixOf_iff_prefix.mpr hp)
  | cons c text ih =>
      rw [find]
      split
      · next hp =>
          have hp := List.isPrefixOf_iff_prefix.mp hp
          constructor
          · intro h
            cases h
            exact ⟨Nat.zero_le _, hp, fun m hm => absurd hm (by omega)⟩
          · rintro ⟨-, -, hfirst⟩
            cases n with
            | zero => rfl
            | succ n => exact absurd hp (hfirst 0 (by omega))
      · next hp =>
          have hp : ¬pattern <+: c :: text := fun h => hp (List.isPrefixOf_iff_prefix.mpr h)
          rw [Option.map_eq_some_iff]
          constructor
          · rintro ⟨k, hk, rfl⟩
            obtain ⟨hle, hoccurs, hfirst⟩ := ih.mp hk
            refine ⟨by simpa using hle, hoccurs, ?_⟩
            intro m hm
            cases m with
            | zero => exact hp
            | succ m => exact hfirst m (by omega)
          · rintro ⟨hle, hoccurs, hfirst⟩
            cases n with
            | zero => exact absurd hoccurs hp
            | succ k =>
                refine ⟨k, ih.mpr ⟨by simpa using hle, hoccurs, ?_⟩, rfl⟩
                intro m hm
                exact hfirst (m + 1) (by omega)

/-- What is found is the first occurrence. -/
theorem find_spec (h : find pattern text = some n) :
    n ≤ text.length ∧ pattern <+: text.drop n ∧ ∀ m < n, ¬pattern <+: text.drop m :=
  find_eq_some_iff.mp h

theorem find_of_first (hle : n ≤ text.length) (hoccurs : pattern <+: text.drop n)
    (hfirst : ∀ m < n, ¬pattern <+: text.drop m) : find pattern text = some n :=
  find_eq_some_iff.mpr ⟨hle, hoccurs, hfirst⟩

theorem find_eq_none_iff :
    find pattern text = none ↔ ∀ m ≤ text.length, ¬pattern <+: text.drop m := by
  constructor
  · intro h m hm hoccurs
    -- The least occurrence would have been found.
    have hex : ∃ k, k ≤ text.length ∧ pattern <+: text.drop k := ⟨m, hm, hoccurs⟩
    classical
    have hfound : find pattern text = some (Nat.find hex) := by
      apply find_of_first (Nat.find_spec hex).1 (Nat.find_spec hex).2
      intro k hk hkoccurs
      exact Nat.find_min hex hk ⟨hk.le.trans (Nat.find_spec hex).1, hkoccurs⟩
    rw [h] at hfound
    cases hfound
  · intro h
    cases hf : find pattern text with
    | none => rfl
    | some n =>
        obtain ⟨hle, hoccurs, -⟩ := find_spec hf
        exact absurd hoccurs (h n hle)

theorem length_le_of_find (h : find pattern text = some n) :
    n + pattern.length ≤ text.length := by
  obtain ⟨hle, hoccurs, -⟩ := find_spec h
  have hlength := hoccurs.length_le
  rw [List.length_drop] at hlength
  omega

/-- A single byte is found behind a text without it. -/
theorem find_singleton {c : α} {front rest : List α} (h : c ∉ front) :
    find [c] (front ++ c :: rest) = some front.length := by
  apply find_of_first (by simp) (singleton_prefix_drop.mpr (by simp))
  intro m hm hoccurs
  rw [singleton_prefix_drop, List.getElem?_append_left hm] at hoccurs
  exact h (List.mem_of_getElem? hoccurs)

theorem find_singleton_none {c : α} (h : c ∉ text) : find [c] text = none := by
  refine find_eq_none_iff.mpr ?_
  intro m _ hoccurs
  rw [singleton_prefix_drop] at hoccurs
  exact h (List.mem_of_getElem? hoccurs)

/-- A pattern is found if it is an infix. -/
theorem find_isSome_iff : (find pattern text).isSome = true ↔ pattern <:+: text := by
  constructor
  · intro h
    obtain ⟨n, hn⟩ := Option.isSome_iff_exists.mp h
    obtain ⟨-, hoccurs, -⟩ := find_spec hn
    exact hoccurs.isInfix.trans (List.drop_suffix n text).isInfix
  · rintro ⟨front, rest, rfl⟩
    by_contra hnone
    rw [Bool.not_eq_true, Option.isSome_eq_false_iff, Option.isNone_iff_eq_none] at hnone
    apply find_eq_none_iff.mp hnone front.length (by simp)
    rw [List.append_assoc, List.drop_left]
    exact List.prefix_append _ _

/-- What is found in the front of a text is the first occurrence in all of it. -/
theorem find_of_front {front : List α} (hfront : front <+: text)
    (h : find pattern front = some n) : find pattern text = some n := by
  obtain ⟨hle, hoccurs, hfirst⟩ := find_spec h
  have hlength := length_le_of_find h
  obtain ⟨rest, rfl⟩ := hfront
  have hfound : pattern <+: (front ++ rest).drop n := by
    rw [List.drop_append_of_le_length hle]
    exact hoccurs.trans (List.prefix_append _ _)
  apply find_of_first (by rw [List.length_append]; omega) hfound
  intro m hm hother
  rw [List.drop_append_of_le_length (by omega)] at hother
  apply hfirst m hm
  apply List.prefix_of_prefix_length_le hother (List.prefix_append _ _)
  rw [List.length_drop]
  omega

/-- An occurrence is found in every front that it lies in. -/
theorem find_take {k : ℕ} (h : find pattern text = some n) (hk : n + pattern.length ≤ k) :
    find pattern (text.take k) = some n := by
  obtain ⟨hle, hoccurs, hfirst⟩ := find_spec h
  have hlength := length_le_of_find h
  apply find_of_first
  · rw [List.length_take]
    omega
  · rw [List.drop_take]
    apply List.prefix_take_iff.mpr
    exact ⟨hoccurs, by omega⟩
  · intro m hm hother
    rw [List.drop_take] at hother
    exact hfirst m hm (hother.trans (List.take_prefix _ _))

/-! ## Infixes and separators -/

omit [DecidableEq α] in
theorem prefix_append_cons {c : α} {front rest : List α} (hc : c ∉ pattern)
    (h : pattern <+: front ++ c :: rest) : pattern <+: front := by
  rcases List.prefix_or_prefix_of_prefix h (List.prefix_append front (c :: rest)) with
    hfront | ⟨tail, rfl⟩
  · exact hfront
  · rw [List.prefix_append_right_inj] at h
    cases tail with
    | nil => rw [List.append_nil]
    | cons d tail =>
        obtain ⟨rfl, -⟩ := List.cons_prefix_cons.mp h
        exact absurd (by simp) hc

omit [DecidableEq α] in
/-- A pattern without the separator stands on one side of it. -/
theorem infix_append_cons_iff {c : α} {front rest : List α} (hc : c ∉ pattern) :
    pattern <:+: front ++ c :: rest ↔ pattern <:+: front ∨ pattern <:+: rest := by
  constructor
  · induction front with
    | nil =>
        intro h
        rcases List.infix_cons_iff.mp h with hprefix | hrest
        · exact .inl (prefix_append_cons hc hprefix).isInfix
        · exact .inr hrest
    | cons d front ih =>
        intro h
        rcases List.infix_cons_iff.mp h with hprefix | hlater
        · exact .inl (prefix_append_cons hc hprefix).isInfix
        · rcases ih hlater with hfront | hrest
          · exact .inl (List.infix_cons hfront)
          · exact .inr hrest
  · rintro (hfront | hrest)
    · exact hfront.trans (List.prefix_append _ _).isInfix
    · exact hrest.trans ((List.suffix_cons c rest).trans (List.suffix_append _ _)).isInfix

/-! ## The last occurrence of a byte -/

/-- The offset of the last occurrence of `c`. -/
def findLast (c : α) : List α → Option ℕ
  | [] => none
  | d :: text =>
      match findLast c text with
      | some n => some (n + 1)
      | none => if d = c then some 0 else none

theorem findLast_none {c : α} (h : c ∉ text) : findLast c text = none := by
  induction text with
  | nil => rfl
  | cons d text ih =>
      rw [List.mem_cons, not_or] at h
      rw [findLast, ih h.2]
      exact if_neg (Ne.symm h.1)

theorem findLast_append {c : α} {front rest : List α} (h : c ∉ rest) :
    findLast c (front ++ c :: rest) = some front.length := by
  induction front with
  | nil =>
      rw [List.nil_append, findLast, findLast_none h]
      exact if_pos rfl
  | cons d front ih =>
      rw [List.cons_append, findLast, ih]
      rfl

/-- What stands in front of the last occurrence of `c`, or everything if there is none. -/
def beforeLast (c : α) (text : List α) : List α :=
  match findLast c text with
  | some n => text.take n
  | none => text

theorem beforeLast_none {c : α} (h : c ∉ text) : beforeLast c text = text := by
  rw [beforeLast, findLast_none h]

theorem beforeLast_append {c : α} {front rest : List α} (h : c ∉ rest) :
    beforeLast c (front ++ c :: rest) = front := by
  rw [beforeLast, findLast_append h]
  exact List.take_left

/-- A byte that occurs has a last occurrence. -/
theorem exists_last {c : α} (h : c ∈ text) :
    ∃ front rest, text = front ++ c :: rest ∧ c ∉ rest := by
  induction text with
  | nil => cases h
  | cons d text ih =>
      by_cases hlater : c ∈ text
      · obtain ⟨front, rest, rfl, hrest⟩ := ih hlater
        exact ⟨d :: front, rest, rfl, hrest⟩
      · rcases List.mem_cons.mp h with rfl | hc
        · exact ⟨[], text, rfl, hlater⟩
        · exact absurd hc hlater

end Find

/-! ## Decimal notation -/

/-- A number written in decimal digits. -/
def decimal (n : ℕ) : Bytes := (Nat.toDigits 10 n).map ascii

def isDigit (b : UInt8) : Bool := 48 ≤ b.toNat && b.toNat ≤ 57

/-- The number that digits stand for. -/
def decimalValue (digits : Bytes) : ℕ :=
  digits.foldl (fun v b => 10 * v + (b.toNat - 48)) 0

/-- The last digit comes off the end. -/
theorem decimal_eq (n : ℕ) :
    decimal n = (if n < 10 then [] else decimal (n / 10)) ++ [ascii (Nat.digitChar (n % 10))] := by
  unfold decimal
  rw [Nat.toDigits_eq_if (by omega)]
  split
  · next h => rw [Nat.mod_eq_of_lt h, List.map_cons, List.map_nil, List.nil_append]
  · rw [List.map_append, List.map_cons, List.map_nil]

theorem toNat_ascii_digitChar {d : ℕ} (h : d < 10) :
    (ascii (Nat.digitChar d)).toNat = 48 + d := by
  interval_cases d <;> rfl

theorem isDigit_of_mem_decimal (n : ℕ) : ∀ b ∈ decimal n, isDigit b = true := by
  induction n using Nat.strongRecOn with
  | ind n ih =>
      intro b hb
      rw [decimal_eq, List.mem_append, List.mem_singleton] at hb
      rcases hb with hb | rfl
      · split at hb
        · cases hb
        · exact ih (n / 10) (by omega) b hb
      · have hlast := toNat_ascii_digitChar (Nat.mod_lt n (by omega : 0 < 10))
        have hlt := Nat.mod_lt n (by omega : 0 < 10)
        rw [isDigit, hlast]
        simp only [Bool.and_eq_true, decide_eq_true_eq]
        omega

theorem decimalValue_decimal (n : ℕ) : decimalValue (decimal n) = n := by
  induction n using Nat.strongRecOn with
  | ind n ih =>
      have hlast := toNat_ascii_digitChar (Nat.mod_lt n (by omega : 0 < 10))
      rw [decimal_eq, decimalValue, List.foldl_append, List.foldl_cons, List.foldl_nil, hlast]
      split
      · next h =>
          rw [List.foldl_nil]
          omega
      · next h =>
          have hrest := ih (n / 10) (by omega)
          rw [decimalValue] at hrest
          rw [hrest]
          omega

theorem decimal_ne_nil (n : ℕ) : decimal n ≠ [] := by
  rw [decimal_eq]
  simp

/-- A byte that is no digit does not stand in a decimal number. -/
theorem notMem_decimal {b : UInt8} (h : isDigit b = false) (n : ℕ) : b ∉ decimal n := by
  intro hb
  rw [isDigit_of_mem_decimal n b hb] at h
  cases h

/-! ## Pieces of given lengths -/

section Pieces

variable {α : Type*}

/-- A cut behind the end of what is left. -/
inductive PastEnd
  | pastEnd
  deriving DecidableEq

/-- Cut pieces of the given lengths off the front. -/
def pieces : List ℕ → List α → Except PastEnd (List (List α))
  | [], _ => .ok []
  | n :: ns, rest =>
      if rest.length < n then .error .pastEnd
      else return rest.take n :: (← pieces ns (rest.drop n))

theorem pieces_flatten (parts : List (List α)) :
    pieces (parts.map List.length) parts.flatten = .ok parts := by
  induction parts with
  | nil => rfl
  | cons part parts ih =>
      have hfits : ¬(part ++ parts.flatten).length < part.length := by
        rw [List.length_append]
        omega
      rw [List.map_cons, List.flatten_cons, pieces, if_neg hfits, List.drop_left, ih,
        List.take_left]
      rfl

/-- The pieces have the given lengths and stand one behind the other at the front. -/
theorem pieces_eq_ok_iff {ns : List ℕ} {rest : List α} {parts : List (List α)} :
    pieces ns rest = .ok parts ↔ parts.map List.length = ns ∧ parts.flatten <+: rest := by
  induction ns generalizing rest parts with
  | nil => cases parts <;> simp [pieces, eq_comm]
  | cons n ns ih =>
      rw [pieces]
      split
      · next hshort =>
          refine iff_of_false nofun ?_
          rintro ⟨hlengths, hfront⟩
          have hlength := hfront.length_le
          rw [List.length_flatten, hlengths, List.sum_cons] at hlength
          omega
      · next hlong =>
          constructor
          · intro h
            cases hrest : pieces ns (rest.drop n) with
            | error e =>
                rw [hrest] at h
                cases h
            | ok parts' =>
                rw [hrest] at h
                cases h
                obtain ⟨hlengths, hfront⟩ := ih.mp hrest
                refine ⟨?_, ?_⟩
                · rw [List.map_cons, hlengths, List.length_take, Nat.min_eq_left (by omega)]
                · rw [List.flatten_cons]
                  conv_rhs => rw [← List.take_append_drop n rest]
                  exact (List.prefix_append_right_inj _).mpr hfront
          · rintro ⟨hlengths, hfront⟩
            cases parts with
            | nil => cases hlengths
            | cons part parts =>
                rw [List.map_cons, List.cons.injEq] at hlengths
                obtain ⟨rfl, hlengths⟩ := hlengths
                obtain ⟨tail, rfl⟩ := hfront
                rw [List.flatten_cons, List.append_assoc, List.drop_left, List.take_left,
                  ih.mpr ⟨hlengths, List.prefix_append _ _⟩]
                rfl

theorem exists_pieces {ns : List ℕ} {rest : List α} (h : ns.sum ≤ rest.length) :
    ∃ parts, pieces ns rest = .ok parts := by
  induction ns generalizing rest with
  | nil => exact ⟨[], rfl⟩
  | cons n ns ih =>
      rw [List.sum_cons] at h
      obtain ⟨parts, hparts⟩ := @ih (rest.drop n) (by rw [List.length_drop]; omega)
      refine ⟨rest.take n :: parts, ?_⟩
      rw [pieces, if_neg (by omega), hparts]
      rfl

end Pieces

end Yadcc.Lib
