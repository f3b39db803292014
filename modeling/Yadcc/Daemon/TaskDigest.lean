/-
# Digests and cache keys of compilation tasks

A task is identified by a hash of its compiler's digest, its arguments and the digest of its
source, which are put together without separators behind a tag; the key of its cache entry
is made in the same way with another tag. This module determines what equal hashes say about
the parts, as long as no two of the texts that are hashed collide.
-/

import Yadcc.Lib.Hex

namespace Yadcc.Daemon

open Yadcc.Lib
open Yadcc.Lib.Shell (asciiBytes)

/-! ## Digests and keys -/

structure EnvironmentDesc where
  compilerDigest : Bytes
  deriving DecidableEq

/-- The hash function, and the hexadecimal encoder of the RPC library. -/
structure DigestLibrary where
  blake3 : Hash 32
  encodeHex : Bytes → Bytes

/-- Each byte is encoded as two lower-case digits. -/
structure DigestLibrary.Documented (lib : DigestLibrary) : Prop where
  encodeHex : ∀ bytes, lib.encodeHex bytes = hexBytes bytes

/-- What is hashed for the digest of a task. -/
def taskText (envDesc : EnvironmentDesc) (invocationArguments sourceDigest : Bytes) : Bytes :=
  framed (asciiBytes "cxx2") envDesc.compilerDigest invocationArguments sourceDigest

/-- What is hashed for the key of a cache entry. -/
def cacheEntryText (envDesc : EnvironmentDesc) (invocationArguments sourceDigest : Bytes) :
    Bytes :=
  framed (asciiBytes "using-extra-info") envDesc.compilerDigest invocationArguments sourceDigest

section Digests

variable (lib : DigestLibrary) (envDesc : EnvironmentDesc)
  (invocationArguments sourceDigest : Bytes)

def getCxxTaskDigest : Bytes :=
  lib.encodeHex (lib.blake3.digest (taskText envDesc invocationArguments sourceDigest))

/-- The digest in the key of a cache entry. -/
def cacheEntryDigest : Bytes :=
  lib.encodeHex (lib.blake3.digest (cacheEntryText envDesc invocationArguments sourceDigest))

def getCxxCacheEntryKey : Bytes :=
  asciiBytes "yadcc-cxx2-entry-" ++ cacheEntryDigest lib envDesc invocationArguments sourceDigest

end Digests

/-! ## Well-formed digests -/

/-- 64 hexadecimal digits. -/
def IsDigest (digest : Bytes) : Prop :=
  digest.length = 64 ∧ ∀ b ∈ digest, isHexDigit b = true

instance (digest : Bytes) : Decidable (IsDigest digest) :=
  inferInstanceAs (Decidable (digest.length = 64 ∧ ∀ b ∈ digest, isHexDigit b = true))

theorem isDigest_hex (h : Hash 32) (text : Bytes) : IsDigest (h.hex text) :=
  ⟨h.length_hex text, fun _ hb => isHexDigit_of_mem_hexBytes hb⟩

theorem IsDigest.ne_nil {digest : Bytes} (h : IsDigest digest) : digest ≠ [] := by
  intro hnil
  have hlength := h.1
  rw [hnil] at hlength
  cases hlength

/-! ## What equal digests say -/

section Equal

variable {lib : DigestLibrary} {texts : Set Bytes} {envDesc envDesc' : EnvironmentDesc}
  {arguments arguments' sourceDigest sourceDigest' : Bytes}

/-- Texts that do not collide and have the same encoded digest are the same. -/
theorem eq_of_encodeHex_eq (hlib : lib.Documented) (hfree : Set.InjOn lib.blake3.digest texts)
    {x y : Bytes} (hx : x ∈ texts) (hy : y ∈ texts)
    (h : lib.encodeHex (lib.blake3.digest x) = lib.encodeHex (lib.blake3.digest y)) : x = y := by
  rw [hlib.encodeHex, hlib.encodeHex] at h
  exact hfree hx hy (hexBytes_injective h)

theorem taskText_eq_of_digest_eq (hlib : lib.Documented)
    (hfree : Set.InjOn lib.blake3.digest texts)
    (hx : taskText envDesc arguments sourceDigest ∈ texts)
    (hy : taskText envDesc' arguments' sourceDigest' ∈ texts)
    (h : getCxxTaskDigest lib envDesc arguments sourceDigest =
      getCxxTaskDigest lib envDesc' arguments' sourceDigest') :
    taskText envDesc arguments sourceDigest = taskText envDesc' arguments' sourceDigest' :=
  eq_of_encodeHex_eq hlib hfree hx hy h

theorem cacheEntryText_eq_of_key_eq (hlib : lib.Documented)
    (hfree : Set.InjOn lib.blake3.digest texts)
    (hx : cacheEntryText envDesc arguments sourceDigest ∈ texts)
    (hy : cacheEntryText envDesc' arguments' sourceDigest' ∈ texts)
    (h : getCxxCacheEntryKey lib envDesc arguments sourceDigest =
      getCxxCacheEntryKey lib envDesc' arguments' sourceDigest') :
    cacheEntryText envDesc arguments sourceDigest =
      cacheEntryText envDesc' arguments' sourceDigest' := by
  rw [getCxxCacheEntryKey, getCxxCacheEntryKey, List.append_cancel_left_eq] at h
  exact eq_of_encodeHex_eq hlib hfree hx hy h

/-- The tags keep digests of tasks and of cache entries apart. -/
theorem getCxxTaskDigest_ne_cacheEntryDigest (hlib : lib.Documented)
    (hfree : Set.InjOn lib.blake3.digest texts)
    (hx : taskText envDesc arguments sourceDigest ∈ texts)
    (hy : cacheEntryText envDesc' arguments' sourceDigest' ∈ texts) :
    getCxxTaskDigest lib envDesc arguments sourceDigest ≠
      cacheEntryDigest lib envDesc' arguments' sourceDigest' := by
  intro h
  have htext : taskText envDesc arguments sourceDigest =
      cacheEntryText envDesc' arguments' sourceDigest' :=
    eq_of_encodeHex_eq hlib hfree hx hy h
  have hcxx : asciiBytes "cxx2" = 99 :: asciiBytes "xx2" := by decide
  have husing : asciiBytes "using-extra-info" = 117 :: asciiBytes "sing-extra-info" := by decide
  rw [taskText, cacheEntryText, hcxx, husing] at htext
  exact framed_ne_of_tag (by decide) htext

/-- With well-formed digests, equal texts have equal parts. -/
theorem parts_eq_of_framed_eq {tag : Bytes} (hcompiler : IsDigest envDesc.compilerDigest)
    (hcompiler' : IsDigest envDesc'.compilerDigest) (hsource : IsDigest sourceDigest)
    (hsource' : IsDigest sourceDigest')
    (h : framed tag envDesc.compilerDigest arguments sourceDigest =
      framed tag envDesc'.compilerDigest arguments' sourceDigest') :
    envDesc = envDesc' ∧ arguments = arguments' ∧ sourceDigest = sourceDigest' := by
  obtain ⟨henv, hrest⟩ :=
    framed_inj (hcompiler.1.trans hcompiler'.1.symm) (hsource.1.trans hsource'.1.symm) h
  cases envDesc with
  | mk compilerDigest =>
      cases envDesc' with
      | mk compilerDigest' => exact ⟨congrArg EnvironmentDesc.mk henv, hrest⟩

/-- A text without a digest of the source, behind arguments that do not end in a hexadecimal
digit, is no text with such a digest. -/
theorem framed_ne_of_empty {tag : Bytes} {c : UInt8} (hlast : arguments.getLast? = some c)
    (hc : isHexDigit c = false) (hsource : IsDigest sourceDigest') :
    framed tag envDesc.compilerDigest arguments [] ≠
      framed tag envDesc'.compilerDigest arguments' sourceDigest' :=
  framed_ne_of_last (p := fun b => isHexDigit b = true) hlast (by simp [hc]) hsource.ne_nil
    hsource.2

end Equal

end Yadcc.Daemon
