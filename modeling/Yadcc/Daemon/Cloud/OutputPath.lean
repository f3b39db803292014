/-
# The long path of the output files

A servant has its compiler write to a directory whose path is as long as it can be, so that
the places where this path stands in the output files have room for the path of the client.
The path is filled up with directories of many letters. This module tells how long it gets:
whatever the length to begin with, it ends at one of two lengths.
-/

import Yadcc.Daemon.TaskIdentity

namespace Yadcc.Daemon.Cloud

open Yadcc.Lib
open Yadcc.Lib.Shell (ascii asciiBytes)

/-- The directories that are appended, from the lengths of their names. -/
def fillers (lengths : List ℕ) : Bytes :=
  lengths.flatMap fun n => List.replicate n (ascii 'A') ++ asciiBytes "/"

/-- Directories with names of at most the longest length are appended, until the path is one
byte short of the maximum or has it. -/
theorem growPath_eq (path : Bytes) (h : path.length < kMaxPath) :
    ∃ lengths, growPath path = path ++ fillers lengths ∧
      (∀ n ∈ lengths, 1 ≤ n ∧ n ≤ nameMax) ∧
      ((growPath path).length + 1 = kMaxPath ∨ (growPath path).length = kMaxPath) := by
  induction path using growPath.induct with
  | case1 path hshort ih =>
      set n := min nameMax (kMaxPath - path.length - 1) with hn
      have hmax : nameMax = 255 := rfl
      have hlength : (path ++ (List.replicate n (ascii 'A') ++ asciiBytes "/")).length
          = path.length + n + 1 := by
        simp [asciiBytes]
        omega
      rw [growPath, if_pos hshort]
      by_cases hfull : path.length + n + 1 = kMaxPath
      · -- The last directory leaves no room at all.
        have hstop : growPath (path ++ (List.replicate n (ascii 'A') ++ asciiBytes "/"))
            = path ++ (List.replicate n (ascii 'A') ++ asciiBytes "/") := by
          rw [growPath, if_neg (by omega)]
        refine ⟨[n], ?_, ?_, ?_⟩
        · rw [← hn, hstop]
          simp [fillers]
        · intro m hm
          rw [List.mem_singleton] at hm
          omega
        · rw [← hn, hstop]
          omega
      · obtain ⟨lengths, heq, hbounds, hend⟩ := ih (by omega)
        refine ⟨n :: lengths, ?_, ?_, hend⟩
        · rw [← hn, heq]
          simp [fillers]
        · rintro m hm
          rcases List.mem_cons.mp hm with rfl | hm
          · omega
          · exact hbounds m hm
  | case2 path hlong =>
      refine ⟨[], ?_, by simp, ?_⟩
      · rw [growPath, if_neg hlong]
        simp [fillers]
      · rw [growPath, if_neg hlong]
        omega

/-- Every path ends with a slash. -/
theorem getLast?_fillers (front : Bytes) (lengths : List ℕ) :
    (front ++ asciiBytes "/" ++ fillers lengths).getLast? = some (ascii '/') := by
  induction lengths generalizing front with
  | nil => simp [fillers, asciiBytes]
  | cons n lengths ih =>
      have hfront := ih (front ++ asciiBytes "/" ++ List.replicate n (ascii 'A'))
      simpa [fillers] using hfront

/-! ## The directory -/

variable {basePath salt : Bytes}

/-- The path that the loop begins with. -/
def startPath (basePath salt : Bytes) : Bytes :=
  basePath ++ asciiBytes "/" ++ salt ++ asciiBytes "/"

/-- The directory that is created. -/
def createdDirectory (basePath salt : Bytes) : Bytes :=
  (growPath (startPath basePath salt)).dropLast

theorem makeLongLongRelativePathWith_eq (basePath salt : Bytes) :
    makeLongLongRelativePathWith basePath salt
      = (createdDirectory basePath salt).drop (basePath.length + 1) :=
  rfl

theorem length_startPath (basePath salt : Bytes) :
    (startPath basePath salt).length = basePath.length + salt.length + 2 := by
  simp [startPath, asciiBytes]
  omega

/-- Without the last slash there are still the path to begin with and the names. -/
theorem createdDirectory_eq {lengths : List ℕ}
    (h : growPath (startPath basePath salt) = startPath basePath salt ++ fillers lengths) :
    createdDirectory basePath salt ++ asciiBytes "/"
      = startPath basePath salt ++ fillers lengths := by
  have hlast := getLast?_fillers (basePath ++ asciiBytes "/" ++ salt) lengths
  obtain ⟨front, hfront⟩ := List.getLast?_eq_some_iff.mp hlast
  have hall : startPath basePath salt ++ fillers lengths = front ++ asciiBytes "/" := hfront
  rw [createdDirectory, h, hall]
  simp [asciiBytes]

theorem prefix_createdDirectory {lengths : List ℕ}
    (h : growPath (startPath basePath salt) = startPath basePath salt ++ fillers lengths) :
    basePath ++ asciiBytes "/" <+: createdDirectory basePath salt := by
  have hall : basePath ++ asciiBytes "/" <+: createdDirectory basePath salt ++ asciiBytes "/" := by
    rw [createdDirectory_eq h, startPath, List.append_assoc, List.append_assoc]
    exact List.prefix_append _ _
  have hlength := congrArg List.length (createdDirectory_eq h)
  rw [List.length_append, List.length_append, length_startPath] at hlength
  apply List.prefix_of_prefix_length_le hall (List.prefix_append _ _)
  rw [List.length_append]
  have hslash : (asciiBytes "/").length = 1 := rfl
  omega

/-- A file that the compiler wrote has room for a path of the length of the directory at each
place where the directory is found. -/
theorem room_of_found {pathPrefix desiredPath : Bytes} (hne : pathPrefix ≠ [])
    (hnul : (0 : UInt8) ∉ pathPrefix) (hlength : desiredPath.length ≤ pathPrefix.length)
    (file : Bytes) :
    ∃ locations, findAllPathLocation file pathPrefix = some locations ∧
      ∀ l ∈ locations, desiredPath.length + l.suffixToKeep ≤ l.totalSize := by
  obtain ⟨rs, hfind, hoccurrences⟩ := findAllPathLocation_ok hne hnul file
  refine ⟨_, hfind, ?_⟩
  intro l hl
  obtain ⟨r, hr, rfl⟩ := List.mem_map.mp hl
  have hoccurrence := (hoccurrences.1 r hr).1
  obtain ⟨-, htotal, hkept⟩ := hoccurrence.location
  have hlong := hoccurrence.long
  rw [htotal, hkept]
  omega

theorem notMem_createdDirectory {lengths : List ℕ}
    (h : growPath (startPath basePath salt) = startPath basePath salt ++ fillers lengths)
    (hbase : (0 : UInt8) ∉ basePath) (hsalt : (0 : UInt8) ∉ salt) :
    (0 : UInt8) ∉ createdDirectory basePath salt := by
  intro hmem
  have hall : (0 : UInt8) ∈ startPath basePath salt ++ fillers lengths := by
    rw [← createdDirectory_eq h]
    exact List.mem_append_left _ hmem
  simp only [startPath, fillers, List.mem_append, List.mem_flatMap, List.mem_replicate] at hall
  have hslash : (0 : UInt8) ∉ asciiBytes "/" := by decide
  have hletter : (0 : UInt8) ≠ ascii 'A' := by decide
  grind

/-- A base path and a salt that leave room for a directory: the loop appends directories with
names of permitted lengths and ends, the created directory has one of two lengths, a file
name behind it still fits into a path, and the result is its path from the base path on. Where
the compiler writes the path of the output file, there is room for a path of the client of
that length. -/
theorem createdDirectory_reserves (h : basePath.length + salt.length + 2 < pathMax - 30) :
    (∃ lengths, growPath (startPath basePath salt) = startPath basePath salt ++ fillers lengths ∧
      ∀ n ∈ lengths, 1 ≤ n ∧ n ≤ nameMax) ∧
    (growPath (startPath basePath salt)).getLast? = some (ascii '/') ∧
    ((createdDirectory basePath salt).length = pathMax - 32 ∨
      (createdDirectory basePath salt).length = pathMax - 31) ∧
    (∀ suffix : Bytes, suffix.length ≤ 20 →
      (createdDirectory basePath salt ++ asciiBytes "/output" ++ suffix).length + 1 ≤ pathMax) ∧
    basePath ++ asciiBytes "/" ++ makeLongLongRelativePathWith basePath salt
      = createdDirectory basePath salt ∧
    ((0 : UInt8) ∉ basePath → (0 : UInt8) ∉ salt → ∀ file desiredPath : Bytes,
      desiredPath.length ≤ (createdDirectory basePath salt ++ asciiBytes "/output").length →
      ∃ locations, findAllPathLocation file (basePath ++ asciiBytes "/" ++
          (makeLongLongRelativePathWith basePath salt ++ asciiBytes "/output")) = some locations ∧
        ∀ l ∈ locations, desiredPath.length + l.suffixToKeep ≤ l.totalSize) := by
  obtain ⟨lengths, hgrow, hbounds, hend⟩ := growPath_eq (startPath basePath salt)
    (by rw [length_startPath, kMaxPath]; exact h)
  have hmax : pathMax = 4096 := rfl
  have hslash : (asciiBytes "/").length = 1 := rfl
  have houtput : (asciiBytes "/output").length = 7 := rfl
  have hlength : (createdDirectory basePath salt).length = pathMax - 32 ∨
      (createdDirectory basePath salt).length = pathMax - 31 := by
    rw [createdDirectory, List.length_dropLast]
    rw [kMaxPath] at hend
    omega
  have hresult : basePath ++ asciiBytes "/" ++ makeLongLongRelativePathWith basePath salt
      = createdDirectory basePath salt := by
    obtain ⟨rest, hrest⟩ := prefix_createdDirectory hgrow
    rw [makeLongLongRelativePathWith_eq, ← hrest, List.drop_left' (by simp [asciiBytes])]
  refine ⟨⟨lengths, hgrow, hbounds⟩, ?_, hlength, ?_, hresult, ?_⟩
  · rw [hgrow]
    exact getLast?_fillers (basePath ++ asciiBytes "/" ++ salt) lengths
  · intro suffix hsuffix
    rw [List.length_append, List.length_append, houtput]
    omega
  · intro hbase hsalt file desiredPath hdesired
    have hnul : (0 : UInt8) ∉ createdDirectory basePath salt ++ asciiBytes "/output" := by
      rw [List.mem_append, not_or]
      exact ⟨notMem_createdDirectory hgrow hbase hsalt, by decide⟩
    rw [← List.append_assoc, hresult]
    exact room_of_found (by simp [asciiBytes]) hnul hdesired file

theorem createdDirectory_reserves_sample :
    (createdDirectory (asciiBytes "/tmp/1") (asciiBytes "ab")).length = pathMax - 32 ∨
      (createdDirectory (asciiBytes "/tmp/1") (asciiBytes "ab")).length = pathMax - 31 :=
  (@createdDirectory_reserves (asciiBytes "/tmp/1") (asciiBytes "ab") (by decide)).2.2.1

end Yadcc.Daemon.Cloud
