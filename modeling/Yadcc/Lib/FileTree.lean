/-
# A tree of files

What a directory has below it, as a finite map from paths to the types of the nodes. That
the parent of each node is a directory is part of the type. Reading a directory gives its
entries in an order that is not specified: results are stated about what is in the tree, and
`Cut` compares two trees by what is gone.
-/

import Yadcc.Lib.UnorderedMap

namespace Yadcc.Lib

inductive FileType
  | fifo
  | charDevice
  | directory
  | blockDevice
  | regular
  | symlink
  | socket
  deriving DecidableEq

/-- Paths go down from the root, which itself is the empty path. -/
structure FileTree where
  nodes : UnorderedMap (List String) FileType
  parent : ∀ dir name, nodes.lookup (dir ++ [name]) ≠ none →
    dir = [] ∨ nodes.lookup dir = some .directory

inductive UnlinkError
  | noEntry
  | isDirectory
  deriving DecidableEq

namespace FileTree

variable {t t' t'' : FileTree} {dir path : List String}

def lookup (path : List String) (t : FileTree) : Option FileType :=
  if path = [] then some .directory else t.nodes.lookup path

/-- The entries of a directory, with their names. -/
def entries (dir : List String) (t : FileTree) : List (String × FileType) :=
  t.nodes.entries.filterMap fun e =>
    if e.1.dropLast = dir then e.1.getLast?.map fun name => (name, e.2) else none

/-- No path is longer than this. -/
def height (t : FileTree) : ℕ := (t.nodes.entries.map fun e => e.1.length).foldr max 0

theorem lookup_child (dir : List String) (name : String) (t : FileTree) :
    t.lookup (dir ++ [name]) = t.nodes.lookup (dir ++ [name]) :=
  if_neg (List.append_ne_nil_of_right_ne_nil dir (List.cons_ne_nil name []))

theorem lookup_parent {name : String} (h : t.lookup (dir ++ [name]) ≠ none) :
    t.lookup dir = some .directory := by
  rw [lookup_child] at h
  unfold lookup
  split
  · rfl
  · next hdir => exact (t.parent dir name h).resolve_left hdir

/-- Every proper ancestor of a node is a directory. -/
theorem lookup_ancestor {name : String} {rest : List String}
    (h : t.lookup (dir ++ name :: rest) ≠ none) : t.lookup dir = some .directory := by
  induction rest using List.reverseRecOn with
  | nil => exact lookup_parent h
  | append_singleton rest last ih =>
      apply ih
      rw [← List.cons_append, ← List.append_assoc] at h
      rw [lookup_parent h]
      nofun

theorem mem_entries {name : String} {type : FileType} :
    (name, type) ∈ t.entries dir ↔ t.lookup (dir ++ [name]) = some type := by
  rw [lookup_child, AList.lookup_eq_some_iff, entries, List.mem_filterMap]
  constructor
  · rintro ⟨⟨p, type'⟩, hmem, hentry⟩
    split at hentry
    · next hdir =>
        obtain ⟨name', hlast, hpair⟩ := Option.map_eq_some_iff.mp hentry
        cases hpair
        have hp : p = dir ++ [name] := by
          rw [← hdir]
          exact (List.dropLast_append_getLast? name hlast).symm
        rw [← hp]
        exact hmem
    · cases hentry
  · intro hmem
    refine ⟨⟨dir ++ [name], type⟩, hmem, ?_⟩
    simp

theorem nodup_entries (dir : List String) (t : FileTree) :
    ((t.entries dir).map Prod.fst).Nodup := by
  have hkeys := t.nodes.nodupKeys
  unfold entries
  generalize t.nodes.entries = es at hkeys ⊢
  induction es with
  | nil => exact List.nodup_nil
  | cons e es ih =>
      rw [List.nodupKeys_cons] at hkeys
      rw [List.filterMap_cons]
      split
      · exact ih hkeys.2
      · next entry hentry =>
          rw [List.map_cons, List.nodup_cons]
          refine ⟨?_, ih hkeys.2⟩
          intro hmem
          obtain ⟨other, hother, hname⟩ := List.mem_map.mp hmem
          obtain ⟨e', he', hentry'⟩ := List.mem_filterMap.mp hother
          split at hentry
          · next hdir =>
              split at hentry'
              · next hdir' =>
                  obtain ⟨name, hlast, rfl⟩ := Option.map_eq_some_iff.mp hentry
                  obtain ⟨name', hlast', rfl⟩ := Option.map_eq_some_iff.mp hentry'
                  have hpath : e'.1 = e.1 := by
                    rw [← List.dropLast_append_getLast? name hlast,
                      ← List.dropLast_append_getLast? name' hlast', hdir, hdir']
                    exact congrArg (dir ++ [·]) hname
                  exact hkeys.1 (hpath ▸ List.mem_keys_of_mem he')
              · cases hentry'
          · cases hentry

theorem length_le_height {type : FileType} (h : t.lookup path = some type) :
    path.length ≤ t.height := by
  unfold lookup at h
  split at h
  · next hpath =>
      rw [hpath]
      exact Nat.zero_le _
  · have hmem : path.length ∈ t.nodes.entries.map fun e => e.1.length :=
      List.mem_map.mpr ⟨_, AList.lookup_eq_some_iff.mp h, rfl⟩
    unfold height
    generalize t.nodes.entries.map (fun e => e.1.length) = lengths at hmem ⊢
    induction lengths with
    | nil => cases hmem
    | cons n lengths ih =>
        rw [List.foldr_cons]
        rcases List.mem_cons.mp hmem with rfl | hrest
        · exact le_max_left _ _
        · exact (ih hrest).trans (le_max_right _ _)

/-- What is not a directory has no entries. -/
theorem entries_eq_nil (h : t.lookup path ≠ some .directory) : t.entries path = [] := by
  rw [List.eq_nil_iff_forall_not_mem]
  rintro ⟨name, type⟩ hmem
  have hchild : t.lookup (path ++ [name]) ≠ none := by
    rw [mem_entries.mp hmem]
    nofun
  exact h (lookup_parent hchild)

/-- Whatever is below a directory is at or below one of its entries. -/
theorem exists_entry {p : List String} (hfront : dir <+: p) (hne : p ≠ dir)
    (h : t.lookup p ≠ none) : ∃ e ∈ t.entries dir, dir ++ [e.1] <+: p := by
  obtain ⟨rest, rfl⟩ := hfront
  cases rest with
  | nil => exact absurd (List.append_nil dir) hne
  | cons name rest =>
      have hsplit : dir ++ name :: rest = dir ++ [name] ++ rest := by simp
      have hchild : t.lookup (dir ++ [name]) ≠ none := by
        cases rest with
        | nil => exact h
        | cons name' rest =>
            rw [hsplit] at h
            rw [lookup_ancestor h]
            nofun
      obtain ⟨type, htype⟩ := Option.ne_none_iff_exists'.mp hchild
      refine ⟨(name, type), mem_entries.mpr htype, ?_⟩
      rw [hsplit]
      exact List.prefix_append _ rest

/-- A tree from its nodes, each with its parent. -/
def ofNodes (nodes : UnorderedMap (List String) FileType)
    (h : ∀ e ∈ nodes.entries, e.1.dropLast = [] ∨
      nodes.lookup e.1.dropLast = some .directory) : FileTree where
  nodes := nodes
  parent := by
    intro dir name hnode
    obtain ⟨type, htype⟩ := Option.ne_none_iff_exists'.mp hnode
    have hparent := h _ (AList.lookup_eq_some_iff.mp htype)
    rw [List.dropLast_concat] at hparent
    exact hparent

/-! ## Operations -/

/-- Take out a node that has nothing below it. -/
def erase (path : List String) (t : FileTree) (h : t.entries path = []) : FileTree where
  nodes := t.nodes.erase path
  parent := by
    intro dir name hchild
    rw [AList.lookup_erase_eq] at hchild
    split at hchild
    · exact absurd rfl hchild
    · have hdir : dir ≠ path := by
        rintro rfl
        obtain ⟨type, htype⟩ := Option.ne_none_iff_exists'.mp hchild
        rw [← lookup_child, ← mem_entries, h] at htype
        cases htype
      rw [AList.lookup_erase_eq, if_neg hdir]
      exact t.parent dir name hchild

def readdir (dir : List String) (t : FileTree) : Option (List (String × FileType)) :=
  if t.lookup dir = some .directory then some (t.entries dir) else none

def unlink (path : List String) (t : FileTree) : Except UnlinkError FileTree :=
  if h : t.lookup path = some .directory then .error .isDirectory
  else if t.lookup path = none then .error .noEntry
  else .ok (t.erase path (entries_eq_nil h))

/-- Only an empty directory can be removed. -/
def rmdir (path : List String) (t : FileTree) : Option FileTree :=
  if h : path ≠ [] ∧ t.lookup path = some .directory ∧ t.entries path = [] then
    some (t.erase path h.2.2)
  else none

/-- The second tree is the first one without the paths that are gone. -/
structure Cut (gone : List String → Prop) (t t' : FileTree) : Prop where
  removed : ∀ p, gone p → t'.lookup p = none
  kept : ∀ p, ¬gone p → t'.lookup p = t.lookup p

theorem Cut.trans {gone gone' : List String → Prop} (h : Cut gone t t') (h' : Cut gone' t' t'') :
    Cut (fun p => gone p ∨ gone' p) t t'' where
  removed p hp := by
    by_cases hgone' : gone' p
    · exact h'.removed p hgone'
    · rw [h'.kept p hgone']
      exact h.removed p (hp.resolve_right hgone')
  kept p hp := by
    rw [h'.kept p fun hgone' => hp (Or.inr hgone'), h.kept p fun hgone => hp (Or.inl hgone)]

/-- It matters only which nodes of the tree are gone. -/
theorem Cut.congr {gone gone' : List String → Prop} (h : Cut gone t t')
    (heq : ∀ p, t.lookup p ≠ none → (gone p ↔ gone' p)) : Cut gone' t t' where
  removed p hp := by
    by_cases hgone : gone p
    · exact h.removed p hgone
    · rw [h.kept p hgone]
      by_contra hnode
      exact hgone ((heq p hnode).mpr hp)
  kept p hp := by
    by_cases hgone : gone p
    · rw [h.removed p hgone]
      by_contra hnode
      exact hp ((heq p (Ne.symm hnode)).mp hgone)
    · exact h.kept p hgone

/-- Nothing comes into being. -/
theorem Cut.lookup_ne_none {gone : List String → Prop} (h : Cut gone t t') {p : List String}
    (hp : t'.lookup p ≠ none) : ¬gone p ∧ t'.lookup p = t.lookup p := by
  by_cases hgone : gone p
  · exact absurd (h.removed p hgone) hp
  · exact ⟨hgone, h.kept p hgone⟩

theorem lookup_erase {path : List String} (hpath : path ≠ []) (h : t.entries path = [])
    (p : List String) : (t.erase path h).lookup p = if p = path then none else t.lookup p := by
  unfold lookup
  by_cases hp : p = []
  · rw [if_pos hp, if_pos hp, if_neg (hp ▸ Ne.symm hpath)]
  · rw [if_neg hp, if_neg hp]
    exact AList.lookup_erase_eq t.nodes path p

theorem unlink_directory (h : t.lookup path = some .directory) :
    t.unlink path = .error .isDirectory :=
  dif_pos h

/-- A node that is not a directory has nothing below it. -/
theorem unlink_ok {type : FileType} (h : t.lookup path = some type)
    (htype : type ≠ .directory) :
    ∃ t', t.unlink path = .ok t' ∧ Cut (path <+: ·) t t' := by
  have hdir : t.lookup path ≠ some .directory := by
    rw [h]
    simpa using htype
  have hpath : path ≠ [] := by
    rintro rfl
    exact hdir rfl
  refine ⟨t.erase path (entries_eq_nil hdir), ?_, ?_, ?_⟩
  · rw [unlink, dif_neg hdir, if_neg (by rw [h]; nofun)]
  · intro p hfront
    rw [lookup_erase hpath]
    split
    · rfl
    · next hne =>
        by_contra hnode
        obtain ⟨e, he, -⟩ := exists_entry hfront hne hnode
        rw [entries_eq_nil hdir] at he
        cases he
  · intro p hfront
    have hne : p ≠ path := by
      rintro rfl
      exact hfront List.prefix_rfl
    rw [lookup_erase hpath, if_neg hne]

theorem rmdir_ok (hpath : path ≠ []) (h : t.lookup path = some .directory)
    (hempty : t.entries path = []) :
    ∃ t', t.rmdir path = some t' ∧
      ∀ p, t'.lookup p = if p = path then none else t.lookup p :=
  ⟨t.erase path hempty, dif_pos ⟨hpath, h, hempty⟩, lookup_erase hpath hempty⟩

end FileTree

end Yadcc.Lib
