import Pathrs.Path
import Pathrs.Libc

/-!
# The directory tree

The kernel's side of every call `root.rs` makes is a directory tree: numbered
inodes, each with a file type and permission bits; for every directory its list
of entries and the directory its `..` names; the process root `/`; and the next
free inode number. A tree keeps four facts as fields, so that no ill-formed tree
can be built: no inode exists at or past `next`, every entry and every `..` of an
existing inode names an existing inode, and the root exists.

This module holds the tree and its elementary edits, each with the lemmas that
say what it leaves alone: allocating an entry (`create`), adding a hard link
(`link`), removing an entry (`unlink`), replacing an entry (`put`), moving a
directory's `..` (`reparent`) and emptying a subtree (`clearUnder`).
-/

set_option autoImplicit false

namespace Pathrs

open PathBuf

/-- The type of an inode, with what an inode of that type stores. -/
inductive FileType where
  | regular
  | directory
  | symlink (target : PathBuf)
  | fifo
  | charDevice (dev : Dev)
  | blockDevice (dev : Dev)
  | socket
  deriving DecidableEq, Repr

/-- What a walk distinguishes: a directory, a symlink, or an inode it can only end at. -/
theorem FileType.dir_or_symlink_or_plain (t : FileType) :
    t = .directory ∨ (∃ target, t = .symlink target) ∨
      (t ≠ .directory ∧ ∀ target, t ≠ .symlink target) := by
  cases t <;> simp

/-- An inode: its type and its permission bits. -/
structure Inode where
  type : FileType
  perm : Mode
  deriving DecidableEq, Repr

/-- A directory tree. -/
structure Fs where
  /-- The inode table. -/
  inode : Nat → Option Inode
  /-- The entries of each directory, name first. -/
  entries : Nat → List (PathBuf × Nat)
  /-- The directory `..` names, for each directory. -/
  parent : Nat → Nat
  /-- The process root `/`. -/
  root : Nat
  /-- The next free inode number. -/
  next : Nat
  inode_fresh : ∀ i, next ≤ i → inode i = none
  entries_lt : ∀ d n i, (n, i) ∈ entries d → i < next
  parent_lt : ∀ d, d < next → parent d < next
  root_lt : root < next

namespace Fs

variable (fs : Fs)

/-- The inode an entry of `d` names. -/
def lookup (d : Nat) (name : PathBuf) : Option Nat := (fs.entries d).lookup name

/-- The type of an inode, if it exists. -/
def typeOf (i : Nat) : Option FileType := (fs.inode i).map Inode.type

/-- Whether an inode is a directory. -/
def isDir (i : Nat) : Bool := fs.typeOf i == some .directory

/-- Whether a directory has no entries. -/
def isEmpty (d : Nat) : Bool := (fs.entries d).isEmpty

theorem lt_next_of_typeOf {i : Nat} {t : FileType} (h : fs.typeOf i = some t) : i < fs.next := by
  by_contra hn
  simp [typeOf, fs.inode_fresh i (Nat.le_of_not_lt hn)] at h

theorem lt_next_of_isDir {i : Nat} (h : fs.isDir i = true) : i < fs.next :=
  fs.lt_next_of_typeOf (show fs.typeOf i = some .directory by simpa [isDir] using h)

theorem mem_of_lookup {l : List (PathBuf × Nat)} {name : PathBuf} {i : Nat}
    (h : l.lookup name = some i) : (name, i) ∈ l := by
  obtain ⟨l₁, l₂, rfl, -⟩ := List.lookup_eq_some_iff.1 h
  simp

theorem lt_next_of_lookup {d i : Nat} {name : PathBuf} (h : fs.lookup d name = some i) :
    i < fs.next :=
  fs.entries_lt d name i (mem_of_lookup h)

/-! ## Allocating -/

/-- Allocate `node` as inode `next`, with its `..` at `d`, and enter it in `d`
under `name`. -/
def create (d : Nat) (name : PathBuf) (node : Inode) (hd : d < fs.next) : Fs where
  inode i := if i = fs.next then some node else fs.inode i
  entries e :=
    if e = fs.next then [] else if e = d then (name, fs.next) :: fs.entries d else fs.entries e
  parent i := if i = fs.next then d else fs.parent i
  root := fs.root
  next := fs.next + 1
  inode_fresh := fun i (hi : fs.next + 1 ≤ i) => by
    show (if i = fs.next then some node else fs.inode i) = none
    rw [if_neg (by omega), fs.inode_fresh i (by omega)]
  entries_lt := fun e n i hmem => by
    show i < fs.next + 1
    dsimp only at hmem
    split at hmem
    · simp at hmem
    · split at hmem
      · rcases List.mem_cons.1 hmem with h | h
        · cases h
          omega
        · have := fs.entries_lt _ _ _ h
          omega
      · have := fs.entries_lt _ _ _ hmem
        omega
  parent_lt := fun i (hi : i < fs.next + 1) => by
    show (if i = fs.next then d else fs.parent i) < fs.next + 1
    split
    · omega
    · have := fs.parent_lt i (by omega)
      omega
  root_lt := Nat.lt_succ_of_lt fs.root_lt

section Create

variable {fs} {d : Nat} {name : PathBuf} {node : Inode} {hd : d < fs.next}

@[simp] theorem create_next : (fs.create d name node hd).next = fs.next + 1 := rfl

@[simp] theorem create_root : (fs.create d name node hd).root = fs.root := rfl

theorem create_inode_new : (fs.create d name node hd).inode fs.next = some node := by
  simp [create]

theorem create_inode_old {i : Nat} (hi : i < fs.next) :
    (fs.create d name node hd).inode i = fs.inode i := by
  simp [create, Nat.ne_of_lt hi]

theorem create_typeOf_old {i : Nat} (hi : i < fs.next) :
    (fs.create d name node hd).typeOf i = fs.typeOf i := by
  simp [typeOf, create_inode_old hi]

theorem create_parent_old {i : Nat} (hi : i < fs.next) :
    (fs.create d name node hd).parent i = fs.parent i := by
  simp [create, Nat.ne_of_lt hi]

theorem create_lookup_self : (fs.create d name node hd).lookup d name = some fs.next := by
  simp [create, lookup, Nat.ne_of_lt hd]

/-- The new inode has no entries. -/
theorem create_lookup_new {n : PathBuf} : (fs.create d name node hd).lookup fs.next n = none := by
  simp [create, lookup]

/-- Entries other than the new one are unchanged. -/
theorem create_lookup_old {e : Nat} {n : PathBuf} (he : e ≠ fs.next) (hne : ¬(e = d ∧ n = name)) :
    (fs.create d name node hd).lookup e n = fs.lookup e n := by
  simp only [create, lookup, he, if_false]
  split
  · subst e
    have hn : n ≠ name := fun h => hne ⟨rfl, h⟩
    simp [List.lookup_cons, beq_false_of_ne hn]
  · rfl

/-- The entries of the tree after allocating: the new entry, none in the new inode,
and the old ones. -/
theorem create_lookup {e : Nat} {n : PathBuf} :
    (fs.create d name node hd).lookup e n =
      if e = d ∧ n = name then some fs.next else if e = fs.next then none else fs.lookup e n := by
  split_ifs with h₁ h₂
  · obtain ⟨rfl, rfl⟩ := h₁
    exact create_lookup_self
  · subst h₂
    exact create_lookup_new
  · exact create_lookup_old h₂ h₁

end Create

/-! ## Linking and unlinking -/

/-- Add the entry `name ↦ i` to `d` (a hard link). -/
def link (d : Nat) (name : PathBuf) (i : Nat) (hi : i < fs.next) : Fs :=
  { fs with
    entries := fun e => if e = d then (name, i) :: fs.entries d else fs.entries e
    entries_lt := fun e n j hmem => by
      dsimp only at hmem
      split at hmem
      · rcases List.mem_cons.1 hmem with h | h
        · cases h
          exact hi
        · exact fs.entries_lt _ _ _ h
      · exact fs.entries_lt _ _ _ hmem }

section Link

variable {fs} {d : Nat} {name : PathBuf} {i : Nat} {hi : i < fs.next}

theorem link_lookup_self : (fs.link d name i hi).lookup d name = some i := by
  simp [link, lookup]

/-- Entries other than the new one are unchanged. -/
theorem link_lookup_old {e : Nat} {n : PathBuf} (hne : ¬(e = d ∧ n = name)) :
    (fs.link d name i hi).lookup e n = fs.lookup e n := by
  simp only [link, lookup]
  split
  · subst e
    have hn : n ≠ name := fun h => hne ⟨rfl, h⟩
    simp [List.lookup_cons, beq_false_of_ne hn]
  · rfl

theorem link_lookup {e : Nat} {n : PathBuf} :
    (fs.link d name i hi).lookup e n = if e = d ∧ n = name then some i else fs.lookup e n := by
  split_ifs with h
  · obtain ⟨rfl, rfl⟩ := h
    exact link_lookup_self
  · exact link_lookup_old h

end Link

/-- Remove every entry `name` of `d`. -/
def unlink (d : Nat) (name : PathBuf) : Fs :=
  { fs with
    entries := fun e => if e = d then (fs.entries d).filter (·.1 != name) else fs.entries e
    entries_lt := fun e n j hmem => by
      dsimp only at hmem
      split at hmem
      · exact fs.entries_lt _ _ _ (List.mem_of_mem_filter hmem)
      · exact fs.entries_lt _ _ _ hmem }

section Unlink

variable {fs}

/-- Dropping the entries named `name` leaves no entry of that name, and the others
as they were. -/
theorem lookup_filter_ne (l : List (PathBuf × Nat)) (name n : PathBuf) :
    (l.filter (·.1 != name)).lookup n = if n = name then none else l.lookup n := by
  induction l with
  | nil => simp
  | cons p l ih =>
      obtain ⟨k, v⟩ := p
      by_cases hn : n = k
      · subst hn
        by_cases hk : n = name
        · subst hk
          rw [List.filter_cons_of_neg (by simp), ih]
          simp
        · rw [List.filter_cons_of_pos (by simpa using hk), if_neg hk, List.lookup_cons_self,
            List.lookup_cons_self]
      · have hl : ∀ l' : List (PathBuf × Nat), ((k, v) :: l').lookup n = l'.lookup n := fun _ => by
          simp [List.lookup_cons, beq_false_of_ne hn]
        by_cases hk : k = name
        · rw [List.filter_cons_of_neg (by simpa using hk), ih, hl]
        · rw [List.filter_cons_of_pos (by simpa using hk), hl, ih, hl]

theorem unlink_lookup {d e : Nat} {name n : PathBuf} :
    (fs.unlink d name).lookup e n = if e = d ∧ n = name then none else fs.lookup e n := by
  unfold unlink lookup
  by_cases he : e = d
  · subst he
    simp [lookup_filter_ne]
  · simp [he]

end Unlink

/-- Make `name` in `d` name `i`, replacing an entry of that name. -/
def put (d : Nat) (name : PathBuf) (i : Nat) (hi : i < fs.next) : Fs :=
  (fs.unlink d name).link d name i hi

/-- When `moved` holds, point the `..` of the directory `i` at `d`. -/
def reparent (moved : Bool) (i d : Nat) (hd : d < fs.next) : Fs :=
  { fs with
    parent := fun j => if moved ∧ j = i then d else fs.parent j
    parent_lt := fun j hj => by
      dsimp only
      split
      · exact hd
      · exact fs.parent_lt j hj }

/-! ## Subtrees -/

/-- Whether following `..` from `x` at most `k` times meets `top` before the root. -/
def reaches (top : Nat) : Nat → Nat → Bool
  | 0, x => x == top
  | k + 1, x => x == top || (x != fs.root && reaches top k (fs.parent x))

/-- Whether the directory `x` lies in the subtree of `top` (`top` included). -/
def isUnder (x top : Nat) : Bool := fs.reaches top fs.next x

/-- Empty every directory in the subtree of `top`. -/
def clearUnder (top : Nat) : Fs :=
  { fs with
    entries := fun e => if fs.isUnder e top then [] else fs.entries e
    entries_lt := fun e n j hmem => by
      dsimp only at hmem
      split at hmem
      · simp at hmem
      · exact fs.entries_lt _ _ _ hmem }

theorem clearUnder_lookup {top e : Nat} {n : PathBuf} :
    (fs.clearUnder top).lookup e n = if fs.isUnder e top then none else fs.lookup e n := by
  by_cases h : fs.isUnder e top <;> simp [clearUnder, lookup, h]

end Fs

end Pathrs
