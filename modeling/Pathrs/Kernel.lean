import Pathrs.Walk

/-!
# The system calls

What each system call of `root.rs` does to the tree, as the Linux manual pages
describe it: the errors it reports, in the kernel's order of checks, and the edit
it makes when it succeeds. A call that fails leaves the tree as it was. Every
call here takes a directory inode and a name; the crate only ever passes a single
component (`Anchored`), so names are entries of that directory and no
multi-component name needs a walk.

`mkdirat`, `mknodat`, `symlinkat` and `open` with `O_CREAT` share one creation
step (`createEntry`); `mknod(2)` reads the type of the new inode off the `S_IFMT`
bits of its mode (`mknodType`); `openat` follows a trailing symlink with the
kernel's own walk from the process root unless `O_NOFOLLOW` or `O_CREAT|O_EXCL`
say otherwise, and ignores `O_CREAT` under `O_PATH`. `linkat` is modelled for the
flags `0` the crate passes, `renameat2` for no flag, `RENAME_NOREPLACE` and
`RENAME_EXCHANGE`.

Only the errors that come from the shape of the tree are modelled: `ENOTDIR`,
`ENOENT`, `EEXIST`, `EINVAL` for `.` and `..`, the type errors of `unlinkat`,
`renameat2` and `mknodat`, and `ELOOP`. The errors of names, permissions and
resources (`ENAMETOOLONG`, `EPERM`, `EACCES`, `EROFS`, `ENOSPC`, ...) are not, so
that a call succeeds here says nothing about them: results in this model are
stated for calls that succeeded, or for errors that did occur, never as "fails
exactly when".
-/

set_option autoImplicit false

namespace Pathrs

open PathBuf

section Guards

variable {ε α : Type} {c : Prop} [Decidable c] {e : ε} {a : α}

/-- A call that succeeded passed each of its guards that fails with an error. -/
theorem ite_error_eq_ok {x : Except ε α} (h : (if c then .error e else x) = .ok a) :
    ¬c ∧ x = .ok a := by
  by_cases hc : c
  · rw [if_pos hc] at h; cases h
  · rw [if_neg hc] at h; exact ⟨hc, h⟩

theorem dite_error_eq_ok {x : ¬c → Except ε α} (h : (if hc : c then .error e else x hc) = .ok a) :
    ∃ hc : ¬c, x hc = .ok a := by
  by_cases hc : c
  · rw [dif_pos hc] at h; cases h
  · rw [dif_neg hc] at h; exact ⟨hc, h⟩

/-- A call whose branches each fail or return `x` returned `x`. -/
theorem ite_guarded_eq_ok {c₁ c₂ : Prop} [Decidable c₁] [Decidable c₂] {e₁ e₂ : ε} {x : α}
    (h : (if c then (if c₁ then Except.error e₁ else .ok x) else
      if c₂ then Except.error e₂ else .ok x) = .ok a) : a = x := by
  split_ifs at h <;> cases h <;> rfl

end Guards

namespace Fs

variable (fs : Fs)

/-! ## Creating an entry -/

/-- Why the entry `name` cannot be created in `d`, if it cannot: `d` is not a
directory, or the name is empty, `.`, `..` or taken. -/
def createError (d : Nat) (name : PathBuf) : Option Errno :=
  if !fs.isDir d then some libc.ENOTDIR
  else if name = [] then some libc.ENOENT
  else if name = dot ∨ name = dotDot ∨ (fs.lookup d name).isSome then some libc.EEXIST
  else none

theorem isDir_of_createError {d : Nat} {name : PathBuf} (h : fs.createError d name = none) :
    fs.isDir d = true := by
  by_contra hd
  simp [createError, hd] at h

/-- An entry can be created exactly in a directory, under a name other than `''`,
`.` and `..` that is free there. -/
theorem createError_eq_none {d : Nat} {name : PathBuf} :
    fs.createError d name = none ↔
      fs.isDir d = true ∧ name ≠ [] ∧ name ≠ dot ∧ name ≠ dotDot ∧ fs.lookup d name = none := by
  unfold createError
  split_ifs <;> simp_all [Option.isSome_iff_ne_none]
  tauto

/-- Create `node` at the entry `name` of `d`: the step `mkdirat`, `mknodat`,
`symlinkat` and `open(O_CREAT)` share. The new inode is `next`. -/
def createEntry (d : Nat) (name : PathBuf) (node : Inode) : Except Errno (Fs × Nat) :=
  match h : fs.createError d name with
  | some e => .error e
  | none => .ok (fs.create d name node (fs.lt_next_of_isDir (fs.isDir_of_createError h)), fs.next)

theorem createEntry_eq_ok {d : Nat} {name : PathBuf} {node : Inode} {fs' : Fs} {i : Nat}
    (h : fs.createEntry d name node = .ok (fs', i)) :
    ∃ hd, fs.createError d name = none ∧ fs' = fs.create d name node hd ∧ i = fs.next := by
  unfold createEntry at h
  split at h
  · cases h
  · cases h
    exact ⟨_, by assumption, rfl, rfl⟩

/-- The edit of a creating call that succeeded: the entry `name` could be created
in `d`, and the tree gained the inode `next`, of type `t`, entered there. -/
def Creates (d : Nat) (name : PathBuf) (t : FileType) (fs' : Fs) : Prop :=
  fs.createError d name = none ∧ ∃ node hd, node.type = t ∧ fs' = fs.create d name node hd

theorem creates_of_createEntry {d : Nat} {name : PathBuf} {node : Inode} {fs' : Fs} {i : Nat}
    (h : fs.createEntry d name node = .ok (fs', i)) : fs.Creates d name node.type fs' := by
  obtain ⟨hd, hce, rfl, -⟩ := fs.createEntry_eq_ok h
  exact ⟨hce, node, hd, rfl, rfl⟩

theorem creates_of_map_createEntry {d : Nat} {name : PathBuf} {node : Inode} {fs' : Fs}
    (h : Prod.fst <$> fs.createEntry d name node = .ok fs') : fs.Creates d name node.type fs' := by
  cases hc : fs.createEntry d name node with
  | error e => rw [hc] at h; cases h
  | ok p => rw [hc] at h; cases h; exact fs.creates_of_createEntry hc

/-- `mkdirat(2)`: a new directory; the kernel keeps the bits `0o1777` of the mode
and drops set-uid and set-gid. -/
def mkdirat (d : Nat) (name : PathBuf) (mode : Mode) : Except Errno Fs :=
  Prod.fst <$> fs.createEntry d name ⟨.directory, mode &&& 0o1777⟩

theorem mkdirat_eq_ok {d : Nat} {name : PathBuf} {mode : Mode} {fs' : Fs}
    (h : fs.mkdirat d name mode = .ok fs') :
    ∃ hd, fs.createError d name = none ∧ fs' = fs.create d name ⟨.directory, mode &&& 0o1777⟩ hd := by
  unfold mkdirat at h
  cases hc : fs.createEntry d name ⟨.directory, mode &&& 0o1777⟩ with
  | error e => rw [hc] at h; cases h
  | ok p =>
      rw [hc] at h
      cases h
      obtain ⟨hd, hce, hp, -⟩ := fs.createEntry_eq_ok hc
      exact ⟨hd, hce, hp⟩

theorem creates_of_mkdirat {d : Nat} {name : PathBuf} {mode : Mode} {fs' : Fs}
    (h : fs.mkdirat d name mode = .ok fs') : fs.Creates d name .directory fs' :=
  fs.creates_of_map_createEntry h

/-- The type `mknod(2)` creates for a mode: the `S_IFMT` bits `0` or `S_IFREG` give
a regular file; `S_IFDIR` is refused with `EPERM`, values naming no type with
`EINVAL`. -/
def mknodType (mode : Mode) (dev : Dev) : Except Errno FileType :=
  let t := mode &&& libc.S_IFMT
  if t = 0 ∨ t = libc.S_IFREG then .ok .regular
  else if t = libc.S_IFCHR then .ok (.charDevice dev)
  else if t = libc.S_IFBLK then .ok (.blockDevice dev)
  else if t = libc.S_IFIFO then .ok .fifo
  else if t = libc.S_IFSOCK then .ok .socket
  else if t = libc.S_IFDIR then .error libc.EPERM
  else .error libc.EINVAL

/-- `mknodat(2)`: the type is checked before the name. -/
def mknodat (d : Nat) (name : PathBuf) (mode : Mode) (dev : Dev) : Except Errno Fs := do
  let t ← mknodType mode dev
  Prod.fst <$> fs.createEntry d name ⟨t, mode &&& 0o7777⟩

/-- `symlinkat(2)`: an empty target is refused. -/
def symlinkat (target : PathBuf) (d : Nat) (name : PathBuf) : Except Errno Fs :=
  if target = [] then .error libc.ENOENT
  else Prod.fst <$> fs.createEntry d name ⟨.symlink target, 0o777⟩

/-- A `mknodat(2)` that succeeded made the type `mknod(2)` reads off the mode. -/
theorem creates_of_mknodat {d : Nat} {name : PathBuf} {mode : Mode} {dev : Dev} {t : FileType}
    {fs' : Fs} (ht : mknodType mode dev = .ok t) (h : fs.mknodat d name mode dev = .ok fs') :
    fs.Creates d name t fs' :=
  fs.creates_of_map_createEntry (show Prod.fst <$> fs.createEntry d name ⟨t, mode &&& 0o7777⟩ = _ by
    simpa [mknodat, ht] using h)

theorem creates_of_symlinkat {target : PathBuf} {d : Nat} {name : PathBuf} {fs' : Fs}
    (h : fs.symlinkat target d name = .ok fs') : fs.Creates d name (.symlink target) fs' := by
  unfold symlinkat at h
  split at h
  · cases h
  · exact fs.creates_of_map_createEntry h

/-! ## Links, removal and renames -/

/-- `linkat(2)` with flags `0`: a trailing symlink is linked itself, a directory
cannot be linked. Other flags are outside this model and refused. -/
def linkat (olddir : Nat) (oldname : PathBuf) (newdir : Nat) (newname : PathBuf)
    (flags : BitVec 32) : Except Errno Fs :=
  if flags ≠ 0 then .error libc.EINVAL
  else if !fs.isDir olddir then .error libc.ENOTDIR
  else if oldname = [] then .error libc.ENOENT
  else if oldname = dot ∨ oldname = dotDot then .error libc.EPERM
  else
    match h : fs.lookup olddir oldname with
    | none => .error libc.ENOENT
    | some i =>
        match fs.createError newdir newname with
        | some e => .error e
        | none =>
            if fs.isDir i then .error libc.EPERM
            else .ok (fs.link newdir newname i (fs.lt_next_of_lookup h))

/-- A `linkat(2)` that succeeded entered the inode the old entry names, which is not
a directory, under the new name, where an entry could be created. -/
theorem linkat_eq_ok {olddir newdir : Nat} {oldname newname : PathBuf} {flags : BitVec 32}
    {fs' : Fs} (h : fs.linkat olddir oldname newdir newname flags = .ok fs') :
    ∃ i hi, fs.isDir olddir = true ∧ oldname ≠ [] ∧ oldname ≠ dot ∧ oldname ≠ dotDot ∧
      fs.lookup olddir oldname = some i ∧ fs.isDir i = false ∧ fs.createError newdir newname = none ∧
      fs' = fs.link newdir newname i hi := by
  unfold linkat at h
  obtain ⟨-, h⟩ := ite_error_eq_ok h
  obtain ⟨hod, h⟩ := ite_error_eq_ok h
  obtain ⟨hne, h⟩ := ite_error_eq_ok h
  obtain ⟨hdots, h⟩ := ite_error_eq_ok h
  split at h
  · cases h
  rename_i i hi
  split at h
  · cases h
  rename_i hce
  obtain ⟨hdir, h⟩ := ite_error_eq_ok h
  cases h
  simp only [not_or] at hdots
  exact ⟨i, _, by simpa using hod, hne, hdots.1, hdots.2, hi, by simpa using hdir, hce, rfl⟩

/-- `unlinkat(2)`, with `AT_REMOVEDIR` for an empty directory and without it for
anything else. -/
def unlinkat (d : Nat) (name : PathBuf) (flags : BitVec 32) : Except Errno Fs :=
  let rmdir := flags = libc.AT_REMOVEDIR
  if flags ≠ 0 ∧ ¬rmdir then .error libc.EINVAL
  else if !fs.isDir d then .error libc.ENOTDIR
  else if name = [] then .error libc.ENOENT
  else if name = dot then .error (if rmdir then libc.EINVAL else libc.EISDIR)
  else if name = dotDot then .error (if rmdir then libc.ENOTEMPTY else libc.EISDIR)
  else
    match fs.lookup d name with
    | none => .error libc.ENOENT
    | some i =>
        if rmdir then
          if !fs.isDir i then .error libc.ENOTDIR
          else if !fs.isEmpty i then .error libc.ENOTEMPTY
          else .ok (fs.unlink d name)
        else if fs.isDir i then .error libc.EISDIR
        else .ok (fs.unlink d name)

/-- An `unlinkat(2)` that succeeded removed an existing entry: with `AT_REMOVEDIR`,
of an empty directory; with no flag, of anything but a directory. -/
theorem unlinkat_eq_ok {d : Nat} {name : PathBuf} {flags : BitVec 32} {fs' : Fs}
    (h : fs.unlinkat d name flags = .ok fs') :
    ∃ j, fs.lookup d name = some j ∧ fs' = fs.unlink d name ∧
      (flags = libc.AT_REMOVEDIR → fs.isDir j = true ∧ fs.isEmpty j = true) ∧
      (flags = 0 → fs.isDir j = false) := by
  unfold unlinkat at h
  dsimp only at h
  iterate 5 obtain ⟨-, h⟩ := ite_error_eq_ok h
  split at h
  · cases h
  rename_i j hj
  refine ⟨j, hj, ?_⟩
  by_cases hr : flags = libc.AT_REMOVEDIR
  · rw [if_pos hr] at h
    obtain ⟨hdir, h⟩ := ite_error_eq_ok h
    obtain ⟨hempty, h⟩ := ite_error_eq_ok h
    cases h
    subst hr
    exact ⟨rfl, fun _ => ⟨by simpa using hdir, by simpa using hempty⟩, fun h => absurd h (by decide)⟩
  · rw [if_neg hr] at h
    obtain ⟨hdir, h⟩ := ite_error_eq_ok h
    cases h
    exact ⟨rfl, fun h => absurd h hr, fun _ => by simpa using hdir⟩

/-- Move the entry `oldname` of `od`, naming `s`, to `newname` in `nd`; a moved
directory gets its `..` at `nd`. -/
def move (od : Nat) (oldname : PathBuf) (nd : Nat) (newname : PathBuf) (s : Nat)
    (hs : s < fs.next) (hnd : nd < fs.next) : Fs :=
  ((fs.unlink od oldname).put nd newname s hs).reparent (fs.isDir s) s nd hnd

section Move

variable {fs} {od nd s : Nat} {oldname newname : PathBuf} {hs : s < fs.next} {hnd : nd < fs.next}

@[simp] theorem move_inode : (fs.move od oldname nd newname s hs hnd).inode = fs.inode := rfl

/-- After a move, `newname` in `nd` names `s`, `oldname` in `od` names nothing, and
every other entry is as it was. -/
theorem move_lookup {e : Nat} {n : PathBuf} :
    (fs.move od oldname nd newname s hs hnd).lookup e n =
      if e = nd ∧ n = newname then some s
      else if e = od ∧ n = oldname then none else fs.lookup e n := by
  show (((fs.unlink od oldname).unlink nd newname).link nd newname s hs).lookup e n = _
  by_cases hd : e = nd ∧ n = newname
  · obtain ⟨rfl, rfl⟩ := hd
    simp [link_lookup_self]
  · rw [link_lookup_old hd, unlink_lookup, if_neg hd, unlink_lookup, if_neg hd]

theorem move_parent {x : Nat} :
    (fs.move od oldname nd newname s hs hnd).parent x =
      if fs.isDir s = true ∧ x = s then nd else fs.parent x := rfl

/-- A moved directory has its `..` in the directory it moved to. -/
theorem move_parent_self (h : fs.isDir s = true) :
    (fs.move od oldname nd newname s hs hnd).parent s = nd := by
  simp [move_parent, h]

end Move

/-- Swap the entries `oldname` of `od` (naming `s`) and `newname` of `nd` (naming `t`). -/
def exchange (od : Nat) (oldname : PathBuf) (nd : Nat) (newname : PathBuf) (s t : Nat)
    (hs : s < fs.next) (ht : t < fs.next) (hod : od < fs.next) (hnd : nd < fs.next) : Fs :=
  (((fs.put od oldname t ht).put nd newname s hs).reparent (fs.isDir s) s nd hnd).reparent
    (fs.isDir t) t od hod

section Exchange

variable {fs} {od nd s t : Nat} {oldname newname : PathBuf} {hs : s < fs.next}
  {ht : t < fs.next} {hod : od < fs.next} {hnd : nd < fs.next}

@[simp] theorem exchange_inode :
    (fs.exchange od oldname nd newname s t hs ht hod hnd).inode = fs.inode := rfl

/-- After a swap, `newname` in `nd` names `s`, `oldname` in `od` names `t`, and every
other entry is as it was. -/
theorem exchange_lookup {e : Nat} {n : PathBuf} :
    (fs.exchange od oldname nd newname s t hs ht hod hnd).lookup e n =
      if e = nd ∧ n = newname then some s
      else if e = od ∧ n = oldname then some t else fs.lookup e n := by
  show ((((fs.unlink od oldname).link od oldname t ht).unlink nd newname).link nd newname s
    hs).lookup e n = _
  simp only [link_lookup, unlink_lookup]
  split_ifs <;> rfl

theorem exchange_parent {x : Nat} :
    (fs.exchange od oldname nd newname s t hs ht hod hnd).parent x =
      if fs.isDir t = true ∧ x = t then od
      else if fs.isDir s = true ∧ x = s then nd else fs.parent x := rfl

end Exchange

/-- `renameat2(2)` with no flag, `RENAME_NOREPLACE` or `RENAME_EXCHANGE`. A
directory cannot move into its own subtree, and a replaced entry must have the
kind of the moved one (and be empty when it is a directory). -/
def renameat2 (od : Nat) (oldname : PathBuf) (nd : Nat) (newname : PathBuf)
    (flags : BitVec 32) : Except Errno Fs :=
  let noreplace := flags = libc.RENAME_NOREPLACE
  let exch := flags = libc.RENAME_EXCHANGE
  if flags ≠ 0 ∧ ¬noreplace ∧ ¬exch then .error libc.EINVAL
  else if hod : !fs.isDir od then .error libc.ENOTDIR
  else if hnd : !fs.isDir nd then .error libc.ENOTDIR
  else if oldname = [] ∨ newname = [] then .error libc.ENOENT
  else if oldname = dot ∨ oldname = dotDot ∨ newname = dot ∨ newname = dotDot then
    .error libc.EBUSY
  else
    have hod : od < fs.next := fs.lt_next_of_isDir (by simpa using hod)
    have hnd : nd < fs.next := fs.lt_next_of_isDir (by simpa using hnd)
    match hs : fs.lookup od oldname with
    | none => .error libc.ENOENT
    | some s =>
        have hs := fs.lt_next_of_lookup hs
        match ht : fs.lookup nd newname with
        | none =>
            if exch then .error libc.ENOENT
            else if fs.isDir s ∧ fs.isUnder nd s then .error libc.EINVAL
            else .ok (fs.move od oldname nd newname s hs hnd)
        | some t =>
            have ht := fs.lt_next_of_lookup ht
            if noreplace then .error libc.EEXIST
            else if exch then
              if (fs.isDir s ∧ fs.isUnder nd s) ∨ (fs.isDir t ∧ fs.isUnder od t) then
                .error libc.EINVAL
              else .ok (fs.exchange od oldname nd newname s t hs ht hod hnd)
            else if s = t then .ok fs
            else if fs.isDir s ∧ fs.isUnder nd s then .error libc.EINVAL
            else if fs.isDir s ∧ !fs.isDir t then .error libc.ENOTDIR
            else if !fs.isDir s ∧ fs.isDir t then .error libc.EISDIR
            else if fs.isDir t ∧ !fs.isEmpty t then .error libc.ENOTEMPTY
            else .ok (fs.move od oldname nd newname s hs hnd)

/-- A `renameat2(2)` that succeeded, with any flags, was given two directories and
an existing entry of the first, and left the tree as it was, moved that entry, or
swapped it with an existing entry of the second. -/
theorem renameat2_eq_ok {od nd : Nat} {oldname newname : PathBuf} {flags : BitVec 32} {fs' : Fs}
    (h : fs.renameat2 od oldname nd newname flags = .ok fs') :
    fs.isDir od = true ∧ fs.isDir nd = true ∧ ∃ s hs hnd, fs.lookup od oldname = some s ∧
      (fs' = fs ∨ fs' = fs.move od oldname nd newname s hs hnd ∨
        ∃ t ht hod, fs.lookup nd newname = some t ∧
          fs' = fs.exchange od oldname nd newname s t hs ht hod hnd) := by
  unfold renameat2 at h
  dsimp only at h
  obtain ⟨-, h⟩ := ite_error_eq_ok h
  obtain ⟨hod, h⟩ := dite_error_eq_ok h
  obtain ⟨hnd, h⟩ := dite_error_eq_ok h
  iterate 2 obtain ⟨-, h⟩ := ite_error_eq_ok h
  have hod' : fs.isDir od = true := by simpa only [Bool.not_eq_true', Bool.not_eq_false] using hod
  have hnd' : fs.isDir nd = true := by simpa only [Bool.not_eq_true', Bool.not_eq_false] using hnd
  refine ⟨hod', hnd', ?_⟩
  split at h
  · cases h
  rename_i s hs
  refine ⟨s, fs.lt_next_of_lookup hs, fs.lt_next_of_isDir hnd', hs, ?_⟩
  split at h
  · iterate 2 obtain ⟨-, h⟩ := ite_error_eq_ok h
    cases h
    exact .inr (.inl rfl)
  rename_i t ht
  obtain ⟨-, h⟩ := ite_error_eq_ok h
  split at h
  · obtain ⟨-, h⟩ := ite_error_eq_ok h
    cases h
    exact .inr (.inr ⟨t, fs.lt_next_of_lookup ht, fs.lt_next_of_isDir hod', ht, rfl⟩)
  split at h
  · cases h
    exact .inl rfl
  iterate 4 obtain ⟨-, h⟩ := ite_error_eq_ok h
  cases h
  exact .inr (.inl rfl)

/-- A `renameat2(2)` with `RENAME_NOREPLACE` that succeeded moved an existing entry
to a name that was free. -/
theorem renameat2_noreplace_eq_ok {od nd : Nat} {oldname newname : PathBuf} {fs' : Fs}
    (h : fs.renameat2 od oldname nd newname libc.RENAME_NOREPLACE = .ok fs') :
    ∃ s hs hnd, fs.lookup od oldname = some s ∧ fs.lookup nd newname = none ∧
      fs' = fs.move od oldname nd newname s hs hnd := by
  unfold renameat2 at h
  dsimp only at h
  obtain ⟨-, h⟩ := ite_error_eq_ok h
  obtain ⟨hod, h⟩ := dite_error_eq_ok h
  obtain ⟨hnd, h⟩ := dite_error_eq_ok h
  iterate 2 obtain ⟨-, h⟩ := ite_error_eq_ok h
  split at h
  · cases h
  rename_i s hs
  split at h
  · rename_i ht
    iterate 2 obtain ⟨-, h⟩ := ite_error_eq_ok h
    cases h
    exact ⟨s, _, _, hs, ht, rfl⟩
  · exact absurd (ite_error_eq_ok h).1 (not_not.2 rfl)

/-- A `renameat2(2)` with no flag that succeeded either found both names naming one
inode and changed nothing, or moved an existing entry to a name that named another
inode or nothing; what it replaced had the kind of the moved inode (and was empty,
as a directory), and a directory did not move into its own subtree. -/
theorem renameat2_zero_eq_ok {od nd : Nat} {oldname newname : PathBuf} {fs' : Fs}
    (h : fs.renameat2 od oldname nd newname 0 = .ok fs') :
    ∃ s hs hnd, fs.lookup od oldname = some s ∧
      (fs.lookup nd newname = some s ∧ fs' = fs ∨
        fs.lookup nd newname ≠ some s ∧
        (∀ t, fs.lookup nd newname = some t → fs.isDir t = fs.isDir s ∧
          (fs.isDir t = true → fs.isEmpty t = true)) ∧
        ¬(fs.isDir s = true ∧ fs.isUnder nd s = true) ∧
        fs' = fs.move od oldname nd newname s hs hnd) := by
  have h0 : (0 : BitVec 32) ≠ libc.RENAME_NOREPLACE ∧ (0 : BitVec 32) ≠ libc.RENAME_EXCHANGE := by
    decide
  unfold renameat2 at h
  dsimp only at h
  obtain ⟨-, h⟩ := ite_error_eq_ok h
  obtain ⟨hod, h⟩ := dite_error_eq_ok h
  obtain ⟨hnd, h⟩ := dite_error_eq_ok h
  iterate 2 obtain ⟨-, h⟩ := ite_error_eq_ok h
  split at h
  · cases h
  rename_i s hs
  split at h
  · rename_i ht
    rw [if_neg h0.2] at h
    obtain ⟨hsub, h⟩ := ite_error_eq_ok h
    cases h
    exact ⟨s, _, _, hs, .inr ⟨by simp [ht], by simp [ht], hsub, rfl⟩⟩
  · rename_i t ht
    rw [if_neg h0.1, if_neg h0.2] at h
    by_cases hst : s = t
    · rw [if_pos hst] at h
      cases h
      subst hst
      exact ⟨s, fs.lt_next_of_lookup hs, fs.lt_next_of_isDir (by simpa using hnd), hs,
        .inl ⟨ht, rfl⟩⟩
    rw [if_neg hst] at h
    obtain ⟨hsub, h⟩ := ite_error_eq_ok h
    obtain ⟨h₁, h⟩ := ite_error_eq_ok h
    obtain ⟨h₂, h⟩ := ite_error_eq_ok h
    obtain ⟨h₃, h⟩ := ite_error_eq_ok h
    cases h
    refine ⟨s, _, _, hs, .inr ⟨by simp [ht, Ne.symm hst], fun t' ht' => ?_, hsub, rfl⟩⟩
    obtain rfl : t = t' := Option.some.inj (ht.symm.trans ht')
    revert h₁ h₂ h₃
    cases fs.isDir s <;> cases fs.isDir t <;> simp

/-- A `renameat2(2)` with `RENAME_EXCHANGE` that succeeded swapped two existing
entries. -/
theorem renameat2_exchange_eq_ok {od nd : Nat} {oldname newname : PathBuf} {fs' : Fs}
    (h : fs.renameat2 od oldname nd newname libc.RENAME_EXCHANGE = .ok fs') :
    ∃ s t hs ht hod hnd, fs.lookup od oldname = some s ∧ fs.lookup nd newname = some t ∧
      fs' = fs.exchange od oldname nd newname s t hs ht hod hnd := by
  unfold renameat2 at h
  dsimp only at h
  obtain ⟨-, h⟩ := ite_error_eq_ok h
  obtain ⟨hod, h⟩ := dite_error_eq_ok h
  obtain ⟨hnd, h⟩ := dite_error_eq_ok h
  iterate 2 obtain ⟨-, h⟩ := ite_error_eq_ok h
  split at h
  · cases h
  rename_i s hs
  split at h
  · exact absurd (ite_error_eq_ok h).1 (not_not.2 rfl)
  · rename_i t ht
    obtain ⟨-, h⟩ := ite_error_eq_ok h
    rw [if_pos rfl] at h
    obtain ⟨-, h⟩ := ite_error_eq_ok h
    cases h
    exact ⟨s, t, _, _, _, _, hs, ht, rfl⟩

/-! ## Opening -/

/-- `openat(2)` of the entry `name` of `d`: the tree after the call and the opened
inode. Under `O_PATH` only `O_DIRECTORY` and `O_NOFOLLOW` count. Without
`O_NOFOLLOW`, and unless `O_CREAT|O_EXCL` is given, a trailing symlink is followed
by the kernel's walk from the process root, and `O_CREAT` then creates a missing
last component of its target. -/
def openat (d : Nat) (name : PathBuf) (flags : OpenFlags) (mode : Mode) :
    Except Errno (Fs × Nat) :=
  let path := flags.contains libc.O_PATH
  let creat := flags.contains libc.O_CREAT && !path
  let excl := creat && flags.contains libc.O_EXCL
  let regular : Inode := ⟨.regular, mode &&& 0o7777⟩
  let existing (i : Nat) : Except Errno (Fs × Nat) :=
    if fs.isDir i then (if creat then .error libc.EISDIR else .ok (fs, i))
    else if flags.contains libc.O_DIRECTORY then .error libc.ENOTDIR
    else .ok (fs, i)
  if !fs.isDir d then .error libc.ENOTDIR
  else if name = [] then .error libc.ENOENT
  else if name = dot ∨ name = dotDot then
    if creat then .error libc.EISDIR
    else existing (if name = dot ∨ d = fs.root then d else fs.parent d)
  else
    match fs.lookup d name with
    | none => if creat then fs.createEntry d name regular else .error libc.ENOENT
    | some i =>
        if excl then .error libc.EEXIST
        else
          match fs.typeOf i with
          | some (.symlink target) =>
              if flags.contains libc.O_NOFOLLOW then
                (if path then .ok (fs, i) else .error libc.ELOOP)
              else if target = [] then .error libc.ENOENT
              else
                match fs.walk fs.root false false (maxSymlinks - 1)
                    (if target.isAbsolute then fs.root else d) (rawComponents target) with
                | .complete j => existing j
                | .missing dir [last] =>
                    if creat then fs.createEntry dir last regular else .error libc.ENOENT
                | .missing _ _ => .error libc.ENOENT
                | .failed e => .error e
          | _ => existing i

/-- With `O_CREAT|O_EXCL` and without `O_PATH`, an open that succeeds created a
regular file at an entry that did not exist. -/
theorem openat_of_excl {d : Nat} {name : PathBuf} {flags : OpenFlags} {mode : Mode} {fs' : Fs}
    {i : Nat} (hcreat : flags.contains libc.O_CREAT = true)
    (hexcl : flags.contains libc.O_EXCL = true) (hpath : flags.contains libc.O_PATH = false)
    (h : fs.openat d name flags mode = .ok (fs', i)) :
    fs.lookup d name = none ∧ i = fs.next ∧ fs'.lookup d name = some fs.next ∧
      fs'.typeOf fs.next = some .regular := by
  simp only [openat, hcreat, hexcl, hpath, Bool.not_false, Bool.and_self, if_true] at h
  split_ifs at h
  split at h
  · rename_i hl
    obtain ⟨hd, -, rfl, rfl⟩ := fs.createEntry_eq_ok h
    exact ⟨hl, rfl, create_lookup_self, by simp [typeOf, create_inode_new]⟩
  · simp at h

/-- What an `openat(2)` that succeeded did to the tree: nothing; or it created a
regular file at the entry `name` of `d`; or it followed a trailing symlink, not
told otherwise by `O_NOFOLLOW`, `O_EXCL` or `O_PATH`, and created one at a missing
last component of the symlink's target, wherever the kernel's walk found it. -/
theorem openat_eq_ok {d : Nat} {name : PathBuf} {flags : OpenFlags} {mode : Mode} {fs' : Fs}
    {k : Nat} (h : fs.openat d name flags mode = .ok (fs', k)) :
    fs' = fs ∨ fs.createEntry d name ⟨.regular, mode &&& 0o7777⟩ = .ok (fs', k) ∨
      (flags.contains libc.O_NOFOLLOW = false ∧ flags.contains libc.O_EXCL = false ∧
        flags.contains libc.O_PATH = false ∧
        ∃ dir last, fs.createEntry dir last ⟨.regular, mode &&& 0o7777⟩ = .ok (fs', k)) := by
  unfold openat at h
  simp only [] at h
  iterate 2 obtain ⟨-, h⟩ := ite_error_eq_ok h
  split at h
  · split at h
    · cases h
    · generalize (if name = dot ∨ d = fs.root then d else fs.parent d) = x at h
      split at h
      · cases h
        exact .inl rfl
      · obtain ⟨-, h⟩ := ite_error_eq_ok h
        cases h
        exact .inl rfl
  split at h
  · split at h
    · exact .inr (.inl h)
    · cases h
  obtain ⟨hexcl, h⟩ := ite_error_eq_ok h
  split at h
  · split at h
    · split at h
      · cases h
        exact .inl rfl
      · cases h
    rename_i hnof
    obtain ⟨-, h⟩ := ite_error_eq_ok h
    split at h
    · exact .inl (congrArg Prod.fst (ite_guarded_eq_ok h))
    · split at h
      · rename_i hcreat
        simp only [Bool.and_eq_true, Bool.not_eq_true'] at hcreat hexcl
        exact .inr (.inr ⟨by simpa using hnof, by simpa [hcreat.1, hcreat.2] using hexcl, hcreat.2,
          _, _, h⟩)
      · cases h
    · cases h
    · cases h
  · exact .inl (congrArg Prod.fst (ite_guarded_eq_ok h))

/-- `readlinkat(2)` of the entry `name` of `d`, or of `d` itself for an empty name. -/
def readlinkat (d : Nat) (name : PathBuf) : Except Errno PathBuf :=
  let target := if name = [] then some d else fs.lookup d name
  match target.bind fs.typeOf with
  | some (.symlink t) => .ok t
  | some _ => .error (if name = [] then libc.ENOENT else libc.EINVAL)
  | none => .error libc.ENOENT

end Fs

end Pathrs
