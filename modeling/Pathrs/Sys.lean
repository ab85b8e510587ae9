import Pathrs.Error
import Pathrs.Kernel

/-!
# The process: descriptors, the call log and the `Sys` monad

An operation of `root.rs` runs in a `World`: the tree, the table of open
descriptors (descriptor `n` refers to the `n`-th inode of the table, so a newly
opened descriptor is always fresh) and the log of every call issued so far. The
log is ghost state: nothing reads it, and every primitive below appends its own
call to it, whatever the outcome. Operations are `Sys` computations
(`EStateM Error World`), which keep the world when they fail, as the real process
does.

The primitives are the system calls of the `syscalls` module, each a thin wrapper
over one call of `Kernel` (`openat` adds `O_NOFOLLOW`, `O_CLOEXEC` and `O_NOCTTY` to
its flags); `Handle::reopen` and `utils::remove_all`, which
`src/` does not contain; and the resolver. The resolver's backends (the
`resolvers` module) are not in `src/` either: `ResolverImpl` takes their
behaviour as a parameter, a function of the tree that reads it and changes
nothing. The resolver's result receives a fresh descriptor.
-/

set_option autoImplicit false

namespace Pathrs

open PathBuf

namespace libc

/-- `AT_FDCWD`. -/
def AT_FDCWD : Int := -100

end libc

/-- A call as the crate issued it, with its arguments; a call into the resolver,
and a reopen, also records the descriptor it returned. -/
inductive Call where
  | resolve (root : Int) (path : PathBuf) (noFollowTrailing : Bool) (out : Option Int)
  | resolvePartial (root : Int) (path : PathBuf) (noFollowTrailing : Bool)
      (out : Option (Int × Option PathBuf))
  | reopen (fd : Int) (flags : OpenFlags) (out : Option Int)
  | openat (dir : Int) (name : PathBuf) (flags : OpenFlags) (mode : Mode)
  | mkdirat (dir : Int) (name : PathBuf) (mode : Mode)
  | mknodat (dir : Int) (name : PathBuf) (mode : Mode) (dev : Dev)
  | symlinkat (target : PathBuf) (dir : Int) (name : PathBuf)
  | linkat (olddir : Int) (oldname : PathBuf) (newdir : Int) (newname : PathBuf)
      (flags : BitVec 32)
  | unlinkat (dir : Int) (name : PathBuf) (flags : BitVec 32)
  | renameat2 (olddir : Int) (oldname : PathBuf) (newdir : Int) (newname : PathBuf)
      (flags : BitVec 32)
  | removeAll (dir : Int) (name : PathBuf)
  | readlinkat (dir : Int) (name : PathBuf)
  deriving DecidableEq, Repr

namespace Call

/-- The entries a call can change, as (directory descriptor, name) pairs: both
sides of `linkat` and `renameat2`, and `openat` only with `O_CREAT`. -/
def targets : Call → List (Int × PathBuf)
  | .openat dir name flags _ => if flags.contains libc.O_CREAT then [(dir, name)] else []
  | .mkdirat dir name _ => [(dir, name)]
  | .mknodat dir name _ _ => [(dir, name)]
  | .symlinkat _ dir name => [(dir, name)]
  | .linkat olddir oldname newdir newname _ => [(olddir, oldname), (newdir, newname)]
  | .unlinkat dir name _ => [(dir, name)]
  | .renameat2 olddir oldname newdir newname _ => [(olddir, oldname), (newdir, newname)]
  | .removeAll dir name => [(dir, name)]
  | _ => []

/-- The calls that can change the tree. -/
def isMutating (c : Call) : Bool := !c.targets.isEmpty

end Call

/-- The process state an operation runs in. -/
structure World where
  fs : Fs
  /-- The descriptor table: descriptor `n` refers to inode `fds[n]`. -/
  fds : List Nat
  /-- Every call issued so far, oldest first. -/
  log : List Call

namespace World

variable (w : World)

/-- The inode an open descriptor refers to. -/
def inodeOf (fd : Int) : Option Nat := if fd < 0 then none else w.fds[fd.toNat]?

/-- The inode of a descriptor passed to a system call, or `EBADF`. -/
def fdInode (fd : Int) : Except Errno Nat :=
  match w.inodeOf fd with
  | some i => .ok i
  | none => .error libc.EBADF

/-- Append a call to the log. -/
def record (c : Call) : World := { w with log := w.log ++ [c] }

/-- Open descriptors on the inodes `is`; the first new descriptor is `fds.length`. -/
def alloc (is : List Nat) : World := { w with fds := w.fds ++ is }

@[simp] theorem record_fs (c : Call) : (w.record c).fs = w.fs := rfl
@[simp] theorem record_fds (c : Call) : (w.record c).fds = w.fds := rfl
@[simp] theorem record_log (c : Call) : (w.record c).log = w.log ++ [c] := rfl
@[simp] theorem alloc_fs (is : List Nat) : (w.alloc is).fs = w.fs := rfl
@[simp] theorem alloc_fds (is : List Nat) : (w.alloc is).fds = w.fds ++ is := rfl
@[simp] theorem alloc_log (is : List Nat) : (w.alloc is).log = w.log := rfl

@[simp] theorem inodeOf_record (c : Call) (fd : Int) : (w.record c).inodeOf fd = w.inodeOf fd := rfl

/-- A newly opened descriptor refers to the first inode opened. -/
@[simp] theorem inodeOf_alloc_length (j : Nat) (is : List Nat) :
    (w.alloc (j :: is)).inodeOf w.fds.length = some j := by
  simp [inodeOf, alloc, List.getElem_append_right, Int.not_lt.2 (Int.ofNat_nonneg _)]

/-- Opening descriptors leaves the open ones as they were. -/
theorem inodeOf_alloc {fd : Int} {i : Nat} (h : w.inodeOf fd = some i) (is : List Nat) :
    (w.alloc is).inodeOf fd = some i := by
  unfold inodeOf at h ⊢
  split at h
  · cases h
  · rw [if_neg (by assumption), alloc_fds, List.getElem?_append_left
      (List.getElem?_eq_some_iff.1 h).1, h]

/-- Descriptors opened since leave the open ones as they were. -/
theorem inodeOf_of_fds {w' : World} {is : List Nat} (hfds : w'.fds = w.fds ++ is) {fd : Int} {i : Nat}
    (h : w.inodeOf fd = some i) : w'.inodeOf fd = some i := by
  show (if fd < 0 then none else w'.fds[fd.toNat]?) = some i
  rw [hfds]
  exact w.inodeOf_alloc h is

/-- A descriptor that refers to an inode is one of the table's indices. -/
theorem lt_length_of_inodeOf {fd : Int} {i : Nat} (h : w.inodeOf fd = some i) :
    0 ≤ fd ∧ fd < w.fds.length := by
  unfold inodeOf at h
  split at h
  · cases h
  · have := (List.getElem?_eq_some_iff.1 h).1
    omega

end World

/-- A successful `do` block of `Except` ran its first step successfully. -/
theorem except_bind_eq_ok {ε α β : Type} {x : Except ε α} {f : α → Except ε β} {b : β}
    (h : x >>= f = .ok b) : ∃ a, x = .ok a ∧ f a = .ok b := by
  cases x with
  | error e => cases h
  | ok a => exact ⟨a, rfl, h⟩

/-- The calls issued between two worlds of one run. -/
def issued (w w' : World) : List Call := w'.log.drop w.log.length

theorem issued_eq_of_log {w w' : World} {cs : List Call} (h : w'.log = w.log ++ cs) :
    issued w w' = cs := by
  simp [issued, h]

@[simp] theorem issued_self (w : World) : issued w w = [] := by simp [issued]

/-- Operations of the crate: `Result<_, Error>` computations on the world. -/
abbrev Sys := EStateM Error World

/-- The system-call wrappers' `Result<_, syscalls::Error>`. -/
abbrev SysCall := EStateM Foreign World

/-- The error a failed system call reports: the syscall layer's error, caused by
the `io::Error` of the `errno`. -/
def syscallError (op : String) (errno : Errno) : Foreign :=
  .caused s!"{op} failed" (some errno) (.leaf s!"os error {errno}" (some errno))

/-- `io::Error::from_raw_os_error`. -/
def ioError (errno : Errno) : Foreign := .leaf s!"os error {errno}" (some errno)

/-! ## System calls -/

/-- Issue `call`, whose effect `k` computes the new tree, the inodes of the
descriptors it opens and its value. The call is logged whatever its outcome; a
failure leaves the tree and the descriptors as they were. -/
def syscall {α : Type} (op : String) (call : Call)
    (k : World → Except Errno (Fs × List Nat × α)) : SysCall α := fun w =>
  match k w with
  | .ok (fs', opened, a) => .ok a ({ w with fs := fs', fds := w.fds ++ opened }.record call)
  | .error e => .error (syscallError op e) (w.record call)

namespace syscalls

/-- The bits `syscalls::openat` adds to every caller's flags: `O_NOFOLLOW`,
`O_CLOEXEC` and `O_NOCTTY`. -/
def openatExtraFlags : BitVec 32 := libc.O_NOFOLLOW ||| libc.O_CLOEXEC ||| libc.O_NOCTTY

/-- `syscalls::openat` (`syscalls.rs` is not in `src/`): the new descriptor. The
wrapper opens with the caller's flags and `openatExtraFlags`, so a trailing symlink
is never followed (the comment in `create_file` on `openat2(2)` and `O_NOFOLLOW`
rests on this); the log records the flags the kernel is given. -/
def openat (dir : Int) (name : PathBuf) (flags : OpenFlags) (mode : Mode) : SysCall Int :=
  let flags := flags.insert openatExtraFlags
  syscall "openat" (.openat dir name flags mode) fun w => do
    let (fs', i) ← w.fs.openat (← w.fdInode dir) name flags mode
    pure (fs', [i], w.fds.length)

/-- `syscalls::openat` never follows a trailing symlink. -/
theorem openat_flags_noFollow (flags : OpenFlags) :
    (flags.insert openatExtraFlags).contains libc.O_NOFOLLOW = true :=
  flags.contains_insert_of_covers (by decide)

/-- `syscalls::mkdirat`. -/
def mkdirat (dir : Int) (name : PathBuf) (mode : Mode) : SysCall Unit :=
  syscall "mkdirat" (.mkdirat dir name mode) fun w => do
    pure (← w.fs.mkdirat (← w.fdInode dir) name mode, [], ())

/-- `syscalls::mknodat`. -/
def mknodat (dir : Int) (name : PathBuf) (mode : Mode) (dev : Dev) : SysCall Unit :=
  syscall "mknodat" (.mknodat dir name mode dev) fun w => do
    pure (← w.fs.mknodat (← w.fdInode dir) name mode dev, [], ())

/-- `syscalls::symlinkat`. -/
def symlinkat (target : PathBuf) (dir : Int) (name : PathBuf) : SysCall Unit :=
  syscall "symlinkat" (.symlinkat target dir name) fun w => do
    pure (← w.fs.symlinkat target (← w.fdInode dir) name, [], ())

/-- `syscalls::linkat`. -/
def linkat (olddir : Int) (oldname : PathBuf) (newdir : Int) (newname : PathBuf)
    (flags : BitVec 32) : SysCall Unit :=
  syscall "linkat" (.linkat olddir oldname newdir newname flags) fun w => do
    pure (← w.fs.linkat (← w.fdInode olddir) oldname (← w.fdInode newdir) newname flags, [], ())

/-- `syscalls::unlinkat`. -/
def unlinkat (dir : Int) (name : PathBuf) (flags : BitVec 32) : SysCall Unit :=
  syscall "unlinkat" (.unlinkat dir name flags) fun w => do
    pure (← w.fs.unlinkat (← w.fdInode dir) name flags, [], ())

/-- `syscalls::renameat2`. -/
def renameat2 (olddir : Int) (oldname : PathBuf) (newdir : Int) (newname : PathBuf)
    (flags : BitVec 32) : SysCall Unit :=
  syscall "renameat2" (.renameat2 olddir oldname newdir newname flags) fun w => do
    pure (← w.fs.renameat2 (← w.fdInode olddir) oldname (← w.fdInode newdir) newname flags,
      [], ())

/-- `syscalls::readlinkat`. -/
def readlinkat (dir : Int) (name : PathBuf) : SysCall PathBuf :=
  syscall "readlinkat" (.readlinkat dir name) fun w => do
    pure (w.fs, [], ← w.fs.readlinkat (← w.fdInode dir) name)

end syscalls

/-! ## Helpers of the crate that `src/` does not contain -/

/-- Why reopening inode `i` through `/proc/self/fd` with `flags` fails, if it does:
a symlink cannot be reopened, and `O_DIRECTORY` needs a directory. -/
def Fs.reopenError (fs : Fs) (i : Nat) (flags : OpenFlags) : Option Errno :=
  match fs.typeOf i with
  | none => some libc.ENOENT
  | some (.symlink _) => some libc.ELOOP
  | some .directory => none
  | some _ => if flags.contains libc.O_DIRECTORY then some libc.ENOTDIR else none

/-- A reopen with `O_DIRECTORY` succeeds on a directory only. -/
theorem Fs.isDir_of_reopenError {fs : Fs} {i : Nat}
    (h : fs.reopenError i OpenFlags.O_DIRECTORY = none) : fs.isDir i = true := by
  unfold Fs.reopenError at h
  split at h <;> simp_all [Fs.isDir]
  exact absurd h (by decide)

/-- Modelled from the spec: `Handle::reopen` (`handle.rs` is not in `src/`). A
handle is re-openable with explicit access flags: the result is a fresh
descriptor on the same inode. -/
def reopen (fd : Int) (flags : OpenFlags) : Sys Int := fun w =>
  let fail (e : Errno) : EStateM.Result Error World Int :=
    .error (Error.of (.rawOsError "reopen handle" (syscallError "open" e)))
      (w.record (.reopen fd flags none))
  match w.inodeOf fd with
  | none => fail libc.EBADF
  | some i =>
      match w.fs.reopenError i flags with
      | some e => fail e
      | none => .ok w.fds.length ((w.alloc [i]).record (.reopen fd flags (some w.fds.length)))

/-- Modelled from the spec: what `utils::remove_all` does to the tree (`utils` is
not in `src/`). The entry `name` of `d` goes, and when it names a directory every
entry below it goes too; symlinks are removed, never followed. A missing entry
is an error. The refusal of `.` and `..` with `EINVAL` is in neither the spec nor
`src/`: it is this model's choice for names no removal can take. -/
def Fs.removeAll (fs : Fs) (d : Nat) (name : PathBuf) : Except Errno Fs :=
  if !fs.isDir d then .error libc.ENOTDIR
  else if name = [] then .error libc.ENOENT
  else if name = dot ∨ name = dotDot then .error libc.EINVAL
  else
    match fs.lookup d name with
    | none => .error libc.ENOENT
    | some i => .ok (if fs.isDir i then (fs.clearUnder i).unlink d name else fs.unlink d name)

/-- A removal that succeeded removed an existing entry of a directory, and with it
every entry below when it names a directory. -/
theorem Fs.removeAll_eq_ok {fs fs' : Fs} {d : Nat} {name : PathBuf}
    (h : fs.removeAll d name = .ok fs') :
    ∃ j, fs.lookup d name = some j ∧
      fs' = if fs.isDir j then (fs.clearUnder j).unlink d name else fs.unlink d name := by
  unfold Fs.removeAll at h
  iterate 3 obtain ⟨-, h⟩ := ite_error_eq_ok h
  split at h
  · cases h
  · cases h
    exact ⟨_, by assumption, rfl⟩

/-- Modelled from the spec: `utils::remove_all(&dir, name)` (`utils` is not in
`src/`), one call on the pair (directory handle, name). -/
def removeAll (dir : Int) (name : PathBuf) : Sys Unit :=
  (syscall "remove_all" (.removeAll dir name) fun w => do
    pure (← w.fs.removeAll (← w.fdInode dir) name, [], ())).adaptExcept
      fun err => Error.of (.rawOsError "remove_all" err)

/-! ## The resolver -/

/-- `ResolverFlags`: the options a root passes to its resolver. -/
structure ResolverFlags where
  /-- `NO_SYMLINKS`: every symlink met is an error. -/
  noSymlinks : Bool
  deriving DecidableEq, Repr

/-- `ResolverBackend`: the kernel's `openat2(2)` or the emulated walker. -/
inductive ResolverBackend where
  | kernelOpenat2
  | emulatedOpath
  deriving DecidableEq, Repr

/-- `resolvers::Resolver`: the configuration a `Root` or `RootRef` carries. -/
structure Resolver where
  backend : ResolverBackend
  flags : ResolverFlags
  deriving DecidableEq, Repr

/-- The behaviour of the resolver's backends (the `resolvers` module is not in
`src/`). From the inode of a root handle, `resolve` resolves a path to an inode;
`resolvePartial` is `resolve_partial` followed by its conversion to
`(Handle, Option<PathBuf>)`: the deepest inode reached and the path left over.
Both read the tree and change nothing. -/
structure ResolverImpl where
  resolve : Resolver → Fs → Nat → PathBuf → Bool → Except Error Nat
  resolvePartial : Resolver → Fs → Nat → PathBuf → Bool → Except Error (Nat × Option PathBuf)

/-- The error of a resolver call made on a descriptor that is not open. -/
def badFdError : Error := Error.of (.osError "use root handle" (ioError libc.EBADF))

namespace ResolverImpl

variable (R : ResolverImpl) (r : Resolver)

/-- `Resolver::resolve(root, path, no_follow_trailing)`: the result gets a fresh
descriptor. -/
def resolveAt (root : Int) (path : PathBuf) (noFollowTrailing : Bool) : Sys Int := fun w =>
  match (w.inodeOf root).elim (.error badFdError) (R.resolve r w.fs · path noFollowTrailing) with
  | .ok j =>
      .ok w.fds.length
        ((w.alloc [j]).record (.resolve root path noFollowTrailing (some w.fds.length)))
  | .error e => .error e (w.record (.resolve root path noFollowTrailing none))

/-- `Resolver::resolve_partial(root, path, no_follow_trailing)` and its conversion:
the deepest inode reached gets a fresh descriptor. -/
def resolvePartialAt (root : Int) (path : PathBuf) (noFollowTrailing : Bool) :
    Sys (Int × Option PathBuf) := fun w =>
  match (w.inodeOf root).elim (.error badFdError)
      (R.resolvePartial r w.fs · path noFollowTrailing) with
  | .ok (j, remaining) =>
      .ok (w.fds.length, remaining)
        ((w.alloc [j]).record
          (.resolvePartial root path noFollowTrailing (some (w.fds.length, remaining))))
  | .error e => .error e (w.record (.resolvePartial root path noFollowTrailing none))

end ResolverImpl

/-- `Result::wrap` applied to the result of a computation. -/
def Sys.wrap {α : Type} (x : Sys α) (context : String) : Sys α :=
  x.adaptExcept fun e => ErrorExt.wrap e context

end Pathrs
