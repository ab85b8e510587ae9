import Pathrs.Sys

/-!
# `Root` and `RootRef`

The operations of `root.rs`, call for call. A `Root` owns a descriptor of the
root directory and a resolver configuration; `Root::as_ref` lends both out as a
`RootRef`, on which every operation is defined. Each operation that changes the
tree first resolves the parent of its path (`resolve_parent`: `path_split`, then
`resolve` of the parent part) and then issues one call on the pair (parent
descriptor, trailing name). `mkdir_all` resolves as far as the tree goes, reopens
that directory with `O_DIRECTORY`, and creates the remaining components one by
one, resolving each new directory with `no_follow_trailing` before descending.

Error messages and the fields named in `InvalidArgument` are the source's. The
resolver's behaviour is the parameter `R` of every operation.
-/

set_option autoImplicit false

namespace Pathrs

open PathBuf

/-- `InodeType`: what `create` makes. -/
inductive InodeType where
  | file (perm : Permissions)
  | directory (perm : Permissions)
  | symlink (target : PathBuf)
  | hardlink (target : PathBuf)
  | fifo (perm : Permissions)
  | characterDevice (perm : Permissions) (dev : Dev)
  | blockDevice (perm : Permissions) (dev : Dev)
  deriving DecidableEq, Repr

/-- `RemoveInodeType`: with or without `AT_REMOVEDIR`. -/
inductive RemoveInodeType where
  | regular
  | directory
  deriving DecidableEq, Repr

/-- `Root`: an owned descriptor of the root directory and its resolver. -/
structure Root where
  inner : Int
  resolver : Resolver
  deriving DecidableEq, Repr

/-- `RootRef`: a borrowed root descriptor with its own copy of the resolver. -/
structure RootRef where
  inner : Int
  resolver : Resolver
  deriving DecidableEq, Repr

/-- `Root::as_ref`. -/
def Root.asRef (root : Root) : RootRef := ⟨root.inner, root.resolver⟩

/-- `Root::with_resolver_flags`. -/
def Root.withResolverFlags (root : Root) (flags : ResolverFlags) : Root :=
  { root with resolver := { root.resolver with flags := flags } }

/-- `RootRef::with_resolver_flags`: changes this `RootRef` only. -/
def RootRef.withResolverFlags (rr : RootRef) (flags : ResolverFlags) : RootRef :=
  { rr with resolver := { rr.resolver with flags := flags } }

/-- The `ok_or_else` on a trailing name: a path ending in `/` names no entry, and
the operation fails with `InvalidArgument` on the field `argument`. -/
def trailingName (name : Option PathBuf) (argument description : String) : Sys PathBuf :=
  match name with
  | some n => pure n
  | none => throw (Error.of (.invalidArgument argument description))

/-- Rust's `{:?}` of an `Option<PathBuf>`. -/
def debugRemaining : Option PathBuf → String
  | none => "None"
  | some p => "Some(\"" ++ String.mk (p.map fun b => Char.ofNat b.toNat) ++ "\")"

namespace RootRef

variable (R : ResolverImpl) (rr : RootRef)

/-- `RootRef::resolve`: trailing symlinks are followed. -/
def resolve (path : PathBuf) : Sys Int := R.resolveAt rr.resolver rr.inner path false

/-- `RootRef::resolve_nofollow`. -/
def resolveNofollow (path : PathBuf) : Sys Int := R.resolveAt rr.resolver rr.inner path true

/-- `RootRef::resolve_parent`: the parent part of the path resolved, and the
trailing name. -/
def resolveParent (path : PathBuf) : Sys (Int × Option PathBuf) := do
  let (parent, name) := pathSplit path
  let dir ← (rr.resolve R parent).wrap "resolve parent directory"
  pure (dir, name)

/-- `RootRef::readlink`: `readlinkat(2)` on the handle `resolve_nofollow` returns. -/
def readlink (path : PathBuf) : Sys PathBuf := do
  let link ← (rr.resolveNofollow R path).wrap "resolve symlink O_NOFOLLOW for readlink"
  (syscalls.readlinkat link []).adaptExcept fun err =>
    Error.of (.rawOsError "readlink resolve symlink" err)

/-- The error `create` reports for a failed system call. -/
def createError (err : Foreign) : Error := Error.of (.rawOsError "pathrs create" err)

/-- `RootRef::create`. -/
def create (path : PathBuf) (inodeType : InodeType) : Sys Unit := do
  let (dir, name) ← (rr.resolveParent R path).wrap "resolve file creation path"
  let name ← trailingName name "path" "file creation path has trailing slash"
  match inodeType with
  | .file perm =>
      let mode := perm.mode &&& ~~~libc.S_IFMT
      (syscalls.mknodat dir name (libc.S_IFREG ||| mode) 0).adaptExcept createError
  | .directory perm =>
      let mode := perm.mode &&& ~~~libc.S_IFMT
      (syscalls.mkdirat dir name mode).adaptExcept createError
  | .symlink target => (syscalls.symlinkat target dir name).adaptExcept createError
  | .hardlink target => do
      let (olddir, oldname) ← (rr.resolveParent R target).wrap "resolve hardlink source path"
      let oldname ← trailingName oldname "target" "hardlink target has trailing slash"
      (syscalls.linkat olddir oldname dir name 0).adaptExcept createError
  | .fifo perm =>
      let mode := perm.mode &&& ~~~libc.S_IFMT
      (syscalls.mknodat dir name (libc.S_IFIFO ||| mode) 0).adaptExcept createError
  | .characterDevice perm dev =>
      let mode := perm.mode &&& ~~~libc.S_IFMT
      (syscalls.mknodat dir name (libc.S_IFCHR ||| mode) dev).adaptExcept createError
  | .blockDevice perm dev =>
      let mode := perm.mode &&& ~~~libc.S_IFMT
      (syscalls.mknodat dir name (libc.S_IFBLK ||| mode) dev).adaptExcept createError

/-- `RootRef::create_file`: `O_CREAT` is added to the caller's flags. -/
def createFile (path : PathBuf) (flags : OpenFlags) (perm : Permissions) : Sys Int := do
  let (dir, name) ← (rr.resolveParent R path).wrap "resolve file creation path"
  let name ← trailingName name "path" "file creation path has trailing slash"
  let flags := flags.insert libc.O_CREAT
  (syscalls.openat dir name flags perm.mode).adaptExcept fun err =>
    Error.of (.rawOsError "pathrs create_file" err)

/-- The flags `create_file` has `openat(2)` open with hold `O_CREAT`. -/
@[simp] theorem createFile_flags_creat (flags : OpenFlags) :
    ((flags.insert libc.O_CREAT).insert syscalls.openatExtraFlags).contains libc.O_CREAT = true := by
  rw [OpenFlags.contains_insert_of_disjoint _ (by decide), OpenFlags.insert_contains]

/-- The loop of `mkdir_all`: create each remaining component in the directory
created for the previous one, and descend into it. -/
def mkdirAllLoop (perm : Permissions) : Int → List PathBuf → Sys Int
  | current, [] => pure current
  | current, part :: parts => do
      (syscalls.mkdirat current part perm.mode).adaptExcept fun err =>
        Error.of (.rawOsError "create next directory component" err)
      let next ← (do
          let handle ← R.resolveAt rr.resolver current part true
          reopen handle OpenFlags.O_DIRECTORY).wrap
        "failed to open newly-created directory with O_DIRECTORY"
      mkdirAllLoop perm next parts

/-- The components `mkdir_all` has to create: those of the unresolved rest, without
the empty ones and `.`. -/
def remainingParts (remaining : Option PathBuf) : List PathBuf :=
  (remaining.toList.flatMap rawComponents).filter isNamedPart

/-- `RootRef::mkdir_all`. -/
def mkdirAll (path : PathBuf) (perm : Permissions) : Sys Int := do
  if perm.mode &&& ~~~0o7777 ≠ 0 then
    throw (Error.of (.invalidArgument "perm" "mode cannot contain non-0o7777 bits"))
  if perm.mode &&& ~~~0o1777 ≠ 0 then
    throw (Error.of (.invalidArgument "perm"
      "mode contains setuid or setgid bits that are silently ignored by mkdirat"))
  let (handle, remaining) ← R.resolvePartialAt rr.resolver rr.inner path false
  let current ← (reopen handle OpenFlags.O_DIRECTORY).wrap
    s!"cannot create directories in {handle}"
  let parts := remainingParts remaining
  if parts.any (· == dotDot) then
    throw (Error.of (ErrorExt.wrap (ErrorImpl.osError "mkdir_all remaining components"
      (ioError libc.ENOENT))
      s!"yet-to-be-created path {debugRemaining remaining} contains \x27..\x27 components"))
  rr.mkdirAllLoop R perm current parts

/-- `RootRef::remove_inode`. -/
def removeInode (path : PathBuf) (inodeType : RemoveInodeType) : Sys Unit := do
  let (dir, name) ← (rr.resolveParent R path).wrap "resolve file removal path"
  let name ← trailingName name "path" "file removal path has trailing slash"
  let flags : BitVec 32 :=
    match inodeType with
    | .regular => 0
    | .directory => libc.AT_REMOVEDIR
  (syscalls.unlinkat dir name flags).adaptExcept fun err =>
    Error.of (.rawOsError "pathrs remove" err)

/-- `RootRef::remove_dir`. -/
def removeDir (path : PathBuf) : Sys Unit := rr.removeInode R path .directory

/-- `RootRef::remove_file`. -/
def removeFile (path : PathBuf) : Sys Unit := rr.removeInode R path .regular

/-- `RootRef::remove_all`. -/
def removeAll (path : PathBuf) : Sys Unit := do
  let (dir, name) ← (rr.resolveParent R path).wrap "resolve remove-all path"
  let name ← trailingName name "path" "file removal path has trailing slash"
  Pathrs.removeAll dir name

/-- `RootRef::rename`: both parents are resolved, the source first. -/
def rename (source destination : PathBuf) (rflags : RenameFlags) : Sys Unit := do
  let (srcDir, srcName) ← (rr.resolveParent R source).wrap "resolve rename source path"
  let srcName ← trailingName srcName "source" "rename source path has trailing slash"
  let (dstDir, dstName) ← (rr.resolveParent R destination).wrap "resolve rename destination path"
  let dstName ← trailingName dstName "destination" "rename destination path has trailing slash"
  (syscalls.renameat2 srcDir srcName dstDir dstName rflags.bits).adaptExcept fun err =>
    Error.of (.rawOsError "pathrs rename" err)

end RootRef

end Pathrs
