import Pathrs.Fs

/-!
# Path walks

The kernel resolves a path one component at a time from a starting directory.
Empty components and `.` stay put, `..` climbs to the parent except at the root
of the walk, a name is looked up in the current directory, and a symlink met
before the last component (or at it, when the walk follows trailing symlinks) is
expanded in place: its target's components replace it, from the root of the walk
when the target is absolute. At most `maxSymlinks` symlinks are expanded.

`walk` is that resolution with the root as a parameter. With the process root it
is the kernel's own walk, which `open(2)` runs when it follows a trailing symlink.
With a `Root`'s directory it is `openat2(RESOLVE_IN_ROOT)`, what the kernel
backend of `kernel/mod.rs` asks for and what the emulated resolver reimplements.
A walk ends in one of three ways: the whole path resolved (`complete`), a name
missing in a directory with the rest of the path left over (`missing`), or an
error.

A walk is split into passes (`walkPass`), each running up to the next symlink to
expand, so that both functions recurse structurally: a pass on the component
list, `walk` on the symlink budget.
-/

set_option autoImplicit false

namespace Pathrs

open PathBuf

/-- `MAXSYMLINKS`: the symlink expansions the kernel allows in one walk. -/
def maxSymlinks : Nat := 40

/-- How a walk ended. -/
inductive Lookup where
  | complete (ino : Nat)
  | missing (dir : Nat) (remaining : List PathBuf)
  | failed (errno : Errno)
  deriving DecidableEq, Repr

/-- How a pass ended: with the walk's outcome, or at a symlink with target `target`
met in `dir`, with the components `rest` after it. -/
inductive Pass where
  | done (result : Lookup)
  | expand (dir : Nat) (target : PathBuf) (rest : List PathBuf)
  deriving DecidableEq, Repr

namespace Fs

variable (fs : Fs) (root : Nat) (noFollowTrailing noSymlinks : Bool)

/-- One pass of a walk rooted at `root`: consume components until the walk ends or
a symlink has to be expanded. With `noSymlinks` every symlink is an error, a
trailing one too whatever `noFollowTrailing` says: this follows the spec's rule
for the `NO_SYMLINKS` flag, not `openat2(2)`, whose `RESOLVE_NO_SYMLINKS` refuses
only the symlinks it would follow. -/
def walkPass : Nat → List PathBuf → Pass
  | cur, [] => .done (.complete cur)
  | cur, c :: rest =>
      if !fs.isDir cur then .done (.failed libc.ENOTDIR)
      else if c = [] ∨ c = dot then walkPass cur rest
      else if c = dotDot then walkPass (if cur = root then cur else fs.parent cur) rest
      else
        match fs.lookup cur c with
        | none => .done (.missing cur (c :: rest))
        | some i =>
            match fs.typeOf i with
            | some .directory => walkPass i rest
            | some (.symlink target) =>
                if noSymlinks then .done (.failed libc.ELOOP)
                else if rest = [] ∧ noFollowTrailing then .done (.complete i)
                else .expand cur target rest
            | some _ => if rest = [] then .done (.complete i) else .done (.failed libc.ENOTDIR)
            | none => .done (.failed libc.ENOENT)

/-- A walk rooted at `root` from `cur`, with `budget` symlink expansions left. -/
def walk : Nat → Nat → List PathBuf → Lookup
  | 0, cur, cs =>
      match fs.walkPass root noFollowTrailing noSymlinks cur cs with
      | .done r => r
      | .expand _ _ _ => .failed libc.ELOOP
  | budget + 1, cur, cs =>
      match fs.walkPass root noFollowTrailing noSymlinks cur cs with
      | .done r => r
      | .expand dir target rest =>
          if target = [] then .failed libc.ENOENT
          else walk budget (if target.isAbsolute then root else dir) (rawComponents target ++ rest)

end Fs

end Pathrs
