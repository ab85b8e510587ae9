import Pathrs.Sys

/-!
# The resolver's contract

`openat2(2)` with `RESOLVE_IN_ROOT`, the whole of the kernel backend of
`kernel/mod.rs`, resolves a path as a walk rooted at the directory of the root
handle: `..` at that directory stays there, and an absolute symlink target
restarts from it. The emulated backend reimplements the same walk, and the spec
gives both backends one contract. `ResolverImpl.reference` is that walk as a
backend. Its `resolve` returns the inode the whole path leads to. Its
`resolve_partial` resolves the whole path, then ever shorter prefixes of its
components, as the kernel backend does, and returns the deepest prefix that
resolves (`Fs.deepestPrefix`) with the components after it, unconsumed.

A backend keeps the contract of `resolve` (`ResolveSound`) when it succeeds
exactly where the reference does, with the same result; the errors it reports
are its own. It keeps the contract of `resolve_partial` (`PartialSound`) when it
returns what the reference returns. Each theorem takes the half it uses.

The walk follows the spec where the spec and `openat2(2)` differ: with
`NO_SYMLINKS` a trailing symlink is refused even when it would not be followed
(`Fs.walkPass`), while `RESOLVE_NO_SYMLINKS` with `O_NOFOLLOW` returns it.
-/

set_option autoImplicit false

namespace Pathrs

open PathBuf

namespace Fs

variable (fs : Fs) (root : Nat) (nf ns : Bool)

/-- A walk over no components stays where it starts. -/
theorem walk_nil (b cur : Nat) : fs.walk root nf ns b cur [] = .complete cur := by
  cases b <;> rfl

variable (cs : List PathBuf)

/-- The walk of the first `k` components of `cs` from `root`: the whole list as the
caller asked (`nf`), a shorter prefix following its last component. -/
def prefixWalk (k : Nat) : Lookup :=
  fs.walk root (nf && k == cs.length) ns maxSymlinks root (cs.take k)

/-- The longest prefix of `cs`, of at most `k` components, whose walk completes: its
length and the inode it reaches, tried from the longest down. The empty prefix
completes at `root`. -/
def deepestPrefixUpTo : Nat → Nat × Nat
  | 0 => (0, root)
  | k + 1 =>
      match fs.prefixWalk root nf ns cs (k + 1) with
      | .complete j => (k + 1, j)
      | _ => deepestPrefixUpTo k

/-- The deepest prefix of `cs` whose walk completes, and where. -/
def deepestPrefix : Nat × Nat := fs.deepestPrefixUpTo root nf ns cs cs.length

theorem prefixWalk_zero : fs.prefixWalk root nf ns cs 0 = .complete root :=
  fs.walk_nil root _ ns _ root

theorem prefixWalk_length :
    fs.prefixWalk root nf ns cs cs.length = fs.walk root nf ns maxSymlinks root cs := by
  simp [prefixWalk]

variable {fs root nf ns cs}

/-- The search returns a prefix of at most `k` components, whose walk completes at
the inode returned. -/
theorem deepestPrefixUpTo_spec : ∀ {k m j : Nat}, fs.deepestPrefixUpTo root nf ns cs k = (m, j) →
    m ≤ k ∧ fs.prefixWalk root nf ns cs m = .complete j
  | 0, _, _, h => by
      cases h
      exact ⟨le_rfl, fs.prefixWalk_zero root nf ns cs⟩
  | k + 1, m, j, h => by
      unfold deepestPrefixUpTo at h
      split at h
      · cases h
        exact ⟨le_rfl, ‹_›⟩
      · have := deepestPrefixUpTo_spec h
        exact ⟨by omega, this.2⟩

/-- No longer prefix, of at most `k` components, completes: a prefix that completes
is no longer than the one the search returns. -/
theorem le_deepestPrefixUpTo {m j : Nat} (hm : fs.prefixWalk root nf ns cs m = .complete j) :
    ∀ k, m ≤ k → m ≤ (fs.deepestPrefixUpTo root nf ns cs k).1
  | 0, h => h
  | k + 1, h => by
      unfold deepestPrefixUpTo
      split
      · exact h
      · rename_i hno
        rcases Nat.lt_or_eq_of_le h with h | rfl
        · exact le_deepestPrefixUpTo hm k (by omega)
        · exact (hno j hm).elim

/-- Where the walk of the prefix of `k` components completes, the search up to `k`
returns it. -/
theorem deepestPrefixUpTo_of_complete {k j : Nat}
    (h : fs.prefixWalk root nf ns cs k = .complete j) :
    fs.deepestPrefixUpTo root nf ns cs k = (k, j) := by
  cases k with
  | zero =>
      rw [fs.prefixWalk_zero root nf ns cs] at h
      cases h
      rfl
  | succ k => simp only [deepestPrefixUpTo, h]

/-- A prefix of `cs` that completes is no longer than the deepest one. -/
theorem le_deepestPrefix {m j k d : Nat} (hm : fs.prefixWalk root nf ns cs m = .complete j)
    (hlen : m ≤ cs.length) (h : fs.deepestPrefix root nf ns cs = (k, d)) : m ≤ k :=
  (le_deepestPrefixUpTo hm cs.length hlen).trans (congrArg Prod.fst h).le

/-- Where the walk of the whole list completes, it is the deepest prefix. -/
theorem deepestPrefix_of_complete {j : Nat} (h : fs.walk root nf ns maxSymlinks root cs = .complete j) :
    fs.deepestPrefix root nf ns cs = (cs.length, j) :=
  deepestPrefixUpTo_of_complete (by rwa [prefixWalk_length])

end Fs

/-- The error of a walk that failed with `errno`. -/
def walkError (errno : Errno) : Error := Error.of (.osError "open sub-path" (ioError errno))

/-- What `resolve_partial` leaves unconsumed of the components `cs` after the first
`k`: nothing when the whole path resolved, else the rest joined into a path. -/
def unconsumed (cs : List PathBuf) (k : Nat) : Option PathBuf :=
  if k = cs.length then none else some (joinComponents (cs.drop k))

namespace ResolverImpl

/-- Modelled from the spec: the resolver's contract (the `resolvers` module is not
in `src/`), as `openat2(2)` with `RESOLVE_IN_ROOT` implements it: a walk rooted at
the root handle's inode, with at most `maxSymlinks` symlink expansions. A name
missing on the way is `ENOENT` for `resolve`. `resolve_partial` returns the
deepest prefix of the path that resolves and what is left after it. -/
def reference : ResolverImpl where
  resolve r fs root path nf :=
    match fs.walk root nf r.flags.noSymlinks maxSymlinks root (rawComponents path) with
    | .complete i => .ok i
    | .missing _ _ => .error (walkError libc.ENOENT)
    | .failed e => .error (walkError e)
  resolvePartial r fs root path nf :=
    let p := fs.deepestPrefix root nf r.flags.noSymlinks (rawComponents path)
    .ok (p.2, unconsumed (rawComponents path) p.1)

/-- A backend's `resolve` keeps the resolver's contract: on every tree, root and
path it succeeds exactly where the reference does, with the same result. -/
def ResolveSound (R : ResolverImpl) : Prop :=
  ∀ r fs root path nf,
    (R.resolve r fs root path nf).toOption = (reference.resolve r fs root path nf).toOption

/-- A backend's `resolve_partial` keeps the resolver's contract: on every tree, root
and path it returns the deepest prefix that resolves and the components after it,
as the reference does. -/
def PartialSound (R : ResolverImpl) : Prop :=
  ∀ r fs root path nf, R.resolvePartial r fs root path nf = reference.resolvePartial r fs root path nf

theorem resolveSound_reference : reference.ResolveSound := fun _ _ _ _ _ => rfl

theorem partialSound_reference : reference.PartialSound := fun _ _ _ _ _ => rfl

theorem eq_ok_of_toOption {ε α : Type} {x y : Except ε α} {a : α} (h : x.toOption = y.toOption)
    (hy : y = .ok a) : x = .ok a := by
  subst hy
  cases x <;> simp_all [Except.toOption]

variable {R : ResolverImpl} (r : Resolver) (fs : Fs) (root : Nat) (path : PathBuf) (nf : Bool)

section ResolveSound

variable (hR : R.ResolveSound)
include hR

/-- A sound backend resolves a path the walk completes. -/
theorem ResolveSound.resolve_complete {i : Nat}
    (h : fs.walk root nf r.flags.noSymlinks maxSymlinks root (rawComponents path) = .complete i) :
    R.resolve r fs root path nf = .ok i :=
  eq_ok_of_toOption (hR r fs root path nf) (by simp [reference, h])

/-- What a sound backend resolves, the walk completes at. -/
theorem ResolveSound.resolve_eq {j : Nat} (h : R.resolve r fs root path nf = .ok j) :
    fs.walk root nf r.flags.noSymlinks maxSymlinks root (rawComponents path) = .complete j := by
  have := hR r fs root path nf
  rw [h] at this
  simp only [reference] at this
  split at this <;> simp_all [Except.toOption]

end ResolveSound

section PartialSound

variable (hP : R.PartialSound)
include hP

/-- What a sound backend's partial resolution returns: the deepest prefix of the
path's components that resolves, `k` of them, where it leads, and the rest. -/
theorem PartialSound.resolvePartial_eq {d : Nat} {rem : Option PathBuf}
    (h : R.resolvePartial r fs root path nf = .ok (d, rem)) :
    ∃ k, fs.deepestPrefix root nf r.flags.noSymlinks (rawComponents path) = (k, d) ∧
      rem = unconsumed (rawComponents path) k := by
  rw [hP, reference] at h
  cases h
  exact ⟨_, rfl, rfl⟩

/-- A sound backend's partial resolution of a path the walk completes consumes it
all. -/
theorem PartialSound.resolvePartial_complete {i : Nat}
    (h : fs.walk root nf r.flags.noSymlinks maxSymlinks root (rawComponents path) = .complete i) :
    R.resolvePartial r fs root path nf = .ok (i, none) := by
  simp [hP r, reference, Fs.deepestPrefix_of_complete h, unconsumed]

end PartialSound

end ResolverImpl

end Pathrs
