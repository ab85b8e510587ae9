import Pathrs.Effects

/-!
# When the operations refuse

The operations that act on one entry leave the checks of the entry to the kernel
and report what it refused. Each fails before any change, so the tree is as it
was.

A path with no trailing name (one that ends in `/`) names no entry: each
operation fails on it with `InvalidArgument` naming the argument it came in,
before any call that could change the tree (`trailing_slash_errors`).

`create` never replaces an entry: where the trailing name cannot take a new entry
(it is taken, `.` or `..`, or the parent is not a directory), `create` of every
inode type fails and leaves the tree as it was (`create_never_replaces`).
-/

set_option autoImplicit false

namespace Pathrs

open PathBuf

namespace RootRef

variable {R : ResolverImpl} (rr : RootRef)

/-! ## Paths without a trailing name -/

/-- **A path ending in `/` names no entry.** Where the parent part of `path`
resolves, every operation that acts on a trailing name fails on `path` when it has
none: with `InvalidArgument` naming the argument `path` was passed as (`path`,
`source`, `destination` or `target`) and the operation's description, before any
call that can change the tree. For `destination` and `target`, the path passed
first (`other`) has a trailing name and a parent that resolves. -/
theorem trailing_slash_errors (path other : PathBuf) (w : World) {i d d' : Nat} {name' : PathBuf}
    (hi : w.inodeOf rr.inner = some i)
    (hd : R.resolve rr.resolver w.fs i (pathSplit path).1 false = .ok d)
    (hn : (pathSplit path).2 = none)
    (hd' : R.resolve rr.resolver w.fs i (pathSplit other).1 false = .ok d')
    (hn' : (pathSplit other).2 = some name') :
    (∀ inodeType, FailsWith (rr.create R path inodeType) w
      (Error.of (.invalidArgument "path" "file creation path has trailing slash"))) ∧
    (∀ flags perm, FailsWith (rr.createFile R path flags perm) w
      (Error.of (.invalidArgument "path" "file creation path has trailing slash"))) ∧
    (∀ inodeType, FailsWith (rr.removeInode R path inodeType) w
      (Error.of (.invalidArgument "path" "file removal path has trailing slash"))) ∧
    FailsWith (rr.removeAll R path) w
      (Error.of (.invalidArgument "path" "file removal path has trailing slash")) ∧
    (∀ destination rflags, FailsWith (rr.rename R path destination rflags) w
      (Error.of (.invalidArgument "source" "rename source path has trailing slash"))) ∧
    (∀ rflags, FailsWith (rr.rename R other path rflags) w
      (Error.of (.invalidArgument "destination" "rename destination path has trailing slash"))) ∧
    FailsWith (rr.create R other (.hardlink path)) w
      (Error.of (.invalidArgument "target" "hardlink target has trailing slash")) := by
  have hfail : ∀ {α : Type} (x : Sys α) (e : Error), x w = .error e ((w.alloc [d]).record
      (.resolve rr.inner (pathSplit path).1 false (some w.fds.length))) → FailsWith x w e :=
    fun _ _ h => ⟨_, h, rfl⟩
  let w₁ := (w.alloc [d']).record (.resolve rr.inner (pathSplit other).1 false (some w.fds.length))
  have hi₁ : w₁.inodeOf rr.inner = some i := (World.inodeOf_record _ _ _).trans (w.inodeOf_alloc hi _)
  have hfail₂ : ∀ {α : Type} (x : Sys α) (e : Error), x w = .error e ((w₁.alloc [d]).record
      (.resolve rr.inner (pathSplit path).1 false (some w₁.fds.length))) → FailsWith x w e :=
    fun _ _ h => ⟨_, h, rfl⟩
  refine ⟨fun _ => hfail _ _ ?_, fun _ _ => hfail _ _ ?_, fun _ => hfail _ _ ?_, hfail _ _ ?_,
    fun _ _ => hfail _ _ ?_, fun _ => hfail₂ _ _ ?_, hfail₂ _ _ ?_⟩
  · rw [create, rr.resolveParent_bind_of_ok hi hd, hn]; rfl
  · rw [createFile, rr.resolveParent_bind_of_ok hi hd, hn]; rfl
  · unfold removeInode
    rw [rr.resolveParent_bind_of_ok hi hd, hn]; rfl
  · rw [removeAll, rr.resolveParent_bind_of_ok hi hd, hn]; rfl
  · rw [rename, rr.resolveParent_bind_of_ok hi hd, hn]; rfl
  · rw [rename, rr.resolveParent_bind_of_ok hi hd', hn']
    dsimp only
    rw [bind_of_ok trailingName_some, rr.resolveParent_bind_of_ok hi₁ hd, hn]; rfl
  · rw [create, rr.resolveParent_bind_of_ok hi hd', hn']
    dsimp only
    rw [bind_of_ok trailingName_some, rr.resolveParent_bind_of_ok hi₁ hd, hn]; rfl

/-! ## Names that cannot be created -/

/-- **`create` never replaces an entry.** Where the parent part of `path` resolves
to `d`, `path` has the trailing name `name`, and an entry cannot be created at
`name` in `d` (`d` is not a directory, or `name` is taken, `.` or `..`),
`create(path, inodeType)` fails for every inode type and leaves the tree as it
was. -/
theorem create_never_replaces (path : PathBuf) (inodeType : InodeType) (w : World) {i d : Nat}
    {name : PathBuf} (hi : w.inodeOf rr.inner = some i)
    (hd : R.resolve rr.resolver w.fs i (pathSplit path).1 false = .ok d)
    (hn : (pathSplit path).2 = some name) (hce : w.fs.createError d name ≠ none) :
    ∃ e, FailsWith (rr.create R path inodeType) w e := by
  cases h : rr.create R path inodeType w with
  | error e w' => exact ⟨e, w', h, rr.allOrNothing_create R path inodeType w e w' h⟩
  | ok u w' =>
      -- the run resolved the same parent, so its call found the entry free
      have same : ∀ {i' d' name'}, w.inodeOf rr.inner = some i' →
          R.resolve rr.resolver w.fs i' (pathSplit path).1 false = .ok d' →
          (pathSplit path).2 = some name' → w.fs.createError d' name' = none →
          w.fs.createError d name = none := by
        intro i' d' name' hi' hd' hn' hfree
        obtain rfl : i' = i := Option.some.inj (hi'.symm.trans hi)
        obtain rfl : d' = d := Except.ok.inj (hd'.symm.trans hd)
        obtain rfl : name' = name := Option.some.inj (hn'.symm.trans hn)
        exact hfree
      refine absurd ?_ hce
      cases ht : inodeType.fileType with
      | none =>
          cases inodeType <;> cases ht
          obtain ⟨_, _, _, -, -, -, -, hi', hd', hn', -, -, -, -, -, -, -, -, hfree, -, -⟩ :=
            rr.create_hardlink_eq_ok h
          exact same hi' hd' hn' hfree
      | some t =>
          obtain ⟨_, _, _, hi', hd', hn', ⟨hfree, -⟩, -⟩ := rr.create_eq_ok ht h
          exact same hi' hd' hn' hfree

end RootRef

/-- In the root of `Fs.withFile`, `create("f", Directory(0o755))` where `f` is a
regular file fails and leaves the tree as it was. -/
theorem create_never_replaces_file :
    let w := World.openAt Fs.withFile 0
    w.inodeOf RootRef.atZero.inner = some 0 ∧
      ResolverImpl.reference.resolve RootRef.atZero.resolver w.fs 0 (pathSplit [102]).1 false = .ok 0 ∧
      (pathSplit [102]).2 = some [102] ∧ w.fs.createError 0 [102] ≠ none ∧
      ∃ e, FailsWith (RootRef.atZero.create .reference [102] (.directory ⟨0o755⟩)) w e :=
  ⟨rfl, rfl, rfl, by decide, RootRef.create_never_replaces .atZero [102] (.directory ⟨0o755⟩)
    (World.openAt Fs.withFile 0) rfl rfl rfl (by decide)⟩

end Pathrs
