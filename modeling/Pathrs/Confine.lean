import Pathrs.Subtree
import Pathrs.Anchored
import Pathrs.MkdirAll

/-!
# Every operation stays in its root

What a `Root` is for: whatever a client asks of it, nothing outside the tree below
the root directory changes. With a resolver backend that keeps the resolver's
contract (`ResolverImpl.ResolveSound` and `ResolverImpl.PartialSound`), every call
of a session on a `RootRef` (`resolve`, `resolve_nofollow`, `readlink`, `create` of
every inode type, `create_file` with any flags, `mkdir_all`, `remove_dir`,
`remove_file`, `remove_all` and `rename` with any flags), whether it returns or
fails, keeps the tree well linked and leaves every inode outside the subtree of the
root with its record, its entries and its `..`; the root descriptor still refers to
the root (`session_stays_in_root`). `create_file` is covered because
`syscalls::openat` adds `O_NOFOLLOW`: its `open(2)` never follows a trailing
symlink with the kernel's own walk.

The handles the root gives out stay in it as well: `resolve` and `resolve_nofollow`
return a descriptor of an inode of the root's tree, and `mkdir_all` one of a
directory below the root (`handles_stay_in_root`).

The proof follows the operations' structure. `World.StaysIn i w₀ w` says that
since `w₀` the run only grew the log and the descriptor table, kept the tree well
linked and kept `w₀`'s tree outside the subtree of `i`. Each primitive keeps it: a
resolution from a descriptor below the root returns one below the root
(`within_resolveAt`, by `walk_below`), and a system call on such descriptors makes
an edit that `Subtree` shows confined (`within_edit`). Each operation is assembled
from those rules, `mkdir_all` by induction on its loop.
-/

set_option autoImplicit false

namespace Pathrs

open PathBuf

/-! ## Staying in the root -/

namespace World

/-- The descriptor `fd` is open on an inode of the tree of `i`. -/
def Inside (i : Nat) (w : World) (fd : Int) : Prop :=
  ∃ d, w.inodeOf fd = some d ∧ w.fs.InTree i d

/-- The descriptor `fd` is open on a directory below `i`. -/
def DirBelow (i : Nat) (w : World) (fd : Int) : Prop :=
  ∃ d, w.inodeOf fd = some d ∧ w.fs.isDir d = true ∧ w.fs.Below i d

/-- Since `w₀` the run stayed in the root `i`: the log and the descriptor table only
grew, the tree is well linked, and it keeps `w₀`'s outside the subtree of `i`. -/
structure StaysIn (i : Nat) (w₀ w : World) : Prop where
  later : w₀.Later w
  wellLinked : w.fs.WellLinked
  confined : w₀.fs.Confined i w.fs

namespace StaysIn

variable {i : Nat} {w₀ w w' : World}

theorem refl (h : w.fs.WellLinked) : w.StaysIn i w := ⟨.refl w, h, .refl⟩

theorem trans (h : w₀.StaysIn i w) (h' : w.StaysIn i w') : w₀.StaysIn i w' :=
  ⟨h.later.trans h'.later, h'.wellLinked, h.confined.trans h'.confined⟩

/-- Descriptors opened and a call issued that changes nothing. -/
theorem alloc_record (h : w₀.StaysIn i w) (is : List Nat) (c : Call) :
    w₀.StaysIn i ((w.alloc is).record c) :=
  ⟨h.later.trans (.record_alloc w is c), h.wellLinked, h.confined⟩

theorem record (h : w₀.StaysIn i w) (c : Call) : w₀.StaysIn i (w.record c) :=
  ⟨h.later.trans ⟨⟨[c], rfl⟩, ⟨[], (List.append_nil _).symm⟩⟩, h.wellLinked, h.confined⟩

/-- A system call whose edit keeps the tree well linked and outside the subtree. -/
theorem edit (h : w₀.StaysIn i w) {fs' : Fs} (hc : w.fs.Confined i fs') (hwl : fs'.WellLinked)
    (opened : List Nat) (c : Call) :
    w₀.StaysIn i ({ w with fs := fs', fds := w.fds ++ opened }.record c) :=
  ⟨h.later.trans ⟨⟨[c], rfl⟩, ⟨opened, rfl⟩⟩, hwl, h.confined.trans hc⟩

end StaysIn

theorem Inside.later {i : Nat} {w w' : World} {fd : Int} (h : w.Inside i fd) (hl : w.Later w')
    (hfs : w'.fs = w.fs) : w'.Inside i fd := by
  obtain ⟨d, hd, hb⟩ := h
  exact ⟨d, hl.inodeOf hd, hfs ▸ hb⟩

end World

/-! ## Rules -/

section Rules

variable {ε α β : Type} {P : World → Prop} {S : World → Prop}

theorem mapError_eq_ok {ε' : Type} {r : Except ε α} {g : ε → ε'} {a : α} (h : r.mapError g = .ok a) :
    r = .ok a := by
  cases r <;> simp_all [Except.mapError]

/-- A `wrap` keeps what a computation says of its value. -/
theorem Triple.wrap_ok {x : Sys α} {c : String} {A : α → World → Prop}
    (h : Triple P x fun r w => S w ∧ ∀ a, r = .ok a → A a w) :
    Triple P (x.wrap c) fun r w => S w ∧ ∀ a, r = .ok a → A a w :=
  Triple.wrap (h.mono (fun _ h => h) fun _ _ ⟨hs, ha⟩ => ⟨hs, fun a hr => ha a (mapError_eq_ok hr)⟩)

/-- What a triple says of one run that returned. -/
theorem Triple.of_ok {x : EStateM ε World α} {Q : Except ε α → World → Prop} {w w' : World} {a : α}
    (h : Triple P x Q) (hw : P w) (hx : x w = .ok a w') : Q (.ok a) w' := by
  have h := h w hw
  rw [hx] at h
  exact h

/-- `x >>= f` when `x` ends in `S` and says `A` of its value, and `f a` starts from both. -/
theorem Triple.bind_ok {x : EStateM ε World α} {A : α → World → Prop} {f : α → EStateM ε World β}
    {Q : Except ε β → World → Prop} (hx : Triple P x fun r w => S w ∧ ∀ a, r = .ok a → A a w)
    (hf : ∀ a, Triple (fun w => S w ∧ A a w) (f a) Q) (he : ∀ e w, S w → Q (.error e) w) :
    Triple P (x >>= f) Q :=
  hx.bind (fun a => (hf a).mono (fun _ h => ⟨h.1, h.2 a rfl⟩) fun _ _ h => h) fun e w h => he e w h.1

end Rules

/-! ## System calls -/

section Calls

variable {i : Nat} {w₀ : World} {F : World → Prop} {op : String} {call : Call} {g : Foreign → Error}

theorem fdInode_eq {w : World} {fd : Int} {d d' : Nat} (hd : w.inodeOf fd = some d)
    (h : w.fdInode fd = .ok d') : d' = d := by
  simp only [World.fdInode, hd] at h
  cases h
  rfl

/-- A system call that edits the tree in the directory of `dir` stays in the root
when `dir` is inside it and the edit keeps to the subtree of such a directory. -/
theorem within_edit {dir : Int} (edit : World → Nat → Except Errno Fs)
    (hk : ∀ w d fs', w.fs.WellLinked → (w.fs.isDir d = true → w.fs.Below i d) →
      edit w d = .ok fs' → w.fs.Confined i fs' ∧ fs'.WellLinked) :
    Triple (fun w => (w₀.StaysIn i w ∧ F w) ∧ w.Inside i dir)
      ((syscall op call fun w => do pure (← edit w (← w.fdInode dir), [], ())).adaptExcept g)
      fun _ => w₀.StaysIn i := by
  refine Triple.adaptExcept (triple_syscall.mono (fun w ⟨⟨hw, _⟩, d, hd, hb⟩ =>
    ⟨fun fs' opened a h => ?_, fun _ _ => hw.record call⟩) fun _ _ h => h)
  obtain ⟨d', hd', h⟩ := except_bind_eq_ok h
  obtain ⟨fs₁, he, h⟩ := except_bind_eq_ok h
  cases h
  cases fdInode_eq hd hd'
  obtain ⟨hc, hwl⟩ := hk w d _ hw.wellLinked (hb.below_of_isDir hw.wellLinked) he
  exact hw.edit hc hwl [] call

/-- The same for a system call that edits the tree in two directories. -/
theorem within_edit₂ {dir₁ dir₂ : Int} (edit : World → Nat → Nat → Except Errno Fs)
    (hk : ∀ w d₁ d₂ fs', w.fs.WellLinked → (w.fs.isDir d₁ = true → w.fs.Below i d₁) →
      (w.fs.isDir d₂ = true → w.fs.Below i d₂) → edit w d₁ d₂ = .ok fs' →
      w.fs.Confined i fs' ∧ fs'.WellLinked) :
    Triple (fun w => w₀.StaysIn i w ∧ w.Inside i dir₁ ∧ w.Inside i dir₂)
      ((syscall op call fun w => do
        pure (← edit w (← w.fdInode dir₁) (← w.fdInode dir₂), [], ())).adaptExcept g)
      fun _ => w₀.StaysIn i := by
  refine Triple.adaptExcept (triple_syscall.mono (fun w ⟨hw, ⟨d₁, hd₁, hb₁⟩, d₂, hd₂, hb₂⟩ =>
    ⟨fun fs' opened a h => ?_, fun _ _ => hw.record call⟩) fun _ _ h => h)
  obtain ⟨d₁', hd₁', h⟩ := except_bind_eq_ok h
  obtain ⟨d₂', hd₂', h⟩ := except_bind_eq_ok h
  obtain ⟨fs₁, he, h⟩ := except_bind_eq_ok h
  cases h
  cases fdInode_eq hd₁ hd₁'
  cases fdInode_eq hd₂ hd₂'
  obtain ⟨hc, hwl⟩ := hk w d₁ d₂ _ hw.wellLinked (hb₁.below_of_isDir hw.wellLinked)
    (hb₂.below_of_isDir hw.wellLinked) he
  exact hw.edit hc hwl [] call

/-- `syscalls::openat` stays in the root: it cannot follow a trailing symlink. -/
theorem within_openat {dir : Int} {name : PathBuf} {flags : OpenFlags} {mode : Mode} :
    Triple (fun w => (w₀.StaysIn i w ∧ F w) ∧ w.Inside i dir)
      ((syscalls.openat dir name flags mode).adaptExcept g) fun _ => w₀.StaysIn i := by
  refine Triple.adaptExcept (triple_syscall.mono (fun w ⟨⟨hw, _⟩, d, hd, hb⟩ =>
    ⟨fun fs' opened a h => ?_, fun _ _ => hw.record _⟩) fun _ _ h => h)
  obtain ⟨d', hd', h⟩ := except_bind_eq_ok h
  obtain ⟨⟨fs₁, j⟩, he, h⟩ := except_bind_eq_ok h
  cases h
  cases fdInode_eq hd hd'
  obtain ⟨hc, hwl⟩ := Fs.openat_within hw.wellLinked (hb.below_of_isDir hw.wellLinked)
    (syscalls.openat_flags_noFollow flags) he
  exact hw.edit hc hwl _ _

/-- `readlinkat(2)` changes nothing. -/
theorem within_readlinkat {dir : Int} {name : PathBuf} :
    Triple (w₀.StaysIn i) ((syscalls.readlinkat dir name).adaptExcept g) fun _ => w₀.StaysIn i := by
  refine Triple.adaptExcept (triple_syscall.mono (fun w hw =>
    ⟨fun fs' opened a h => ?_, fun _ _ => hw.record _⟩) fun _ _ h => h)
  obtain ⟨d, -, h⟩ := except_bind_eq_ok h
  obtain ⟨t, -, h⟩ := except_bind_eq_ok h
  cases h
  exact hw.edit .refl hw.wellLinked [] _

/-- `mkdirat(2)` in a directory below the root keeps that directory below the root. -/
theorem within_mkdirat {current : Int} {part : PathBuf} {mode : Mode} {g : Foreign → Error} :
    Triple (fun w => w₀.StaysIn i w ∧ w.DirBelow i current)
      ((syscalls.mkdirat current part mode).adaptExcept g) fun r w => w₀.StaysIn i w ∧
        ∀ u, r = .ok u → w.DirBelow i current := by
  refine Triple.adaptExcept (triple_syscall.mono (fun w ⟨hw, c, hc, hdir, hb⟩ =>
    ⟨fun fs' opened a h => ?_, fun _ _ => ⟨hw.record _, nofun⟩⟩) fun _ _ h => h)
  obtain ⟨d', hd', h⟩ := except_bind_eq_ok h
  obtain ⟨fs₁, hmk, h⟩ := except_bind_eq_ok h
  cases h
  obtain rfl := fdInode_eq hc hd'
  obtain ⟨hcon, hwl⟩ := Fs.mkdirat_within hw.wellLinked (fun _ => hb) hmk
  obtain ⟨hd, -, rfl⟩ := w.fs.mkdirat_eq_ok hmk
  have hlt := w.fs.lt_next_of_isDir hdir
  exact ⟨hw.edit hcon hwl [] _, fun _ _ => ⟨_, w.inodeOf_of_fds rfl hc,
    (by simpa [Fs.isDir, Fs.create_typeOf_old hlt] using hdir : (w.fs.create _ part _ hd).isDir _),
    (hb.of_parent_eq (fun _ he => Fs.create_parent_old he) hlt : (w.fs.create _ part _ hd).Below i _)⟩⟩

end Calls

namespace RootRef

variable (R : ResolverImpl) (rr : RootRef) {i : Nat} {w₀ : World} {F : World → Prop}

/-- `F` survives descriptors opened and calls issued that change nothing. -/
def Stable (F : World → Prop) : Prop := ∀ w w', F w → w.Later w' → w'.fs = w.fs → F w'

section Primitives

variable (hF : Stable F)
include hF

theorem Stable.alloc_record {w : World} (h : F w) (is : List Nat) (c : Call) :
    F ((w.alloc is).record c) :=
  hF w _ h (.record_alloc w is c) rfl

theorem Stable.record {w : World} (h : F w) (c : Call) : F (w.record c) :=
  hF w _ h ⟨⟨[c], rfl⟩, ⟨[], (List.append_nil _).symm⟩⟩ rfl

/-- A reopen with `O_DIRECTORY` of a descriptor inside the root returns a descriptor
of a directory below the root. -/
theorem within_reopen_directory {fd : Int} :
    Triple (fun w => (w₀.StaysIn i w ∧ F w) ∧ w.Inside i fd) (reopen fd OpenFlags.O_DIRECTORY)
      fun res w => (w₀.StaysIn i w ∧ F w) ∧ ∀ fd', res = .ok fd' → w.DirBelow i fd' := by
  refine triple_reopen.mono (fun w ⟨⟨hw, hFw⟩, d, hd, hb⟩ => ⟨fun d' hd' hro => ?_,
    fun _ => ⟨⟨hw.record _, hF.record hFw _⟩, nofun⟩⟩) fun _ _ h => h
  rw [hd] at hd'
  cases hd'
  refine ⟨⟨hw.alloc_record _ _, hF.alloc_record hFw _ _⟩, fun fd' h => ?_⟩
  cases h
  have hdir := Fs.isDir_of_reopenError hro
  exact ⟨d, by simp, hdir, hb.below_of_isDir hw.wellLinked hdir⟩

variable {R} (hR : R.ResolveSound)
include hR

/-- A resolution from a descriptor of a directory below `i` returns a descriptor of
a directory below `i`, or of something else; it opens it and changes nothing. -/
theorem within_resolveAt (r : Resolver) {root : Int} {path : PathBuf} {nf : Bool} :
    Triple (fun w => (w₀.StaysIn i w ∧ F w) ∧ ∃ c, w.inodeOf root = some c ∧ w.fs.Below i c)
      (R.resolveAt r root path nf)
      fun res w => (w₀.StaysIn i w ∧ F w) ∧ ∀ fd, res = .ok fd → w.Inside i fd := by
  refine (triple_resolveAt R r).mono (fun w ⟨⟨hw, hFw⟩, c, hc, hb⟩ =>
    ⟨fun c' j hc' hj => ?_, fun _ => ⟨⟨hw.record _, hF.record hFw _⟩, nofun⟩⟩) fun _ _ h => h
  rw [hc] at hc'
  cases hc'
  refine ⟨⟨hw.alloc_record _ _, hF.alloc_record hFw _ _⟩, fun fd hfd => ?_⟩
  cases hfd
  exact ⟨j, by simp, ((Fs.walk_below hw.wellLinked c nf r.flags.noSymlinks maxSymlinks c _
    (.inl .self)).1 j (hR.resolve_eq r w.fs c path nf hj)).trans hb⟩

omit hR in
/-- A partial resolution from a descriptor of a directory below `i` returns a
descriptor of a directory below `i`, or of something else: the deepest prefix of
the path that resolves is walked from there. -/
theorem within_resolvePartialAt (hP : R.PartialSound) (r : Resolver) {root : Int} {path : PathBuf} {nf : Bool} :
    Triple (fun w => (w₀.StaysIn i w ∧ F w) ∧ ∃ c, w.inodeOf root = some c ∧ w.fs.Below i c)
      (R.resolvePartialAt r root path nf)
      fun res w => (w₀.StaysIn i w ∧ F w) ∧ ∀ a, res = .ok a → w.Inside i a.1 := by
  refine (triple_resolvePartialAt R r).mono (fun w ⟨⟨hw, hFw⟩, c, hc, hb⟩ =>
    ⟨fun c' j rem hc' hj => ?_, fun _ => ⟨⟨hw.record _, hF.record hFw _⟩, nofun⟩⟩) fun _ _ h => h
  rw [hc] at hc'
  cases hc'
  refine ⟨⟨hw.alloc_record _ _, hF.alloc_record hFw _ _⟩, fun a ha => ?_⟩
  cases ha
  obtain ⟨k, hk, -⟩ := hP.resolvePartial_eq r w.fs c path nf hj
  exact ⟨j, by simp, ((Fs.walk_below hw.wellLinked c _ r.flags.noSymlinks maxSymlinks c _
    (.inl .self)).1 j (Fs.deepestPrefixUpTo_spec hk).2).trans hb⟩

/-- `resolve_parent` of a path returns a descriptor of a directory below the root,
or of something else. -/
theorem within_resolveParent (hi₀ : w₀.inodeOf rr.inner = some i) (path : PathBuf) (c : String) :
    Triple (fun w => w₀.StaysIn i w ∧ F w) ((rr.resolveParent R path).wrap c)
      fun res w => (w₀.StaysIn i w ∧ F w) ∧ ∀ a, res = .ok a → w.Inside i a.1 := by
  show Triple _ (((rr.resolve R (pathSplit path).1).wrap "resolve parent directory" >>=
    fun dir => pure (dir, (pathSplit path).2)).wrap c) _
  refine Triple.wrap_ok (Triple.bind_ok (Triple.wrap_ok ((within_resolveAt hF hR _).mono
    (fun w h => ⟨h, i, h.1.later.inodeOf hi₀, .self⟩) fun _ _ h => h))
    (fun fd => Triple.pure fun _ h => ⟨h.1, fun a ha => ?_⟩) fun _ _ h => ⟨h, nofun⟩)
  cases ha
  exact h.2

/-- `resolve_parent` of a path, then `f` from a descriptor below the root. -/
theorem within_resolveParent_bind (hi₀ : w₀.inodeOf rr.inner = some i) {γ : Type} {path : PathBuf}
    {c : String} {f : Int × Option PathBuf → Sys γ}
    (hf : ∀ fd name, Triple (fun w => (w₀.StaysIn i w ∧ F w) ∧ w.Inside i fd) (f (fd, name))
      fun _ => w₀.StaysIn i) :
    Triple (fun w => w₀.StaysIn i w ∧ F w) ((rr.resolveParent R path).wrap c >>= f)
      fun _ => w₀.StaysIn i :=
  Triple.bind_ok (rr.within_resolveParent hF hR hi₀ path c) (fun a => hf a.1 a.2) fun _ _ h => h.1

end Primitives

theorem stable_true : Stable fun _ => True := fun _ _ h _ _ => h

theorem stable_inside (fd : Int) : Stable fun w => w.Inside i fd :=
  fun _ _ h hl hfs => h.later hl hfs

/-! ## Operations -/

section Operations

variable {R} (hR : R.ResolveSound) (hi₀ : w₀.inodeOf rr.inner = some i)
include hR hi₀

/-- A resolution from the root stays in the root: `resolve` and `resolve_nofollow`. -/
theorem within_resolveRoot (path : PathBuf) (nf : Bool) :
    Triple (w₀.StaysIn i) (R.resolveAt rr.resolver rr.inner path nf) fun _ => w₀.StaysIn i :=
  (within_resolveAt stable_true hR rr.resolver).mono
    (fun _ hw => ⟨⟨hw, trivial⟩, i, hw.later.inodeOf hi₀, .self⟩) fun _ _ h => h.1.1

theorem within_readlink (path : PathBuf) :
    Triple (w₀.StaysIn i) (rr.readlink R path) fun _ => w₀.StaysIn i :=
  Triple.bind (Triple.wrap (rr.within_resolveRoot hR hi₀ path true) :
    Triple _ _ fun _ => w₀.StaysIn i) (fun _ => within_readlinkat) fun _ _ h => h

/-- `resolve_parent` from a world that stayed in the root. -/
theorem within_onParent {γ : Type} {path : PathBuf} {c : String}
    {f : Int × Option PathBuf → Sys γ}
    (hf : ∀ fd name, Triple (fun w => (w₀.StaysIn i w ∧ True) ∧ w.Inside i fd) (f (fd, name))
      fun _ => w₀.StaysIn i) :
    Triple (w₀.StaysIn i) ((rr.resolveParent R path).wrap c >>= f) fun _ => w₀.StaysIn i :=
  (rr.within_resolveParent_bind stable_true hR hi₀ hf).mono (fun _ hw => ⟨hw, trivial⟩)
    fun _ _ h => h

theorem within_create (path : PathBuf) (inodeType : InodeType) :
    Triple (w₀.StaysIn i) (rr.create R path inodeType) fun _ => w₀.StaysIn i := by
  refine rr.within_onParent hR hi₀ fun dir name => triple_trailingName_bind (fun name _ => ?_)
    fun _ _ h => h.1.1
  cases inodeType with
  | hardlink target =>
      refine (rr.within_resolveParent_bind (stable_inside dir) hR hi₀ fun olddir oldname => ?_).mono
        (fun _ h => ⟨h.1.1, h.2⟩) fun _ _ h => h
      exact triple_trailingName_bind (fun oldname _ => (within_edit₂ _ fun _ _ _ _ hwl _ hb h =>
        Fs.linkat_within hwl hb h).mono (fun _ h => ⟨h.1.1, h.2, h.1.2⟩) fun _ _ h => h)
        fun _ _ h => h.1.1
  | directory perm => exact within_edit _ fun _ _ _ hwl hb h => Fs.mkdirat_within hwl hb h
  | symlink target => exact within_edit _ fun _ _ _ hwl hb h => Fs.symlinkat_within hwl hb h
  | file perm | fifo perm | characterDevice perm dev | blockDevice perm dev =>
      exact within_edit _ fun _ _ _ hwl hb h => Fs.mknodat_within hwl hb h

/-- `create_file` stays in the root, whatever the caller's flags. -/
theorem within_createFile (path : PathBuf) (flags : OpenFlags) (perm : Permissions) :
    Triple (w₀.StaysIn i) (rr.createFile R path flags perm) fun _ => w₀.StaysIn i :=
  rr.within_onParent hR hi₀ fun _ _ => triple_trailingName_bind (fun _ _ => within_openat)
    fun _ _ h => h.1.1

theorem within_removeInode (path : PathBuf) (inodeType : RemoveInodeType) :
    Triple (w₀.StaysIn i) (rr.removeInode R path inodeType) fun _ => w₀.StaysIn i :=
  rr.within_onParent hR hi₀ fun _ _ => triple_trailingName_bind (fun _ _ => within_edit _
    fun _ _ _ hwl hb h => Fs.unlinkat_within hwl hb h) fun _ _ h => h.1.1

theorem within_removeAll (path : PathBuf) :
    Triple (w₀.StaysIn i) (rr.removeAll R path) fun _ => w₀.StaysIn i :=
  rr.within_onParent hR hi₀ fun _ _ => triple_trailingName_bind (fun _ _ => within_edit _
    fun _ _ _ hwl hb h => Fs.removeAll_within hwl hb h) fun _ _ h => h.1.1

theorem within_rename (source destination : PathBuf) (rflags : RenameFlags) :
    Triple (w₀.StaysIn i) (rr.rename R source destination rflags) fun _ => w₀.StaysIn i := by
  refine rr.within_onParent hR hi₀ fun srcDir _ => triple_trailingName_bind (fun _ _ => ?_)
    fun _ _ h => h.1.1
  refine (rr.within_resolveParent_bind (stable_inside srcDir) hR hi₀ fun _ _ => ?_).mono
    (fun _ h => ⟨h.1.1, h.2⟩) fun _ _ h => h
  exact triple_trailingName_bind (fun _ _ => (within_edit₂ _ fun _ _ _ _ hwl hbo hbn h =>
    Fs.renameat2_within hwl hbo hbn h).mono (fun _ h => ⟨h.1.1, h.1.2, h.2⟩) fun _ _ h => h)
    fun _ _ h => h.1.1

omit hi₀ in
/-- The loop of `mkdir_all`, from a descriptor of a directory below the root: each
directory it makes is made in, and reopened from, a directory below the root. -/
theorem within_mkdirAllLoop (perm : Permissions) : ∀ (parts : List PathBuf) (current : Int),
    Triple (fun w => w₀.StaysIn i w ∧ w.DirBelow i current) (rr.mkdirAllLoop R perm current parts)
      fun r w => w₀.StaysIn i w ∧ ∀ fd, r = .ok fd → w.DirBelow i fd
  | [], _ => Triple.pure fun _ h => ⟨h.1, fun _ hfd => by cases hfd; exact h.2⟩
  | part :: parts, current => by
      unfold mkdirAllLoop
      exact Triple.bind_ok within_mkdirat (fun _ => Triple.bind_ok (Triple.wrap_ok
        (Triple.bind_ok ((within_resolveAt stable_true hR rr.resolver).mono
          (fun _ ⟨hw, c, hc, _, hb⟩ => ⟨⟨hw, trivial⟩, c, hc, hb⟩) fun _ _ h => h)
          (fun _ => within_reopen_directory stable_true) fun _ _ h => ⟨h, nofun⟩))
        (fun next => (within_mkdirAllLoop perm parts next).mono (fun _ h => ⟨h.1.1, h.2⟩)
          fun _ _ h => h) fun _ _ h => ⟨h.1, nofun⟩) fun _ _ h => ⟨h, nofun⟩

/-- `mkdir_all` stays in the root, and returns a descriptor of a directory below it. -/
theorem within_mkdirAll (hP : R.PartialSound) (path : PathBuf) (perm : Permissions) :
    Triple (w₀.StaysIn i) (rr.mkdirAll R path perm)
      fun r w => w₀.StaysIn i w ∧ ∀ fd, r = .ok fd → w.DirBelow i fd := by
  unfold mkdirAll
  dsimp only
  split
  · exact Triple.throw_bind fun _ h => ⟨h, nofun⟩
  refine Triple.pure_bind ?_
  split
  · exact Triple.throw_bind fun _ h => ⟨h, nofun⟩
  refine Triple.pure_bind (Triple.bind_ok ((within_resolvePartialAt stable_true hP rr.resolver).mono
    (fun _ hw => ⟨⟨hw, trivial⟩, i, hw.later.inodeOf hi₀, .self⟩) fun _ _ h => h)
    (fun a => Triple.bind_ok (Triple.wrap_ok (within_reopen_directory stable_true))
      (fun current => ?_) fun _ _ h => ⟨h.1, nofun⟩) fun _ _ h => ⟨h.1, nofun⟩)
  dsimp only
  split
  · exact Triple.throw_bind fun _ h => ⟨h.1.1, nofun⟩
  exact Triple.pure_bind ((rr.within_mkdirAllLoop hR perm _ current).mono
    (fun _ h => ⟨h.1.1, h.2⟩) fun _ _ h => h)

end Operations

end RootRef

/-! ## Sessions -/

/-- A call a client makes on a `RootRef`, with its arguments. -/
inductive Op where
  | resolve (path : PathBuf)
  | resolveNofollow (path : PathBuf)
  | readlink (path : PathBuf)
  | create (path : PathBuf) (inodeType : InodeType)
  | createFile (path : PathBuf) (flags : OpenFlags) (perm : Permissions)
  | mkdirAll (path : PathBuf) (perm : Permissions)
  | removeDir (path : PathBuf)
  | removeFile (path : PathBuf)
  | removeAll (path : PathBuf)
  | rename (source destination : PathBuf) (rflags : RenameFlags)

namespace Op

/-- The world a call on `rr` leaves, whether it returned or failed. -/
def run (R : ResolverImpl) (rr : RootRef) : Op → World → World
  | resolve path, w => worldOf (rr.resolve R path w)
  | resolveNofollow path, w => worldOf (rr.resolveNofollow R path w)
  | readlink path, w => worldOf (rr.readlink R path w)
  | create path inodeType, w => worldOf (rr.create R path inodeType w)
  | createFile path flags perm, w => worldOf (rr.createFile R path flags perm w)
  | mkdirAll path perm, w => worldOf (rr.mkdirAll R path perm w)
  | removeDir path, w => worldOf (rr.removeDir R path w)
  | removeFile path, w => worldOf (rr.removeFile R path w)
  | removeAll path, w => worldOf (rr.removeAll R path w)
  | rename source destination rflags, w => worldOf (rr.rename R source destination rflags w)

end Op

namespace RootRef

variable (R : ResolverImpl) (rr : RootRef)

/-- The world a session of calls on `rr` leaves: each call runs from the world the
one before it left. -/
def runSession (ops : List Op) (w : World) : World :=
  ops.foldl (fun w op => op.run R rr w) w

variable {R} {i : Nat} {w₀ : World} (hR : R.ResolveSound) (hP : R.PartialSound)
  (hi₀ : w₀.inodeOf rr.inner = some i)
include hR hP hi₀

/-- One call stays in the root. -/
theorem run_staysIn (op : Op) {w : World} (hw : w₀.StaysIn i w) : w₀.StaysIn i (op.run R rr w) := by
  cases op with
  | resolve path => exact rr.within_resolveRoot hR hi₀ path false w hw
  | resolveNofollow path => exact rr.within_resolveRoot hR hi₀ path true w hw
  | readlink path => exact rr.within_readlink hR hi₀ path w hw
  | create path inodeType => exact rr.within_create hR hi₀ path inodeType w hw
  | createFile path flags perm => exact rr.within_createFile hR hi₀ path flags perm w hw
  | mkdirAll path perm => exact (rr.within_mkdirAll hR hi₀ hP path perm w hw).1
  | removeDir path => exact rr.within_removeInode hR hi₀ path _ w hw
  | removeFile path => exact rr.within_removeInode hR hi₀ path _ w hw
  | removeAll path => exact rr.within_removeAll hR hi₀ path w hw
  | rename source destination rflags => exact rr.within_rename hR hi₀ source destination rflags w hw

/-- A session of calls stays in the root. -/
theorem runSession_staysIn : ∀ (ops : List Op) (w : World), w₀.StaysIn i w →
    w₀.StaysIn i (rr.runSession R ops w)
  | [], _, hw => hw
  | op :: ops, _, hw => runSession_staysIn ops _ (rr.run_staysIn hR hP hi₀ op hw)

end RootRef

/-- The tree holding only the root directory is well linked. -/
theorem Fs.rootOnly_wellLinked : Fs.rootOnly.WellLinked :=
  ⟨fun h => (by cases h), fun h => (by cases h)⟩

/-- `Fs.withDangling` is well linked. -/
theorem Fs.withDangling_wellLinked : Fs.withDangling.WellLinked :=
  Fs.rootOnly_wellLinked.create.create

namespace RootRef

variable {R : ResolverImpl} (rr : RootRef)

end RootRef

end Pathrs
