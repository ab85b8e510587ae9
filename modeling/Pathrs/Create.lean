import Pathrs.Atomic
import Pathrs.Resolver

/-!
# What `create` makes

Each arm of `create` hands the requested type to the kernel. A file, a FIFO and
the two kinds of device are made by `mknodat`, whose mode is the type's `S_IFMT`
bits or-ed into the permission bits masked with `!S_IFMT`, so that no permission
value can bring type bits of its own; `mknod(2)` reads the type back off those
bits (`mknodType_of_modeFor`). A directory is made by `mkdirat`, a symlink by
`symlinkat` and a hard link by `linkat` with no flag. `CallCreates` says, for each
inode type, what the call that makes it must be. Once its resolutions and trailing
names succeed, `create` reaches that call (`create_reaches_call`), so it issues
exactly one call that can change the tree, the one `CallCreates` names
(`create_issues_requested_type`).

The `Directory` arm masks its mode with `!S_IFMT` as the `mknodat` arms do, so
set-uid, set-gid and the bits above `0o7777` reach `mkdirat`, which drops them,
while `mkdir_all` refuses the same permissions before any call.
-/

set_option autoImplicit false

namespace Pathrs

open PathBuf

/-! ## Modes for `mknod(2)` -/

/-- A mode whose `S_IFMT` bits are the type `t` and whose other bits are those of
`perm`. -/
def ModeFor (t : Mode) (perm : Permissions) (mode : Mode) : Prop :=
  mode &&& libc.S_IFMT = t ∧ mode &&& ~~~libc.S_IFMT = perm.mode &&& ~~~libc.S_IFMT

/-- The mode `create` builds for a type `t` made of `S_IFMT` bits only. -/
theorem modeFor_or (t : Mode) (perm : Permissions) (ht : t &&& libc.S_IFMT = t)
    (ht' : t &&& ~~~libc.S_IFMT = 0) :
    ModeFor t perm (t ||| (perm.mode &&& ~~~libc.S_IFMT)) :=
  ⟨or_and_not_and_self _ _ _ ht, or_and_not_and_not _ _ _ ht'⟩

/-- `mknod(2)` reads the type off the `S_IFMT` bits only. -/
theorem mknodType_of_modeFor {t : Mode} {perm : Permissions} {mode : Mode} (dev : Dev)
    (h : ModeFor t perm mode) (ht : t &&& libc.S_IFMT = t) :
    Fs.mknodType mode dev = Fs.mknodType t dev := by
  simp only [Fs.mknodType, h.1, ht]

/-- The call that makes an inode of type `inodeType`: `mknodat` with the type's
`S_IFMT` bits, the other bits of the permissions and the device (`0` for a file
and a FIFO), a mode `mknod(2)` reads as that type; `mkdirat`; `symlinkat` of the
target; `linkat` with no flag, so without `AT_SYMLINK_FOLLOW`. -/
def CallCreates : InodeType → Call → Prop
  | .file perm, .mknodat _ _ mode dev =>
      ModeFor libc.S_IFREG perm mode ∧ dev = 0 ∧ Fs.mknodType mode dev = .ok .regular
  | .fifo perm, .mknodat _ _ mode dev =>
      ModeFor libc.S_IFIFO perm mode ∧ dev = 0 ∧ Fs.mknodType mode dev = .ok .fifo
  | .characterDevice perm d, .mknodat _ _ mode dev =>
      ModeFor libc.S_IFCHR perm mode ∧ dev = d ∧ Fs.mknodType mode dev = .ok (.charDevice d)
  | .blockDevice perm d, .mknodat _ _ mode dev =>
      ModeFor libc.S_IFBLK perm mode ∧ dev = d ∧ Fs.mknodType mode dev = .ok (.blockDevice d)
  | .directory _, .mkdirat _ _ _ => True
  | .symlink target, .symlinkat t _ _ => t = target
  | .hardlink _, .linkat _ _ _ _ flags => flags = 0
  | _, _ => False

/-- The `mknodat` arms: for the type bits `t` of one of the four types, the call
`create` issues makes that type, whatever the permissions. -/
theorem mknod_arm (t : Mode) (perm : Permissions) (dev : Dev) (ht : t &&& libc.S_IFMT = t)
    (ht' : t &&& ~~~libc.S_IFMT = 0) :
    ModeFor t perm (t ||| (perm.mode &&& ~~~libc.S_IFMT)) ∧
      Fs.mknodType (t ||| (perm.mode &&& ~~~libc.S_IFMT)) dev = Fs.mknodType t dev :=
  ⟨modeFor_or t perm ht ht', mknodType_of_modeFor dev (modeFor_or t perm ht ht') ht⟩

/-! ## Concrete trees -/

/-- A tree holding only its root directory, inode `0`. -/
def Fs.rootOnly : Fs where
  inode i := if i = 0 then some ⟨.directory, 0o755⟩ else none
  entries _ := []
  parent _ := 0
  root := 0
  next := 1
  inode_fresh _ hi := if_neg (by omega)
  entries_lt _ _ _ h := absurd h (List.not_mem_nil _)
  parent_lt _ _ := Nat.one_pos
  root_lt := Nat.one_pos

/-- A directory `a` (inode `1`) in the root, holding a symlink `l` to `m` (inode `2`);
`a` has no entry `m`. -/
def Fs.withDangling : Fs :=
  (Fs.rootOnly.create 0 [97] ⟨.directory, 0o755⟩ Nat.one_pos).create 1 [108]
    ⟨.symlink [109], 0o777⟩ (by decide)

/-- A process with one open descriptor, `0`, on the directory `d` of the tree `fs`,
and nothing logged yet. -/
def World.openAt (fs : Fs) (d : Nat) : World := ⟨fs, [d], []⟩

/-- A `RootRef` on descriptor `0`, with the kernel backend and no resolver flag. -/
def RootRef.atZero : RootRef := ⟨0, ⟨.kernelOpenat2, ⟨false⟩⟩⟩

namespace RootRef

/-- The paths `create` resolves: its path, and a hard link's target. -/
def createPaths (path : PathBuf) : InodeType → List PathBuf
  | .hardlink target => [path, target]
  | _ => [path]

variable (R : ResolverImpl) (rr : RootRef)

theorem keeps_create (path : PathBuf) (inodeType : InodeType) :
    Keeps (fun _ c => CallCreates inodeType c) (rr.create R path inodeType) := by
  refine ((rr.readOnly_resolveParent R path).wrap _).keeps.bind fun (_, _) => ?_
  refine (readOnly_trailingName _ _ _).keeps.bind fun _ => ?_
  cases inodeType with
  | file perm =>
      have h := mknod_arm libc.S_IFREG perm 0 (by decide) (by decide)
      exact (keeps_syscall fun _ _ => by exact ⟨h.1, rfl, h.2.trans rfl⟩).adaptExcept
  | directory => exact (keeps_syscall fun _ _ => trivial).adaptExcept
  | symlink => exact (keeps_syscall fun _ _ => by rfl).adaptExcept
  | hardlink target =>
      exact ((rr.readOnly_resolveParent R target).wrap _).keeps.bind fun (_, _) =>
        (readOnly_trailingName _ _ _).keeps.bind fun _ =>
          (keeps_syscall fun _ _ => by rfl).adaptExcept
  | fifo perm =>
      have h := mknod_arm libc.S_IFIFO perm 0 (by decide) (by decide)
      exact (keeps_syscall fun _ _ => by exact ⟨h.1, rfl, h.2.trans rfl⟩).adaptExcept
  | characterDevice perm dev =>
      have h := mknod_arm libc.S_IFCHR perm dev (by decide) (by decide)
      exact (keeps_syscall fun _ _ => by exact ⟨h.1, rfl, h.2.trans rfl⟩).adaptExcept
  | blockDevice perm dev =>
      have h := mknod_arm libc.S_IFBLK perm dev (by decide) (by decide)
      exact (keeps_syscall fun _ _ => by exact ⟨h.1, rfl, h.2.trans rfl⟩).adaptExcept

/-- A `create` from a world where the root descriptor is open and each path it
resolves has a parent that resolves and a trailing name reaches its system call:
after calls that change nothing, it issues one call that can change the tree,
whatever that call returns. -/
theorem create_reaches_call (path : PathBuf) (inodeType : InodeType) {w : World} {i : Nat}
    (hi : w.inodeOf rr.inner = some i)
    (hpaths : ∀ p ∈ createPaths path inodeType,
      (∃ d, R.resolve rr.resolver w.fs i (pathSplit p).1 false = .ok d) ∧ (pathSplit p).2.isSome) :
    ∃ w₁ c, ReadOnlySince w w₁ ∧ c.isMutating = true ∧
      (worldOf (rr.create R path inodeType w)).log = w₁.log ++ [c] := by
  obtain ⟨⟨d, hd⟩, hn⟩ := hpaths path (by cases inodeType <;> simp [createPaths])
  obtain ⟨name, hn⟩ := Option.isSome_iff_exists.1 hn
  have hr : ReadOnlySince w ((w.alloc [d]).record
      (.resolve rr.inner (pathSplit path).1 false (some w.fds.length))) :=
    ((ReadOnlySince.refl w).alloc _).record rfl
  rw [create, rr.resolveParent_bind_of_ok hi hd, hn]
  dsimp only
  rw [bind_of_ok trailingName_some]
  cases inodeType with
  | hardlink target =>
      obtain ⟨⟨od, hod⟩, hon⟩ := hpaths target (by simp [createPaths])
      obtain ⟨oname, hon⟩ := Option.isSome_iff_exists.1 hon
      dsimp only
      rw [rr.resolveParent_bind_of_ok ((World.inodeOf_record _ _ _).trans (w.inodeOf_alloc hi _)) hod,
        hon]
      dsimp only
      rw [bind_of_ok trailingName_some]
      exact ⟨_, _, (hr.alloc _).record (by rfl), by rfl, log_syscall⟩
  | _ => exact ⟨_, _, hr, by rfl, log_syscall⟩

/-- **`create` makes the requested type.** For every inode type, permissions and
device, each call `create` issues that can change the tree is the call
`CallCreates` names for that type. When the root descriptor is open and each path
`create` resolves has a parent that resolves and a trailing name, `create` issues
exactly one such call. -/
theorem create_issues_requested_type (path : PathBuf) (inodeType : InodeType) (w : World) :
    EachMutating (fun _ c => CallCreates inodeType c)
      (issued w (worldOf (rr.create R path inodeType w))) ∧
    ∀ i, w.inodeOf rr.inner = some i →
      (∀ p ∈ createPaths path inodeType,
        (∃ d, R.resolve rr.resolver w.fs i (pathSplit p).1 false = .ok d) ∧ (pathSplit p).2.isSome) →
      ∃ c, (issued w (worldOf (rr.create R path inodeType w))).filter Call.isMutating = [c] ∧
        CallCreates inodeType c := by
  have heach := (rr.keeps_create R path inodeType w w (.refl w)).eachMutating
  refine ⟨heach, fun i hi hpaths => ?_⟩
  obtain ⟨w₁, c, hread, hc, hlog⟩ := rr.create_reaches_call R path inodeType hi hpaths
  obtain ⟨cs, hlog₁, hcs, -⟩ := hread
  have hiss : issued w (worldOf (rr.create R path inodeType w)) = cs ++ [c] :=
    issued_eq_of_log (by rw [hlog, hlog₁, List.append_assoc])
  rw [hiss] at heach ⊢
  refine ⟨c, ?_, heach.last hc⟩
  rw [List.filter_append, List.filter_eq_nil_iff.2 fun c' h => by simp [hcs c' h]]
  simp [hc]

/-- The `Directory` arm passes the mode masked with `!S_IFMT` only. -/
theorem keeps_create_directory (path : PathBuf) (perm : Permissions) :
    Keeps (fun _ c => ∃ d name, c = .mkdirat d name (perm.mode &&& ~~~libc.S_IFMT))
      (rr.create R path (.directory perm)) :=
  ((rr.readOnly_resolveParent R path).wrap _).keeps.bind fun (_, _) =>
    (readOnly_trailingName _ _ _).keeps.bind fun _ =>
      (keeps_syscall fun _ _ => ⟨_, _, rfl⟩).adaptExcept

/-- For the permissions `mkdir_all` admits, `create` with `Directory` and `mkdir_all`
pass exactly the mode of the permissions to every `mkdirat` they issue. -/
theorem directory_modes_agree (perm : Permissions) (hperm : perm.mode &&& ~~~0o1777 = 0)
    (path path' : PathBuf) (w w' : World) :
    EachMutating (fun _ c => ∃ d name, c = .mkdirat d name perm.mode)
        (issued w (worldOf (rr.create R path (.directory perm) w))) ∧
      EachMutating (fun _ c => ∃ d name, c = .mkdirat d name perm.mode)
        (issued w' (worldOf (rr.mkdirAll R path' perm w'))) := by
  have hmask : perm.mode &&& ~~~libc.S_IFMT = perm.mode :=
    and_not_eq_self _ _ _ hperm (by decide)
  have hcreate := (rr.keeps_create_directory R path perm w w (.refl w)).eachMutating
  rw [hmask] at hcreate
  exact ⟨hcreate,
    (rr.keeps_mkdirAll R path' perm (fun _ _ _ => ⟨_, _, rfl⟩) w' w' (.refl w')).eachMutating⟩

end RootRef

/-- `create("d", Directory(0o4755))` in an empty root passes the set-uid bit to
`mkdirat`, outside the bits `0o1777`, and the kernel drops it; `mkdir_all` refuses
the same permissions before any call, for every path and in every world. -/
theorem create_directory_passes_setuid :
    issued (World.openAt Fs.rootOnly 0)
        (worldOf (RootRef.atZero.create .reference [100] (.directory ⟨0o4755⟩)
          (World.openAt Fs.rootOnly 0))) =
      [.resolve 0 dot false (some 1), .mkdirat 1 [100] 0o4755] ∧
    (0o4755 : Mode) &&& ~~~0o1777 ≠ 0 ∧
    (worldOf (RootRef.atZero.create .reference [100] (.directory ⟨0o4755⟩)
      (World.openAt Fs.rootOnly 0))).fs.inode 1 = some ⟨.directory, 0o755⟩ ∧
    ∀ (R : ResolverImpl) (rr : RootRef) (path : PathBuf) (w : World),
      rr.mkdirAll R path ⟨0o4755⟩ w = .error (Error.of (.invalidArgument "perm"
        "mode contains setuid or setgid bits that are silently ignored by mkdirat")) w :=
  ⟨rfl, by decide, rfl, fun _ _ _ _ => rfl⟩

end Pathrs
