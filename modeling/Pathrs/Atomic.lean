import Pathrs.Logic
import Pathrs.Root

/-!
# Failing before the change

Every operation of `root.rs` that makes one change (`create` with each inode
type, `create_file`, `remove_dir`, `remove_file`, `rename`) first resolves and
checks its arguments with calls that change nothing, and only then issues the one
call that changes the tree. So when it fails for any other reason than that
call's own error, the tree is as it was; and since a system call that fails
changes nothing, every failure of these operations leaves the tree as it was
(`failures_leave_tree`). `mkdir_all` makes several changes, but
none before its mode checks, its partial resolution and the reopen of the
directory found have succeeded and the rest of the path has been found free of
`..`.

The shapes of computation, each a predicate with one rule per construct:

* `ReadOnly`: only calls that change nothing;
* `Atomic own`: read-only calls, then at most one call that may change the tree,
  as the last step; a failure whose error is not one of `own` comes before it;
* `AllOrNothing`: every failure leaves the tree as it was;
* `Tracks`: the tree changes only through the mutating calls, all of them logged;
* `Keeps p`: every mutating call satisfies `p`, given the calls before it.
-/

set_option autoImplicit false

namespace Pathrs

open PathBuf

variable {ε α β : Type}

/-! ## Read-only computations -/

/-- `x` issues only calls that change nothing, and changes nothing. -/
def ReadOnly (x : EStateM ε World α) : Prop :=
  ∀ w₀, Triple (ReadOnlySince w₀) x fun _ => ReadOnlySince w₀

namespace ReadOnly

variable {x : EStateM ε World α}

theorem pure (a : α) : ReadOnly (Pure.pure a : EStateM ε World α) :=
  fun _ => Triple.pure fun _ h => h

theorem throw (e : ε) : ReadOnly (MonadExcept.throw e : EStateM ε World α) :=
  fun _ => Triple.throw fun _ h => h

theorem bind {f : α → EStateM ε World β} (hx : ReadOnly x) (hf : ∀ a, ReadOnly (f a)) :
    ReadOnly (x >>= f) :=
  fun w₀ => (hx w₀).bind (fun a => hf a w₀) fun _ _ h => h

theorem throw_bind (e : ε) (f : α → EStateM ε World β) : ReadOnly (MonadExcept.throw e >>= f) :=
  fun _ => Triple.throw_bind fun _ h => h

theorem adaptExcept {ε' : Type} {g : ε → ε'} (hx : ReadOnly x) : ReadOnly (x.adaptExcept g) :=
  fun w₀ => Triple.adaptExcept (hx w₀)

theorem wrap {x : Sys α} (c : String) (hx : ReadOnly x) : ReadOnly (x.wrap c) :=
  hx.adaptExcept

end ReadOnly

section Primitives

variable (R : ResolverImpl) (r : Resolver)

theorem readOnly_resolveAt (root : Int) (path : PathBuf) (nf : Bool) :
    ReadOnly (R.resolveAt r root path nf) := fun _ =>
  (triple_resolveAt R r).mono
    (fun _ h => ⟨fun _ _ _ _ => (h.alloc _).record (by rfl), fun _ => h.record (by rfl)⟩) fun _ _ h => h

theorem readOnly_resolvePartialAt (root : Int) (path : PathBuf) (nf : Bool) :
    ReadOnly (R.resolvePartialAt r root path nf) := fun _ =>
  (triple_resolvePartialAt R r).mono
    (fun _ h => ⟨fun _ _ _ _ _ => (h.alloc _).record (by rfl), fun _ => h.record (by rfl)⟩) fun _ _ h => h

theorem readOnly_reopen (fd : Int) (flags : OpenFlags) : ReadOnly (reopen fd flags) := fun _ =>
  triple_reopen.mono
    (fun _ h => ⟨fun _ _ _ => (h.alloc _).record (by rfl), fun _ => h.record (by rfl)⟩) fun _ _ h => h

theorem readOnly_trailingName (name : Option PathBuf) (argument description : String) :
    ReadOnly (trailingName name argument description) := by
  cases name
  · exact ReadOnly.throw _
  · exact ReadOnly.pure _

theorem RootRef.readOnly_resolveParent (rr : RootRef) (path : PathBuf) :
    ReadOnly (rr.resolveParent R path) :=
  (readOnly_resolveAt R _ _ _ _).wrap _ |>.bind fun _ => ReadOnly.pure _

theorem trailingName_eq_ok {name : Option PathBuf} {argument description : String}
    {n : PathBuf} {w w' : World} (h : trailingName name argument description w = .ok n w') :
    name = some n ∧ w' = w := by
  cases name with
  | none => cases h
  | some x => cases h; exact ⟨rfl, rfl⟩

/-- A successful `resolve_parent` issued one call, a `resolve` of the parent part
from the root descriptor, whose result is a fresh descriptor. -/
theorem RootRef.resolveParent_eq_ok (rr : RootRef) {path : PathBuf} {w w' : World} {fd : Int}
    {name : Option PathBuf} (h : rr.resolveParent R path w = .ok (fd, name) w') :
    ∃ i j, w.inodeOf rr.inner = some i ∧
      R.resolve rr.resolver w.fs i (pathSplit path).1 false = .ok j ∧
      fd = w.fds.length ∧ name = (pathSplit path).2 ∧
      w' = (w.alloc [j]).record (.resolve rr.inner (pathSplit path).1 false (some w.fds.length)) := by
  unfold RootRef.resolveParent at h
  rcases hps : pathSplit path with ⟨parent, name'⟩
  rw [hps] at h
  obtain ⟨dir, w₁, h₁, h₂⟩ := bind_eq_ok h
  obtain ⟨⟩ := h₂
  obtain ⟨i, j, hi, hj, rfl, rfl⟩ := resolveAt_eq_ok R _ (wrap_eq_ok h₁)
  exact ⟨i, j, hi, hj, rfl, rfl, rfl⟩

end Primitives

theorem trailingName_some {n : PathBuf} {argument description : String} {w : World} :
    trailingName (some n) argument description w = .ok n w := rfl

namespace RootRef

variable {R : ResolverImpl} (rr : RootRef)

/-- Read forwards: `resolve_parent` returns a fresh descriptor of the directory the
resolver returns for the parent part, and the trailing name. -/
theorem resolveParent_of_ok {path : PathBuf} {w : World} {i d : Nat}
    (hi : w.inodeOf rr.inner = some i)
    (hd : R.resolve rr.resolver w.fs i (pathSplit path).1 false = .ok d) :
    rr.resolveParent R path w = .ok (w.fds.length, (pathSplit path).2)
      ((w.alloc [d]).record (.resolve rr.inner (pathSplit path).1 false (some w.fds.length))) := by
  unfold resolveParent
  rcases hps : pathSplit path with ⟨parent, name⟩
  rw [hps] at hd
  exact bind_of_ok (wrap_of_ok (resolveAt_of_ok R rr.resolver hi hd))

theorem resolveParent_bind_of_ok {β : Type} {path : PathBuf} {w : World} {i d : Nat} {c : String}
    {f : Int × Option PathBuf → Sys β} (hi : w.inodeOf rr.inner = some i)
    (hd : R.resolve rr.resolver w.fs i (pathSplit path).1 false = .ok d) :
    ((rr.resolveParent R path).wrap c >>= f) w = f (w.fds.length, (pathSplit path).2)
      ((w.alloc [d]).record (.resolve rr.inner (pathSplit path).1 false (some w.fds.length))) :=
  bind_of_ok (wrap_of_ok (rr.resolveParent_of_ok hi hd))

end RootRef

/-! ## One change, as the last step -/

/-- `x` issues read-only calls and then at most one call that may change the tree,
as its last step; if it fails with an error that is not one of `own`, it failed
before that call and the tree is untouched. -/
def Atomic (own : ε → Prop) (x : EStateM ε World α) : Prop :=
  ∀ w₀, Triple (ReadOnlySince w₀) x fun r w =>
    MutatesLast w₀ w ∧ ∀ e, r = .error e → ¬own e → ReadOnlySince w₀ w

variable {own : ε → Prop}

theorem ReadOnly.atomic {x : EStateM ε World α} (h : ReadOnly x) : Atomic own x :=
  fun w₀ => (h w₀).mono (fun _ h => h) fun _ _ h => ⟨h.mutatesLast, fun _ _ _ => h⟩

theorem Atomic.bind {x : EStateM ε World α} {f : α → EStateM ε World β} (hx : ReadOnly x)
    (hf : ∀ a, Atomic own (f a)) : Atomic own (x >>= f) :=
  fun w₀ => (hx w₀).bind (fun a => hf a w₀) fun _ _ h => ⟨h.mutatesLast, fun _ _ _ => h⟩

/-- A system call whose errors, mapped by `g`, are the errors `own`: it is the one
step that may change the tree. A call that is not mutating must leave it alone. -/
theorem atomic_syscall {op : String} {call : Call} {k : World → Except Errno (Fs × List Nat × α)}
    {g : Foreign → Error}
    (hk : call.isMutating = false → ∀ w fs' opened a, k w = .ok (fs', opened, a) → fs' = w.fs) :
    Atomic (fun e => ∃ err, e = g err) ((syscall op call k).adaptExcept g) := fun w₀ =>
  Triple.adaptExcept <| triple_syscall.mono
    (fun w h => ⟨fun fs' opened a hok =>
        ⟨h.mutatesLast_record call fs' _ fun hc => hk hc w fs' opened a hok, by rintro _ ⟨⟩⟩,
      fun e _ => ⟨h.mutatesLast_record call w.fs w.fds fun _ => rfl, by
        rintro _ ⟨⟩ hown; exact absurd ⟨_, rfl⟩ hown⟩⟩)
    fun _ _ h => h

/-- The calls below are mutating, so each is the last step of the operation that
issues it. -/
theorem atomic_syscall_of_mutating {op : String} {call : Call}
    {k : World → Except Errno (Fs × List Nat × α)} {g : Foreign → Error}
    (hc : call.isMutating = true) :
    Atomic (fun e => ∃ err, e = g err) ((syscall op call k).adaptExcept g) :=
  atomic_syscall fun h => absurd hc (by simp [h])

/-! ## All or nothing -/

/-- Every failure of `x` leaves the tree as it was. -/
def AllOrNothing (x : EStateM ε World α) : Prop :=
  ∀ w e w', x w = .error e w' → w'.fs = w.fs

theorem AllOrNothing.bind {x : EStateM ε World α} {f : α → EStateM ε World β} (hx : ReadOnly x)
    (hf : ∀ a, AllOrNothing (f a)) : AllOrNothing (x >>= f) := by
  intro w e w' h
  have hro := hx w w (.refl w)
  cases hxw : x w with
  | ok a w₁ =>
      rw [hxw] at hro
      rw [bind_of_ok hxw] at h
      exact (hf a w₁ e w' h).trans hro.fs_eq
  | error e' w₁ =>
      rw [hxw] at hro
      rw [bind_of_error hxw] at h
      cases h
      exact hro.fs_eq

/-- A failed system call changed nothing. -/
theorem allOrNothing_syscall {op : String} {call : Call}
    {k : World → Except Errno (Fs × List Nat × α)} {g : Foreign → Error} :
    AllOrNothing ((syscall op call k).adaptExcept g) := by
  intro w e w' h
  cases hk : k w with
  | ok r => simp [EStateM.adaptExcept, syscall, hk] at h
  | error e' =>
      simp only [EStateM.adaptExcept, syscall, hk, EStateM.Result.error.injEq] at h
      rw [← h.2]
      rfl

/-! ## Tracked changes -/

/-- Since `w₀` the log has only grown, and without a mutating call among the calls
added the tree is `w₀`'s. -/
def Tracked (w₀ w : World) : Prop :=
  ∃ cs, w.log = w₀.log ++ cs ∧ ((∀ c ∈ cs, c.isMutating = false) → w.fs = w₀.fs)

/-- `x` changes the tree only through mutating calls it logs. -/
def Tracks (x : EStateM ε World α) : Prop := ∀ w₀, Triple (Tracked w₀) x fun _ => Tracked w₀

namespace Tracked

variable {w₀ w₁ w : World}

theorem refl (w : World) : Tracked w w := ⟨[], by simp, fun _ => rfl⟩

theorem of_readOnlySince (h : ReadOnlySince w₀ w) : Tracked w₀ w := by
  obtain ⟨cs, hlog, -, hfs⟩ := h
  exact ⟨cs, hlog, fun _ => hfs⟩

theorem trans (h₁ : Tracked w₀ w₁) (h₂ : Tracked w₁ w) : Tracked w₀ w := by
  obtain ⟨cs₁, hlog₁, hfs₁⟩ := h₁
  obtain ⟨cs₂, hlog₂, hfs₂⟩ := h₂
  refine ⟨cs₁ ++ cs₂, by simp [hlog₁, hlog₂], fun hall => ?_⟩
  rw [hfs₂ fun c hc => hall c (by simp [hc]), hfs₁ fun c hc => hall c (by simp [hc])]

theorem record (h : Tracked w₀ w) (c : Call) (fs : Fs) (fds : List Nat)
    (hfs : c.isMutating = false → fs = w.fs) : Tracked w₀ ({ w with fs := fs, fds := fds }.record c) := by
  obtain ⟨cs, hlog, hw⟩ := h
  refine ⟨cs ++ [c], by simp [World.record, hlog], fun hall => ?_⟩
  rw [hfs (hall c (by simp))]
  exact hw fun d hd => hall d (by simp [hd])

/-- The calls issued since `w₀`, when `w₁` lies between. -/
theorem issued_eq (h₁ : Tracked w₀ w₁) (h₂ : Tracked w₁ w) :
    issued w₀ w = issued w₀ w₁ ++ issued w₁ w := by
  obtain ⟨cs₁, hlog₁, -⟩ := h₁
  obtain ⟨cs₂, hlog₂, -⟩ := h₂
  simp [issued, hlog₁, hlog₂]

theorem fs_eq (h : Tracked w₀ w) (hall : ∀ c ∈ issued w₀ w, c.isMutating = false) :
    w.fs = w₀.fs := by
  obtain ⟨cs, hlog, hfs⟩ := h
  exact hfs (by simpa [issued, hlog] using hall)

end Tracked

theorem ReadOnly.tracks {x : EStateM ε World α} (h : ReadOnly x) : Tracks x :=
  fun _ w hw => hw.trans (.of_readOnlySince (h w w (.refl w)))

namespace Tracks

variable {x : EStateM ε World α}

theorem bind {f : α → EStateM ε World β} (hx : Tracks x) (hf : ∀ a, Tracks (f a)) :
    Tracks (x >>= f) :=
  fun w₀ => (hx w₀).bind (fun a => hf a w₀) fun _ _ h => h

theorem adaptExcept {ε' : Type} {g : ε → ε'} (hx : Tracks x) : Tracks (x.adaptExcept g) :=
  fun w₀ => Triple.adaptExcept (hx w₀)

theorem wrap {x : Sys α} (c : String) (hx : Tracks x) : Tracks (x.wrap c) := hx.adaptExcept

end Tracks

theorem tracks_syscall {op : String} {call : Call} {k : World → Except Errno (Fs × List Nat × α)}
    (hk : call.isMutating = false → ∀ w fs' opened a, k w = .ok (fs', opened, a) → fs' = w.fs) :
    Tracks (syscall op call k) := fun _ =>
  triple_syscall.mono
    (fun w h => ⟨fun fs' opened a hok => h.record call fs' _ fun hc => hk hc w fs' opened a hok,
      fun _ _ => h.record call w.fs w.fds fun _ => rfl⟩)
    fun _ _ h => h

/-! ## What every mutating call satisfies -/

/-- Every mutating call `x` issues satisfies `p`, given the calls issued before it. -/
def Keeps (p : List Call → Call → Prop) (x : EStateM ε World α) : Prop :=
  ∀ w₀, Triple (Obeys p w₀) x fun _ => Obeys p w₀

namespace Keeps

variable {p : List Call → Call → Prop} {x : EStateM ε World α}

theorem bind {f : α → EStateM ε World β} (hx : Keeps p x) (hf : ∀ a, Keeps p (f a)) :
    Keeps p (x >>= f) :=
  fun w₀ => (hx w₀).bind (fun a => hf a w₀) fun _ _ h => h

theorem adaptExcept {ε' : Type} {g : ε → ε'} (hx : Keeps p x) : Keeps p (x.adaptExcept g) :=
  fun w₀ => Triple.adaptExcept (hx w₀)

end Keeps

theorem ReadOnly.keeps {p : List Call → Call → Prop} {x : EStateM ε World α} (h : ReadOnly x) :
    Keeps p x :=
  fun _ w hw => (hw.readOnlySince (h w w (.refl w))).1

theorem Keeps.pure_bind {p : List Call → Call → Prop} {a : α} {f : α → EStateM ε World β}
    (h : Keeps p (f a)) : Keeps p (Pure.pure a >>= f) :=
  fun w₀ => Triple.pure_bind (h w₀)

/-- A read-only computation keeps `Obeys p w₀` and every fact `S` about the calls
issued so far that later calls cannot undo. -/
theorem ReadOnly.obeys_with {p : List Call → Call → Prop} {x : EStateM ε World α} {w₀ : World}
    (S : List Call → Prop) (hS : ∀ cs more, S cs → S (cs ++ more)) (h : ReadOnly x) :
    Triple (fun w => Obeys p w₀ w ∧ S (issued w₀ w)) x fun _ w => Obeys p w₀ w ∧ S (issued w₀ w) :=
  fun w ⟨hw, hs⟩ =>
    let ⟨hw', _, heq⟩ := hw.readOnlySince (h w w (.refl w))
    ⟨hw', heq ▸ hS _ _ hs⟩

theorem keeps_syscall {p : List Call → Call → Prop} {op : String} {call : Call}
    {k : World → Except Errno (Fs × List Nat × α)}
    (hc : call.isMutating = true → ∀ cs, p cs call) : Keeps p (syscall op call k) := fun _ =>
  triple_obeys_syscall.mono (fun _ h => ⟨h, fun hm => hc hm _⟩) fun _ _ h => h

/-! ## The operations -/

namespace RootRef

variable (R : ResolverImpl) (rr : RootRef)

/-- Every mutating call of `mkdir_all` is a `mkdirat` with the mode `perm`: it
satisfies any `p` that all of these satisfy. -/
theorem keeps_mkdirAll {p : List Call → Call → Prop} (path : PathBuf) (perm : Permissions)
    (hp : ∀ cs d name, p cs (.mkdirat d name perm.mode)) : Keeps p (rr.mkdirAll R path perm) := by
  have hloop : ∀ current parts, Keeps p (rr.mkdirAllLoop R perm current parts) := by
    intro current parts
    induction parts generalizing current with
    | nil => exact (ReadOnly.pure _).keeps
    | cons part parts ih =>
        exact (keeps_syscall fun _ cs => hp cs _ _).adaptExcept.bind fun _ =>
          (((readOnly_resolveAt R _ _ _ _).bind fun _ => readOnly_reopen _ _).wrap _).keeps.bind ih
  unfold mkdirAll
  dsimp only
  split
  · exact (ReadOnly.throw_bind _ _).keeps
  refine Keeps.pure_bind ?_
  split
  · exact (ReadOnly.throw_bind _ _).keeps
  refine Keeps.pure_bind <| (readOnly_resolvePartialAt R _ _ _ _).keeps.bind fun (_, _) =>
    ((readOnly_reopen _ _).wrap _).keeps.bind fun _ => ?_
  dsimp only
  split
  · exact (ReadOnly.throw_bind _ _).keeps
  exact Keeps.pure_bind (hloop _ _)

/-- The loop of `mkdir_all` changes the tree only by the `mkdirat` calls it logs. -/
theorem tracks_mkdirAllLoop (perm : Permissions) :
    ∀ (current : Int) (parts : List PathBuf), Tracks (rr.mkdirAllLoop R perm current parts)
  | _, [] => (ReadOnly.pure _).tracks
  | current, part :: parts =>
      ((tracks_syscall fun h => absurd h (by simp [Call.isMutating, Call.targets])).adaptExcept.bind
        fun _ => (((readOnly_resolveAt R _ _ _ _).bind fun _ =>
          readOnly_reopen _ _).wrap _).tracks.bind fun next =>
            tracks_mkdirAllLoop perm next parts)

/-- `create`, with every inode type: its one change is its last call, and every
failure but that call's own comes before it. -/
theorem atomic_create (path : PathBuf) (inodeType : InodeType) :
    Atomic (fun e => ∃ err, e = createError err) (rr.create R path inodeType) := by
  refine Atomic.bind ((rr.readOnly_resolveParent R path).wrap _) fun (_, _) => ?_
  refine Atomic.bind (readOnly_trailingName _ _ _) fun _ => ?_
  cases inodeType with
  | hardlink target =>
      exact Atomic.bind ((rr.readOnly_resolveParent R target).wrap _) fun (_, _) =>
        Atomic.bind (readOnly_trailingName _ _ _) fun _ => atomic_syscall_of_mutating rfl
  | _ => exact atomic_syscall_of_mutating rfl

theorem atomic_createFile (path : PathBuf) (flags : OpenFlags) (perm : Permissions) :
    Atomic (fun e => ∃ err, e = Error.of (.rawOsError "pathrs create_file" err))
      (rr.createFile R path flags perm) :=
  Atomic.bind ((rr.readOnly_resolveParent R path).wrap _) fun (_, _) =>
    Atomic.bind (readOnly_trailingName _ _ _) fun _ =>
      atomic_syscall_of_mutating (by simp [Call.isMutating, Call.targets])

theorem atomic_removeInode (path : PathBuf) (inodeType : RemoveInodeType) :
    Atomic (fun e => ∃ err, e = Error.of (.rawOsError "pathrs remove" err))
      (rr.removeInode R path inodeType) :=
  Atomic.bind ((rr.readOnly_resolveParent R path).wrap _) fun (_, _) =>
    Atomic.bind (readOnly_trailingName _ _ _) fun _ => atomic_syscall_of_mutating rfl

/-- `rename`: both parents are resolved and both names checked before the one call. -/
theorem atomic_rename (source destination : PathBuf) (rflags : RenameFlags) :
    Atomic (fun e => ∃ err, e = Error.of (.rawOsError "pathrs rename" err))
      (rr.rename R source destination rflags) :=
  Atomic.bind ((rr.readOnly_resolveParent R source).wrap _) fun (_, _) =>
    Atomic.bind (readOnly_trailingName _ _ _) fun _ =>
      Atomic.bind ((rr.readOnly_resolveParent R destination).wrap _) fun (_, _) =>
        Atomic.bind (readOnly_trailingName _ _ _) fun _ => atomic_syscall_of_mutating rfl

/-- `create` leaves the tree as it was whenever it fails. -/
theorem allOrNothing_create (path : PathBuf) (inodeType : InodeType) :
    AllOrNothing (rr.create R path inodeType) := by
  refine AllOrNothing.bind ((rr.readOnly_resolveParent R _).wrap _) fun (_, _) =>
    AllOrNothing.bind (readOnly_trailingName _ _ _) fun _ => ?_
  cases inodeType with
  | hardlink target =>
      exact AllOrNothing.bind ((rr.readOnly_resolveParent R _).wrap _) fun (_, _) =>
        AllOrNothing.bind (readOnly_trailingName _ _ _) fun _ => allOrNothing_syscall
  | _ => exact allOrNothing_syscall

/-- **All or nothing.** `create` with every inode type, `create_file`, `remove_dir`,
`remove_file` and `rename` either succeed or leave the tree as it was, whatever
the error: their one call that changes the tree is their last step, and a system
call that fails changes nothing. -/
theorem failures_leave_tree :
    (∀ path inodeType, AllOrNothing (rr.create R path inodeType)) ∧
    (∀ path flags perm, AllOrNothing (rr.createFile R path flags perm)) ∧
    (∀ path, AllOrNothing (rr.removeDir R path)) ∧
    (∀ path, AllOrNothing (rr.removeFile R path)) ∧
    ∀ source destination rflags, AllOrNothing (rr.rename R source destination rflags) := by
  refine ⟨rr.allOrNothing_create R, fun _ _ _ => ?_, fun _ => ?_, fun _ => ?_, fun _ _ _ => ?_⟩ <;>
    refine AllOrNothing.bind ((rr.readOnly_resolveParent R _).wrap _) fun (_, _) =>
      AllOrNothing.bind (readOnly_trailingName _ _ _) fun _ => ?_
  · exact allOrNothing_syscall
  · exact allOrNothing_syscall
  · exact allOrNothing_syscall
  · exact AllOrNothing.bind ((rr.readOnly_resolveParent R _).wrap _) fun (_, _) =>
      AllOrNothing.bind (readOnly_trailingName _ _ _) fun _ => allOrNothing_syscall

/-- The calls of a `mkdir_all` run that got past its checks: both mode checks
passed, the run began with a partial resolution that succeeded and a reopen with
`O_DIRECTORY` of the handle it returned that succeeded too, and the rest of the
path to create has no `..` component. -/
def MkdirAllChecked (path : PathBuf) (perm : Permissions) (cs : List Call) : Prop :=
  perm.mode &&& ~~~0o7777 = 0 ∧ perm.mode &&& ~~~0o1777 = 0 ∧
    ∃ handle remaining current rest,
      cs = .resolvePartial rr.inner path false (some (handle, remaining)) ::
        .reopen handle OpenFlags.O_DIRECTORY (some current) :: rest ∧
      dotDot ∉ remainingParts remaining

/-- A `mkdir_all` run either changed nothing with read-only calls, or got past all
its checks before its first change. -/
theorem mkdirAll_checked (path : PathBuf) (perm : Permissions) (w₀ : World) :
    Triple (· = w₀) (rr.mkdirAll R path perm) fun _ w =>
      ReadOnlySince w₀ w ∨ (rr.MkdirAllChecked path perm (issued w₀ w) ∧ Tracked w₀ w) := by
  unfold mkdirAll
  dsimp only
  split
  · exact Triple.throw_bind fun _ h => .inl (h ▸ .refl _)
  rename_i h7777
  refine Triple.pure_bind ?_
  split
  · exact Triple.throw_bind fun _ h => .inl (h ▸ .refl _)
  rename_i h1777
  refine Triple.pure_bind ?_
  have hrp : Triple (· = w₀) (R.resolvePartialAt rr.resolver rr.inner path false) fun r w =>
      ReadOnlySince w₀ w ∧ ∀ handle remaining, r = .ok (handle, remaining) →
        w.log = w₀.log ++ [.resolvePartial rr.inner path false (some (handle, remaining))] :=
    (triple_resolvePartialAt R _).mono (fun w hw => by
      subst hw
      exact ⟨fun _ _ _ _ _ => ⟨(ReadOnlySince.refl _).alloc _ |>.record (by rfl),
          by rintro _ _ ⟨⟩; rfl⟩,
        fun _ => ⟨(ReadOnlySince.refl _).record (by rfl), by rintro _ _ ⟨⟩⟩⟩)
      fun _ _ h => h
  refine hrp.bind (fun (handle, remaining) => ?_) fun _ _ h => .inl h.1
  have hro : Triple (fun w => ReadOnlySince w₀ w ∧ ∀ h r, Except.ok (handle, remaining) =
        (.ok (h, r) : Except Error _) →
        w.log = w₀.log ++ [.resolvePartial rr.inner path false (some (h, r))])
      ((reopen handle OpenFlags.O_DIRECTORY).wrap s!"cannot create directories in {handle}")
      fun r w => ReadOnlySince w₀ w ∧ ∀ current, r = .ok current →
        w.log = w₀.log ++ [.resolvePartial rr.inner path false (some (handle, remaining)),
          .reopen handle OpenFlags.O_DIRECTORY (some current)] :=
    Triple.wrap <| triple_reopen.mono (fun w ⟨hw, hlog⟩ =>
      ⟨fun _ _ _ => ⟨(hw.alloc _).record (by rfl), by
          rintro _ ⟨⟩; simp [World.record, hlog _ _ rfl]⟩,
        fun _ => ⟨hw.record (by rfl), by rintro _ ⟨⟩⟩⟩)
      fun _ _ h => h
  refine hro.bind (fun current => ?_) fun _ _ h => .inl h.1
  dsimp only
  split
  · exact Triple.throw_bind fun _ h => .inl h.1
  rename_i hdd
  refine Triple.pure_bind fun w ⟨hw, hlog⟩ => ?_
  have hloop := tracks_mkdirAllLoop R rr perm current (remainingParts remaining) w w (.refl w)
  refine .inr ⟨⟨by simpa using h7777, by simpa using h1777, handle, remaining, current, _,
    by rw [(Tracked.of_readOnlySince hw).issued_eq hloop, issued_eq_of_log (hlog _ rfl)]; rfl,
    by simpa using hdd⟩, (Tracked.of_readOnlySince hw).trans hloop⟩

/-- **Failing before the change.** `create` with every inode type, `create_file`,
`remove_dir`, `remove_file` and `rename` are `Atomic` in the errors of their one
system call. A `mkdir_all` run that issued a mutating call had first passed its mode
checks, its partial resolution and its reopen, and found no `..` to create; one
that issued none left the tree as it was. -/
theorem changes_only_at_last_call :
    (∀ path inodeType,
      Atomic (fun e => ∃ err, e = createError err) (rr.create R path inodeType)) ∧
    (∀ path flags perm,
      Atomic (fun e => ∃ err, e = Error.of (.rawOsError "pathrs create_file" err))
        (rr.createFile R path flags perm)) ∧
    (∀ path, Atomic (fun e => ∃ err, e = Error.of (.rawOsError "pathrs remove" err))
      (rr.removeDir R path)) ∧
    (∀ path, Atomic (fun e => ∃ err, e = Error.of (.rawOsError "pathrs remove" err))
      (rr.removeFile R path)) ∧
    (∀ source destination rflags,
      Atomic (fun e => ∃ err, e = Error.of (.rawOsError "pathrs rename" err))
        (rr.rename R source destination rflags)) ∧
    ∀ path perm w, let w' := worldOf (rr.mkdirAll R path perm w)
      ((∃ c ∈ issued w w', c.isMutating = true) → rr.MkdirAllChecked path perm (issued w w')) ∧
      ((∀ c ∈ issued w w', c.isMutating = false) → w'.fs = w.fs) := by
  refine ⟨rr.atomic_create R, rr.atomic_createFile R, fun path => rr.atomic_removeInode R path _,
    fun path => rr.atomic_removeInode R path _, rr.atomic_rename R, fun path perm w => ?_⟩
  rcases rr.mkdirAll_checked R path perm w w rfl with hro | ⟨hchecked, htracked⟩
  · refine ⟨fun ⟨c, hc, hm⟩ => ?_, fun _ => hro.fs_eq⟩
    simp [hro.not_isMutating c hc] at hm
  · exact ⟨fun _ => hchecked, htracked.fs_eq⟩

end RootRef

end Pathrs
