import Pathrs.Create

/-!
# Resolve, then act

Every call of `root.rs` that can change the tree names its target as a pair: a
descriptor the resolver returned, and a single component. `create`,
`create_file`, `remove_dir`, `remove_file`, `remove_all` and `rename` act on the
parent of their path (or paths) as `resolve` returned it from the root
descriptor, and on its trailing name. `mkdir_all` acts on the handle
`resolve_partial` returned, reopened with `O_DIRECTORY`, and then on each
directory it made, resolved without following from the one before and reopened,
with the components of the unresolved rest other than ``, `.` and `..`. No such
call receives the root descriptor, `AT_FDCWD`, or a path of several components.

`Anchored` says where a target comes from, given the calls issued before it, and
`ActsOnResolved` asks it of every target of a call, together with a descriptor
that is neither the root's nor `AT_FDCWD` and a name that is one component. Each
operation keeps `Obeys (ActsOnResolved ...)`. The descriptors are fresh: a
resolver call or a reopen returns the next descriptor of the table, past the root
descriptor, which was open when the operation's first resolution succeeded.
-/

set_option autoImplicit false

namespace Pathrs

open PathBuf

namespace RootRef

variable (rr : RootRef)

/-! ## Where a target comes from -/

/-- The directories `mkdir_all` of `path` creates in, given the calls `cs`: the
handle `resolve_partial` returned, reopened with `O_DIRECTORY`, and then each
directory made in one of them, resolved without following and reopened likewise. -/
inductive MkdirDir (path : PathBuf) (cs : List Call) : Int → Prop
  | start {handle : Int} {remaining : Option PathBuf} {fd : Int} :
      .resolvePartial rr.inner path false (some (handle, remaining)) ∈ cs →
      .reopen handle OpenFlags.O_DIRECTORY (some fd) ∈ cs → MkdirDir path cs fd
  | next {cur : Int} {part : PathBuf} {mode : Mode} {h fd : Int} : MkdirDir path cs cur →
      .mkdirat cur part mode ∈ cs → .resolve cur part true (some h) ∈ cs →
      .reopen h OpenFlags.O_DIRECTORY (some fd) ∈ cs → MkdirDir path cs fd

/-- Where the target `(fd, name)` of a mutating call comes from, given the calls
`cs` issued before it by an operation on `paths`: the parent of one of the paths as
`resolve` returned it from the root descriptor, with that path's trailing name; or
a directory of `mkdir_all` with a component of the rest its `resolve_partial` left,
other than ``, `.` and `..`. -/
inductive Anchored (paths : List PathBuf) (cs : List Call) : Int × PathBuf → Prop
  | parent {p : PathBuf} {fd : Int} {name : PathBuf} : p ∈ paths →
      (pathSplit p).2 = some name → .resolve rr.inner (pathSplit p).1 false (some fd) ∈ cs →
      Anchored paths cs (fd, name)
  | suffix {p : PathBuf} {handle : Int} {remaining : Option PathBuf} {fd : Int}
      {name : PathBuf} : p ∈ paths →
      .resolvePartial rr.inner p false (some (handle, remaining)) ∈ cs →
      name ∈ remainingParts remaining → name ≠ dotDot → rr.MkdirDir p cs fd →
      Anchored paths cs (fd, name)

/-- Every target of the call `c` is anchored, is neither the root descriptor nor
`AT_FDCWD`, and names a single component. -/
def ActsOnResolved (paths : List PathBuf) (cs : List Call) (c : Call) : Prop :=
  ∀ t ∈ c.targets, rr.Anchored paths cs t ∧ t.1 ≠ rr.inner ∧ t.1 ≠ libc.AT_FDCWD ∧ IsComponent t.2

theorem MkdirDir.mono {path : PathBuf} {cs : List Call} {fd : Int} (h : rr.MkdirDir path cs fd)
    (more : List Call) : rr.MkdirDir path (cs ++ more) fd := by
  induction h with
  | start h₁ h₂ => exact .start (List.mem_append_left _ h₁) (List.mem_append_left _ h₂)
  | next _ h₁ h₂ h₃ ih =>
      exact .next ih (List.mem_append_left _ h₁) (List.mem_append_left _ h₂)
        (List.mem_append_left _ h₃)

/-! ## Parents -/

/-- The value of a `resolve_parent` of `p`: the parent of `p` as `resolve` returned
it from the root descriptor, among the calls `cs`, a descriptor past the root
descriptor, and the trailing name of `p`. -/
def ParentOf (p : PathBuf) (cs : List Call) (fd : Int) (name : Option PathBuf) : Prop :=
  name = (pathSplit p).2 ∧ .resolve rr.inner (pathSplit p).1 false (some fd) ∈ cs ∧
    0 ≤ rr.inner ∧ rr.inner < fd

theorem ParentOf.mono {p : PathBuf} {cs : List Call} {fd : Int} {name : Option PathBuf}
    (h : rr.ParentOf p cs fd name) (more : List Call) : rr.ParentOf p (cs ++ more) fd name :=
  ⟨h.1, List.mem_append_left _ h.2.1, h.2.2⟩

/-- The trailing name of one of the paths, in its parent: a safe target. -/
theorem ParentOf.safe {paths : List PathBuf} {p : PathBuf} {cs : List Call} {fd : Int}
    {name : PathBuf} (hp : p ∈ paths) (h : rr.ParentOf p cs fd (some name)) :
    rr.Anchored paths cs (fd, name) ∧ fd ≠ rr.inner ∧ fd ≠ libc.AT_FDCWD ∧ IsComponent name := by
  obtain ⟨hn, hmem, h0, hlt⟩ := h
  exact ⟨.parent hp hn.symm hmem, by omega, by unfold libc.AT_FDCWD; omega,
    isComponent_of_pathSplit hn.symm⟩

variable (R : ResolverImpl) {p : List Call → Call → Prop} {w₀ : World}

/-- `resolve_parent` of `path`, then `f` on its value: `f` starts from the parent
of `path` as `resolve` returned it, the calls so far having kept `p` and `S`. -/
theorem triple_resolveParent_bind {β : Type} (S : List Call → Prop)
    (hS : ∀ cs more, S cs → S (cs ++ more))
    {path : PathBuf} {c : String} {f : Int × Option PathBuf → Sys β}
    {Q : Except Error β → World → Prop}
    (hf : ∀ fd name, Triple (fun w => Obeys p w₀ w ∧ S (issued w₀ w) ∧
      rr.ParentOf path (issued w₀ w) fd name) (f (fd, name)) Q)
    (he : ∀ e w, Obeys p w₀ w → Q (.error e) w) :
    Triple (fun w => Obeys p w₀ w ∧ S (issued w₀ w)) ((rr.resolveParent R path).wrap c >>= f) Q := by
  intro w hw
  cases hx : ((rr.resolveParent R path).wrap c) w with
  | ok a w₁ =>
      obtain ⟨fd, name⟩ := a
      obtain ⟨i, j, hi, -, rfl, rfl, rfl⟩ := rr.resolveParent_eq_ok R (wrap_eq_ok hx)
      have hlt := (w.lt_length_of_inodeOf hi)
      rw [bind_of_ok hx]
      refine hf _ _ _ ⟨hw.1.record (w.alloc [j]) rfl _ fun hm => absurd hm (by
        simp [Call.isMutating, Call.targets]), ?_, rfl, ?_, hlt.1, hlt.2⟩
      · rw [hw.1.issued_record (w.alloc [j]) rfl]
        exact hS _ _ hw.2
      · rw [hw.1.issued_record (w.alloc [j]) rfl]
        simp
  | error e w₁ =>
      have h := ((rr.readOnly_resolveParent R path).wrap c).obeys_with S hS w hw
      rw [hx] at h
      rw [bind_of_error hx]
      exact he e w₁ h.1

/-- `trailing name` then `f`: `f` starts from the name, which was there. -/
theorem triple_trailingName_bind {β : Type} {name : Option PathBuf} {argument description : String}
    {P : World → Prop} {f : PathBuf → Sys β} {Q : Except Error β → World → Prop}
    (hf : ∀ n, name = some n → Triple P (f n) Q) (he : ∀ e w, P w → Q (.error e) w) :
    Triple P (trailingName name argument description >>= f) Q := by
  cases name with
  | none => exact Triple.throw_bind (he _)
  | some n => exact Triple.pure_bind (hf n rfl)

/-- A system call each of whose targets is a trailing name of one of the paths, in
its resolved parent. -/
theorem triple_syscall_on_parents {α : Type} {paths : List PathBuf} {op : String} {call : Call}
    {k : World → Except Errno (Fs × List Nat × α)} {g : Foreign → Error} :
    Triple (fun w => Obeys (rr.ActsOnResolved paths) w₀ w ∧
        ∀ t ∈ call.targets, ∃ q ∈ paths, rr.ParentOf q (issued w₀ w) t.1 (some t.2))
      ((syscall op call k).adaptExcept g) fun _ => Obeys (rr.ActsOnResolved paths) w₀ :=
  Triple.adaptExcept <| triple_obeys_syscall.mono
    (fun _ ⟨h, ht⟩ => ⟨h, fun _ t htm =>
      let ⟨_, hq, hpar⟩ := ht t htm
      ParentOf.safe rr hq hpar⟩)
    fun _ _ h => h

/-- A call whose one target is the trailing name of `path` in its resolved parent. -/
theorem ParentOf.targets {paths : List PathBuf} {path : PathBuf} {cs : List Call} {fd : Int}
    {n : PathBuf} {call : Call} (hp : path ∈ paths) (hcall : ∀ t ∈ call.targets, t = (fd, n))
    (h : rr.ParentOf path cs fd (some n)) :
    ∀ t ∈ call.targets, ∃ q ∈ paths, rr.ParentOf q cs t.1 (some t.2) :=
  fun t ht => ⟨path, hp, hcall t ht ▸ h⟩

/-- `resolve_parent` of `path`, then its trailing name, then `K`: `K` starts from the
name in the parent of `path` as `resolve` returned it, the calls so far having kept
`ActsOnResolved` and `S`. -/
theorem triple_onParent {β : Type} (S : List Call → Prop) (hS : ∀ cs more, S cs → S (cs ++ more))
    {paths : List PathBuf} {path : PathBuf} {c argument description : String}
    {K : Int × Option PathBuf → PathBuf → Sys β}
    (hK : ∀ fd n, Triple (fun w => Obeys (rr.ActsOnResolved paths) w₀ w ∧ S (issued w₀ w) ∧
      rr.ParentOf path (issued w₀ w) fd (some n)) (K (fd, some n) n)
        fun _ => Obeys (rr.ActsOnResolved paths) w₀) :
    Triple (fun w => Obeys (rr.ActsOnResolved paths) w₀ w ∧ S (issued w₀ w))
      ((rr.resolveParent R path).wrap c >>= fun p => trailingName p.2 argument description >>= K p)
      fun _ => Obeys (rr.ActsOnResolved paths) w₀ := by
  refine rr.triple_resolveParent_bind R S hS (fun fd name => ?_) fun _ _ h => h
  refine triple_trailingName_bind (fun n hn => ?_) fun _ _ h => h.1
  subst hn
  exact hK fd n

/-- An operation on one path that resolves its parent, takes its trailing name and
goes on from there. -/
theorem keeps_onParent {β : Type} {paths : List PathBuf} {path : PathBuf}
    {c argument description : String} {K : Int × Option PathBuf → PathBuf → Sys β}
    (hK : ∀ fd n, Triple (fun w => Obeys (rr.ActsOnResolved paths) w₀ w ∧
      rr.ParentOf path (issued w₀ w) fd (some n)) (K (fd, some n) n)
        fun _ => Obeys (rr.ActsOnResolved paths) w₀) :
    Triple (Obeys (rr.ActsOnResolved paths) w₀) ((rr.resolveParent R path).wrap c >>= fun p =>
      trailingName p.2 argument description >>= K p) fun _ => Obeys (rr.ActsOnResolved paths) w₀ :=
  (rr.triple_onParent R (fun _ => True) (fun _ _ h => h) fun fd n =>
    (hK fd n).mono (fun _ h => ⟨h.1, h.2.2⟩) fun _ _ h => h).mono (fun _ h => ⟨h, trivial⟩)
    fun _ _ h => h

/-! ## The operations on a parent and a name -/

theorem keeps_create_anchored (path : PathBuf) (inodeType : InodeType) :
    Keeps (rr.ActsOnResolved (createPaths path inodeType)) (rr.create R path inodeType) := by
  refine fun _ => rr.keeps_onParent R fun fd n => ?_
  have hpath : path ∈ createPaths path inodeType := by cases inodeType <;> simp [createPaths]
  cases inodeType with
  | hardlink target =>
      refine rr.triple_onParent R (fun cs => rr.ParentOf path cs fd (some n))
        (fun _ more h => ParentOf.mono rr h more) fun fd' n' => ?_
      refine (rr.triple_syscall_on_parents).mono (fun _ ⟨h, hp₁, hp₂⟩ => ⟨h, fun t ht => ?_⟩)
        fun _ _ h => h
      simp only [Call.targets, List.mem_cons, List.mem_singleton, List.not_mem_nil, or_false] at ht
      rcases ht with rfl | rfl
      · exact ⟨target, by simp [createPaths], hp₂⟩
      · exact ⟨path, by simp [createPaths], hp₁⟩
  | _ =>
      exact (rr.triple_syscall_on_parents).mono (fun _ ⟨h, hpar⟩ =>
        ⟨h, ParentOf.targets rr hpath (by simp [Call.targets]) hpar⟩) fun _ _ h => h

theorem keeps_createFile_anchored (path : PathBuf) (flags : OpenFlags) (perm : Permissions) :
    Keeps (rr.ActsOnResolved [path]) (rr.createFile R path flags perm) := fun _ =>
  rr.keeps_onParent R fun _ _ => (rr.triple_syscall_on_parents).mono (fun _ ⟨h, hpar⟩ =>
    ⟨h, ParentOf.targets rr (List.mem_singleton_self _)
      (by simp [Call.targets]) hpar⟩) fun _ _ h => h

theorem keeps_removeInode_anchored (path : PathBuf) (inodeType : RemoveInodeType) :
    Keeps (rr.ActsOnResolved [path]) (rr.removeInode R path inodeType) := fun _ =>
  rr.keeps_onParent R fun _ _ => (rr.triple_syscall_on_parents).mono (fun _ ⟨h, hpar⟩ =>
    ⟨h, ParentOf.targets rr (List.mem_singleton_self _) (by simp [Call.targets]) hpar⟩)
    fun _ _ h => h

theorem keeps_removeAll_anchored (path : PathBuf) :
    Keeps (rr.ActsOnResolved [path]) (rr.removeAll R path) := fun _ =>
  rr.keeps_onParent R fun _ _ => (rr.triple_syscall_on_parents).mono (fun _ ⟨h, hpar⟩ =>
    ⟨h, ParentOf.targets rr (List.mem_singleton_self _) (by simp [Call.targets]) hpar⟩)
    fun _ _ h => h

theorem keeps_rename_anchored (source destination : PathBuf) (rflags : RenameFlags) :
    Keeps (rr.ActsOnResolved [source, destination]) (rr.rename R source destination rflags) := by
  refine fun _ => rr.keeps_onParent R fun fd n => ?_
  refine rr.triple_onParent R (fun cs => rr.ParentOf source cs fd (some n))
    (fun _ more h => ParentOf.mono rr h more) fun fd' n' => ?_
  refine (rr.triple_syscall_on_parents).mono (fun _ ⟨h, hp₁, hp₂⟩ => ⟨h, fun t ht => ?_⟩)
    fun _ _ h => h
  simp only [Call.targets, List.mem_cons, List.mem_singleton, List.not_mem_nil, or_false] at ht
  rcases ht with rfl | rfl
  · exact ⟨source, by simp, hp₁⟩
  · exact ⟨destination, by simp, hp₂⟩

/-! ## `mkdir_all` -/

/-- A component `mkdir_all` creates is a single component. -/
theorem isComponent_of_mem_remainingParts {remaining : Option PathBuf} {part : PathBuf}
    (h : part ∈ remainingParts remaining) : IsComponent part := by
  simp only [remainingParts, List.mem_filter, List.mem_flatMap, isNamedPart, Bool.and_eq_true,
    Bool.not_eq_true', List.isEmpty_eq_false] at h
  obtain ⟨⟨r, -, hr⟩, hne, -⟩ := h
  exact ⟨fun h => by simp [h] at hne, slash_not_mem_of_mem_rawComponents hr⟩

/-- What holds at each step of `mkdir_all`'s loop, run since `w₀` on `path`: the calls
kept `ActsOnResolved`, `resolve_partial` of the path returned `(handle, remaining)`,
and the current descriptor is a directory of `MkdirDir`, past the root descriptor
and open. -/
def LoopInv (path : PathBuf) (handle : Int) (remaining : Option PathBuf) (w₀ : World)
    (current : Int) (w : World) : Prop :=
  Obeys (rr.ActsOnResolved [path]) w₀ w ∧
    .resolvePartial rr.inner path false (some (handle, remaining)) ∈ issued w₀ w ∧
    rr.MkdirDir path (issued w₀ w) current ∧ 0 ≤ rr.inner ∧ rr.inner < current ∧
    current < w.fds.length

theorem triple_mkdirAllLoop (path : PathBuf) (handle : Int) (remaining : Option PathBuf)
    (perm : Permissions) :
    ∀ parts : List PathBuf, (∀ part ∈ parts, part ∈ remainingParts remaining ∧ part ≠ dotDot) →
    ∀ current, Triple (rr.LoopInv path handle remaining w₀ current)
      (rr.mkdirAllLoop R perm current parts) fun _ => Obeys (rr.ActsOnResolved [path]) w₀
  | [], _, _ => Triple.pure fun _ h => h.1
  | part :: parts, hparts, current => by
      have hpart := hparts part (List.mem_cons_self _ _)
      unfold mkdirAllLoop
      refine Triple.bind_of_cases fun w ⟨hob, hrp, hdir, h0, hlt, hcur⟩ => ?_
      have hsafe : (Call.mkdirat current part perm.mode).isMutating = true →
          rr.ActsOnResolved [path] (issued w₀ w) (.mkdirat current part perm.mode) := by
        intro _ t ht
        simp only [Call.targets, List.mem_singleton] at ht
        subst ht
        exact ⟨.suffix (List.mem_singleton_self _) hrp hpart.1 hpart.2 hdir, by omega,
          by unfold libc.AT_FDCWD; omega, isComponent_of_mem_remainingParts hpart.1⟩
      have hmk := (Triple.adaptExcept triple_obeys_syscall :
        Triple _ ((syscalls.mkdirat current part perm.mode).adaptExcept fun err =>
          Error.of (.rawOsError "create next directory component" err))
          fun _ => Obeys (rr.ActsOnResolved [path]) w₀) w ⟨hob, hsafe⟩
      refine ⟨fun u w₁ h1 => ?_, fun e w₁ h1 => by rwa [h1] at hmk⟩
      obtain ⟨fs', opened, -, rfl⟩ := syscall_eq_ok (adaptExcept_eq_ok h1)
      set w₁ := { w with fs := fs', fds := w.fds ++ opened }.record (.mkdirat current part perm.mode)
        with hw₁
      have hob₁ : Obeys (rr.ActsOnResolved [path]) w₀ w₁ := hob.record _ rfl _ hsafe
      have hiss₁ : issued w₀ w₁ = issued w₀ w ++ [.mkdirat current part perm.mode] :=
        hob.issued_record _ rfl _
      have hlen₁ : w.fds.length ≤ w₁.fds.length := by simp [hw₁, World.record]
      refine Triple.bind_of_cases fun w' hw' => ?_
      subst hw'
      have hdesc := ((((readOnly_resolveAt R rr.resolver current part true).bind fun h =>
        readOnly_reopen h OpenFlags.O_DIRECTORY).wrap
          "failed to open newly-created directory with O_DIRECTORY").obeys_with
            (fun _ => True) (fun _ _ h => h)) _ ⟨hob₁, trivial⟩
      refine ⟨fun next w₂ h2 => ?_, fun e w₂ h2 => by rw [h2] at hdesc; exact hdesc.1⟩
      obtain ⟨h', w₁', hres, hreo⟩ := bind_eq_ok (wrap_eq_ok h2)
      obtain ⟨i, j, -, -, rfl, rfl⟩ := resolveAt_eq_ok R _ hres
      obtain ⟨i', -, -, rfl, rfl⟩ := reopen_eq_ok hreo
      have hro : ∀ c : Call, c.targets = [] → c.isMutating = true →
          rr.ActsOnResolved [path] (issued w₀ w₁) c := fun c hc hm => by
        simp [Call.isMutating, hc] at hm
      have hob₂ := hob₁.alloc_record [j] (.resolve current part true (some w₁.fds.length))
        (hro _ rfl)
      refine (triple_mkdirAllLoop path handle remaining perm parts (fun q hq => hparts q (List.mem_cons_of_mem _ hq))
        _).mono (fun _ h => ?_) fun _ _ h => h
      subst h
      refine ⟨hob₂.alloc_record _ _ fun hm => by simp [Call.isMutating, Call.targets] at hm,
        ?_, ?_, h0, ?_, ?_⟩
      · rw [hob₂.issued_alloc_record, hob₁.issued_alloc_record, hiss₁]
        simp [hrp]
      · rw [hob₂.issued_alloc_record, hob₁.issued_alloc_record, hiss₁]
        simp only [List.append_assoc, List.singleton_append]
        exact .next (MkdirDir.mono rr hdir _) (List.mem_append_right _ (List.mem_cons_self _ _))
          (List.mem_append_right _ (List.mem_cons_of_mem _ (List.mem_cons_self _ _)))
          (List.mem_append_right _ (List.mem_cons_of_mem _ (List.mem_cons_of_mem _
            (List.mem_cons_self _ _))))
      all_goals
        simp only [World.record_fds, World.alloc_fds, List.length_append, List.length_singleton]
        omega

theorem keeps_mkdirAll_anchored (path : PathBuf) (perm : Permissions) :
    Keeps (rr.ActsOnResolved [path]) (rr.mkdirAll R path perm) := by
  intro w₀
  have hro : ∀ cs (c : Call), c.targets = [] → c.isMutating = true →
      rr.ActsOnResolved [path] cs c := fun _ c hc hm => by simp [Call.isMutating, hc] at hm
  unfold mkdirAll
  dsimp only
  split
  · exact Triple.throw_bind fun _ h => h
  refine Triple.pure_bind ?_
  split
  · exact Triple.throw_bind fun _ h => h
  refine Triple.pure_bind <| Triple.bind_of_cases fun w hw => ⟨fun a w₁ h1 => ?_, fun e w₁ h1 => ?_⟩
  · obtain ⟨handle, remaining⟩ := a
    obtain ⟨i, j, hi, -, rfl, rfl⟩ := resolvePartialAt_eq_ok R _ h1
    have hlt := w.lt_length_of_inodeOf hi
    have hob₁ := hw.alloc_record [j]
      (.resolvePartial rr.inner path false (some (w.fds.length, remaining))) (hro _ _ rfl)
    refine Triple.bind_of_cases fun w' hw' => ?_
    subst hw'
    have hreo := (((readOnly_reopen w.fds.length OpenFlags.O_DIRECTORY).wrap
      s!"cannot create directories in {(w.fds.length : Int)}").obeys_with (fun _ => True)
        (fun _ _ h => h)) _ ⟨hob₁, trivial⟩
    refine ⟨fun cur w₂ h2 => ?_, fun e w₂ h2 => by rw [h2] at hreo; exact hreo.1⟩
    obtain ⟨i', -, -, rfl, rfl⟩ := reopen_eq_ok (wrap_eq_ok h2)
    have hob₂ := hob₁.alloc_record [i'] (.reopen w.fds.length OpenFlags.O_DIRECTORY
      (some ((w.alloc [j]).record (.resolvePartial rr.inner path false
        (some (w.fds.length, remaining)))).fds.length)) (hro _ _ rfl)
    dsimp only
    split
    · exact Triple.throw_bind fun _ h => h ▸ hob₂
    rename_i hdd
    refine Triple.pure_bind ((rr.triple_mkdirAllLoop R path w.fds.length remaining perm _ (fun part hp =>
      ⟨hp, fun h => hdd (List.any_eq_true.2 ⟨part, hp, by simp [h]⟩)⟩) _).mono
        (fun _ h => ?_) fun _ _ h => h)
    subst h
    have hiss : ∀ c, issued w₀ ((((w.alloc [j]).record (.resolvePartial rr.inner path false
        (some (w.fds.length, remaining)))).alloc [i']).record c) =
        issued w₀ w ++ [.resolvePartial rr.inner path false (some (w.fds.length, remaining)), c] :=
      fun c => by rw [hob₁.issued_alloc_record, hw.issued_alloc_record]; simp
    refine ⟨hob₂, by simp [hiss], ?_, hlt.1, ?_, ?_⟩
    · rw [hiss]
      exact .start (List.mem_append_right _ (List.mem_cons_self _ _))
        (List.mem_append_right _ (List.mem_cons_of_mem _ (List.mem_cons_self _ _)))
    all_goals
      simp only [World.record_fds, World.alloc_fds, List.length_append, List.length_singleton]
      omega
  · have h := ((readOnly_resolvePartialAt R rr.resolver rr.inner path false).obeys_with
      (fun _ => True) (fun _ _ h => h)) w ⟨hw, trivial⟩
    rw [h1] at h
    exact h.1

/-- **Resolve, then act.** From every world and for every input, each mutating call
that `create` (with every inode type), `create_file`, `mkdir_all`, `remove_dir`,
`remove_file`, `remove_all` and `rename` issue acts on resolved targets only: every
target is anchored in a descriptor the resolver returned for the operation's paths,
is neither the root descriptor nor `AT_FDCWD`, and names a single component. -/
theorem mutations_act_on_resolved (w : World) :
    (∀ path inodeType, EachMutating (rr.ActsOnResolved (createPaths path inodeType))
      (issued w (worldOf (rr.create R path inodeType w)))) ∧
    (∀ path flags perm, EachMutating (rr.ActsOnResolved [path])
      (issued w (worldOf (rr.createFile R path flags perm w)))) ∧
    (∀ path perm, EachMutating (rr.ActsOnResolved [path])
      (issued w (worldOf (rr.mkdirAll R path perm w)))) ∧
    (∀ path, EachMutating (rr.ActsOnResolved [path])
      (issued w (worldOf (rr.removeDir R path w)))) ∧
    (∀ path, EachMutating (rr.ActsOnResolved [path])
      (issued w (worldOf (rr.removeFile R path w)))) ∧
    (∀ path, EachMutating (rr.ActsOnResolved [path])
      (issued w (worldOf (rr.removeAll R path w)))) ∧
    ∀ source destination rflags, EachMutating (rr.ActsOnResolved [source, destination])
      (issued w (worldOf (rr.rename R source destination rflags w))) :=
  ⟨fun path inodeType => (rr.keeps_create_anchored R path inodeType w w (.refl w)).eachMutating,
    fun path flags perm => (rr.keeps_createFile_anchored R path flags perm w w (.refl w)).eachMutating,
    fun path perm => (rr.keeps_mkdirAll_anchored R path perm w w (.refl w)).eachMutating,
    fun path => (rr.keeps_removeInode_anchored R path _ w w (.refl w)).eachMutating,
    fun path => (rr.keeps_removeInode_anchored R path _ w w (.refl w)).eachMutating,
    fun path => (rr.keeps_removeAll_anchored R path w w (.refl w)).eachMutating,
    fun source destination rflags =>
      (rr.keeps_rename_anchored R source destination rflags w w (.refl w)).eachMutating⟩

end RootRef

end Pathrs
