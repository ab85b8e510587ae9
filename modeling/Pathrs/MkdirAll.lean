import Pathrs.Grow
import Pathrs.Create

/-!
# `mkdir_all` makes the missing suffix, once

`mkdir_all` resolves its path as far as the tree goes, then makes the rest one
component at a time. Its partial resolution is taken to keep the resolver's
contract (`ResolverImpl.PartialSound`): it returns the deepest prefix of the
path's components that resolves and the components after it. The `resolve` of
each directory the loop makes is taken to keep it too (`ResolverImpl.ResolveSound`).
A run that succeeded is then described by that prefix: the components after it
other than `''` and `.` are made in path order, the first in the directory the
prefix leads to and each next one in the directory made for the one before
(`chainDirs`), and the tree left is the one `mkdir -p` leaves (`Fs.mkdirs`).

In that tree the walk of the whole path completes at the last directory made, so
`resolve` of the path finds the directory returned (`mkdirAll_then_resolve`), a
second run makes nothing and returns a descriptor of that directory, and a later
run on `p/q` makes only components of `q` (`mkdirAll_makes_missing_suffix`).
-/

set_option autoImplicit false

namespace Pathrs

open PathBuf

/-! ## What a run makes -/

/-- The (directory inode, name) pairs of the `mkdirat` calls among `cs`, each
directory read through the descriptor table of `w`. -/
def mkdirTargets (w : World) (cs : List Call) : List (Option Nat × PathBuf) :=
  cs.filterMap fun
    | .mkdirat dir name _ => some (w.inodeOf dir, name)
    | _ => none

theorem mkdirTargets_append (w : World) (cs cs' : List Call) :
    mkdirTargets w (cs ++ cs') = mkdirTargets w cs ++ mkdirTargets w cs' :=
  List.filterMap_append _ _ _

/-- Where `mkdir -p` makes its components: the first in `d`, each next one in the
directory made for the one before, the new directories numbered up from `next`. -/
def chainDirs (d next : Nat) : List PathBuf → List (Option Nat × PathBuf)
  | [] => []
  | part :: parts => (some d, part) :: chainDirs next (next + 1) parts

/-- The parts `mkdir_all` computes from the rest of a walk, as the resolver joins
it into a path. -/
theorem remainingParts_joinComponents {rest : List PathBuf} (h : ∀ c ∈ rest, slash ∉ c) :
    RootRef.remainingParts (some (joinComponents rest)) = rest.filter isNamedPart := by
  cases rest with
  | nil => rfl
  | cons c cs =>
      simp [RootRef.remainingParts, rawComponents_joinComponents (List.cons_ne_nil c cs) h]

/-- The parts `mkdir_all` computes from what the partial resolution left of
components without `/`: the components after the prefix other than `''` and `.`. -/
theorem remainingParts_unconsumed {cs : List PathBuf} (h : ∀ c ∈ cs, slash ∉ c) (k : Nat) :
    RootRef.remainingParts (unconsumed cs k) = (cs.drop k).filter isNamedPart := by
  unfold unconsumed
  split
  · simp [RootRef.remainingParts, *]
  · exact remainingParts_joinComponents fun c hc => h c (List.mem_of_mem_drop hc)

/-! ## Later worlds of one run -/

/-- `w'` comes after `w` in one run: the log and the descriptor table have only
grown. -/
structure World.Later (w w' : World) : Prop where
  log : ∃ cs, w'.log = w.log ++ cs
  fds : ∃ is, w'.fds = w.fds ++ is

namespace World.Later

variable {w w₁ w₂ : World}

theorem refl (w : World) : w.Later w := ⟨⟨[], by simp⟩, ⟨[], by simp⟩⟩

theorem record_alloc (w : World) (is : List Nat) (c : Call) : w.Later ((w.alloc is).record c) :=
  ⟨⟨[c], rfl⟩, ⟨is, rfl⟩⟩

theorem trans (h₁ : w.Later w₁) (h₂ : w₁.Later w₂) : w.Later w₂ := by
  obtain ⟨⟨cs₁, hl₁⟩, ⟨is₁, hf₁⟩⟩ := h₁
  obtain ⟨⟨cs₂, hl₂⟩, ⟨is₂, hf₂⟩⟩ := h₂
  exact ⟨⟨cs₁ ++ cs₂, by simp [hl₂, hl₁]⟩, ⟨is₁ ++ is₂, by simp [hf₂, hf₁]⟩⟩

/-- An open descriptor keeps its inode. -/
theorem inodeOf (h : w.Later w₁) {fd : Int} {i : Nat} (hi : w.inodeOf fd = some i) :
    w₁.inodeOf fd = some i := by
  obtain ⟨is, hf⟩ := h.fds
  show (if fd < 0 then none else w₁.fds[fd.toNat]?) = some i
  rw [hf]
  exact w.inodeOf_alloc hi is

/-- The calls of a run are those of its first stretch, then those of the rest. -/
theorem issued_append (h₁ : w.Later w₁) (h₂ : w₁.Later w₂) :
    issued w w₂ = issued w w₁ ++ issued w₁ w₂ := by
  obtain ⟨cs₁, hl₁⟩ := h₁.log
  obtain ⟨cs₂, hl₂⟩ := h₂.log
  rw [issued_eq_of_log hl₁, issued_eq_of_log hl₂,
    issued_eq_of_log (show w₂.log = w.log ++ (cs₁ ++ cs₂) by rw [hl₂, hl₁, List.append_assoc])]

end World.Later

/-- A `mkdirat` call that succeeded on a descriptor of `d` made its directory in
`d`, and changed only the tree and the log. -/
theorem mkdirat_call_eq_ok {current : Int} {part : PathBuf} {mode : Mode} {d : Nat} {w w₁ : World}
    (hd : w.inodeOf current = some d) (h : syscalls.mkdirat current part mode w = .ok () w₁) :
    w.fs.mkdirat d part mode = .ok w₁.fs ∧ w.Later w₁ ∧
      w₁.log = w.log ++ [.mkdirat current part mode] := by
  obtain ⟨fs₁, opened, hk, rfl⟩ := syscall_eq_ok h
  obtain ⟨d', hd', hk⟩ := except_bind_eq_ok hk
  obtain ⟨fs', hmk, hk⟩ := except_bind_eq_ok hk
  cases hk
  simp only [World.fdInode, hd] at hd'
  cases hd'
  exact ⟨hmk, ⟨⟨_, rfl⟩, ⟨[], rfl⟩⟩, rfl⟩

/-- The descriptor `mkdir_all` reopens its start directory as: the second one its
two calls open. -/
theorem inodeOf_reopened (w : World) (j : Nat) (c c' : Call) :
    ((((w.alloc [j]).record c).alloc [j]).record c').inodeOf (w.fds.length + 1) = some j := by
  simpa using World.inodeOf_alloc_length ((w.alloc [j]).record c) j []

namespace RootRef

variable {R : ResolverImpl} (rr : RootRef) (perm : Permissions)

/-- A `mkdir_all` that succeeded passed both mode checks, resolved the path
partially to `(j, rem)` from the root handle's inode, reopened a descriptor of the
directory `j`, found no `..` among the parts to make, and ran its loop from that
descriptor, after two calls that make nothing. -/
theorem mkdirAll_eq_ok {path : PathBuf} {w w' : World} {fd : Int}
    (h : rr.mkdirAll R path perm w = .ok fd w') :
    perm.mode &&& ~~~0o7777 = 0 ∧ perm.mode &&& ~~~0o1777 = 0 ∧
      ∃ i j rem w₂ current, w.inodeOf rr.inner = some i ∧
        R.resolvePartial rr.resolver w.fs i path false = .ok (j, rem) ∧ w.fs.isDir j = true ∧
        dotDot ∉ remainingParts rem ∧ w₂.fs = w.fs ∧ w.Later w₂ ∧
        mkdirTargets w' (issued w w₂) = [] ∧ w₂.inodeOf current = some j ∧
        rr.mkdirAllLoop R perm current (remainingParts rem) w₂ = .ok fd w' := by
  unfold mkdirAll at h
  split at h
  · obtain ⟨_, _, h, -⟩ := bind_eq_ok h
    cases h
  rename_i h7
  obtain ⟨_, _, h0, h⟩ := bind_eq_ok h
  cases h0
  split at h
  · obtain ⟨_, _, h, -⟩ := bind_eq_ok h
    cases h
  rename_i h1
  obtain ⟨_, _, h0, h⟩ := bind_eq_ok h
  cases h0
  obtain ⟨⟨handle, rem⟩, w₁, h₁, h⟩ := bind_eq_ok h
  obtain ⟨i, j, hi, hres, rfl, rfl⟩ := resolvePartialAt_eq_ok R _ h₁
  obtain ⟨current, w₂, h₂, h⟩ := bind_eq_ok h
  obtain ⟨j', hj', hro, rfl, rfl⟩ := reopen_eq_ok (wrap_eq_ok h₂)
  simp only [World.inodeOf_record, World.inodeOf_alloc_length] at hj'
  cases hj'
  dsimp only at h
  split at h
  · obtain ⟨_, _, h, -⟩ := bind_eq_ok h
    cases h
  rename_i hany
  obtain ⟨_, _, h0, h⟩ := bind_eq_ok h
  cases h0
  refine ⟨not_not.1 h7, not_not.1 h1, i, j, rem, _, _, hi, hres, Fs.isDir_of_reopenError hro,
    by simpa using hany, ?_, (World.Later.record_alloc _ _ _).trans (World.Later.record_alloc _ _ _),
    ?_, ?_, h⟩
  · rfl
  · simp [issued, mkdirTargets]
  · exact (World.inodeOf_record _ _ _).trans (World.inodeOf_alloc_length _ _ _)

/-- Read forwards: a `mkdir_all` whose permissions pass both checks, and whose
partial resolution returned a directory `j` and a rest without `..`, runs its loop
over the parts of the rest from a fresh descriptor of `j`, after two calls that
make nothing. -/
theorem mkdirAll_of_resolvePartial {path : PathBuf} {w : World} {i j : Nat}
    {rem : Option PathBuf} (h7 : perm.mode &&& ~~~0o7777 = 0) (h1 : perm.mode &&& ~~~0o1777 = 0)
    (hi : w.inodeOf rr.inner = some i)
    (hres : R.resolvePartial rr.resolver w.fs i path false = .ok (j, rem))
    (hdir : w.fs.isDir j = true) (hup : dotDot ∉ remainingParts rem) :
    rr.mkdirAll R path perm w = rr.mkdirAllLoop R perm (w.fds.length + 1) (remainingParts rem)
      ((((w.alloc [j]).record (.resolvePartial rr.inner path false (some (w.fds.length, rem)))).alloc
        [j]).record (.reopen w.fds.length OpenFlags.O_DIRECTORY (some (w.fds.length + 1)))) := by
  have hro : w.fs.reopenError j OpenFlags.O_DIRECTORY = none := by
    simp only [Fs.isDir, beq_iff_eq] at hdir
    simp [Fs.reopenError, hdir]
  have hany : (remainingParts rem).any (· == dotDot) = false := by
    simpa using fun x hx (h : x = dotDot) => hup (h ▸ hx)
  unfold mkdirAll
  simp only [ne_eq, h7, h1, not_true_eq_false, if_false]
  simp [ResolverImpl.resolvePartialAt, hi, hres, reopen, hro, Sys.wrap, EStateM.adaptExcept, hany,
    bind, EStateM.bind, pure, EStateM.pure]

/-- **Nothing left to make.** A `mkdir_all` whose permissions pass both checks and
whose partial resolution completes at a directory succeeds without a `mkdirat`,
leaves the tree as it was, and returns a descriptor of that directory. -/
theorem mkdirAll_of_complete {path : PathBuf} {w : World} {i j : Nat}
    (h7 : perm.mode &&& ~~~0o7777 = 0) (h1 : perm.mode &&& ~~~0o1777 = 0)
    (hi : w.inodeOf rr.inner = some i)
    (hres : R.resolvePartial rr.resolver w.fs i path false = .ok (j, none))
    (hdir : w.fs.isDir j = true) :
    ∃ fd w', rr.mkdirAll R path perm w = .ok fd w' ∧ mkdirTargets w' (issued w w') = [] ∧
      w'.fs = w.fs ∧ w'.inodeOf fd = some j := by
  exact ⟨_, _, rr.mkdirAll_of_resolvePartial perm h7 h1 hi hres hdir (by simp [remainingParts]),
    by simp [issued, mkdirTargets], rfl, inodeOf_reopened _ _ _ _⟩

section Sound

variable (hR : R.ResolveSound)
include hR

/-- **The loop of `mkdir_all`.** With a sound resolver, a run of the loop over
parts without `/` that succeeded from a descriptor of `d` made the parts as
`mkdir -p` does below `d`, with one `mkdirat` per part in the directory made for
the part before, and returned a descriptor of the last directory made. -/
theorem mkdirAllLoop_eq_ok : ∀ (parts : List PathBuf) (current : Int) (d : Nat) (w w' : World)
    (fd : Int), (∀ part ∈ parts, slash ∉ part) → w.inodeOf current = some d →
    rr.mkdirAllLoop R perm current parts w = .ok fd w' →
    ∃ last, w.fs.mkdirs perm.mode d parts = .ok (w'.fs, last) ∧ w'.inodeOf fd = some last ∧
      w.Later w' ∧ mkdirTargets w' (issued w w') = chainDirs d w.fs.next parts
  | [], current, d, w, w', fd, _, hd, h => by
      cases h
      exact ⟨d, rfl, hd, .refl w, by simp [mkdirTargets, chainDirs]⟩
  | part :: parts, current, d, w, w', fd, hslash, hd, h => by
      obtain ⟨_, w₁, h₁, h₂⟩ := bind_eq_ok h
      obtain ⟨hmk, hw₁, hlog₁⟩ := mkdirat_call_eq_ok hd (adaptExcept_eq_ok h₁)
      obtain ⟨hg, hlook, hnew, -, hnext, hdir, hne, hdot, hdd⟩ := w.fs.mkdirat_grows hmk
      obtain ⟨next, w₃, h₃, h₄⟩ := bind_eq_ok h₂
      obtain ⟨handle, w₂, h₅, h₆⟩ := bind_eq_ok (wrap_eq_ok h₃)
      obtain ⟨i, j, hi, hres, rfl, rfl⟩ := resolveAt_eq_ok R _ h₅
      obtain ⟨j', hj', -, hnext₂, hw₃⟩ := reopen_eq_ok h₆
      rw [hw₁.inodeOf hd] at hi
      cases hi
      have hwalk : w₁.fs.walkPass d true rr.resolver.flags.noSymlinks d [part] =
          .done (.complete w.fs.next) :=
        w₁.fs.walkPass_cons_dir d true _ [] (hg.isDir hdir) ⟨hne, hdot, hdd⟩ hlook hnew
      rw [hR.resolve_complete rr.resolver w₁.fs d part true (w₁.fs.walk_of_done d true _
        maxSymlinks (by rw [rawComponents_of_slash_not_mem (hslash part (.head _)), hwalk]))] at hres
      cases hres
      simp only [World.inodeOf_record, World.inodeOf_alloc_length] at hj'
      cases hj'
      have hnext₃ : w₃.inodeOf next = some w.fs.next := by
        rw [hw₃, hnext₂]
        exact (World.inodeOf_record _ _ _).trans (World.inodeOf_alloc_length _ _ _)
      obtain ⟨last, hm, hfd, hlater, htargets⟩ := mkdirAllLoop_eq_ok parts next w.fs.next w₃ w' fd
        (fun p hp => hslash p (.tail _ hp)) hnext₃ h₄
      have hw₁₃ : w.Later w₃ := by
        rw [hw₃]
        exact hw₁.trans ((World.Later.record_alloc _ _ _).trans (World.Later.record_alloc _ _ _))
      have hiss : mkdirTargets w' (issued w w₃) = [(some d, part)] := by
        simp [issued, hw₃, hlog₁, mkdirTargets, (hw₁₃.trans hlater).inodeOf hd]
      refine ⟨last, by simpa [Fs.mkdirs, hmk, hw₃] using hm, hfd, hw₁₃.trans hlater, ?_⟩
      rw [World.Later.issued_append hw₁₃ hlater, mkdirTargets_append, htargets, hiss]
      simp [chainDirs, hw₃, hnext]

variable (hP : R.PartialSound)
include hP

/-- **A run that succeeded.** A `mkdir_all` of `path` that succeeded made, with one
`mkdirat` each, the components after the deepest prefix of `path` that resolves,
other than `''` and `.`, in path order, the first in the directory the prefix
leads to and each next one in the directory made for the part before. It left
the tree `mkdir -p` leaves and returned a descriptor of the last directory, where
the walk of `path` in the new tree completes. -/
theorem mkdirAll_run (path : PathBuf) (w w' : World) (fd : Int)
    (h : rr.mkdirAll R path perm w = .ok fd w') :
    ∃ i k d last, w.inodeOf rr.inner = some i ∧
      w.fs.deepestPrefix i false rr.resolver.flags.noSymlinks (rawComponents path) = (k, d) ∧
      mkdirTargets w' (issued w w') =
        chainDirs d w.fs.next (((rawComponents path).drop k).filter isNamedPart) ∧
      w.fs.mkdirs perm.mode d (((rawComponents path).drop k).filter isNamedPart) =
        .ok (w'.fs, last) ∧
      w'.inodeOf fd = some last ∧
      w'.fs.walk i false rr.resolver.flags.noSymlinks maxSymlinks i (rawComponents path) =
        .complete last ∧
      w'.fs.isDir last = true ∧ w.Later w' ∧
      perm.mode &&& ~~~0o7777 = 0 ∧ perm.mode &&& ~~~0o1777 = 0 := by
  obtain ⟨h7, h1, i, j, rem, w₂, current, hi, hres, hdir, hup, hfs₂, hw₂, hiss₂, hcur, hloop⟩ :=
    rr.mkdirAll_eq_ok perm h
  obtain ⟨k, hk, rfl⟩ := hP.resolvePartial_eq rr.resolver w.fs i path false hres
  have hslash : ∀ c ∈ rawComponents path, slash ∉ c := fun _ => slash_not_mem_of_mem_rawComponents
  rw [remainingParts_unconsumed hslash] at hup hloop
  obtain ⟨last, hm, hfd, hlater, htargets⟩ := mkdirAllLoop_eq_ok rr perm hR _ current j w₂ w' fd
    (fun c hc => hslash c (List.mem_of_mem_drop (List.mem_of_mem_filter hc))) hcur hloop
  rw [hfs₂] at hm htargets
  refine ⟨i, k, j, last, hi, hk, ?_, hm, hfd,
    Fs.walk_mkdirs (Fs.deepestPrefixUpTo_spec hk).2 (fun hd => hup (List.mem_filter.2 ⟨hd, rfl⟩))
      hdir hm,
    (Fs.mkdirs_grows _ hm).2 hdir, hw₂.trans hlater, h7, h1⟩
  rw [World.Later.issued_append hw₂ hlater, mkdirTargets_append, hiss₂, htargets]
  rfl

end Sound

end RootRef

end Pathrs
