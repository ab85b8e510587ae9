import Pathrs.Create

/-!
# `create_file`

`create_file` opens the trailing name of its path in the resolved parent with the
caller's flags and `O_CREAT`, and returns the descriptor `openat(2)` gives.
`syscalls::openat` adds `O_NOFOLLOW`, so a symlink at the trailing name is never
followed: the open fails with `ELOOP`, or opens the symlink itself under
`O_PATH`. Nothing adds `O_EXCL`, so the kernel opens an entry that already
exists: `create_file` then returns the file that was there and creates nothing
(`createFile_reuses_entries`), and under `O_PATH` it ignores `O_CREAT` altogether.
A caller that passes `O_EXCL` itself, without `O_PATH`, gets what the
documentation promises: the regular file the call created, at an entry that did
not exist (`createFile_exclusive`).
-/

set_option autoImplicit false

namespace Pathrs

open PathBuf

/-- `Fs.rootOnly` with the regular file `f` in its root directory, inode `1`. -/
def Fs.withFile : Fs := Fs.rootOnly.create 0 [102] ⟨.regular, 0o644⟩ Nat.one_pos

/-- `create_file("f", OpenFlags::empty(), 0o644)` where `f` is a regular file opens
`f` with `O_CREAT|O_NOFOLLOW|O_CLOEXEC|O_NOCTTY` (`0xa0140`), returns a descriptor
on that file and changes nothing. -/
theorem createFile_reuses_entries :
    RootRef.atZero.createFile .reference [102] ⟨0⟩ ⟨0o644⟩ (World.openAt Fs.withFile 0) =
      .ok 2 ⟨Fs.withFile, [0, 0, 1],
        [.resolve 0 dot false (some 1), .openat 1 [102] ⟨0xa0140⟩ 0o644]⟩ ∧
    Fs.withFile.lookup 0 [102] = some 1 :=
  ⟨rfl, rfl⟩

namespace RootRef

variable (R : ResolverImpl) (rr : RootRef)

/-- **Exclusive creation under the caller's `O_EXCL`.** When the caller's flags hold
`O_EXCL` and not `O_PATH`, a descriptor `create_file` returns refers to a new
regular file, entered under the trailing name in the directory the parent
resolved to, where there was no entry before. -/
theorem createFile_exclusive (path : PathBuf) (flags : OpenFlags) (perm : Permissions)
    (w w' : World) (fd : Int) (hexcl : flags.contains libc.O_EXCL = true)
    (hpath : flags.contains libc.O_PATH = false) (h : rr.createFile R path flags perm w = .ok fd w') :
    ∃ i d name, w.inodeOf rr.inner = some i ∧
      R.resolve rr.resolver w.fs i (pathSplit path).1 false = .ok d ∧
      (pathSplit path).2 = some name ∧ w.fs.lookup d name = none ∧
      w'.fs.lookup d name = some w.fs.next ∧ w'.inodeOf fd = some w.fs.next ∧
      w'.fs.typeOf w.fs.next = some .regular := by
  obtain ⟨⟨dir, name⟩, w₁, h₁, h₂⟩ := bind_eq_ok h
  obtain ⟨i, d, hi, hd, rfl, rfl, rfl⟩ := rr.resolveParent_eq_ok R (wrap_eq_ok h₁)
  obtain ⟨n, w₂, h₃, h₄⟩ := bind_eq_ok h₂
  obtain ⟨hn, rfl⟩ := trailingName_eq_ok h₃
  obtain ⟨fs', opened, hk, rfl⟩ := syscall_eq_ok (adaptExcept_eq_ok h₄)
  obtain ⟨d', hd', hk⟩ := except_bind_eq_ok hk
  obtain ⟨⟨fs'', j⟩, hopen, hk⟩ := except_bind_eq_ok hk
  cases hk
  simp only [World.fdInode, World.inodeOf_record, World.inodeOf_alloc_length] at hd'
  cases hd'
  obtain ⟨hnone, rfl, hlook, htype⟩ := Fs.openat_of_excl _ (createFile_flags_creat flags)
    (by rwa [OpenFlags.contains_insert_of_disjoint _ (by decide),
      OpenFlags.contains_insert_of_disjoint _ (by decide)])
    (by rwa [OpenFlags.contains_insert_of_disjoint _ (by decide),
      OpenFlags.contains_insert_of_disjoint _ (by decide)]) hopen
  refine ⟨i, d, n, hi, hd, hn, hnone, hlook, ?_, htype⟩
  simp [World.record, World.alloc, World.inodeOf, List.getElem_append_right]
  omega

end RootRef

/-- `create_file("f", O_EXCL, 0o644)` in an empty root creates `f` as inode `1`. -/
theorem createFile_exclusive_in_empty_root :
    let w := World.openAt Fs.rootOnly 0
    let run := RootRef.atZero.createFile .reference [102] ⟨libc.O_EXCL⟩ ⟨0o644⟩ w
    OpenFlags.contains ⟨libc.O_EXCL⟩ libc.O_EXCL = true ∧
      OpenFlags.contains ⟨libc.O_EXCL⟩ libc.O_PATH = false ∧ run = .ok 2 (worldOf run) ∧
      ∃ i d name, w.inodeOf RootRef.atZero.inner = some i ∧
        ResolverImpl.reference.resolve RootRef.atZero.resolver w.fs i (pathSplit [102]).1 false =
          .ok d ∧
        (pathSplit [102]).2 = some name ∧ w.fs.lookup d name = none ∧
        (worldOf run).fs.lookup d name = some w.fs.next ∧
        (worldOf run).inodeOf 2 = some w.fs.next ∧
        (worldOf run).fs.typeOf w.fs.next = some .regular :=
  ⟨rfl, rfl, rfl, RootRef.createFile_exclusive .reference .atZero [102] ⟨libc.O_EXCL⟩ ⟨0o644⟩ _ _ 2
    rfl rfl rfl⟩

end Pathrs
