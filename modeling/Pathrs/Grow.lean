import Pathrs.Kernel

/-!
# Walks in a tree that grew

`mkdir_all` adds directories to the tree and removes nothing; this module says
what that does to walks. A tree `fs'` grows `fs` (`Fs.Grows`) when every inode
keeps its type and every directory its `..` and its entries. A walk of `fs` that
completed completes the same way in `fs'` (`walk_grow`).

`Fs.mkdirs` is what `mkdir_all`'s loop does to the tree: each component made as a
directory inside the one made for the component before. In the tree it leaves,
the rest of a path runs from the first directory through the new directories to
the last one (`walkPass_mkdirs`), so a path whose prefix completed at the first
directory completes at the last (`walk_mkdirs`).

Walks also compose: a walk of `cs ++ ds` that follows trailing symlinks and
completed `cs` at `i` is a walk of `ds` from `i`, with what is left of the
symlink budget (`walk_append`).
-/

set_option autoImplicit false

namespace Pathrs

open PathBuf

namespace Fs

/-- `fs'` grew from `fs`: every inode keeps its type, and every directory its `..`
and its entries; new entries and new inodes may have appeared. -/
structure Grows (fs fs' : Fs) : Prop where
  typeOf : ∀ {i t}, fs.typeOf i = some t → fs'.typeOf i = some t
  parent : ∀ {d}, fs.isDir d = true → fs'.parent d = fs.parent d
  lookup : ∀ {d n i}, fs.isDir d = true → fs.lookup d n = some i → fs'.lookup d n = some i

namespace Grows

variable {fs fs' fs'' : Fs}

theorem refl (fs : Fs) : fs.Grows fs := ⟨id, fun _ => rfl, fun _ => id⟩

theorem isDir (h : fs.Grows fs') {d : Nat} (hd : fs.isDir d = true) : fs'.isDir d = true := by
  simp only [Fs.isDir, beq_iff_eq] at hd ⊢
  exact h.typeOf hd

theorem trans (h : fs.Grows fs') (h' : fs'.Grows fs'') : fs.Grows fs'' :=
  ⟨fun hi => h'.typeOf (h.typeOf hi), fun hd => (h'.parent (h.isDir hd)).trans (h.parent hd),
    fun hd hl => h'.lookup (h.isDir hd) (h.lookup hd hl)⟩

end Grows

variable (fs : Fs)

/-- Allocating at a free entry grows the tree. -/
theorem grows_create {d : Nat} {name : PathBuf} {node : Inode} {hd : d < fs.next}
    (h : fs.lookup d name = none) : fs.Grows (fs.create d name node hd) where
  typeOf hi := (create_typeOf_old (fs.lt_next_of_typeOf hi)).trans hi
  parent hd' := create_parent_old (fs.lt_next_of_isDir hd')
  lookup he hl := by
    rw [create_lookup_old (Nat.ne_of_lt (fs.lt_next_of_isDir he))]
    · exact hl
    · rintro ⟨rfl, rfl⟩
      rw [h] at hl
      cases hl

/-- Adding a link at a free entry grows the tree. -/
theorem grows_link {d : Nat} {name : PathBuf} {i : Nat} {hi : i < fs.next}
    (h : fs.lookup d name = none) : fs.Grows (fs.link d name i hi) where
  typeOf hj := hj
  parent _ := rfl
  lookup _ hl := by
    rw [link_lookup_old]
    · exact hl
    · rintro ⟨rfl, rfl⟩
      rw [h] at hl
      cases hl

/-- A `mkdirat` that succeeded grew the tree by one directory, the inode `next`,
entered in the directory `d` under `name`, a free name other than `''`, `.` and
`..`. -/
theorem mkdirat_grows {d : Nat} {name : PathBuf} {mode : Mode} {fs₁ : Fs}
    (h : fs.mkdirat d name mode = .ok fs₁) :
    fs.Grows fs₁ ∧ fs₁.lookup d name = some fs.next ∧ fs₁.typeOf fs.next = some .directory ∧
      (∀ n, fs₁.lookup fs.next n = none) ∧ fs₁.next = fs.next + 1 ∧ fs.isDir d = true ∧
      name ≠ [] ∧ name ≠ dot ∧ name ≠ dotDot := by
  obtain ⟨hd, hce, rfl⟩ := fs.mkdirat_eq_ok h
  obtain ⟨hdir, hne, hdot, hdd, hfree⟩ := (fs.createError_eq_none).1 hce
  exact ⟨fs.grows_create hfree, create_lookup_self, by simp [typeOf, create_inode_new],
    fun _ => create_lookup_new, rfl, hdir, hne, hdot, hdd⟩

/-! ## Steps of a pass -/

section Steps

variable (root : Nat) (nf ns : Bool)

/-- A pass goes through a name that names a directory. -/
theorem walkPass_cons_dir {cur j : Nat} {c : PathBuf} (rest : List PathBuf)
    (hcur : fs.isDir cur = true) (hc : c ≠ [] ∧ c ≠ dot ∧ c ≠ dotDot)
    (hl : fs.lookup cur c = some j) (hj : fs.typeOf j = some .directory) :
    fs.walkPass root nf ns cur (c :: rest) = fs.walkPass root nf ns j rest := by
  simp [walkPass, hcur, hc.1, hc.2.1, hc.2.2, hl, hj]

/-- A pass ends at a name that names neither a directory nor a symlink: there when
it is the last component, with `ENOTDIR` otherwise. -/
theorem walkPass_cons_plain {cur j : Nat} {c : PathBuf} {t : FileType} (rest : List PathBuf)
    (hcur : fs.isDir cur = true) (hc : c ≠ [] ∧ c ≠ dot ∧ c ≠ dotDot)
    (hl : fs.lookup cur c = some j) (hj : fs.typeOf j = some t) (hnd : t ≠ .directory)
    (hns : ∀ target, t ≠ .symlink target) :
    fs.walkPass root nf ns cur (c :: rest) =
      .done (if rest = [] then .complete j else .failed libc.ENOTDIR) := by
  cases t with
  | directory => exact absurd rfl hnd
  | symlink target => exact absurd rfl (hns target)
  | _ => simp only [walkPass, hcur, hc.1, hc.2.1, hc.2.2, hl, hj, Bool.not_true, Bool.false_eq_true,
      if_false, or_self]; split_ifs <;> rfl

/-- At a name that names a symlink, a pass fails when symlinks are refused, ends
there when it is the last component and not followed, and stops to expand it
otherwise. -/
theorem walkPass_cons_symlink {cur j : Nat} {c target : PathBuf} (rest : List PathBuf)
    (hcur : fs.isDir cur = true) (hc : c ≠ [] ∧ c ≠ dot ∧ c ≠ dotDot)
    (hl : fs.lookup cur c = some j) (hj : fs.typeOf j = some (.symlink target)) :
    fs.walkPass root nf ns cur (c :: rest) =
      if ns then .done (.failed libc.ELOOP)
      else if rest = [] ∧ nf then .done (.complete j) else .expand cur target rest := by
  simp [walkPass, hcur, hc.1, hc.2.1, hc.2.2, hl, hj]

/-- A pass skips empty components and `.`. -/
theorem walkPass_cons_skip {cur : Nat} {c : PathBuf} (rest : List PathBuf)
    (hcur : fs.isDir cur = true) (hc : isNamedPart c = false) :
    fs.walkPass root nf ns cur (c :: rest) = fs.walkPass root nf ns cur rest := by
  have hc : c = [] ∨ c = dot := by
    rw [or_iff_not_imp_left]
    simpa [isNamedPart, List.isEmpty_iff] using hc
  simp [walkPass, hcur, hc]

/-- Skipping a component does not change a pass, even from a non-directory, where
both fail. -/
theorem walkPass_skip_eq {cur : Nat} {c c' : PathBuf} {cs cs' : List PathBuf}
    (hc : isNamedPart c = false)
    (h : fs.isDir cur = true → fs.walkPass root nf ns cur cs = fs.walkPass root nf ns cur (c' :: cs')) :
    fs.walkPass root nf ns cur (c :: cs) = fs.walkPass root nf ns cur (c' :: cs') := by
  by_cases hcur : fs.isDir cur = true
  · rw [walkPass_cons_skip fs root nf ns cs hcur hc, h hcur]
  · simp [walkPass, hcur]

/-- A pass over a path runs as a pass over the components of its parent part
followed by its trailing name. -/
theorem walkPass_pathSplit {p parent name : PathBuf} (h : pathSplit p = (parent, some name))
    (cur : Nat) :
    fs.walkPass root nf ns cur (rawComponents p) =
      fs.walkPass root nf ns cur (rawComponents parent ++ [name]) := by
  have hn := (isComponent_of_pathSplit (show (pathSplit p).2 = some name by rw [h])).2
  rcases pathSplit_cases h with ⟨rfl, rfl⟩ | ⟨rfl, rfl⟩ | rfl
  · rw [rawComponents_of_slash_not_mem hn]
    exact (walkPass_skip_eq fs root nf ns (by decide) fun _ => rfl).symm
  · rw [show slash :: name = [] ++ slash :: name from rfl, rawComponents_append_slash,
      rawComponents_of_slash_not_mem hn]
    exact (walkPass_skip_eq fs root nf ns (by decide) fun _ => rfl).symm
  · rw [rawComponents_append_slash, rawComponents_of_slash_not_mem hn]

/-- A pass over one name that does not follow a trailing symlink ends at the inode
the name names, unless that is a symlink and symlinks are refused. -/
theorem walkPass_nofollow_single {cur j : Nat} {c : PathBuf} {t : FileType}
    (hcur : fs.isDir cur = true) (hc : c ≠ [] ∧ c ≠ dot ∧ c ≠ dotDot)
    (hl : fs.lookup cur c = some j) (ht : fs.typeOf j = some t)
    (hns : ∀ target, t = .symlink target → ns = false) :
    fs.walkPass root true ns cur [c] = .done (.complete j) := by
  cases t with
  | symlink target => simp [walkPass, hcur, hc.1, hc.2.1, hc.2.2, hl, ht, hns target rfl]
  | _ => simp [walkPass, hcur, hc.1, hc.2.1, hc.2.2, hl, ht]

/-- A pass over one name that does not follow a trailing symlink expands nothing. -/
theorem walkPass_nofollow_single_done {cur j : Nat} {c : PathBuf} (hcur : fs.isDir cur = true)
    (hc : c ≠ [] ∧ c ≠ dot ∧ c ≠ dotDot) (hl : fs.lookup cur c = some j) :
    ∃ r, fs.walkPass root true ns cur [c] = .done r := by
  simp only [walkPass, hcur, hc.1, hc.2.1, hc.2.2, hl, Bool.not_true, Bool.false_eq_true, if_false,
    or_self, and_self]
  split <;> (try split) <;> exact ⟨_, rfl⟩

/-- Such a pass ends the same way for any two names of one inode. -/
theorem walkPass_nofollow_single_eq {cur cur' j : Nat} {c c' : PathBuf}
    (hcur : fs.isDir cur = true) (hcur' : fs.isDir cur' = true)
    (hc : c ≠ [] ∧ c ≠ dot ∧ c ≠ dotDot) (hc' : c' ≠ [] ∧ c' ≠ dot ∧ c' ≠ dotDot)
    (hl : fs.lookup cur c = some j) (hl' : fs.lookup cur' c' = some j) :
    fs.walkPass root true ns cur [c] = fs.walkPass root true ns cur' [c'] := by
  simp [walkPass, hcur, hcur', hc.1, hc.2.1, hc.2.2, hc'.1, hc'.2.1, hc'.2.2, hl, hl']

/-- A pass that ended is the walk's result, whatever the budget. -/
theorem walk_of_done {cur : Nat} {cs : List PathBuf} {r : Lookup} (b : Nat)
    (h : fs.walkPass root nf ns cur cs = .done r) : fs.walk root nf ns b cur cs = r := by
  cases b <;> simp [walk, h]

/-- A pass that stopped at a symlink is followed by a walk of its target and the
rest, with one expansion less. -/
theorem walk_of_expand {cur d : Nat} {cs rest : List PathBuf} {t : PathBuf} (b : Nat)
    (h : fs.walkPass root nf ns cur cs = .expand d t rest) :
    fs.walk root nf ns (b + 1) cur cs = if t = [] then .failed libc.ENOENT
      else fs.walk root nf ns b (if t.isAbsolute then root else d) (rawComponents t ++ rest) := by
  simp [walk, h]

theorem walk_zero_of_expand {cur d : Nat} {cs rest : List PathBuf} {t : PathBuf}
    (h : fs.walkPass root nf ns cur cs = .expand d t rest) :
    fs.walk root nf ns 0 cur cs = .failed libc.ELOOP := by
  simp [walk, h]

/-- Walks whose first passes agree agree. -/
theorem walk_congr {cur cur' : Nat} {cs cs' : List PathBuf}
    (h : fs.walkPass root nf ns cur cs = fs.walkPass root nf ns cur' cs') (b : Nat) :
    fs.walk root nf ns b cur cs = fs.walk root nf ns b cur' cs' := by
  cases b <;> simp only [walk, h]

end Steps

/-! ## Growing the tree -/

section Grow

variable {fs} {fs' : Fs} (hg : fs.Grows fs') (root : Nat) (nf ns : Bool)
include hg

/-- A pass that completed completes the same way in a tree that grew, and one that
stopped at a symlink to expand stops at it the same way. -/
theorem walkPass_grow : ∀ (cs : List PathBuf) (cur : Nat),
    (∀ i, fs.walkPass root nf ns cur cs = .done (.complete i) →
      fs'.walkPass root nf ns cur cs = .done (.complete i)) ∧
    (∀ d t rest, fs.walkPass root nf ns cur cs = .expand d t rest →
      fs'.walkPass root nf ns cur cs = .expand d t rest)
  | [], _ => by simp [walkPass]
  | c :: rest, cur => by
    have next : ∀ cur', fs.walkPass root nf ns cur (c :: rest) = fs.walkPass root nf ns cur' rest →
        fs'.walkPass root nf ns cur (c :: rest) = fs'.walkPass root nf ns cur' rest →
        (∀ i, fs.walkPass root nf ns cur (c :: rest) = .done (.complete i) →
          fs'.walkPass root nf ns cur (c :: rest) = .done (.complete i)) ∧
        (∀ d t rest', fs.walkPass root nf ns cur (c :: rest) = .expand d t rest' →
          fs'.walkPass root nf ns cur (c :: rest) = .expand d t rest') := by
      intro cur' h h'
      rw [h, h']
      exact walkPass_grow rest cur'
    by_cases hdir : fs.isDir cur = true
    swap
    · simp [walkPass, hdir]
    have hdir' := hg.isDir hdir
    by_cases hskip : c = [] ∨ c = dot
    · exact next cur (by simp [walkPass, hdir, hskip]) (by simp [walkPass, hdir', hskip])
    by_cases hup : c = dotDot
    · subst hup
      exact next (if cur = root then cur else fs.parent cur) (by simp [walkPass, hdir, hskip])
        (by simp [walkPass, hdir', hskip, hg.parent hdir])
    have hc : c ≠ [] ∧ c ≠ dot ∧ c ≠ dotDot :=
      ⟨fun h => hskip (.inl h), fun h => hskip (.inr h), hup⟩
    cases hl : fs.lookup cur c with
    | none => simp [walkPass, hdir, hskip, hup, hl]
    | some i =>
        have hl' := hg.lookup hdir hl
        cases ht : fs.typeOf i with
        | none => simp [walkPass, hdir, hskip, hup, hl, ht]
        | some t =>
            have ht' := hg.typeOf ht
            rcases t.dir_or_symlink_or_plain with rfl | ⟨target, rfl⟩ | ⟨hnd, hns⟩
            · exact next i (walkPass_cons_dir fs root nf ns rest hdir hc hl ht)
                (walkPass_cons_dir fs' root nf ns rest hdir' hc hl' ht')
            · rw [walkPass_cons_symlink fs root nf ns rest hdir hc hl ht,
                walkPass_cons_symlink fs' root nf ns rest hdir' hc hl' ht']
              exact ⟨fun _ h => h, fun _ _ _ h => h⟩
            · rw [walkPass_cons_plain fs root nf ns rest hdir hc hl ht hnd hns,
                walkPass_cons_plain fs' root nf ns rest hdir' hc hl' ht' hnd hns]
              exact ⟨fun _ h => h, fun _ _ _ h => h⟩

/-- A walk that completed completes the same way in a tree that grew. -/
theorem walk_grow : ∀ (b cur : Nat) (cs : List PathBuf) (i : Nat),
    fs.walk root nf ns b cur cs = .complete i → fs'.walk root nf ns b cur cs = .complete i
  | b, cur, cs, i, h => by
    obtain ⟨hc, he⟩ := walkPass_grow hg root nf ns cs cur
    cases hp : fs.walkPass root nf ns cur cs with
    | done r =>
        rw [walk_of_done fs root nf ns b hp] at h
        subst h
        exact walk_of_done fs' root nf ns b (hc i hp)
    | expand d t rest =>
        cases b with
        | zero => simp [walk_zero_of_expand fs root nf ns hp] at h
        | succ b =>
            rw [walk_of_expand fs root nf ns b hp] at h
            rw [walk_of_expand fs' root nf ns b (he _ _ _ hp)]
            by_cases ht : t = []
            · simp [ht] at h
            · rw [if_neg ht] at h ⊢
              exact walk_grow b _ _ i h

end Grow

/-! ## Composing walks -/

section Append

variable (root : Nat) (ns nf : Bool) {ds : List PathBuf} (hds : ds ≠ [])
include hds

/-- A pass over `cs ++ ds`, for components `ds` after `cs`: where the pass over `cs`
that follows trailing symlinks completed, it goes on over `ds`; where that pass
stopped at a symlink, the same symlink is expanded with `ds` after the rest. -/
theorem walkPass_append : ∀ (cs : List PathBuf) (cur : Nat),
    (∀ i, fs.walkPass root false ns cur cs = .done (.complete i) →
      fs.walkPass root nf ns cur (cs ++ ds) = fs.walkPass root nf ns i ds) ∧
    (∀ d t rest, fs.walkPass root false ns cur cs = .expand d t rest →
      fs.walkPass root nf ns cur (cs ++ ds) = .expand d t (rest ++ ds))
  | [], cur => by simp [walkPass]
  | c :: rest, cur => by
    have next : ∀ cur', fs.walkPass root false ns cur (c :: rest) = fs.walkPass root false ns cur' rest →
        fs.walkPass root nf ns cur (c :: rest ++ ds) = fs.walkPass root nf ns cur' (rest ++ ds) →
        (∀ i, fs.walkPass root false ns cur (c :: rest) = .done (.complete i) →
          fs.walkPass root nf ns cur (c :: rest ++ ds) = fs.walkPass root nf ns i ds) ∧
        (∀ d t rest', fs.walkPass root false ns cur (c :: rest) = .expand d t rest' →
          fs.walkPass root nf ns cur (c :: rest ++ ds) = .expand d t (rest' ++ ds)) := by
      intro cur' h h'
      rw [h, h']
      exact walkPass_append rest cur'
    by_cases hdir : fs.isDir cur = true
    swap
    · simp [walkPass, hdir]
    by_cases hskip : c = [] ∨ c = dot
    · exact next cur (by simp [walkPass, hdir, hskip]) (by simp [walkPass, hdir, hskip])
    by_cases hup : c = dotDot
    · subst hup
      exact next (if cur = root then cur else fs.parent cur) (by simp [walkPass, hdir, hskip])
        (by simp [walkPass, hdir, hskip])
    have hc : c ≠ [] ∧ c ≠ dot ∧ c ≠ dotDot :=
      ⟨fun h => hskip (.inl h), fun h => hskip (.inr h), hup⟩
    cases hl : fs.lookup cur c with
    | none => simp [walkPass, hdir, hskip, hup, hl]
    | some i =>
        cases ht : fs.typeOf i with
        | none => simp [walkPass, hdir, hskip, hup, hl, ht]
        | some t =>
            rcases t.dir_or_symlink_or_plain with rfl | ⟨target, rfl⟩ | ⟨hnd, hns⟩
            · exact next i (walkPass_cons_dir fs root false ns rest hdir hc hl ht)
                (walkPass_cons_dir fs root nf ns (rest ++ ds) hdir hc hl ht)
            · rw [List.cons_append, walkPass_cons_symlink fs root false ns rest hdir hc hl ht,
                walkPass_cons_symlink fs root nf ns _ hdir hc hl ht]
              refine ⟨fun _ h => ?_, fun _ _ _ h => ?_⟩ <;> split_ifs at h with hns hr <;> cases h
              · exact hr.2.elim
              · simp [hns, hds]
            · have hi : fs.isDir i = false := by simp [isDir, ht, hnd]
              rw [List.cons_append, walkPass_cons_plain fs root false ns rest hdir hc hl ht hnd hns,
                walkPass_cons_plain fs root nf ns _ hdir hc hl ht hnd hns]
              refine ⟨fun _ h => ?_, fun _ _ _ h => nomatch h⟩
              split_ifs at h with hr
              · cases h
                subst hr
                cases ds with
                | nil => exact absurd rfl hds
                | cons => simp [walkPass, hi]
              · cases h

/-- A walk of `cs ++ ds`, where the walk of `cs` that follows trailing symlinks
completed at `i`, is a walk of `ds` from `i` with at most the same budget. -/
theorem walk_append {i : Nat} :
    ∀ (b cur : Nat) (cs : List PathBuf), fs.walk root false ns b cur cs = .complete i →
      ∃ b' ≤ b, fs.walk root nf ns b cur (cs ++ ds) = fs.walk root nf ns b' i ds
  | b, cur, cs, h => by
    have hpa := walkPass_append fs root ns nf hds cs cur
    cases hp : fs.walkPass root false ns cur cs with
    | done r =>
        rw [walk_of_done fs root false ns b hp] at h
        subst h
        exact ⟨b, le_rfl, walk_congr fs root nf ns (hpa.1 _ hp) b⟩
    | expand d t rest =>
        cases b with
        | zero => simp [walk_zero_of_expand fs root false ns hp] at h
        | succ b =>
            rw [walk_of_expand fs root false ns b hp] at h
            by_cases ht : t = []
            · simp [ht] at h
            rw [if_neg ht] at h
            obtain ⟨b', hb, h'⟩ := walk_append b _ _ h
            refine ⟨b', by omega, ?_⟩
            rw [walk_of_expand fs root nf ns b (hpa.2 _ _ _ hp), if_neg ht, ← List.append_assoc, h']

end Append

/-- In a tree `fs'` that grew from `fs`, the walk of a path that does not follow a
trailing symlink runs as the walk of its parent part did in `fs`, then as the pass
over the trailing name from where that walk ended. -/
theorem walk_pathSplit_grow {fs' : Fs} (hg : fs.Grows fs') (root : Nat) (ns : Bool)
    {path parent name : PathBuf} (hps : pathSplit path = (parent, some name)) {d : Nat}
    (hwalk : fs.walk root false ns maxSymlinks root (rawComponents parent) = .complete d) {r : Lookup}
    (hr : fs'.walkPass root true ns d [name] = .done r) :
    fs'.walk root true ns maxSymlinks root (rawComponents path) = r := by
  obtain ⟨b, -, hb⟩ := fs'.walk_append root ns true (List.cons_ne_nil name []) maxSymlinks root _
    (walk_grow hg root false ns maxSymlinks root _ d hwalk)
  rw [walk_congr fs' root true ns (walkPass_pathSplit fs' root true ns hps root), hb]
  exact walk_of_done fs' root true ns b hr

/-! ## `mkdir -p` -/

/-- `mkdir -p` below the directory `d`: each of `parts` made as a directory with
`mode` inside the one made for the part before; the tree left and the last
directory. -/
def mkdirs (fs : Fs) (mode : Mode) : Nat → List PathBuf → Except Errno (Fs × Nat)
  | d, [] => .ok (fs, d)
  | d, part :: parts => do
      let fs' ← fs.mkdirat d part mode
      fs'.mkdirs mode fs.next parts

section Mkdirs

variable {fs} {mode : Mode}

theorem mkdirs_cons_eq_ok {d : Nat} {part : PathBuf} {parts : List PathBuf} {r : Fs × Nat}
    (h : fs.mkdirs mode d (part :: parts) = .ok r) :
    ∃ fs₁, fs.mkdirat d part mode = .ok fs₁ ∧ fs₁.mkdirs mode fs.next parts = .ok r := by
  unfold mkdirs at h
  cases hm : fs.mkdirat d part mode with
  | error e => rw [hm] at h; cases h
  | ok fs₁ => rw [hm] at h; exact ⟨fs₁, rfl, h⟩

/-- `mkdir -p` grows the tree, and ends in a directory when it starts in one. -/
theorem mkdirs_grows : ∀ {fs fs' : Fs} {d last : Nat} (parts : List PathBuf),
    fs.mkdirs mode d parts = .ok (fs', last) → fs.Grows fs' ∧ (fs.isDir d = true → fs'.isDir last = true)
  | _, _, _, _, [], h => by
      cases h
      exact ⟨.refl _, id⟩
  | fs, _, d, _, part :: parts, h => by
      obtain ⟨fs₁, h₁, h₂⟩ := mkdirs_cons_eq_ok h
      obtain ⟨hg₁, -, hnew, -⟩ := fs.mkdirat_grows h₁
      obtain ⟨hg, hlast⟩ := mkdirs_grows parts h₂
      exact ⟨hg₁.trans hg, fun _ => hlast (by simp [isDir, hnew])⟩

/-- In the tree `mkdir -p` leaves, the rest of a path with no `..` runs from the
first directory through the directories made for its named components to the
last one. -/
theorem walkPass_mkdirs (root : Nat) (nf ns : Bool) :
    ∀ (rest : List PathBuf) {fs fs' : Fs} {d last : Nat}, dotDot ∉ rest → fs.isDir d = true →
      fs.mkdirs mode d (rest.filter isNamedPart) = .ok (fs', last) →
      fs'.walkPass root nf ns d rest = .done (.complete last)
  | [], _, _, _, _, _, _, h => by
      cases h
      simp [walkPass]
  | c :: rest, fs, fs', d, last, hup, hd, h => by
      have hup' : dotDot ∉ rest := fun hm => hup (List.mem_cons_of_mem _ hm)
      have hd' := (mkdirs_grows _ h).1.isDir hd
      cases hc : isNamedPart c with
      | false =>
          rw [List.filter_cons_of_neg (by simp [hc])] at h
          rw [walkPass_cons_skip fs' root nf ns rest hd' hc]
          exact walkPass_mkdirs root nf ns rest hup' hd h
      | true =>
          rw [List.filter_cons_of_pos hc] at h
          obtain ⟨fs₁, h₁, h₂⟩ := mkdirs_cons_eq_ok h
          obtain ⟨hg₁, hlook, hnew, -, -, -, hne, hdot, hdd⟩ := fs.mkdirat_grows h₁
          have hg := (mkdirs_grows _ h₂).1
          rw [walkPass_cons_dir fs' root nf ns rest hd' ⟨hne, hdot, hdd⟩
            (hg.lookup (hg₁.isDir hd) hlook) (hg.typeOf hnew)]
          exact walkPass_mkdirs root nf ns rest hup' (by simp [isDir, hnew]) h₂

/-- In the tree `mkdir -p` leaves below the directory where the walk of the first
`k` components of `cs` completed, making the named components after them, none of
them `..`, the walk of the whole of `cs` completes at the last directory made. -/
theorem walk_mkdirs {fs fs' : Fs} {root ns} {cs : List PathBuf} {k j last : Nat}
    (hpre : fs.walk root false ns maxSymlinks root (cs.take k) = .complete j)
    (hup : dotDot ∉ cs.drop k) (hj : fs.isDir j = true)
    (hm : fs.mkdirs mode j ((cs.drop k).filter isNamedPart) = .ok (fs', last)) :
    fs'.walk root false ns maxSymlinks root cs = .complete last := by
  have hpre' := walk_grow (mkdirs_grows _ hm).1 root false ns maxSymlinks root _ j hpre
  have hpass := walkPass_mkdirs root false ns _ hup hj hm
  rw [← List.take_append_drop k cs]
  by_cases hd : cs.drop k = []
  · rw [hd] at hpass ⊢
    cases hpass
    rwa [List.append_nil]
  · obtain ⟨b, -, hb⟩ := fs'.walk_append root ns false hd maxSymlinks root _ hpre'
    rw [hb]
    exact walk_of_done fs' root false ns b hpass

end Mkdirs

end Fs

end Pathrs
