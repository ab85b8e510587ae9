import Pathrs.Grow
import Pathrs.Sys

/-!
# The subtree of a root

A `Root` is meant to confine every operation to the tree below its directory.
This module says what that tree is and which edits of the kernel keep to it.

An inode lies below `top` when following `..` from it reaches `top` (`Fs.Below`);
`isUnder`, which `remove_all`'s model uses, is a bounded search for the same
(`below_of_isUnder`). In a tree the kernel keeps, `..` is where a directory is
entered: an entry that names a directory lies in the directory the `..` of that
directory names, and a directory has one name there (`Fs.WellLinked`). In such a
tree a walk rooted at `top` keeps to the subtree of `top`: `..` at `top` stays
there, and every other step goes down an entry or up a `..` below `top`, so the
inode it ends at lies below `top` or is named by an entry of a directory below
`top` (`Fs.InTree`, `walk_below`).

A tree keeps another outside the subtree of `i` (`Fs.Confined`) when every inode
not below `i` keeps its record, its entries and its `..`. What was outside then
stays outside (`Confined.not_below`), so such steps compose (`Confined.trans`).
Each edit of a system call keeps the tree well linked and is confined when the
directories it changes lie below `i` (`mkdirat_within`, `linkat_within`,
`unlinkat_within`, `renameat2_within`, `removeAll_within`, `openat_within`);
`openat` needs `O_NOFOLLOW` for this, which `syscalls::openat` always adds: one
that followed a trailing symlink would create outside.
-/

set_option autoImplicit false

namespace Pathrs

open PathBuf

namespace Fs

/-- The inode `e` lies in the subtree of `top`: following `..` from `e` reaches `top`. -/
inductive Below (fs : Fs) (top : Nat) : Nat → Prop
  | self : Below fs top top
  | up {e : Nat} : Below fs top (fs.parent e) → Below fs top e

/-- The tree keeps `..` where directories are entered, as the kernel does: an entry
that names a directory lies in the directory that directory's `..` names, and no
directory has two names there. -/
structure WellLinked (fs : Fs) : Prop where
  parent_eq : ∀ {d n j}, fs.lookup d n = some j → fs.isDir j = true → fs.parent j = d
  name_eq : ∀ {d n n' j}, fs.lookup d n = some j → fs.lookup d n' = some j → fs.isDir j = true →
    n = n'

/-- `fs'` keeps `fs` outside the subtree of `i`: it has every inode of `fs`, and each
of them that does not lie below `i` keeps its record, its entries and its `..`. -/
structure Confined (i : Nat) (fs fs' : Fs) : Prop where
  next_le : fs.next ≤ fs'.next
  outside : ∀ {e}, e < fs.next → ¬fs.Below i e →
    fs'.inode e = fs.inode e ∧ fs'.entries e = fs.entries e ∧ fs'.parent e = fs.parent e

namespace Below

variable {fs : Fs} {top : Nat}

theorem trans {mid e : Nat} (h : fs.Below mid e) (h' : fs.Below top mid) : fs.Below top e := by
  induction h with
  | self => exact h'
  | up _ ih => exact .up ih

/-- Below `top`, an inode other than `top` has its `..` below `top`. -/
theorem parent_of_ne {e : Nat} (h : fs.Below top e) (he : e ≠ top) :
    fs.Below top (fs.parent e) := by
  cases h with
  | self => exact absurd rfl he
  | up h => exact h

/-- An inode below `top` stays so in a tree that keeps the `..` of every inode. -/
theorem of_parent_eq {fs' : Fs} (hp : ∀ e, e < fs.next → fs'.parent e = fs.parent e) {e : Nat}
    (h : fs.Below top e) (he : e < fs.next) : fs'.Below top e := by
  induction h with
  | self => exact .self
  | @up e _ ih => exact .up (by rw [hp e he]; exact ih (fs.parent_lt e he))

end Below

variable (fs : Fs)

theorem below_of_reaches {top : Nat} : ∀ (k x : Nat), fs.reaches top k x = true → fs.Below top x
  | 0, x, h => by
      rw [show x = top by simpa [reaches] using h]
      exact .self
  | k + 1, x, h => by
      simp only [reaches, Bool.or_eq_true, beq_iff_eq, Bool.and_eq_true] at h
      rcases h with rfl | ⟨-, h⟩
      · exact .self
      · exact .up (below_of_reaches k _ h)

/-- What `isUnder` finds, `..` links reach. -/
theorem below_of_isUnder {x top : Nat} (h : fs.isUnder x top = true) : fs.Below top x :=
  fs.below_of_reaches fs.next x h

/-- The inode `j` is in the tree of `top`: it lies below `top`, or an entry of a
directory below `top` names it. -/
def InTree (top j : Nat) : Prop := fs.Below top j ∨ ∃ d n, fs.Below top d ∧ fs.lookup d n = some j

namespace InTree

variable {fs} {top j : Nat}

/-- In a well-linked tree, a directory of the tree of `top` lies below `top`. -/
theorem below_of_isDir (h : fs.InTree top j) (hwl : fs.WellLinked) (hj : fs.isDir j = true) :
    fs.Below top j := by
  rcases h with h | ⟨d, n, hb, hl⟩
  · exact h
  · exact .up (hwl.parent_eq hl hj ▸ hb)

theorem trans {mid : Nat} (h : fs.InTree mid j) (h' : fs.Below top mid) : fs.InTree top j := by
  rcases h with h | ⟨d, n, hb, hl⟩
  · exact .inl (h.trans h')
  · exact .inr ⟨d, n, hb.trans h', hl⟩

end InTree

namespace Confined

variable {fs} {i : Nat} {fs' fs'' : Fs}

theorem refl : fs.Confined i fs := ⟨le_rfl, fun _ _ => ⟨rfl, rfl, rfl⟩⟩

/-- An inode outside the subtree stays outside: its `..` links are those of `fs`. -/
theorem not_below (h : fs.Confined i fs') {e : Nat} (he : e < fs.next) (hb : ¬fs.Below i e) :
    ¬fs'.Below i e := by
  intro hb'
  induction hb' with
  | self => exact hb .self
  | @up e _ ih =>
      rw [(h.outside he hb).2.2] at ih
      exact ih (fs.parent_lt e he) fun hp => hb (.up hp)

theorem trans (h : fs.Confined i fs') (h' : fs'.Confined i fs'') : fs.Confined i fs'' where
  next_le := h.next_le.trans h'.next_le
  outside he hb := by
    obtain ⟨h₁, h₂, h₃⟩ := h.outside he hb
    obtain ⟨h₁', h₂', h₃'⟩ := h'.outside (Nat.lt_of_lt_of_le he h.next_le) (h.not_below he hb)
    exact ⟨h₁'.trans h₁, h₂'.trans h₂, h₃'.trans h₃⟩

end Confined

/-! ## Walks keep to the subtree -/

section Walk

variable {fs} (hwl : fs.WellLinked) (top : Nat) (nf ns : Bool)
include hwl

/-- A pass rooted at `top` keeps to the tree of `top`: from an inode of that tree,
it completes at an inode of that tree, and stops for a missing name or a symlink in
a directory below `top`. -/
theorem walkPass_below : ∀ (cur : Nat) (cs : List PathBuf), fs.InTree top cur →
    (∀ j, fs.walkPass top nf ns cur cs = .done (.complete j) → fs.InTree top j) ∧
    (∀ d rest, fs.walkPass top nf ns cur cs = .done (.missing d rest) → fs.Below top d) ∧
    (∀ d t rest, fs.walkPass top nf ns cur cs = .expand d t rest → fs.Below top d)
  | cur, [], hcur => by
      simp only [walkPass, Pass.done.injEq, Lookup.complete.injEq, reduceCtorEq, false_implies,
        implies_true, and_true]
      rintro j rfl
      exact hcur
  | cur, c :: rest, hcur => by
    by_cases hdir : fs.isDir cur = true
    swap
    · simp [walkPass, hdir]
    have hb := hcur.below_of_isDir hwl hdir
    by_cases hskip : c = [] ∨ c = dot
    · rw [show fs.walkPass top nf ns cur (c :: rest) = fs.walkPass top nf ns cur rest by
        simp [walkPass, hdir, hskip]]
      exact walkPass_below cur rest hcur
    by_cases hup : c = dotDot
    · subst hup
      rw [show fs.walkPass top nf ns cur (dotDot :: rest) =
          fs.walkPass top nf ns (if cur = top then cur else fs.parent cur) rest by
        simp [walkPass, hdir, hskip]]
      refine walkPass_below _ rest (.inl ?_)
      split_ifs with h
      · exact hb
      · exact hb.parent_of_ne h
    have hc : c ≠ [] ∧ c ≠ dot ∧ c ≠ dotDot :=
      ⟨fun h => hskip (.inl h), fun h => hskip (.inr h), hup⟩
    cases hl : fs.lookup cur c with
    | none =>
        rw [show fs.walkPass top nf ns cur (c :: rest) = .done (.missing cur (c :: rest)) by
          simp [walkPass, hdir, hskip, hup, hl]]
        exact ⟨fun _ h => (nomatch h), fun _ _ h => by cases h; exact hb, fun _ _ _ h => nomatch h⟩
    | some j =>
        have hin : fs.InTree top j := .inr ⟨cur, c, hb, hl⟩
        cases ht : fs.typeOf j with
        | none => simp [walkPass, hdir, hskip, hup, hl, ht]
        | some t =>
            rcases t.dir_or_symlink_or_plain with rfl | ⟨target, rfl⟩ | ⟨hnd, hns⟩
            · rw [walkPass_cons_dir fs top nf ns rest hdir hc hl ht]
              exact walkPass_below j rest hin
            · rw [walkPass_cons_symlink fs top nf ns rest hdir hc hl ht]
              refine ⟨fun _ h => ?_, fun _ _ h => ?_, fun _ _ _ h => ?_⟩ <;>
                split_ifs at h <;> cases h
              · exact hin
              · exact hb
            · rw [walkPass_cons_plain fs top nf ns rest hdir hc hl ht hnd hns]
              refine ⟨fun _ h => ?_, fun _ _ h => ?_, fun _ _ _ h => ?_⟩ <;>
                split_ifs at h <;> cases h
              exact hin

/-- A walk rooted at `top` keeps to the tree of `top`: from an inode of that tree,
the inode it completes at is in that tree, and the directory where it finds a name
missing lies below `top`. -/
theorem walk_below : ∀ (b cur : Nat) (cs : List PathBuf), fs.InTree top cur →
    (∀ j, fs.walk top nf ns b cur cs = .complete j → fs.InTree top j) ∧
    (∀ d rest, fs.walk top nf ns b cur cs = .missing d rest → fs.Below top d)
  | b, cur, cs, hcur => by
    obtain ⟨hc, hm, he⟩ := walkPass_below hwl top nf ns cur cs hcur
    cases hp : fs.walkPass top nf ns cur cs with
    | done r =>
        rw [walk_of_done fs top nf ns b hp]
        exact ⟨fun j h => hc j (h ▸ hp), fun d rest h => hm d rest (h ▸ hp)⟩
    | expand d t rest =>
        cases b with
        | zero => simp [walk_zero_of_expand fs top nf ns hp]
        | succ b =>
            rw [walk_of_expand fs top nf ns b hp]
            by_cases ht : t = []
            · simp [ht]
            rw [if_neg ht]
            refine walk_below b _ _ (.inl ?_)
            split_ifs
            · exact .self
            · exact he d t rest hp

end Walk

/-! ## Edits that keep the tree well linked -/

section Edits

variable {fs}

/-- A tree whose entries naming directories are entries of a well-linked tree, naming
there a directory with the same `..`, is well linked. -/
theorem WellLinked.of_old {fs' : Fs} (hwl : fs.WellLinked)
    (h : ∀ {e n j}, fs'.lookup e n = some j → fs'.isDir j = true →
      fs.lookup e n = some j ∧ fs.isDir j = true ∧ fs'.parent j = fs.parent j) :
    fs'.WellLinked where
  parent_eq hl hj := (h hl hj).2.2.trans (hwl.parent_eq (h hl hj).1 (h hl hj).2.1)
  name_eq hl hl' hj := hwl.name_eq (h hl hj).1 (h hl' hj).1 (h hl hj).2.1

theorem WellLinked.unlink (hwl : fs.WellLinked) {d : Nat} {name : PathBuf} :
    (fs.unlink d name).WellLinked :=
  hwl.of_old fun hl hj => by
    rw [unlink_lookup] at hl
    split_ifs at hl
    exact ⟨hl, hj, rfl⟩

theorem WellLinked.clearUnder (hwl : fs.WellLinked) {top : Nat} : (fs.clearUnder top).WellLinked :=
  hwl.of_old fun hl hj => by
    rw [clearUnder_lookup] at hl
    split_ifs at hl
    exact ⟨hl, hj, rfl⟩

/-- A hard link to anything but a directory keeps the tree well linked. -/
theorem WellLinked.link (hwl : fs.WellLinked) {d : Nat} {name : PathBuf} {i : Nat}
    {hi : i < fs.next} (hdir : fs.isDir i = false) : (fs.link d name i hi).WellLinked :=
  hwl.of_old fun hl hj => by
    rw [link_lookup] at hl
    split_ifs at hl
    · cases hl
      exact absurd (hj.symm.trans hdir) (by decide)
    · exact ⟨hl, hj, rfl⟩

/-- An entry of the tree after allocating: the new one, or an old one. -/
theorem create_lookup_eq_some {d : Nat} {name : PathBuf} {node : Inode} {hd : d < fs.next}
    {e j : Nat} {n : PathBuf} (h : (fs.create d name node hd).lookup e n = some j) :
    (e = d ∧ n = name ∧ j = fs.next) ∨ (j < fs.next ∧ fs.lookup e n = some j) := by
  rw [create_lookup] at h
  split_ifs at h with h₁
  · cases h
    exact .inl ⟨h₁.1, h₁.2, rfl⟩
  · exact .inr ⟨fs.lt_next_of_lookup h, h⟩

/-- Allocating keeps the tree well linked: the new inode's `..` is where it is entered. -/
theorem WellLinked.create (hwl : fs.WellLinked) {d : Nat} {name : PathBuf} {node : Inode}
    {hd : d < fs.next} : (fs.create d name node hd).WellLinked := by
  have hdir : ∀ {j}, j < fs.next → (fs.create d name node hd).isDir j = fs.isDir j := fun hj => by
    simp [isDir, create_typeOf_old hj]
  constructor
  · intro e n j hl hj
    rcases create_lookup_eq_some hl with ⟨rfl, -, rfl⟩ | ⟨hlt, hl₀⟩
    · exact if_pos rfl
    · rw [create_parent_old hlt]
      exact hwl.parent_eq hl₀ (by rwa [hdir hlt] at hj)
  · intro e n n' j hl hl' hj
    rcases create_lookup_eq_some hl with ⟨-, hn, hjn⟩ | ⟨hlt, hl₀⟩ <;>
      rcases create_lookup_eq_some hl' with ⟨-, hn', hjn'⟩ | ⟨hlt', hl₀'⟩
    · exact hn.trans hn'.symm
    · exact absurd (hjn ▸ hlt') (lt_irrefl _)
    · exact absurd (hjn' ▸ hlt) (lt_irrefl _)
    · exact hwl.name_eq hl₀ hl₀' (by rwa [hdir hlt] at hj)

section Rename

variable {od nd s t : Nat} {oldname newname : PathBuf} {hs : s < fs.next} {ht : t < fs.next}
  {hod : od < fs.next} {hnd : nd < fs.next}

/-- In a well-linked tree, the one entry naming a directory is the one its `..` and
name say. -/
theorem WellLinked.eq_of_lookup (hwl : fs.WellLinked) {e n : Nat} {m : PathBuf} {j : Nat}
    (hl : fs.lookup e m = some j) (hl' : fs.lookup n oldname = some j) (hj : fs.isDir j = true) :
    e = n ∧ m = oldname := by
  obtain rfl : e = n := (hwl.parent_eq hl hj).symm.trans (hwl.parent_eq hl' hj)
  exact ⟨rfl, hwl.name_eq hl hl' hj⟩

theorem move_lookup_eq_some {e j : Nat} {n : PathBuf}
    (h : (fs.move od oldname nd newname s hs hnd).lookup e n = some j) :
    (e = nd ∧ n = newname ∧ j = s) ∨
      (¬(e = nd ∧ n = newname) ∧ ¬(e = od ∧ n = oldname) ∧ fs.lookup e n = some j) := by
  rw [move_lookup] at h
  split_ifs at h with h₁ h₂
  · cases h
    exact .inl ⟨h₁.1, h₁.2, rfl⟩
  · exact .inr ⟨h₁, h₂, h⟩

/-- A move keeps the tree well linked: the moved directory gets its `..` where it is
entered now, and had no other name. -/
theorem WellLinked.move (hwl : fs.WellLinked) (hsrc : fs.lookup od oldname = some s) :
    (fs.move od oldname nd newname s hs hnd).WellLinked := by
  constructor
  · intro e n j hl hj
    rcases move_lookup_eq_some hl with ⟨he, -, hjs⟩ | ⟨-, hne, hl₀⟩
    · subst he hjs
      exact move_parent_self hj
    · have hjs : j ≠ s := fun hjs => hne (hwl.eq_of_lookup hl₀ (hjs ▸ hsrc) hj)
      rw [move_parent, if_neg fun h => hjs h.2]
      exact hwl.parent_eq hl₀ hj
  · intro e n n' j hl hl' hj
    rcases move_lookup_eq_some hl with ⟨-, hn, hjs⟩ | ⟨-, hne, hl₀⟩ <;>
      rcases move_lookup_eq_some hl' with ⟨-, hn', hjs'⟩ | ⟨-, hne', hl₀'⟩
    · exact hn.trans hn'.symm
    · exact absurd (hwl.eq_of_lookup hl₀' (hjs ▸ hsrc) hj) hne'
    · exact absurd (hwl.eq_of_lookup hl₀ (hjs' ▸ hsrc) hj) hne
    · exact hwl.name_eq hl₀ hl₀' hj

theorem exchange_lookup_eq_some {e j : Nat} {n : PathBuf}
    (h : (fs.exchange od oldname nd newname s t hs ht hod hnd).lookup e n = some j) :
    (e = nd ∧ n = newname ∧ j = s) ∨ (e = od ∧ n = oldname ∧ j = t) ∨
      (¬(e = nd ∧ n = newname) ∧ ¬(e = od ∧ n = oldname) ∧ fs.lookup e n = some j) := by
  rw [exchange_lookup] at h
  split_ifs at h with h₁ h₂
  · cases h
    exact .inl ⟨h₁.1, h₁.2, rfl⟩
  · cases h
    exact .inr (.inl ⟨h₂.1, h₂.2, rfl⟩)
  · exact .inr (.inr ⟨h₁, h₂, h⟩)

/-- A swap keeps the tree well linked: each swapped directory gets its `..` where it is
entered now. -/
theorem WellLinked.exchange (hwl : fs.WellLinked) (hsrc : fs.lookup od oldname = some s)
    (hdst : fs.lookup nd newname = some t) :
    (fs.exchange od oldname nd newname s t hs ht hod hnd).WellLinked := by
  have hdir : ∀ j, (fs.exchange od oldname nd newname s t hs ht hod hnd).isDir j = fs.isDir j :=
    fun _ => rfl
  constructor
  · intro e n j hl hj
    rw [hdir] at hj
    rcases exchange_lookup_eq_some hl with ⟨he, -, hjs⟩ | ⟨he, -, hjt⟩ | ⟨hne₁, hne₂, hl₀⟩
    · subst he hjs
      rw [exchange_parent]
      split_ifs with h₁ h₂
      · obtain ⟨-, rfl⟩ := h₁
        exact (hwl.eq_of_lookup hsrc hdst hj).1
      · rfl
      · exact absurd ⟨hj, rfl⟩ h₂
    · subst he hjt
      rw [exchange_parent, if_pos ⟨hj, rfl⟩]
    · have hjs : j ≠ s := fun hjs => hne₂ (hwl.eq_of_lookup hl₀ (hjs ▸ hsrc) hj)
      have hjt : j ≠ t := fun hjt => hne₁ (hwl.eq_of_lookup hl₀ (hjt ▸ hdst) hj)
      rw [exchange_parent, if_neg fun h => hjt h.2, if_neg fun h => hjs h.2]
      exact hwl.parent_eq hl₀ hj
  · intro e n n' j hl hl' hj
    rw [hdir] at hj
    rcases exchange_lookup_eq_some hl with ⟨-, hn, hj₁⟩ | ⟨-, hn, hj₁⟩ | ⟨hne₁, hne₂, hl₀⟩ <;>
      rcases exchange_lookup_eq_some hl' with ⟨-, hn', hj₁'⟩ | ⟨-, hn', hj₁'⟩ |
        ⟨hne₁', hne₂', hl₀'⟩
    · exact hn.trans hn'.symm
    · exact hn.trans ((hwl.eq_of_lookup (hj₁' ▸ hdst) (hj₁ ▸ hsrc) hj).2.trans hn'.symm)
    · exact absurd (hwl.eq_of_lookup hl₀' (hj₁ ▸ hsrc) hj) hne₂'
    · exact hn.trans ((hwl.eq_of_lookup (hj₁' ▸ hsrc) (hj₁ ▸ hdst) hj).2.trans hn'.symm)
    · exact hn.trans hn'.symm
    · exact absurd (hwl.eq_of_lookup hl₀' (hj₁ ▸ hdst) hj) hne₁'
    · exact absurd (hwl.eq_of_lookup hl₀ (hj₁' ▸ hsrc) hj) hne₂
    · exact absurd (hwl.eq_of_lookup hl₀ (hj₁' ▸ hdst) hj) hne₁
    · exact hwl.name_eq hl₀ hl₀' hj

end Rename

end Edits

/-! ## Edits below the root -/

section Confine

variable {fs} {i : Nat}

theorem create_confined {d : Nat} {name : PathBuf} {node : Inode} {hd : d < fs.next}
    (hb : fs.Below i d) : fs.Confined i (fs.create d name node hd) where
  next_le := Nat.le_succ _
  outside {e} he hnb := by
    have hed : e ≠ d := fun h => hnb (h ▸ hb)
    exact ⟨create_inode_old he, by simp [create, Nat.ne_of_lt he, hed], create_parent_old he⟩

theorem link_confined {d : Nat} {name : PathBuf} {j : Nat} {hj : j < fs.next}
    (hb : fs.Below i d) : fs.Confined i (fs.link d name j hj) where
  next_le := le_rfl
  outside {e} _ hnb := by
    have hed : e ≠ d := fun h => hnb (h ▸ hb)
    exact ⟨rfl, by simp [link, hed], rfl⟩

theorem unlink_confined {d : Nat} {name : PathBuf} (hb : fs.Below i d) :
    fs.Confined i (fs.unlink d name) where
  next_le := le_rfl
  outside {e} _ hnb := by
    have hed : e ≠ d := fun h => hnb (h ▸ hb)
    exact ⟨rfl, by simp [unlink, hed], rfl⟩

/-- Removing an entry of a directory below `i` and emptying the subtree of a
directory below `i` keeps the tree outside. -/
theorem clearUnder_unlink_confined {top d : Nat} {name : PathBuf} (htop : fs.Below i top)
    (hb : fs.Below i d) : fs.Confined i ((fs.clearUnder top).unlink d name) where
  next_le := le_rfl
  outside {e} _ hnb := by
    have hu : fs.isUnder e top = false := by
      by_contra h
      exact hnb ((fs.below_of_isUnder (by simpa using h)).trans htop)
    have hed : e ≠ d := fun h => hnb (h ▸ hb)
    exact ⟨rfl, by simp [clearUnder, unlink, hu, hed], rfl⟩

theorem move_confined {od nd s : Nat} {oldname newname : PathBuf} {hs : s < fs.next}
    {hnd : nd < fs.next} (hbo : fs.Below i od) (hbn : fs.Below i nd)
    (hbs : fs.isDir s = true → fs.Below i s) :
    fs.Confined i (fs.move od oldname nd newname s hs hnd) where
  next_le := le_rfl
  outside {e} _ hnb := by
    have h₁ : e ≠ od := fun h => hnb (h ▸ hbo)
    have h₂ : e ≠ nd := fun h => hnb (h ▸ hbn)
    refine ⟨rfl, by simp [move, put, link, unlink, reparent, h₁, h₂], ?_⟩
    rw [move_parent, if_neg (by rintro ⟨hs, rfl⟩; exact hnb (hbs hs))]

theorem exchange_confined {od nd s t : Nat} {oldname newname : PathBuf} {hs : s < fs.next}
    {ht : t < fs.next} {hod : od < fs.next} {hnd : nd < fs.next} (hbo : fs.Below i od)
    (hbn : fs.Below i nd) (hbs : fs.isDir s = true → fs.Below i s)
    (hbt : fs.isDir t = true → fs.Below i t) :
    fs.Confined i (fs.exchange od oldname nd newname s t hs ht hod hnd) where
  next_le := le_rfl
  outside {e} _ hnb := by
    have h₁ : e ≠ od := fun h => hnb (h ▸ hbo)
    have h₂ : e ≠ nd := fun h => hnb (h ▸ hbn)
    refine ⟨rfl, by simp [exchange, put, link, unlink, reparent, h₁, h₂], ?_⟩
    rw [exchange_parent, if_neg (by rintro ⟨ht, rfl⟩; exact hnb (hbt ht)),
      if_neg (by rintro ⟨hs, rfl⟩; exact hnb (hbs hs))]

end Confine

/-! ## System calls below the root -/

section Calls

variable {fs} {i : Nat} {fs' : Fs}

theorem isDir_of_unlinkat {d : Nat} {name : PathBuf} {flags : BitVec 32}
    (h : fs.unlinkat d name flags = .ok fs') : fs.isDir d = true := by
  unfold unlinkat at h
  obtain ⟨-, h⟩ := ite_error_eq_ok h
  simpa using (ite_error_eq_ok h).1

theorem isDir_of_removeAll {d : Nat} {name : PathBuf} (h : fs.removeAll d name = .ok fs') :
    fs.isDir d = true := by
  unfold Fs.removeAll at h
  simpa using (ite_error_eq_ok h).1

variable (hwl : fs.WellLinked)
include hwl

/-- A creating call keeps the tree well linked, and keeps it outside the subtree of
`i` when its directory lies below `i`. -/
theorem Creates.within {d : Nat} {name : PathBuf} {t : FileType}
    (hd : fs.isDir d = true → fs.Below i d) (h : fs.Creates d name t fs') :
    fs.Confined i fs' ∧ fs'.WellLinked := by
  obtain ⟨hce, node, _, -, rfl⟩ := h
  exact ⟨create_confined (hd (fs.isDir_of_createError hce)), hwl.create⟩

theorem createEntry_within {d : Nat} {name : PathBuf} {node : Inode} {k : Nat}
    (hd : fs.isDir d = true → fs.Below i d) (h : fs.createEntry d name node = .ok (fs', k)) :
    fs.Confined i fs' ∧ fs'.WellLinked :=
  Creates.within hwl hd (fs.creates_of_createEntry h)

theorem mkdirat_within {d : Nat} {name : PathBuf} {mode : Mode}
    (hd : fs.isDir d = true → fs.Below i d) (h : fs.mkdirat d name mode = .ok fs') :
    fs.Confined i fs' ∧ fs'.WellLinked :=
  Creates.within hwl hd (fs.creates_of_mkdirat h)

theorem mknodat_within {d : Nat} {name : PathBuf} {mode : Mode} {dev : Dev}
    (hd : fs.isDir d = true → fs.Below i d) (h : fs.mknodat d name mode dev = .ok fs') :
    fs.Confined i fs' ∧ fs'.WellLinked := by
  cases ht : mknodType mode dev with
  | error e => simp [mknodat, ht, bind, Except.bind] at h
  | ok t => exact Creates.within hwl hd (fs.creates_of_mknodat ht h)

theorem symlinkat_within {target : PathBuf} {d : Nat} {name : PathBuf}
    (hd : fs.isDir d = true → fs.Below i d) (h : fs.symlinkat target d name = .ok fs') :
    fs.Confined i fs' ∧ fs'.WellLinked :=
  Creates.within hwl hd (fs.creates_of_symlinkat h)

/-- `linkat(2)` changes the directory of its new name only, and never links a directory. -/
theorem linkat_within {olddir newdir : Nat} {oldname newname : PathBuf} {flags : BitVec 32}
    (hd : fs.isDir newdir = true → fs.Below i newdir)
    (h : fs.linkat olddir oldname newdir newname flags = .ok fs') :
    fs.Confined i fs' ∧ fs'.WellLinked := by
  obtain ⟨j, _, -, -, -, -, -, hdir, hce, rfl⟩ := fs.linkat_eq_ok h
  exact ⟨link_confined (hd (fs.isDir_of_createError hce)), hwl.link hdir⟩

theorem unlinkat_within {d : Nat} {name : PathBuf} {flags : BitVec 32}
    (hd : fs.isDir d = true → fs.Below i d) (h : fs.unlinkat d name flags = .ok fs') :
    fs.Confined i fs' ∧ fs'.WellLinked := by
  have hb := hd (isDir_of_unlinkat h)
  obtain ⟨-, -, rfl, -⟩ := fs.unlinkat_eq_ok h
  exact ⟨unlink_confined hb, hwl.unlink⟩

/-- `renameat2(2)` changes its two directories only, and the `..` of the directories
it moves, which are entries of those. -/
theorem renameat2_within {od nd : Nat} {oldname newname : PathBuf} {flags : BitVec 32}
    (hdo : fs.isDir od = true → fs.Below i od) (hdn : fs.isDir nd = true → fs.Below i nd)
    (h : fs.renameat2 od oldname nd newname flags = .ok fs') :
    fs.Confined i fs' ∧ fs'.WellLinked := by
  obtain ⟨hod, hnd, s, _, _, hsrc, rfl | rfl | ⟨t, _, _, hdst, rfl⟩⟩ := fs.renameat2_eq_ok h
  · exact ⟨.refl, hwl⟩
  · exact ⟨move_confined (hdo hod) (hdn hnd)
      (fun hs => .up (by rw [hwl.parent_eq hsrc hs]; exact hdo hod)), hwl.move hsrc⟩
  · exact ⟨exchange_confined (hdo hod) (hdn hnd)
      (fun hs => .up (by rw [hwl.parent_eq hsrc hs]; exact hdo hod))
      (fun ht => .up (by rw [hwl.parent_eq hdst ht]; exact hdn hnd)), hwl.exchange hsrc hdst⟩

/-- `remove_all` changes its directory and the subtree of the entry it removes only. -/
theorem removeAll_within {d : Nat} {name : PathBuf} (hd : fs.isDir d = true → fs.Below i d)
    (h : fs.removeAll d name = .ok fs') : fs.Confined i fs' ∧ fs'.WellLinked := by
  have hb := hd (isDir_of_removeAll h)
  obtain ⟨j, hj, rfl⟩ := Fs.removeAll_eq_ok h
  split_ifs with hdir
  · exact ⟨clearUnder_unlink_confined (.up (by rw [hwl.parent_eq hj hdir]; exact hb)) hb,
      hwl.clearUnder.unlink⟩
  · exact ⟨unlink_confined hb, hwl.unlink⟩

/-- `openat(2)` with `O_NOFOLLOW` keeps the tree well linked, and keeps it outside
the subtree of `i` when its directory lies below `i`: it cannot follow a trailing
symlink. -/
theorem openat_within {d : Nat} {name : PathBuf} {flags : OpenFlags} {mode : Mode} {k : Nat}
    (hd : fs.isDir d = true → fs.Below i d) (hnofollow : flags.contains libc.O_NOFOLLOW = true)
    (h : fs.openat d name flags mode = .ok (fs', k)) : fs.Confined i fs' ∧ fs'.WellLinked := by
  rcases fs.openat_eq_ok h with rfl | hc | ⟨hnof, -⟩
  · exact ⟨.refl, hwl⟩
  · exact createEntry_within hwl hd hc
  · simp [hnof] at hnofollow

end Calls

end Fs

end Pathrs
