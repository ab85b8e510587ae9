import Mathlib.Data.List.Basic

/-!
# Paths as byte strings

A Unix `Path` is a string of bytes. Every operation of `RootRef` takes such a path
from its caller and splits it with two helpers of the crate's `utils` module,
which `src/` does not contain: `path_split`, which separates the trailing name
from the parent part, and `PathIterExt::raw_components`, which cuts a path at
every `/` and keeps the empty pieces. Both are modelled from the spec's
description of the path utilities.

The trailing name `path_split` returns is a single component
(`pathSplit_isComponent`), and cutting is inverted by joining with `/`
(`rawComponents_joinComponents`, `joinComponents_rawComponents`). Cutting a path
`p/q` gives the components of `p` followed by those of `q`
(`rawComponents_append_slash`).
-/

set_option autoImplicit false

namespace Pathrs

/-- A path: the bytes of a `Path`/`PathBuf`. -/
abbrev PathBuf := List UInt8

namespace PathBuf

/-- `b'/'`. -/
def slash : UInt8 := 47

/-- `"."`. -/
def dot : PathBuf := [46]

/-- `".."`. -/
def dotDot : PathBuf := [46, 46]

/-- `"/"`. -/
def root : PathBuf := [47]

/-- A path is absolute when it starts with `/`. -/
def isAbsolute (p : PathBuf) : Bool := p.head? == some slash

end PathBuf

open PathBuf

/-- A single path component: non-empty and without `/`. -/
def IsComponent (n : PathBuf) : Prop := n ≠ [] ∧ slash ∉ n

instance (n : PathBuf) : Decidable (IsComponent n) := inferInstanceAs (Decidable (_ ∧ _))

/-- Modelled from the spec: `PathIterExt::raw_components` (the `utils` module is
not in `src/`). The path cut at every `/`, empty components kept, so that `a//b/`
has the components `a`, ``, `b` and ``. -/
def rawComponents (p : PathBuf) : List PathBuf := p.splitOn slash

/-- Components joined back with `/`: the path a list of remaining components stands for. -/
def joinComponents (cs : List PathBuf) : PathBuf := [slash].intercalate cs

/-- Modelled from the spec: `utils::path_split` (the `utils` module is not in
`src/`). The path is split at its last `/` into the parent part and the trailing
name; the name is `None` when the path ends in `/` or is empty. A path without
`/` has the parent `.`, a path whose only `/` is its first byte the parent `/`. -/
def pathSplit (p : PathBuf) : PathBuf × Option PathBuf :=
  let name := (p.reverse.takeWhile (· != slash)).reverse
  let parent : PathBuf :=
    match p.reverse.dropWhile (· != slash) with
    | [] => dot
    | [_] => PathBuf.root
    | _ :: before => before.reverse
  (parent, if name = [] then none else some name)

/-- The components `mkdir_all` creates: not empty and not `.`. -/
def isNamedPart (part : PathBuf) : Bool := !part.isEmpty && part != dot

/-! ## Splitting and joining -/

/-- No component of a cut path contains `/`. -/
theorem slash_not_mem_of_mem_rawComponents {p c : PathBuf} (h : c ∈ rawComponents p) :
    slash ∉ c := by
  induction p generalizing c with
  | nil =>
      simp only [rawComponents, List.splitOn_nil, List.mem_singleton] at h
      simp [h]
  | cons b bs ih =>
      simp only [rawComponents, List.splitOn, List.splitOnP_cons] at h ih
      split at h
      · rcases List.mem_cons.1 h with rfl | h
        · simp
        · exact ih h
      · rename_i hb
        cases hs : List.splitOnP (· == slash) bs with
        | nil => exact absurd hs (List.splitOnP_ne_nil _ _)
        | cons d ds =>
            rw [hs] at h ih
            rcases List.mem_cons.1 h with rfl | h
            · simp only [List.mem_cons, not_or]
              exact ⟨fun e => hb (by simp [e]), ih (List.mem_cons_self _ _)⟩
            · exact ih (List.mem_cons_of_mem _ h)

theorem joinComponents_rawComponents (p : PathBuf) : joinComponents (rawComponents p) = p :=
  List.intercalate_splitOn _ _

/-- Cutting inverts joining on lists of `/`-free components. -/
theorem rawComponents_joinComponents {cs : List PathBuf} (hne : cs ≠ [])
    (hcs : ∀ c ∈ cs, slash ∉ c) : rawComponents (joinComponents cs) = cs :=
  List.splitOn_intercalate cs slash hcs hne

/-- A path without `/` is its only component. -/
theorem rawComponents_of_slash_not_mem {c : PathBuf} (h : slash ∉ c) : rawComponents c = [c] := by
  simpa [joinComponents, List.intercalate] using
    rawComponents_joinComponents (List.cons_ne_nil c []) (by simpa using h)

/-- The components of `p/q` are those of `p` followed by those of `q`. -/
theorem rawComponents_append_slash (p q : PathBuf) :
    rawComponents (p ++ slash :: q) = rawComponents p ++ rawComponents q := by
  induction p with
  | nil => simp [rawComponents, List.splitOn, slash]
  | cons b bs ih =>
      simp only [rawComponents, List.splitOn, List.cons_append, List.splitOnP_cons] at ih ⊢
      split
      · rw [ih, List.cons_append]
      · rw [ih]
        cases hs : List.splitOnP (· == slash) bs with
        | nil => exact absurd hs (List.splitOnP_ne_nil _ _)
        | cons d ds => rfl

/-! ## The trailing name -/

/-- The trailing name `path_split` returns is a single component. -/
theorem pathSplit_isComponent {p parent name : PathBuf}
    (h : pathSplit p = (parent, some name)) : IsComponent name := by
  simp only [pathSplit, Prod.mk.injEq] at h
  obtain ⟨-, h⟩ := h
  split at h
  · cases h
  · cases h
    refine ⟨by assumption, fun hm => ?_⟩
    have := List.mem_takeWhile_imp (List.mem_reverse.1 hm)
    simp at this

/-- `path_split` cuts at the last `/`: a path without `/` is its name under the
parent `.`, one whose only `/` is its first byte is `/name`, and any other path is
`parent/name`. -/
theorem pathSplit_cases {p parent name : PathBuf} (h : pathSplit p = (parent, some name)) :
    (parent = dot ∧ p = name) ∨ (parent = PathBuf.root ∧ p = slash :: name) ∨
      p = parent ++ slash :: name := by
  simp only [pathSplit, Prod.mk.injEq, ite_eq_right_iff, reduceCtorEq, imp_false,
    Option.ite_none_left_eq_some, Option.some.injEq] at h
  obtain ⟨hpar, -, hname⟩ := h
  have hp : p = (p.reverse.dropWhile (· != slash)).reverse ++ name := by
    rw [← hname, ← List.reverse_append, List.takeWhile_append_dropWhile, List.reverse_reverse]
  have hhead := List.head_dropWhile_not (· != slash) p.reverse
  revert hpar hp hhead
  cases p.reverse.dropWhile (· != slash) with
  | nil => exact fun hpar hp _ => .inl ⟨hpar.symm, hp⟩
  | cons x rest =>
      intro hpar hp hhead
      have hx : x = slash := by simpa using hhead (List.cons_ne_nil _ _)
      subst hx
      cases rest with
      | nil => exact .inr (.inl ⟨hpar.symm, hp⟩)
      | cons y ys => exact .inr (.inr (by rw [hp, ← hpar]; simp))

/-- The same, read off the name alone. -/
theorem isComponent_of_pathSplit {p name : PathBuf} (h : (pathSplit p).2 = some name) :
    IsComponent name :=
  pathSplit_isComponent (show pathSplit p = ((pathSplit p).1, some name) from Prod.ext rfl h)

end Pathrs
