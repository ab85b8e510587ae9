import Mathlib.Data.List.Basic

/-!
# The libc constants the crate passes to the kernel

`root.rs` builds the arguments of its system calls from `libc` constants: the
`S_IF*` file-type bits of a mode, the `O_*` open flags, `AT_REMOVEDIR` and the
`errno` values it raises itself. Modes are the kernel's `mode_t`, a `u32`, and
are modelled as `BitVec 32`; flag words as the bit vectors of their C type.

The three bit lemmas at the end say what masking with `!S_IFMT` and or-ing a type
in does to a mode, for every mode: the type bits become exactly the or-ed type
(`or_and_not_and_self`), and the remaining bits are those of the mode
(`or_and_not_and_not`).
-/

set_option autoImplicit false

namespace Pathrs

/-- `mode_t`, and `Permissions::mode()`: a `u32`. -/
abbrev Mode := BitVec 32

/-- `dev_t`: a `u64`. -/
abbrev Dev := BitVec 64

/-- An `errno` value. -/
abbrev Errno := Int

namespace libc

/-- The file-type bits of a mode. -/
def S_IFMT : Mode := 0o170000
/-- Socket. -/
def S_IFSOCK : Mode := 0o140000
/-- Symbolic link. -/
def S_IFLNK : Mode := 0o120000
/-- Regular file. -/
def S_IFREG : Mode := 0o100000
/-- Block device. -/
def S_IFBLK : Mode := 0o060000
/-- Directory. -/
def S_IFDIR : Mode := 0o040000
/-- Character device. -/
def S_IFCHR : Mode := 0o020000
/-- FIFO. -/
def S_IFIFO : Mode := 0o010000

/-- `O_CREAT`. -/
def O_CREAT : BitVec 32 := 0o100
/-- `O_EXCL`. -/
def O_EXCL : BitVec 32 := 0o200
/-- `O_DIRECTORY`. -/
def O_DIRECTORY : BitVec 32 := 0o200000
/-- `O_NOFOLLOW`. -/
def O_NOFOLLOW : BitVec 32 := 0o400000
/-- `O_PATH`. -/
def O_PATH : BitVec 32 := 0o10000000
/-- `O_NOCTTY`. -/
def O_NOCTTY : BitVec 32 := 0o400
/-- `O_CLOEXEC`. -/
def O_CLOEXEC : BitVec 32 := 0o2000000

/-- `AT_REMOVEDIR`, the `unlinkat(2)` flag. -/
def AT_REMOVEDIR : BitVec 32 := 0x200

/-- `RENAME_NOREPLACE`. -/
def RENAME_NOREPLACE : BitVec 32 := 1
/-- `RENAME_EXCHANGE`. -/
def RENAME_EXCHANGE : BitVec 32 := 2

/-- `EPERM`. -/
def EPERM : Errno := 1
/-- `ENOENT`. -/
def ENOENT : Errno := 2
/-- `EBADF`. -/
def EBADF : Errno := 9
/-- `EBUSY`. -/
def EBUSY : Errno := 16
/-- `EEXIST`. -/
def EEXIST : Errno := 17
/-- `ENOTDIR`. -/
def ENOTDIR : Errno := 20
/-- `EISDIR`. -/
def EISDIR : Errno := 21
/-- `EINVAL`. -/
def EINVAL : Errno := 22
/-- `ENOTEMPTY`. -/
def ENOTEMPTY : Errno := 39
/-- `ELOOP`. -/
def ELOOP : Errno := 40

end libc

/-- `std::fs::Permissions`, read through `PermissionsExt::mode`. -/
structure Permissions where
  mode : Mode
  deriving DecidableEq, Repr

/-- `flags::OpenFlags`: the `O_*` bits of an `open(2)` call, a `c_int`. -/
structure OpenFlags where
  bits : BitVec 32
  deriving DecidableEq, Repr

namespace OpenFlags

/-- `OpenFlags::contains` of bitflags: every bit of `g` is set. -/
def contains (f : OpenFlags) (g : BitVec 32) : Bool := f.bits &&& g == g

/-- `OpenFlags::insert` of bitflags. -/
def insert (f : OpenFlags) (g : BitVec 32) : OpenFlags := ⟨f.bits ||| g⟩

/-- Inserting bits disjoint from `k` does not change whether `k` is contained. -/
theorem contains_insert_of_disjoint (f : OpenFlags) {g k : BitVec 32} (h : g &&& k = 0) :
    (f.insert g).contains k = f.contains k := by
  have : (f.bits ||| g) &&& k = f.bits &&& k := by
    ext i
    have hi := congrArg (fun x => x.getLsbD i) h
    simp only [BitVec.getLsbD_and, BitVec.getLsbD_or, BitVec.getLsbD_zero] at hi ⊢
    revert hi
    cases f.bits.getLsbD i <;> cases g.getLsbD i <;> cases k.getLsbD i <;> simp
  simp only [contains, insert, this]

/-- `OpenFlags::O_DIRECTORY`. -/
def O_DIRECTORY : OpenFlags := ⟨libc.O_DIRECTORY⟩

/-- Inserting bits that cover `k` makes `k` contained. -/
theorem contains_insert_of_covers (f : OpenFlags) {g k : BitVec 32} (h : g &&& k = k) :
    (f.insert g).contains k = true := by
  simp only [contains, insert, beq_iff_eq]
  ext i
  have hi := congrArg (fun x => x.getLsbD i) h
  simp only [BitVec.getLsbD_and, BitVec.getLsbD_or] at hi ⊢
  revert hi
  cases f.bits.getLsbD i <;> cases g.getLsbD i <;> cases k.getLsbD i <;> simp

theorem insert_contains (f : OpenFlags) (g : BitVec 32) : (f.insert g).contains g = true :=
  f.contains_insert_of_covers BitVec.and_self

end OpenFlags

/-- `flags::RenameFlags`: the `RENAME_*` bits of `renameat2(2)`, a `u32`. -/
structure RenameFlags where
  bits : BitVec 32
  deriving DecidableEq, Repr

/-! ## Masking modes -/

section Bits

variable {w : Nat}

/-- Or-ing the type `t` into a mode masked with `!k` gives the type bits `t` under `k`. -/
theorem or_and_not_and_self (t m k : BitVec w) (ht : t &&& k = t) :
    (t ||| (m &&& ~~~k)) &&& k = t := by
  ext i
  have h := congrArg (fun x => x.getLsbD i) ht
  simp only [BitVec.getLsbD_and, BitVec.getLsbD_or, BitVec.getLsbD_not, Fin.is_lt,
    decide_True, Bool.true_and] at h ⊢
  revert h
  cases t.getLsbD i <;> cases m.getLsbD i <;> cases k.getLsbD i <;> simp

/-- Outside `k`, a mode masked with `!k` with a type `t ⊆ k` or-ed in has the bits of the mode. -/
theorem or_and_not_and_not (t m k : BitVec w) (ht : t &&& ~~~k = 0) :
    (t ||| (m &&& ~~~k)) &&& ~~~k = m &&& ~~~k := by
  ext i
  have h := congrArg (fun x => x.getLsbD i) ht
  simp only [BitVec.getLsbD_and, BitVec.getLsbD_or, BitVec.getLsbD_not, Fin.is_lt,
    decide_True, Bool.true_and, BitVec.getLsbD_zero] at h ⊢
  revert h
  cases t.getLsbD i <;> cases m.getLsbD i <;> cases k.getLsbD i <;> simp

/-- A mode inside `a` is unchanged by masking with `!b` when `a` and `b` are disjoint. -/
theorem and_not_eq_self (m a b : BitVec w) (hm : m &&& ~~~a = 0) (hab : a &&& b = 0) :
    m &&& ~~~b = m := by
  ext i
  have h₁ := congrArg (fun x => x.getLsbD i) hm
  have h₂ := congrArg (fun x => x.getLsbD i) hab
  simp only [BitVec.getLsbD_and, BitVec.getLsbD_not, Fin.is_lt, decide_True, Bool.true_and,
    BitVec.getLsbD_zero] at h₁ h₂ ⊢
  revert h₁ h₂
  cases m.getLsbD i <;> cases a.getLsbD i <;> cases b.getLsbD i <;> simp

end Bits

end Pathrs
