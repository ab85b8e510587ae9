/-!
# Error values, their kinds and their chains

`error.rs` defines the crate's error type. `ErrorImpl` is an enum of failure
variants; its `Wrapped` variant puts a context string in front of another
`ErrorImpl`. `Error` is a transparent box around an `ErrorImpl`, `ErrorKind` is
the coarse kind a caller can match on, and the `ErrorExt` trait adds context
through `wrap`/`with_wrap` to an `ErrorImpl`, to an `Error` or to the `Err` side
of a `Result`. `Chain` walks the `std::error::Error::source` links of an error
down to its root cause; `Error::iter_chain_hotfix` starts it at an `Error`.

Errors of types outside this crate (`std::io::Error`, the syscall layer's error,
the resolver's symlink-stack error) are `Foreign` values: a message, the OS error
number they report and an optional source of their own.

Wrapping is a kind-preserving cons on the chain (`kind_wrapMany`,
`chain_wrapMany`): a sequence of contexts `c₁, …, cₙ`, applied at any of the three
`ErrorExt` layers, leaves the kind alone, and the chain yields `cₙ, …, c₁` and
then exactly the chain of the wrapped error (`wrapMany_kind_and_chain`).
-/

set_option autoImplicit false

namespace Pathrs

/-- An error of a type outside this crate, seen through `std::error::Error`: its
message, the OS error number it reports (`raw_os_error()`, for a syscall error
the one of its `root_cause()`) and, for `caused`, its own `source`. -/
inductive Foreign where
  | leaf (message : String) (rawOsError : Option Int)
  | caused (message : String) (rawOsError : Option Int) (source : Foreign)
  deriving DecidableEq, Repr

/-- The OS error number a foreign error reports. -/
def Foreign.rawOsError : Foreign → Option Int
  | .leaf _ n => n
  | .caused _ n _ => n

/-- `ErrorImpl`: the variants of `error.rs`, with the fields each carries. -/
inductive ErrorImpl where
  | notImplemented (feature : String)
  | notSupported (feature : String)
  | invalidArgument (name description : String)
  | safetyViolation (description : String)
  | badSymlinkStackError (description : String) (source : Foreign)
  | osError (operation : String) (source : Foreign)
  | rawOsError (operation : String) (source : Foreign)
  | wrapped (context : String) (source : ErrorImpl)
  deriving DecidableEq, Repr

/-- `ErrorKind`: what a caller can match on. -/
inductive ErrorKind where
  | notImplemented
  | notSupported
  | invalidArgument
  | safetyViolation
  | badSymlinkStack
  | osError (errno : Option Int)
  deriving DecidableEq, Repr

/-- `ErrorImpl::kind`: a `Wrapped` error has the kind of its source. -/
def ErrorImpl.kind : ErrorImpl → ErrorKind
  | .notImplemented _ => .notImplemented
  | .notSupported _ => .notSupported
  | .invalidArgument _ _ => .invalidArgument
  | .safetyViolation _ => .safetyViolation
  | .badSymlinkStackError _ _ => .badSymlinkStack
  | .osError _ source => .osError source.rawOsError
  | .rawOsError _ source => .osError source.rawOsError
  | .wrapped _ source => source.kind

/-- The `#[error(...)]` message of each variant. -/
def ErrorImpl.toString : ErrorImpl → String
  | .notImplemented feature => s!"feature {feature} is not implemented"
  | .notSupported feature => s!"feature {feature} not supported on this kernel"
  | .invalidArgument name description => s!"invalid {name} argument: {description}"
  | .safetyViolation description => s!"violation of safety requirement: {description}"
  | .badSymlinkStackError description _ =>
      s!"broken symlink stack during iteration: {description}"
  | .osError operation _ => s!"{operation} failed"
  | .rawOsError operation _ => s!"{operation} failed"
  | .wrapped context _ => context

/-- `Error`: the public error, a box around an `ErrorImpl`. -/
structure Error where
  inner : ErrorImpl
  deriving DecidableEq, Repr

/-- `From<ErrorImpl> for Error`. -/
def Error.of (e : ErrorImpl) : Error := ⟨e⟩

/-- `Error::kind`. -/
def Error.kind (e : Error) : ErrorKind := e.inner.kind

/-! ## Adding context -/

/-- `ErrorExt`: values that accept a context string. -/
class ErrorExt (α : Type) where
  /-- `with_wrap`: add the context produced by a closure. -/
  withWrap : α → (Unit → String) → α

/-- `ErrorExt::wrap`: `with_wrap` with a context already built. -/
def ErrorExt.wrap {α : Type} [ErrorExt α] (x : α) (context : String) : α :=
  ErrorExt.withWrap x fun _ => context

instance : ErrorExt ErrorImpl := ⟨fun e contextFn => .wrapped (contextFn ()) e⟩

instance : ErrorExt Error := ⟨fun e contextFn => Error.of (ErrorExt.withWrap e.inner contextFn)⟩

/-- `impl<T, E: ErrorExt> ErrorExt for Result<T, E>`: `map_err` of the error's `with_wrap`. -/
instance {ε α : Type} [ErrorExt ε] : ErrorExt (Except ε α) :=
  ⟨fun r contextFn => r.mapError fun err => ErrorExt.withWrap err contextFn⟩

/-- The contexts `c₁, …, cₙ` applied in turn by `wrap`. -/
def wrapMany {α : Type} [ErrorExt α] (x : α) (contexts : List String) : α :=
  contexts.foldl ErrorExt.wrap x

section Wrap

variable {ε α : Type} [ErrorExt ε]

@[simp] theorem withWrap_impl (e : ErrorImpl) (f : Unit → String) :
    ErrorExt.withWrap e f = .wrapped (f ()) e := rfl

@[simp] theorem withWrap_of (e : ErrorImpl) (f : Unit → String) :
    ErrorExt.withWrap (Error.of e) f = Error.of (.wrapped (f ()) e) := rfl

@[simp] theorem withWrap_except_error (x : ε) (f : Unit → String) :
    ErrorExt.withWrap (Except.error x : Except ε α) f = .error (ErrorExt.withWrap x f) := rfl

@[simp] theorem withWrap_except_ok (v : α) (f : Unit → String) :
    ErrorExt.withWrap (Except.ok v : Except ε α) f = .ok v := rfl

theorem wrapMany_except_error (x : ε) (contexts : List String) :
    wrapMany (Except.error x : Except ε α) contexts = .error (wrapMany x contexts) := by
  induction contexts generalizing x with
  | nil => rfl
  | cons c cs ih => exact ih (ErrorExt.wrap x c)

theorem wrapMany_except_ok (v : α) (contexts : List String) :
    wrapMany (Except.ok v : Except ε α) contexts = .ok v := by
  induction contexts with
  | nil => rfl
  | cons c cs ih => exact ih

theorem wrapMany_of (e : ErrorImpl) (contexts : List String) :
    wrapMany (Error.of e) contexts = Error.of (wrapMany e contexts) := by
  induction contexts generalizing e with
  | nil => rfl
  | cons c cs ih => exact ih (.wrapped c e)

theorem wrapMany_append {β : Type} [ErrorExt β] (x : β) (cs₁ cs₂ : List String) :
    wrapMany x (cs₁ ++ cs₂) = wrapMany (wrapMany x cs₁) cs₂ :=
  List.foldl_append _ _ _ _

/-- Wrapping never changes the kind. -/
theorem kind_wrapMany (e : ErrorImpl) (contexts : List String) :
    (wrapMany e contexts).kind = e.kind := by
  induction contexts generalizing e with
  | nil => rfl
  | cons c cs ih => exact ih (.wrapped c e)

end Wrap

/-! ## The source chain -/

/-- A `&dyn std::error::Error` met along a chain. `Error` is
`#[error(transparent)]`: its `Display` and `source` are those of the boxed
`ErrorImpl`, so as a chain item it is that `ErrorImpl`. -/
inductive Dyn where
  | impl (e : ErrorImpl)
  | foreign (f : Foreign)
  deriving DecidableEq, Repr

/-- `std::error::Error::source`: the field named `source`, as `thiserror` derives it. -/
def Dyn.source : Dyn → Option Dyn
  | .impl (.badSymlinkStackError _ s) => some (.foreign s)
  | .impl (.osError _ s) => some (.foreign s)
  | .impl (.rawOsError _ s) => some (.foreign s)
  | .impl (.wrapped _ s) => some (.impl s)
  | .impl _ => none
  | .foreign (.caused _ _ s) => some (.foreign s)
  | .foreign (.leaf _ _) => none

/-- The `Display` message of a chain item. -/
def Dyn.toString : Dyn → String
  | .impl e => e.toString
  | .foreign (.leaf m _) => m
  | .foreign (.caused m _ _) => m

/-- `Chain`: the iterator state, the item to yield next. -/
structure Chain where
  current : Option Dyn

/-- `Chain::next`: yield the current item and move to its source. -/
def Chain.next (c : Chain) : Option Dyn × Chain :=
  (c.current, ⟨c.current.bind Dyn.source⟩)

/-- `Error::iter_chain_hotfix`: the chain starting at the error itself. -/
def Error.iterChainHotfix (e : Error) : Chain := ⟨some (.impl e.inner)⟩

/-- `Yields c l`: calling `next` on `c` returns the items of `l` in order, then `None`. -/
inductive Chain.Yields : Chain → List Dyn → Prop
  | done {c : Chain} : c.current = none → Chain.Yields c []
  | step {c c' : Chain} {d : Dyn} {l : List Dyn} :
      c.next = (some d, c') → Chain.Yields c' l → Chain.Yields c (d :: l)

/-- The chain of a foreign error, the error itself first. -/
def Foreign.chain : Foreign → List Dyn
  | .leaf m n => [.foreign (.leaf m n)]
  | .caused m n s => .foreign (.caused m n s) :: s.chain

/-- The chain of an `ErrorImpl`, the error itself first. -/
def ErrorImpl.chain : ErrorImpl → List Dyn
  | .badSymlinkStackError d s => .impl (.badSymlinkStackError d s) :: s.chain
  | .osError o s => .impl (.osError o s) :: s.chain
  | .rawOsError o s => .impl (.rawOsError o s) :: s.chain
  | .wrapped c s => .impl (.wrapped c s) :: s.chain
  | e => [.impl e]

theorem Foreign.yields_chain (f : Foreign) : Chain.Yields ⟨some (.foreign f)⟩ f.chain := by
  induction f with
  | leaf m n => exact .step rfl (.done rfl)
  | caused m n s ih => exact .step rfl ih

/-- The iterator started at any error yields exactly its chain, then `None`. -/
theorem ErrorImpl.yields_chain (e : ErrorImpl) : Chain.Yields ⟨some (.impl e)⟩ e.chain := by
  induction e with
  | badSymlinkStackError d s => exact .step rfl s.yields_chain
  | osError o s => exact .step rfl s.yields_chain
  | rawOsError o s => exact .step rfl s.yields_chain
  | wrapped c s ih => exact .step rfl ih
  | _ => exact .step rfl (.done rfl)

/-- The contexts applied by `wrapMany` sit in front of the chain, newest first. -/
theorem chain_wrapMany (e : ErrorImpl) (contexts : List String) :
    ∃ ws : List Dyn, (wrapMany e contexts).chain = ws ++ e.chain ∧
      ws.map Dyn.toString = contexts.reverse := by
  induction contexts generalizing e with
  | nil => exact ⟨[], rfl, rfl⟩
  | cons c cs ih =>
      obtain ⟨ws, hchain, hmsg⟩ := ih (.wrapped c e)
      refine ⟨ws ++ [.impl (.wrapped c e)], ?_, ?_⟩
      · rw [List.append_assoc]
        exact hchain
      · simp [hmsg, Dyn.toString, ErrorImpl.toString]

/-- **Wrapping is a kind-preserving cons on the chain.** Contexts applied at every
`ErrorExt` layer in turn: on the bare `ErrorImpl` (`cs₁`), on the `Err` side of a
`Result<_, ErrorImpl>` (`cs₂`), on the `Error` it converts into (`cs₃`) and on the
`Err` side of a `Result<_, Error>` (`cs₄`). The result keeps the kind, its chain
yields the contexts newest first and then exactly the chain of `e`, and an `Ok`
passes through every wrap unchanged. -/
theorem wrapMany_kind_and_chain {α : Type} (e : ErrorImpl) (cs₁ cs₂ cs₃ cs₄ : List String) :
    (∃ E : Error,
      wrapMany ((wrapMany (Except.error (wrapMany e cs₁) : Except ErrorImpl α) cs₂).mapError
          fun x => wrapMany (Error.of x) cs₃) cs₄ = .error E ∧
        E.kind = e.kind ∧
        ∃ ws : List Dyn, E.iterChainHotfix.Yields (ws ++ e.chain) ∧
          ws.map Dyn.toString = (cs₁ ++ cs₂ ++ cs₃ ++ cs₄).reverse) ∧
      ∀ (v : α) (cs : List String), wrapMany (Except.ok v : Except Error α) cs = .ok v := by
  refine ⟨⟨Error.of (wrapMany e (cs₁ ++ cs₂ ++ cs₃ ++ cs₄)), ?_, kind_wrapMany _ _, ?_⟩,
    wrapMany_except_ok⟩
  · simp only [wrapMany_except_error, Except.mapError, wrapMany_of, wrapMany_append]
  · obtain ⟨ws, hchain, hmsg⟩ := chain_wrapMany e (cs₁ ++ cs₂ ++ cs₃ ++ cs₄)
    exact ⟨ws, hchain ▸ ErrorImpl.yields_chain _, hmsg⟩

end Pathrs
