import Pathrs.Sys

/-!
# A program logic for `Sys`

`Triple P x Q` says that from every world satisfying `P` the computation `x` ends
in a world satisfying `Q r`, where `r` is its result: the value it returns or the
error it fails with. There is one rule per construct the operations of `root.rs` are written
with (`pure`, `throw`, `bind`, `adaptExcept`, `wrap`), and one per primitive, in
weakest-precondition form: the precondition of a primitive is the postcondition
at each outcome the primitive can have.

Most properties of the operations are properties of the calls they issue since
the world they started in. `ReadOnlySince w₀ w` says that since `w₀` only calls
that change nothing were issued and the tree is `w₀`'s; `MutatesLast w₀ w` allows
one more call, the last one, to change the tree; `Obeys p w₀ w` says that each
mutating call issued since `w₀` satisfies `p`, given the calls issued before it.
-/

set_option autoImplicit false

namespace Pathrs

open PathBuf

variable {ε ε' α β : Type}

/-- The world a computation ends in, whether it returned or failed. -/
def worldOf : EStateM.Result ε World α → World
  | .ok _ w => w
  | .error _ w => w

/-- The result of a computation: its value or its error. -/
def resultOf : EStateM.Result ε World α → Except ε α
  | .ok a _ => .ok a
  | .error e _ => .error e

@[simp] theorem worldOf_ok (a : α) (w : World) : worldOf (.ok a w : EStateM.Result ε World α) = w :=
  rfl
@[simp] theorem worldOf_error (e : ε) (w : World) :
    worldOf (.error e w : EStateM.Result ε World α) = w := rfl
@[simp] theorem resultOf_ok (a : α) (w : World) :
    resultOf (.ok a w : EStateM.Result ε World α) = .ok a := rfl
@[simp] theorem resultOf_error (e : ε) (w : World) :
    resultOf (.error e w : EStateM.Result ε World α) = .error e := rfl

/-- From every world satisfying `P`, `x` ends in a world satisfying `Q` at its result. -/
def Triple (P : World → Prop) (x : EStateM ε World α) (Q : Except ε α → World → Prop) : Prop :=
  ∀ w, P w → Q (resultOf (x w)) (worldOf (x w))

namespace Triple

variable {P P' : World → Prop} {Q Q' : Except ε α → World → Prop} {x : EStateM ε World α}

theorem mono (h : Triple P x Q) (hp : ∀ w, P' w → P w) (hq : ∀ v w, Q v w → Q' v w) :
    Triple P' x Q' :=
  fun w hw => hq _ _ (h w (hp w hw))

theorem pure {a : α} (h : ∀ w, P w → Q (.ok a) w) :
    Triple P (Pure.pure a : EStateM ε World α) Q :=
  h

theorem throw {e : ε} (h : ∀ w, P w → Q (.error e) w) :
    Triple P (MonadExcept.throw e : EStateM ε World α) Q :=
  h

theorem bind {R : Except ε α → World → Prop} {f : α → EStateM ε World β}
    {Q : Except ε β → World → Prop} (hx : Triple P x R) (hf : ∀ a, Triple (R (.ok a)) (f a) Q)
    (he : ∀ e w, R (.error e) w → Q (.error e) w) : Triple P (x >>= f) Q := by
  intro w hw
  have h := hx w hw
  show Q (resultOf (EStateM.bind x f w)) (worldOf (EStateM.bind x f w))
  unfold EStateM.bind
  cases hr : x w with
  | ok a w' => rw [hr] at h; exact hf a w' h
  | error e w' => rw [hr] at h; exact he e w' h

theorem throw_bind {e : ε} {f : α → EStateM ε World β} {Q : Except ε β → World → Prop}
    (h : ∀ w, P w → Q (.error e) w) : Triple P (MonadExcept.throw e >>= f) Q :=
  h

theorem pure_bind {a : α} {f : α → EStateM ε World β} {Q : Except ε β → World → Prop}
    (h : Triple P (f a) Q) : Triple P (Pure.pure a >>= f) Q :=
  h

/-- `x >>= f` by the outcome of `x` from each world: `f` runs from the world `x`
returned in. -/
theorem bind_of_cases {f : α → EStateM ε World β} {Q : Except ε β → World → Prop}
    (h : ∀ w, P w → (∀ a w', x w = .ok a w' → Triple (· = w') (f a) Q) ∧
      ∀ e w', x w = .error e w' → Q (.error e) w') : Triple P (x >>= f) Q := by
  intro w hw
  obtain ⟨hok, herr⟩ := h w hw
  show Q (resultOf (EStateM.bind x f w)) (worldOf (EStateM.bind x f w))
  unfold EStateM.bind
  cases hx : x w with
  | ok a w' => exact hok a w' hx w' rfl
  | error e w' => exact herr e w' hx

theorem adaptExcept {g : ε → ε'} {Q : Except ε' α → World → Prop}
    (h : Triple P x fun r w => Q (r.mapError g) w) : Triple P (x.adaptExcept g) Q := by
  intro w hw
  have h := h w hw
  show Q (resultOf (EStateM.adaptExcept g x w)) (worldOf (EStateM.adaptExcept g x w))
  unfold EStateM.adaptExcept
  cases hr : x w <;> rw [hr] at h <;> exact h

theorem wrap {x : Sys α} {c : String} {Q : Except Error α → World → Prop}
    (h : Triple P x fun r w => Q (r.mapError (ErrorExt.wrap · c)) w) : Triple P (x.wrap c) Q :=
  adaptExcept h

end Triple

/-! ## Primitives -/

section Primitives

theorem triple_syscall {op : String} {call : Call} {k : World → Except Errno (Fs × List Nat × α)}
    {Q : Except Foreign α → World → Prop} :
    Triple (fun w => (∀ fs' opened a, k w = .ok (fs', opened, a) →
        Q (.ok a) ({ w with fs := fs', fds := w.fds ++ opened }.record call)) ∧
        ∀ e, k w = .error e → Q (.error (syscallError op e)) (w.record call))
      (syscall op call k) Q := by
  rintro w ⟨hok, herr⟩
  unfold syscall
  cases hk : k w with
  | ok r => obtain ⟨fs', opened, a⟩ := r; exact hok fs' opened a hk
  | error e => exact herr e hk

variable (R : ResolverImpl) (r : Resolver)

theorem triple_resolveAt {root : Int} {path : PathBuf} {nf : Bool}
    {Q : Except Error Int → World → Prop} :
    Triple (fun w => (∀ i j, w.inodeOf root = some i → R.resolve r w.fs i path nf = .ok j →
        Q (.ok w.fds.length) ((w.alloc [j]).record (.resolve root path nf (some w.fds.length)))) ∧
        ∀ e, Q (.error e) (w.record (.resolve root path nf none)))
      (R.resolveAt r root path nf) Q := by
  rintro w ⟨hok, herr⟩
  unfold ResolverImpl.resolveAt
  cases hi : w.inodeOf root with
  | none => exact herr _
  | some i =>
      cases hj : R.resolve r w.fs i path nf with
      | ok j => simpa [hi, hj] using hok i j hi hj
      | error e => simpa [hi, hj] using herr e

theorem triple_resolvePartialAt {root : Int} {path : PathBuf} {nf : Bool}
    {Q : Except Error (Int × Option PathBuf) → World → Prop} :
    Triple (fun w => (∀ i j rem, w.inodeOf root = some i →
        R.resolvePartial r w.fs i path nf = .ok (j, rem) →
        Q (.ok (w.fds.length, rem))
          ((w.alloc [j]).record (.resolvePartial root path nf (some (w.fds.length, rem))))) ∧
        ∀ e, Q (.error e) (w.record (.resolvePartial root path nf none)))
      (R.resolvePartialAt r root path nf) Q := by
  rintro w ⟨hok, herr⟩
  unfold ResolverImpl.resolvePartialAt
  cases hi : w.inodeOf root with
  | none => exact herr _
  | some i =>
      cases hj : R.resolvePartial r w.fs i path nf with
      | ok p => obtain ⟨j, rem⟩ := p; simpa [hi, hj] using hok i j rem hi hj
      | error e => simpa [hi, hj] using herr e

theorem triple_reopen {fd : Int} {flags : OpenFlags} {Q : Except Error Int → World → Prop} :
    Triple (fun w => (∀ i, w.inodeOf fd = some i → w.fs.reopenError i flags = none →
        Q (.ok w.fds.length) ((w.alloc [i]).record (.reopen fd flags (some w.fds.length)))) ∧
        ∀ e, Q (.error e) (w.record (.reopen fd flags none)))
      (reopen fd flags) Q := by
  rintro w ⟨hok, herr⟩
  unfold reopen
  cases hi : w.inodeOf fd with
  | none => exact herr _
  | some i =>
      cases he : w.fs.reopenError i flags with
      | none => simpa [hi, he] using hok i hi he
      | some e => simpa [hi, he] using herr _

end Primitives

/-! ## Successful runs

Read backwards, the rules say what a successful run of each construct went
through: a successful `x >>= f` ran `x` successfully and then `f` on its value, and
a primitive that succeeded made its call with the arguments and effect below. -/

section Inversion

variable {w w' : World}

theorem bind_of_ok {x : EStateM ε World α} {f : α → EStateM ε World β} {a : α}
    (h : x w = .ok a w') : (x >>= f) w = f a w' := by
  change EStateM.bind x f w = _
  simp only [EStateM.bind, h]

theorem bind_of_error {x : EStateM ε World α} {f : α → EStateM ε World β} {e : ε}
    (h : x w = .error e w') : (x >>= f) w = .error e w' := by
  change EStateM.bind x f w = _
  simp only [EStateM.bind, h]

theorem bind_eq_ok {x : EStateM ε World α} {f : α → EStateM ε World β} {b : β}
    (h : (x >>= f) w = .ok b w') : ∃ a w₁, x w = .ok a w₁ ∧ f a w₁ = .ok b w' := by
  change EStateM.bind x f w = _ at h
  unfold EStateM.bind at h
  cases hx : x w with
  | ok a w₁ => rw [hx] at h; exact ⟨a, w₁, rfl, h⟩
  | error e w₁ => rw [hx] at h; cases h

theorem adaptExcept_eq_ok {x : EStateM ε World α} {g : ε → ε'} {a : α}
    (h : x.adaptExcept g w = .ok a w') : x w = .ok a w' := by
  unfold EStateM.adaptExcept at h
  cases hx : x w <;> rw [hx] at h <;> cases h
  rfl

theorem wrap_eq_ok {x : Sys α} {c : String} {a : α} (h : x.wrap c w = .ok a w') :
    x w = .ok a w' :=
  adaptExcept_eq_ok h

theorem syscall_eq_ok {op : String} {call : Call} {k : World → Except Errno (Fs × List Nat × α)}
    {a : α} (h : syscall op call k w = .ok a w') :
    ∃ fs' opened, k w = .ok (fs', opened, a) ∧
      w' = { w with fs := fs', fds := w.fds ++ opened }.record call := by
  unfold syscall at h
  split at h
  · cases h
    exact ⟨_, _, by assumption, rfl⟩
  · cases h

/-- A call that edits the tree in the directory of the descriptor `dir`, and opens
nothing, made its edit there. -/
theorem syscall_edit_eq_ok {op : String} {call : Call} {dir : Int} {edit : World → Nat → Except Errno Fs}
    {d : Nat} (hd : w.inodeOf dir = some d)
    (h : syscall op call (fun w => do pure (← edit w (← w.fdInode dir), [], ())) w = .ok () w') :
    edit w d = .ok w'.fs ∧ w'.fds = w.fds ∧ w'.log = w.log ++ [call] := by
  obtain ⟨fs₁, opened, hk, rfl⟩ := syscall_eq_ok h
  obtain ⟨d', hd', hk⟩ := except_bind_eq_ok hk
  obtain ⟨fs', he, hk⟩ := except_bind_eq_ok hk
  cases hk
  simp only [World.fdInode, hd] at hd'
  cases hd'
  exact ⟨he, List.append_nil _, rfl⟩

/-- The same for a call that edits the tree in the directories of two descriptors. -/
theorem syscall_edit₂_eq_ok {op : String} {call : Call} {dir₁ dir₂ : Int}
    {edit : World → Nat → Nat → Except Errno Fs} {d₁ d₂ : Nat} (hd₁ : w.inodeOf dir₁ = some d₁)
    (hd₂ : w.inodeOf dir₂ = some d₂)
    (h : syscall op call (fun w => do pure (← edit w (← w.fdInode dir₁) (← w.fdInode dir₂), [], ()))
      w = .ok () w') :
    edit w d₁ d₂ = .ok w'.fs ∧ w'.fds = w.fds ∧ w'.log = w.log ++ [call] := by
  obtain ⟨fs₁, opened, hk, rfl⟩ := syscall_eq_ok h
  obtain ⟨d₁', hd₁', hk⟩ := except_bind_eq_ok hk
  obtain ⟨d₂', hd₂', hk⟩ := except_bind_eq_ok hk
  obtain ⟨fs', he, hk⟩ := except_bind_eq_ok hk
  cases hk
  simp only [World.fdInode, hd₁, hd₂] at hd₁' hd₂'
  cases hd₁'
  cases hd₂'
  exact ⟨he, List.append_nil _, rfl⟩

theorem resolveAt_eq_ok (R : ResolverImpl) (r : Resolver) {root : Int} {path : PathBuf}
    {nf : Bool} {fd : Int} (h : R.resolveAt r root path nf w = .ok fd w') :
    ∃ i j, w.inodeOf root = some i ∧ R.resolve r w.fs i path nf = .ok j ∧
      fd = w.fds.length ∧ w' = (w.alloc [j]).record (.resolve root path nf (some w.fds.length)) := by
  unfold ResolverImpl.resolveAt at h
  cases hi : w.inodeOf root with
  | none => simp [hi] at h
  | some i =>
      cases hj : R.resolve r w.fs i path nf with
      | ok j => simp only [hi, hj, Option.elim_some] at h; cases h; exact ⟨i, j, rfl, hj, rfl, rfl⟩
      | error e => simp [hi, hj] at h

theorem resolvePartialAt_eq_ok (R : ResolverImpl) (r : Resolver) {root : Int} {path : PathBuf}
    {nf : Bool} {fd : Int} {rem : Option PathBuf}
    (h : R.resolvePartialAt r root path nf w = .ok (fd, rem) w') :
    ∃ i j, w.inodeOf root = some i ∧ R.resolvePartial r w.fs i path nf = .ok (j, rem) ∧
      fd = w.fds.length ∧
      w' = (w.alloc [j]).record (.resolvePartial root path nf (some (w.fds.length, rem))) := by
  unfold ResolverImpl.resolvePartialAt at h
  cases hi : w.inodeOf root with
  | none => simp [hi] at h
  | some i =>
      cases hj : R.resolvePartial r w.fs i path nf with
      | ok p =>
          obtain ⟨j, rem'⟩ := p
          simp only [hi, hj, Option.elim_some] at h
          cases h
          exact ⟨i, j, rfl, hj, rfl, rfl⟩
      | error e => simp [hi, hj] at h

theorem reopen_eq_ok {fd fd' : Int} {flags : OpenFlags} (h : reopen fd flags w = .ok fd' w') :
    ∃ i, w.inodeOf fd = some i ∧ w.fs.reopenError i flags = none ∧ fd' = w.fds.length ∧
      w' = (w.alloc [i]).record (.reopen fd flags (some w.fds.length)) := by
  unfold reopen at h
  cases hi : w.inodeOf fd with
  | none => simp [hi] at h
  | some i =>
      cases he : w.fs.reopenError i flags with
      | none => simp only [hi, he] at h; cases h; exact ⟨i, rfl, he, rfl, rfl⟩
      | some e => simp [hi, he] at h

/-! Read forwards, they say when a primitive succeeds and what it leaves. -/

theorem adaptExcept_of_ok {x : EStateM ε World α} {g : ε → ε'} {a : α} (h : x w = .ok a w') :
    x.adaptExcept g w = .ok a w' := by
  simp only [EStateM.adaptExcept, h]

theorem wrap_of_ok {x : Sys α} {c : String} {a : α} (h : x w = .ok a w') : x.wrap c w = .ok a w' :=
  adaptExcept_of_ok h

theorem syscall_of_ok {op : String} {call : Call} {k : World → Except Errno (Fs × List Nat × α)}
    {fs' : Fs} {opened : List Nat} {a : α} (h : k w = .ok (fs', opened, a)) :
    syscall op call k w = .ok a ({ w with fs := fs', fds := w.fds ++ opened }.record call) := by
  simp only [syscall, h]

/-- A system call is logged, whatever its outcome. -/
theorem log_syscall {op : String} {call : Call} {k : World → Except Errno (Fs × List Nat × α)}
    {g : Foreign → ε} : (worldOf ((syscall op call k).adaptExcept g w)).log = w.log ++ [call] := by
  cases hk : k w <;> simp [EStateM.adaptExcept, syscall, hk, worldOf, World.record]

theorem resolveAt_of_ok (R : ResolverImpl) (r : Resolver) {root : Int} {path : PathBuf}
    {nf : Bool} {i j : Nat} (hi : w.inodeOf root = some i) (hj : R.resolve r w.fs i path nf = .ok j) :
    R.resolveAt r root path nf w =
      .ok w.fds.length ((w.alloc [j]).record (.resolve root path nf (some w.fds.length))) := by
  simp only [ResolverImpl.resolveAt, hi, hj, Option.elim_some]

end Inversion

/-! ## Calls issued since a world -/

/-- Since `w₀`, only calls that change nothing were issued, and the tree is `w₀`'s. -/
def ReadOnlySince (w₀ w : World) : Prop :=
  ∃ cs, w.log = w₀.log ++ cs ∧ (∀ c ∈ cs, c.isMutating = false) ∧ w.fs = w₀.fs

/-- Since `w₀`, every call but the last changes nothing, and without a call that
can change it the tree is `w₀`'s: at most one mutating call, as the final step. -/
def MutatesLast (w₀ w : World) : Prop :=
  ∃ cs, w.log = w₀.log ++ cs ∧ (∀ c ∈ cs.dropLast, c.isMutating = false) ∧
    ((∀ c ∈ cs, c.isMutating = false) → w.fs = w₀.fs)

theorem ReadOnlySince.refl (w : World) : ReadOnlySince w w := ⟨[], by simp, by simp, rfl⟩


namespace ReadOnlySince

variable {w₀ w : World}

theorem alloc (h : ReadOnlySince w₀ w) (is : List Nat) : ReadOnlySince w₀ (w.alloc is) := h

theorem record (h : ReadOnlySince w₀ w) {c : Call} (hc : c.isMutating = false) :
    ReadOnlySince w₀ (w.record c) := by
  obtain ⟨cs, hlog, hcs, hfs⟩ := h
  refine ⟨cs ++ [c], by simp [hlog], ?_, hfs⟩
  intro d hd
  rcases List.mem_append.1 hd with hd | hd
  · exact hcs d hd
  · rw [List.mem_singleton.1 hd]; exact hc

theorem fs_eq (h : ReadOnlySince w₀ w) : w.fs = w₀.fs := by
  obtain ⟨_, _, _, hfs⟩ := h
  exact hfs

theorem not_isMutating (h : ReadOnlySince w₀ w) : ∀ c ∈ issued w₀ w, c.isMutating = false := by
  obtain ⟨cs, hlog, hcs, -⟩ := h
  rwa [issued_eq_of_log hlog]

theorem trans {w₁ : World} (h₁ : ReadOnlySince w₀ w₁) (h₂ : ReadOnlySince w₁ w) :
    ReadOnlySince w₀ w := by
  obtain ⟨cs₁, hlog₁, hcs₁, hfs₁⟩ := h₁
  obtain ⟨cs₂, hlog₂, hcs₂, hfs₂⟩ := h₂
  refine ⟨cs₁ ++ cs₂, by simp [hlog₁, hlog₂], fun c hc => ?_, hfs₂.trans hfs₁⟩
  rcases List.mem_append.1 hc with hc | hc
  · exact hcs₁ c hc
  · exact hcs₂ c hc

end ReadOnlySince

theorem ReadOnlySince.mutatesLast {w₀ w : World} (h : ReadOnlySince w₀ w) : MutatesLast w₀ w := by
  obtain ⟨cs, hlog, hcs, hfs⟩ := h
  exact ⟨cs, hlog, fun c hc => hcs c (List.dropLast_subset _ hc), fun _ => hfs⟩

/-- One more call after read-only calls, which may change the tree if it is a
mutating call. -/
theorem ReadOnlySince.mutatesLast_record {w₀ w : World} (h : ReadOnlySince w₀ w) (c : Call)
    (fs : Fs) (fds : List Nat) (hfs : c.isMutating = false → fs = w.fs) :
    MutatesLast w₀ ({ w with fs := fs, fds := fds }.record c) := by
  obtain ⟨cs, hlog, hcs, hw⟩ := h
  refine ⟨cs ++ [c], by simp [World.record, hlog], by simpa using hcs, fun hall => ?_⟩
  rw [← hw]
  exact hfs (hall c (by simp))

/-! ## What each mutating call satisfies -/

/-- Each mutating call of a log satisfies `p`, given the calls before it. -/
inductive EachMutating (p : List Call → Call → Prop) : List Call → Prop
  | nil : EachMutating p []
  | snoc {cs : List Call} {c : Call} :
      EachMutating p cs → (c.isMutating = true → p cs c) → EachMutating p (cs ++ [c])

/-- The last call of a log, if it is mutating, satisfies `p` given the calls before it. -/
theorem EachMutating.last {p : List Call → Call → Prop} {cs : List Call} {c : Call}
    (h : EachMutating p (cs ++ [c])) (hc : c.isMutating = true) : p cs c := by
  generalize hl : cs ++ [c] = l at h
  cases h with
  | nil => simp at hl
  | snoc _ hlast =>
      obtain ⟨rfl, hcc⟩ := List.append_inj' hl rfl
      obtain rfl := List.singleton_inj.1 hcc
      exact hlast hc

theorem EachMutating.append_readOnly {p : List Call → Call → Prop} {cs : List Call}
    (h : EachMutating p cs) :
    ∀ more : List Call, (∀ c ∈ more, c.isMutating = false) → EachMutating p (cs ++ more) := by
  intro more
  induction more using List.reverseRecOn with
  | nil => simpa using h
  | append_singleton more c ih =>
      intro hmore
      rw [← List.append_assoc]
      exact .snoc (ih fun d hd => hmore d (by simp [hd])) fun hc => by
        simp [hmore c (by simp)] at hc

/-- Since `w₀` the log has grown by calls each mutating one of which satisfies `p`,
given the calls issued before it. -/
def Obeys (p : List Call → Call → Prop) (w₀ w : World) : Prop :=
  ∃ cs, w.log = w₀.log ++ cs ∧ EachMutating p cs

namespace Obeys

variable {p : List Call → Call → Prop} {w₀ w : World}

theorem refl (w : World) : Obeys p w w := ⟨[], by simp, .nil⟩

theorem eachMutating (h : Obeys p w₀ w) : EachMutating p (issued w₀ w) := by
  obtain ⟨cs, hlog, hcs⟩ := h
  rwa [issued_eq_of_log hlog]

/-- A call after others, in a world with the same log. -/
theorem issued_record (h : Obeys p w₀ w) (w' : World) (hlog : w'.log = w.log) (c : Call) :
    issued w₀ (w'.record c) = issued w₀ w ++ [c] := by
  obtain ⟨cs, hw, -⟩ := h
  rw [issued_eq_of_log hw, issued_eq_of_log (show _ = w₀.log ++ (cs ++ [c]) by
    simp [World.record, hlog, hw])]

/-- A call after others: it must satisfy `p` if it is mutating. -/
theorem record (h : Obeys p w₀ w) (w' : World) (hlog : w'.log = w.log) (c : Call)
    (hc : c.isMutating = true → p (issued w₀ w) c) : Obeys p w₀ (w'.record c) := by
  obtain ⟨cs, hw, hcs⟩ := h
  rw [issued_eq_of_log hw] at hc
  exact ⟨cs ++ [c], by simp [World.record, hlog, hw], hcs.snoc hc⟩

theorem alloc_record (h : Obeys p w₀ w) (is : List Nat) (c : Call)
    (hc : c.isMutating = true → p (issued w₀ w) c) : Obeys p w₀ ((w.alloc is).record c) :=
  h.record _ rfl c hc

theorem issued_alloc_record (h : Obeys p w₀ w) (is : List Nat) (c : Call) :
    issued w₀ ((w.alloc is).record c) = issued w₀ w ++ [c] :=
  h.issued_record _ rfl c

/-- Read-only calls after others; the calls issued so far are a prefix of those
issued after them. -/
theorem readOnlySince {w' : World} (h : Obeys p w₀ w) (h' : ReadOnlySince w w') :
    Obeys p w₀ w' ∧ ∃ more, issued w₀ w' = issued w₀ w ++ more := by
  obtain ⟨cs, hlog, hcs⟩ := h
  obtain ⟨more, hlog', hmore, -⟩ := h'
  refine ⟨⟨cs ++ more, by simp [hlog', hlog], hcs.append_readOnly more hmore⟩, more, ?_⟩
  rw [issued_eq_of_log hlog,
    issued_eq_of_log (show w'.log = w₀.log ++ (cs ++ more) by simp [hlog', hlog])]

end Obeys

theorem triple_obeys_syscall {p : List Call → Call → Prop} {w₀ : World} {op : String} {call : Call}
    {k : World → Except Errno (Fs × List Nat × α)} :
    Triple (fun w => Obeys p w₀ w ∧ (call.isMutating = true → p (issued w₀ w) call))
      (syscall op call k) fun _ => Obeys p w₀ :=
  triple_syscall.mono (fun _ ⟨h, hc⟩ => ⟨fun _ _ _ _ => h.record _ rfl call hc,
    fun _ _ => h.record _ rfl call hc⟩) fun _ _ h => h

end Pathrs
