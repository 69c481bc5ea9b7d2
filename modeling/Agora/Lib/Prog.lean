import Mathlib.Logic.Basic
import Mathlib.Order.Basic

/-!
# Programs that hand control to user code

A `Prog` is the body of one function of an event-driven program. It reads and writes a shared
state, asks its environment for the result of a system call, and calls back into user code. At a
call it is suspended: anything may run on the same state before it goes on.
-/

namespace Agora.Lib

/-- Programs on the state `σ`, with system calls `Q` and their results `ι`, user callbacks `κ` and
crashes `ε`. -/
inductive Prog (σ Q ι κ ε α : Type) : Type
  | ret (a : α)
  | fault (e : ε)
  | get (k : σ → Prog σ Q ι κ ε α)
  | set (s : σ) (k : Prog σ Q ι κ ε α)
  | ask (q : Q) (k : ι → Prog σ Q ι κ ε α)
  | call (u : κ) (k : Prog σ Q ι κ ε α)

namespace Prog

variable {σ Q ι κ ε α β : Type}

def bind (p : Prog σ Q ι κ ε α) (f : α → Prog σ Q ι κ ε β) : Prog σ Q ι κ ε β :=
  match p with
  | ret a => f a
  | fault e => fault e
  | get k => get fun s => (k s).bind f
  | set s k => set s (k.bind f)
  | ask q k => ask q fun a => (k a).bind f
  | call u k => call u (k.bind f)

instance : Monad (Prog σ Q ι κ ε) where
  pure := ret
  bind := bind

def read : Prog σ Q ι κ ε σ := get ret
def modify (f : σ → σ) : Prog σ Q ι κ ε Unit := get fun s => set (f s) (ret ())
def syscall (q : Q) : Prog σ Q ι κ ε ι := ask q ret
def callback (u : κ) : Prog σ Q ι κ ε Unit := call u (ret ())

/-- A C `assert`: the program aborts when it fails. -/
def assert (e : ε) (c : Bool) : Prog σ Q ι κ ε Unit := if c then ret () else fault e

/-- An `if` without `else`. -/
def when (c : Bool) (p : Prog σ Q ι κ ε Unit) : Prog σ Q ι κ ε Unit := if c then p else ret ()

/-! ## One uninterrupted segment -/

/-- Where a segment stops: at the end, in a callback, or in a crash. -/
inductive Stop (σ Q ι κ ε α : Type) : Type
  | done (s : σ) (a : α)
  | called (s : σ) (u : κ) (k : Prog σ Q ι κ ε α)
  | faulted (s : σ) (e : ε)

/-- Runs `p` up to its next stop. `answers` are the results of its system calls, in order, and
`valid` is the contract they must meet; a missing or invalid result is no run. -/
def exec (valid : Q → ι → Bool) : Prog σ Q ι κ ε α → σ → List ι → Option (Stop σ Q ι κ ε α)
  | ret a, s, _ => some (.done s a)
  | fault e, s, _ => some (.faulted s e)
  | get k, s, answers => exec valid (k s) s answers
  | set s' k, _, answers => exec valid k s' answers
  | ask _ _, _, [] => none
  | ask q k, s, a :: answers => if valid q a then exec valid (k a) s answers else none
  | call u k, s, _ => some (.called s u k)

/-- Where every system call has a valid result, a program can be run up to its next stop. -/
theorem exec_total {valid : Q → ι → Bool} (hvalid : ∀ q, ∃ a, valid q a = true) (p : Prog σ Q ι κ ε α)
    (s : σ) : ∃ answers stop, p.exec valid s answers = some stop := by
  induction p generalizing s with
  | ret a => exact ⟨[], _, rfl⟩
  | fault e => exact ⟨[], _, rfl⟩
  | get k ih => exact ih s s
  | set s' k ih => exact ih s'
  | ask q k ih =>
    obtain ⟨a, ha⟩ := hvalid q
    obtain ⟨answers, stop, hstop⟩ := ih a s
    refine ⟨a :: answers, stop, ?_⟩
    simp only [exec, ha, if_true]
    exact hstop
  | call u k ih => exact ⟨[], _, rfl⟩

/-- Every system call of the segment is answered as `allow` says. -/
def Meets (allow : σ → Q → ι → Prop) : Prog σ Q ι κ ε α → σ → List ι → Prop
  | get k, s, answers => Meets allow (k s) s answers
  | set s' k, _, answers => Meets allow k s' answers
  | ask q k, s, a :: answers => allow s q a ∧ Meets allow (k a) s answers
  | _, _, _ => True

instance decidableMeets {allow : σ → Q → ι → Prop} [∀ s q a, Decidable (allow s q a)] :
    ∀ (p : Prog σ Q ι κ ε α) (s : σ) (answers : List ι), Decidable (p.Meets allow s answers)
  | ret _, _, _ | fault _, _, _ | call _ _, _, _ | ask _ _, _, [] => isTrue trivial
  | get k, s, answers => decidableMeets (k s) s answers
  | set s' k, _, answers => decidableMeets k s' answers
  | ask _ k, s, a :: answers =>
    @instDecidableAnd _ _ _ (decidableMeets (k a) s answers)

/-! ## What a program guarantees -/

/-- The invariant at every point where user code runs, what holds when a callback starts, the
crashes that are accepted, and what is known about the result of a system call. -/
structure Contract (σ Q ι κ ε : Type) where
  inv : σ → Prop
  pre : κ → σ → Prop
  tolerates : ε → σ → Prop
  allow : σ → Q → ι → Prop

/-- The program, in state `s` of a segment that began in `s₀`, ends in `post`. Each segment keeps the
invariant and moves the state along `guar`; across a callback the state moves along `rely`. -/
def wp (C : Contract σ Q ι κ ε) (guar rely : σ → σ → Prop) :
    Prog σ Q ι κ ε α → (σ → σ → α → Prop) → σ → σ → Prop
  | ret a, post, s₀, s => post s₀ s a
  | fault e, _, _, s => C.tolerates e s
  | get k, post, s₀, s => wp C guar rely (k s) post s₀ s
  | set s' k, post, s₀, _ => wp C guar rely k post s₀ s'
  | ask q k, post, s₀, s => ∀ a, C.allow s q a → wp C guar rely (k a) post s₀ s
  | call u k, post, s₀, s => (C.inv s ∧ guar s₀ s ∧ C.pre u s) ∧
      ∀ s', C.inv s' → rely s s' → wp C guar rely k post s' s'

section
variable {C : Contract σ Q ι κ ε} {guar rely : σ → σ → Prop}

@[simp] theorem wp_pure (a : α) (post : σ → σ → α → Prop) (s₀ s : σ) :
    wp C guar rely (pure a : Prog σ Q ι κ ε α) post s₀ s = post s₀ s a := rfl

@[simp] theorem wp_ret (a : α) (post : σ → σ → α → Prop) (s₀ s : σ) :
    wp C guar rely (ret a : Prog σ Q ι κ ε α) post s₀ s = post s₀ s a := rfl

@[simp] theorem wp_fault (e : ε) (post : σ → σ → α → Prop) (s₀ s : σ) :
    wp C guar rely (fault e : Prog σ Q ι κ ε α) post s₀ s = C.tolerates e s := rfl

@[simp] theorem wp_bind (p : Prog σ Q ι κ ε α) (f : α → Prog σ Q ι κ ε β)
    (post : σ → σ → β → Prop) (s₀ s : σ) :
    wp C guar rely (p >>= f) post s₀ s =
      wp C guar rely p (fun s₀ s a => wp C guar rely (f a) post s₀ s) s₀ s := by
  show wp C guar rely (p.bind f) post s₀ s = _
  induction p generalizing s₀ s with
  | ret a => rfl
  | fault e => rfl
  | get k ih => exact ih s s₀ s
  | set s' k ih => exact ih s₀ s'
  | ask q k ih => exact forall_congr fun a => forall_congr fun _ => ih a s₀ s
  | call u k ih =>
    exact congrArg (And _) (forall_congr fun s' => forall_congr fun _ => forall_congr fun _ => ih s' s')

@[simp] theorem wp_read (post : σ → σ → σ → Prop) (s₀ s : σ) :
    wp C guar rely (read : Prog σ Q ι κ ε σ) post s₀ s = post s₀ s s := rfl

@[simp] theorem wp_modify (f : σ → σ) (post : σ → σ → Unit → Prop) (s₀ s : σ) :
    wp C guar rely (modify f : Prog σ Q ι κ ε Unit) post s₀ s = post s₀ (f s) () := rfl

@[simp] theorem wp_syscall (q : Q) (post : σ → σ → ι → Prop) (s₀ s : σ) :
    wp C guar rely (syscall q : Prog σ Q ι κ ε ι) post s₀ s =
      ∀ a, C.allow s q a → post s₀ s a := rfl

@[simp] theorem wp_callback (u : κ) (post : σ → σ → Unit → Prop) (s₀ s : σ) :
    wp C guar rely (callback u : Prog σ Q ι κ ε Unit) post s₀ s =
      ((C.inv s ∧ guar s₀ s ∧ C.pre u s) ∧ ∀ s', C.inv s' → rely s s' → post s' s' ()) := rfl

@[simp] theorem wp_assert (e : ε) (c : Bool) (post : σ → σ → Unit → Prop) (s₀ s : σ) :
    wp C guar rely (assert e c : Prog σ Q ι κ ε Unit) post s₀ s =
      if c then post s₀ s () else C.tolerates e s := by
  unfold assert; split <;> rfl

@[simp] theorem wp_when (c : Bool) (p : Prog σ Q ι κ ε Unit) (post : σ → σ → Unit → Prop)
    (s₀ s : σ) :
    wp C guar rely (when c p) post s₀ s = if c then wp C guar rely p post s₀ s else post s₀ s () := by
  unfold when; split <;> rfl

@[simp] theorem wp_ite (c : Prop) [Decidable c] (p q : Prog σ Q ι κ ε α)
    (post : σ → σ → α → Prop) (s₀ s : σ) :
    wp C guar rely (if c then p else q) post s₀ s =
      if c then wp C guar rely p post s₀ s else wp C guar rely q post s₀ s := by
  split <;> rfl

theorem wp_mono {p : Prog σ Q ι κ ε α} {post post' : σ → σ → α → Prop} {s₀ s : σ}
    (h : wp C guar rely p post s₀ s) (hpost : ∀ s₀ s a, post s₀ s a → post' s₀ s a) :
    wp C guar rely p post' s₀ s := by
  induction p generalizing s₀ s with
  | ret a => exact hpost _ _ _ h
  | fault e => exact h
  | get k ih => exact ih s h
  | set s' k ih => exact ih h
  | ask q k ih => exact fun a ha => ih a (h a ha)
  | call u k ih => exact ⟨h.1, fun s' hi hr => ih (h.2 s' hi hr)⟩

theorem wp_and {p : Prog σ Q ι κ ε α} {post post' : σ → σ → α → Prop} {s₀ s : σ}
    (h : wp C guar rely p post s₀ s) (h' : wp C guar rely p post' s₀ s) :
    wp C guar rely p (fun s₀ s a => post s₀ s a ∧ post' s₀ s a) s₀ s := by
  induction p generalizing s₀ s with
  | ret a => exact ⟨h, h'⟩
  | fault e => exact h
  | get k ih => exact ih s h h'
  | set s' k ih => exact ih h h'
  | ask q k ih => exact fun a ha => ih a (h a ha) (h' a ha)
  | call u k ih => exact ⟨h.1, fun s' hi hr => ih (h.2 s' hi hr) (h'.2 s' hi hr)⟩

theorem wp_guar_mono {guar' : σ → σ → Prop} {p : Prog σ Q ι κ ε α} {post : σ → σ → α → Prop}
    {s₀ s : σ} (hg : ∀ s s', guar s s' → guar' s s') (h : wp C guar rely p post s₀ s) :
    wp C guar' rely p post s₀ s := by
  induction p generalizing s₀ s with
  | ret a => exact h
  | fault e => exact h
  | get k ih => exact ih s h
  | set s' k ih => exact ih h
  | ask q k ih => exact fun a ha => ih a (h a ha)
  | call u k ih => exact ⟨⟨h.1.1, hg _ _ h.1.2.1, h.1.2.2⟩, fun s' hi hr => ih (h.2 s' hi hr)⟩

theorem wp_tolerates_mono {tolerates' : ε → σ → Prop} {p : Prog σ Q ι κ ε α} {post : σ → σ → α → Prop}
    {s₀ s : σ} (ht : ∀ e s, C.tolerates e s → tolerates' e s) (h : wp C guar rely p post s₀ s) :
    wp { C with tolerates := tolerates' } guar rely p post s₀ s := by
  induction p generalizing s₀ s with
  | ret a => exact h
  | fault e => exact ht e s h
  | get k ih => exact ih s h
  | set s' k ih => exact ih h
  | ask q k ih => exact fun a ha => ih a (h a ha)
  | call u k ih => exact ⟨h.1, fun s' hi hr => ih (h.2 s' hi hr)⟩

/-! ## Programs that keep what they find -/

/-- From `J` back to `J`, a relation between the start of the segment and the state. -/
def Stable (C : Contract σ Q ι κ ε) (guar rely J : σ → σ → Prop) (p : Prog σ Q ι κ ε α) : Prop :=
  ∀ s₀ s, J s₀ s → wp C guar rely p (fun s₀ s _ => J s₀ s) s₀ s

section
variable {J : σ → σ → Prop}

theorem Stable.pure (a : α) : Stable C guar rely J (Pure.pure a : Prog σ Q ι κ ε α) :=
  fun _ _ h => h

theorem Stable.read : Stable C guar rely J (read : Prog σ Q ι κ ε σ) := fun _ _ h => h

theorem Stable.syscall (q : Q) : Stable C guar rely J (syscall q : Prog σ Q ι κ ε ι) :=
  fun _ _ h _ _ => h

theorem Stable.modify {f : σ → σ} (hf : ∀ s₀ s, J s₀ s → J s₀ (f s)) :
    Stable C guar rely J (modify f : Prog σ Q ι κ ε Unit) := hf

theorem Stable.callback {u : κ} (hcall : ∀ s₀ s, J s₀ s → C.inv s ∧ guar s₀ s ∧ C.pre u s)
    (hback : ∀ s s', C.inv s' → rely s s' → J s' s') :
    Stable C guar rely J (callback u : Prog σ Q ι κ ε Unit) :=
  fun s₀ s h => ⟨hcall s₀ s h, fun s' hi hr => hback s s' hi hr⟩

theorem Stable.assert {e : ε} {c : Bool} (he : ∀ s₀ s, J s₀ s → C.tolerates e s) :
    Stable C guar rely J (assert e c : Prog σ Q ι κ ε Unit) := by
  intro s₀ s h
  rw [wp_assert]
  split
  · exact h
  · exact he s₀ s h

theorem Stable.bind {p : Prog σ Q ι κ ε α} {f : α → Prog σ Q ι κ ε β}
    (hp : Stable C guar rely J p) (hf : ∀ a, Stable C guar rely J (f a)) :
    Stable C guar rely J (p >>= f) := by
  intro s₀ s h
  rw [wp_bind]
  exact wp_mono (hp s₀ s h) fun s₀ s a h => hf a s₀ s h

theorem Stable.ite {c : Prop} [Decidable c] {p q : Prog σ Q ι κ ε α}
    (hp : Stable C guar rely J p) (hq : Stable C guar rely J q) :
    Stable C guar rely J (if c then p else q) := by
  split
  · exact hp
  · exact hq

theorem Stable.when {c : Bool} {p : Prog σ Q ι κ ε Unit} (hp : Stable C guar rely J p) :
    Stable C guar rely J (when c p) := Stable.ite hp (Stable.pure ())

end

abbrev Keeps (C : Contract σ Q ι κ ε) (p : Prog σ Q ι κ ε α) : Prop :=
  Stable C (fun _ _ => True) (fun _ _ => True) (fun _ s => C.inv s) p

theorem Keeps.modify {f : σ → σ} (hf : ∀ s, C.inv s → C.inv (f s)) :
    Keeps C (modify f : Prog σ Q ι κ ε Unit) := Stable.modify fun _ => hf

theorem Keeps.assert {e : ε} {c : Bool} (he : ∀ s, C.inv s → C.tolerates e s) :
    Keeps C (assert e c : Prog σ Q ι κ ε Unit) := Stable.assert fun _ => he

/-- What `wp` promises about one segment. -/
def StopOk (C : Contract σ Q ι κ ε) (guar rely : σ → σ → Prop) (post : σ → σ → α → Prop) (s₀ : σ) :
    Stop σ Q ι κ ε α → Prop
  | .done s a => post s₀ s a
  | .called s u k => (C.inv s ∧ guar s₀ s ∧ C.pre u s) ∧
      ∀ s', C.inv s' → rely s s' → wp C guar rely k post s' s'
  | .faulted s e => C.tolerates e s

theorem exec_sound {valid : Q → ι → Bool} {allow : σ → Q → ι → Prop}
    (hallow : ∀ s q a, valid q a = true → allow s q a → C.allow s q a)
    {p : Prog σ Q ι κ ε α} {post : σ → σ → α → Prop} {s₀ s : σ} {answers : List ι}
    {stop : Stop σ Q ι κ ε α} (h : wp C guar rely p post s₀ s) (hm : p.Meets allow s answers)
    (he : p.exec valid s answers = some stop) : StopOk C guar rely post s₀ stop := by
  induction p generalizing s₀ s answers with
  | ret a => obtain rfl := Option.some.inj he; exact h
  | fault e => obtain rfl := Option.some.inj he; exact h
  | get k ih => exact ih s h hm he
  | set s' k ih => exact ih h hm he
  | ask q k ih =>
    cases answers with
    | nil => simp [exec] at he
    | cons a answers =>
      simp only [exec] at he
      split at he
      · rename_i hv
        exact ih a (h a (hallow _ _ _ hv hm.1)) hm.2 he
      · simp at he
  | call u k ih => obtain rfl := Option.some.inj he; exact h

end

end Prog

end Agora.Lib
