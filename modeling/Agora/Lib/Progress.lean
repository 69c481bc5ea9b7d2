import Agora.Lib.Embed
import Agora.Lib.Machine

/-!
# That a run can go on

A program of a component that comes to its end on its own does so in a system that contains the component,
if the callbacks on its way leave the system alone. A run whose every step leads to the next is a run to
the end, and a run whose every step leaves less to do comes to one.
-/

namespace Agora.Lib

variable {σ Q ι κ σ' Q' ι' κ' ε α β : Type}

namespace Prog

/-- `p` comes to its end in `s'`, with `a`, where the callbacks of `skip` return at once and the system calls
are answered as `ok` says. -/
def Ends (skip : κ → Prop) (ok : σ → Q → ι → Prop) (s' : σ) (a : α) : Prog σ Q ι κ ε α → σ → List ι → Prop
  | ret b, s, answers => s = s' ∧ b = a ∧ answers = []
  | fault _, _, _ => False
  | get k, s, answers => Ends skip ok s' a (k s) s answers
  | set s₁ k, _, answers => Ends skip ok s' a k s₁ answers
  | ask _ _, _, [] => False
  | ask q k, s, b :: answers => ok s q b ∧ Ends skip ok s' a (k b) s answers
  | call u k, s, answers => skip u ∧ Ends skip ok s' a k s answers

variable {skip : κ → Prop} {ok : σ → Q → ι → Prop} {p : Prog σ Q ι κ ε α} {s s₁ s' : σ} {a : α}
variable {answers : List ι}

theorem Ends.bind {f : α → Prog σ Q ι κ ε β} {b : β} (hp : p.Ends skip ok s₁ a s [])
    (hf : (f a).Ends skip ok s' b s₁ answers) : (p.bind f).Ends skip ok s' b s answers := by
  induction p generalizing s with
  | ret c =>
    obtain ⟨rfl, rfl, -⟩ := hp
    exact hf
  | fault e => exact hp.elim
  | get k ih => exact ih s hp
  | set s₂ k ih => exact ih hp
  | ask q k ih => exact hp.elim
  | call u k ih => exact ⟨hp.1, ih hp.2⟩

theorem Ends.exec {valid : Q → ι → Bool} (hok : ∀ s q a, ok s q a → valid q a = true)
    (h : p.Ends (fun _ => False) ok s' a s answers) : p.exec valid s answers = some (.done s' a) := by
  induction p generalizing s answers with
  | ret b =>
    obtain ⟨rfl, rfl, -⟩ := h
    rfl
  | fault e => exact h.elim
  | get k ih => exact ih s h
  | set s₁ k ih => exact ih h
  | ask q k ih =>
    cases answers with
    | nil => exact h.elim
    | cons b answers =>
      unfold Prog.exec
      rw [if_pos (hok s q b h.1)]
      exact ih b h.2
  | call u k ih => exact h.1.elim

theorem Ends.meets {allow : σ → Q → ι → Prop} (hok : ∀ s q a, ok s q a → allow s q a)
    (h : p.Ends skip ok s' a s answers) : p.Meets allow s answers := by
  induction p generalizing s answers with
  | ret | fault | call => trivial
  | get k ih => exact ih s h
  | set s₁ k ih => exact ih h
  | ask q k ih =>
    cases answers with
    | nil => trivial
    | cons b answers => exact ⟨hok s q b h.1, ih b h.2⟩

end Prog

theorem Embedding.ends_run {E : Embedding σ Q ι κ σ' Q' ι' κ' ε} (hE : E.Lawful) {skip : κ → Prop}
    {skip' : κ' → Prop} {ok : σ → Q → ι → Prop} {ok' : σ' → Q' → ι' → Prop} (reply : ι → ι')
    (hback : ∀ a, E.back (reply a) = a)
    (hok : ∀ s q a, ok (E.view s) q a → ok' s (E.lift q) (reply a))
    (hskip : ∀ u, skip u → ∀ s, (E.handler u).Ends skip' ok' s () s []) {p : Prog σ Q ι κ ε α}
    {s : σ'} {c c' : σ} {answers : List ι} {a : α} (hs : E.view s = c)
    (h : p.Ends skip ok c' a c answers) :
    (E.run p).Ends skip' ok' (E.put c' s) a s (answers.map reply) := by
  induction p generalizing s c answers with
  | ret b =>
    obtain ⟨rfl, rfl, rfl⟩ := h
    rw [← hs, hE.put_view]
    exact ⟨rfl, rfl, rfl⟩
  | fault e => exact h.elim
  | get k ih =>
    subst hs
    exact ih _ rfl h
  | set c₁ k ih =>
    have hend := ih (hE.view_put c₁ s) h
    rwa [hE.put_put] at hend
  | ask q k ih =>
    cases answers with
    | nil => exact h.elim
    | cons b answers =>
      have hend := ih b hs h.2
      rw [← hback b] at hend
      exact ⟨hok s q b (hs.symm ▸ h.1), hend⟩
  | call u k ih => exact (hskip u h.1 s).bind (ih hs h.2)

namespace Machine

variable {τ l : Type} [DecidableEq τ] {M : Machine τ σ Q ι κ ε l}

theorem step_start_stop {c : Config τ σ Q ι κ ε} {label : l} {answers : List ι} {p : Prog σ Q ι κ ε Unit}
    {stop : Prog.Stop σ Q ι κ ε Unit} (hc : c.crashed = none) (hidle : c.frames (M.thread label) = [])
    (hp : M.entry label c.st = some p) (he : p.exec M.valid c.st answers = some stop) :
    M.step c (.start label answers) = some (settle c (M.thread label) [] stop) := by
  simp [step, hc, hidle, hp, he]

theorem step_start_done {c : Config τ σ Q ι κ ε} {label : l} {answers : List ι}
    {p : Prog σ Q ι κ ε Unit} {s : σ} {ok : σ → Q → ι → Prop}
    (hok : ∀ s q a, ok s q a → M.valid q a = true) (hc : c.crashed = none)
    (hidle : c.frames (M.thread label) = []) (hp : M.entry label c.st = some p)
    (hend : p.Ends (fun _ => False) ok s () c.st answers) :
    M.step c (.start label answers) = some ⟨s, c.frames, none, none⟩ := by
  have hframes : Function.update c.frames (M.thread label) [] = c.frames := by
    rw [← hidle, Function.update_eq_self]
  rw [step_start_stop hc hidle hp (hend.exec hok), settle, hframes]

end Machine

namespace System

variable {l : Type} {S : System σ l} {cond : σ → l → Prop}

/-- **The rule for progress.** `P` tells what is still to come. -/
theorem run_of_steps [∀ s a, Decidable (cond s a)] (P : List β → σ → Prop) (act : β → l)
    (hstep : ∀ b bs s, P (b :: bs) s → cond s (act b) ∧ ∃ s', S.step s (act b) = some s' ∧ P bs s')
    {bs : List β} {s : σ} (h : P bs s) : ∃ s', S.run cond s (bs.map act) = some s' ∧ P [] s' := by
  induction bs generalizing s with
  | nil => exact ⟨s, rfl, h⟩
  | cons b bs ih =>
    obtain ⟨hcond, s₁, hs₁, h₁⟩ := hstep b bs s h
    obtain ⟨s', hs', h'⟩ := ih h₁
    refine ⟨s', ?_, h'⟩
    rw [List.map_cons, System.run, if_pos hcond, hs₁]
    exact hs'

/-- **The rule for termination.** A run on which `rank` falls is no longer than `rank`. -/
theorem length_le_rank [∀ s a, Decidable (cond s a)] {I : σ → Prop} {rank : σ → Nat} {act : β → l}
    (hstep : ∀ b s s', I s → S.step s (act b) = some s' → I s' ∧ rank s' < rank s) {bs : List β} {s s' : σ}
    (h : I s) (hr : S.run cond s (bs.map act) = some s') : I s' ∧ bs.length + rank s' ≤ rank s := by
  induction bs generalizing s with
  | nil =>
    obtain rfl := Option.some.inj hr
    exact ⟨h, by simp⟩
  | cons b bs ih =>
    rw [List.map_cons, System.run] at hr
    obtain ⟨-, hr⟩ := Option.ite_none_right_eq_some.mp hr
    obtain ⟨s₁, hs₁, hr⟩ := Option.bind_eq_some_iff.mp hr
    obtain ⟨h₁, hless⟩ := hstep b s s₁ h hs₁
    obtain ⟨h', hle⟩ := ih h₁ hr
    refine ⟨h', ?_⟩
    rw [List.length_cons]
    omega

end System

end Agora.Lib
