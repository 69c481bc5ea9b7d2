import Agora.Lib.Embed
import Agora.Lib.Machine

/-!
# Programs of a system that act on a part as a program of the part alone

The part is seen through `view`, and the rest of the system meets `J`. What is known of the program of the
part then holds of the part wherever the system runs its own program. None of the programs makes a
callback: the code of the callbacks is in them.
-/

namespace Agora.Lib.Embedding

open Prog

variable {σ Q ι κ σ' Q' ι' κ' σ'' Q'' ι'' κ'' ε α : Type}

/-- The part `E` of the part `E'`. -/
def inside (E : Embedding σ Q ι κ σ' Q' ι' κ' ε) (E' : Embedding σ' Q' ι' κ' σ'' Q'' ι'' κ'' ε) :
    Embedding σ Q ι κ σ'' Q'' ι'' κ'' ε where
  view s := E.view (E'.view s)
  put c s := E'.put (E.put c (E'.view s)) s
  lift q := E'.lift (E.lift q)
  back a := E.back (E'.back a)
  handler u := E'.run (E.handler u)

theorem wp_run_run (E : Embedding σ Q ι κ σ' Q' ι' κ' ε) (E' : Embedding σ' Q' ι' κ' σ'' Q'' ι'' κ'' ε)
    {C : Contract σ'' Q'' ι'' κ'' ε} {guar rely : σ'' → σ'' → Prop} (p : Prog σ Q ι κ ε α)
    (post : σ'' → σ'' → α → Prop) (s₀ s : σ'') :
    wp C guar rely (E'.run (E.run p)) post s₀ s = wp C guar rely ((E.inside E').run p) post s₀ s := by
  induction p generalizing s₀ s with
  | ret a => rfl
  | fault e => rfl
  | get k ih => exact ih (E.view (E'.view s)) s₀ s
  | set c k ih => exact ih s₀ (E'.put (E.put c (E'.view s)) s)
  | ask q k ih => exact forall_congr fun a => forall_congr fun _ => ih (E.back (E'.back a)) s₀ s
  | call u k ih =>
    have hin : wp C guar rely (E'.run (E.run (call u k))) post s₀ s =
        wp C guar rely (E'.run (E.handler u))
          (fun s₀ s _ => wp C guar rely (E'.run (E.run k)) post s₀ s) s₀ s := by
      show wp C guar rely (E'.run ((E.handler u).bind fun _ => E.run k)) post s₀ s = _
      rw [Embedding.run_bind]
      exact wp_bind _ _ post s₀ s
    have hout : wp C guar rely ((E.inside E').run (call u k)) post s₀ s =
        wp C guar rely (E'.run (E.handler u))
          (fun s₀ s _ => wp C guar rely ((E.inside E').run k) post s₀ s) s₀ s :=
      wp_bind _ _ post s₀ s
    rw [hin, hout]
    simp only [ih]

end Agora.Lib.Embedding

namespace Agora.Lib.Prog

variable {σ Q ι σ' Q' ι' κ ε α β : Type}

/-- The weakest precondition of a program that makes no callback. -/
abbrev wpe (C : Contract σ Q ι Empty ε) (p : Prog σ Q ι Empty ε α) (post : σ → α → Prop) (s : σ) : Prop :=
  wp C (fun _ _ => True) (fun _ _ => True) p (fun _ s a => post s a) s s

section
variable {C : Contract σ Q ι Empty ε} {guar rely : σ → σ → Prop}

theorem wp_start {guar' rely' : σ → σ → Prop} {p : Prog σ Q ι Empty ε α} {post : σ → α → Prop}
    {s₀ s₀' s : σ} (h : wp C guar rely p (fun _ s a => post s a) s₀ s) :
    wp C guar' rely' p (fun _ s a => post s a) s₀' s := by
  induction p generalizing s with
  | ret a => exact h
  | fault e => exact h
  | get k ih => exact ih s h
  | set s' k ih => exact ih h
  | ask q k ih => exact fun a ha => ih a (h a ha)
  | call u k => cases u

theorem wpe_mono {p : Prog σ Q ι Empty ε α} {post post' : σ → α → Prop} {s : σ} (h : wpe C p post s)
    (hpost : ∀ s a, post s a → post' s a) : wpe C p post' s := wp_mono h fun _ s a => hpost s a

theorem wpe_bind {p : Prog σ Q ι Empty ε α} {f : α → Prog σ Q ι Empty ε β} {post : σ → β → Prop}
    {s : σ} : wpe C (p >>= f) post s ↔ wpe C p (fun s a => wpe C (f a) post s) s := by
  unfold wpe
  rw [wp_bind]
  constructor
  · exact fun h => wp_start (wp_mono h fun _ _ _ h => wp_start h)
  · exact fun h => wp_mono h fun _ _ _ h => wp_start h

theorem wpe_of_exec {valid : Q → ι → Bool} {allow : σ → Q → ι → Prop}
    (hallow : ∀ s q a, C.allow s q a → valid q a = true ∧ allow s q a) {p : Prog σ Q ι Empty ε α}
    {post : σ → α → Prop} {s : σ}
    (hdone : ∀ answers s' a, p.Meets allow s answers → p.exec valid s answers = some (.done s' a) → post s' a)
    (hfault : ∀ answers s' e, p.Meets allow s answers → p.exec valid s answers = some (.faulted s' e) →
      C.tolerates e s') : wpe C p post s := by
  suffices h : ∀ s₀, wp C (fun _ _ => True) (fun _ _ => True) p (fun _ s a => post s a) s₀ s from h s
  intro s₀
  induction p generalizing s with
  | ret a => exact hdone [] s a trivial rfl
  | fault e => exact hfault [] s e trivial rfl
  | get k ih => exact ih s hdone hfault
  | set s' k ih => exact ih hdone hfault
  | ask q k ih =>
    intro a ha
    obtain ⟨hv, hmay⟩ := hallow s q a ha
    have hexec : ∀ answers, (ask q k).exec valid s (a :: answers) = (k a).exec valid s answers := by
      intro answers
      simp only [exec, hv, if_true]
    refine ih a (fun answers s' b hm he => ?_) fun answers s' e hm he => ?_
    · exact hdone (a :: answers) s' b ⟨hmay, hm⟩ ((hexec answers).trans he)
    · exact hfault (a :: answers) s' e ⟨hmay, hm⟩ ((hexec answers).trans he)
  | call u k => cases u

end

theorem bind_unit (p : Prog σ Q ι κ ε Unit) : (p.bind fun _ => .ret ()) = p := by
  induction p with
  | ret a => rfl
  | fault e => rfl
  | get k ih => exact congrArg get (funext ih)
  | set s k ih => exact congrArg (set s) ih
  | ask q k ih => exact congrArg (ask q) (funext ih)
  | call u k ih => exact congrArg (call u) ih

/-! ## Simulation -/

section
variable (C : Contract σ Q ι Empty ε) (C' : Contract σ' Q' ι' Empty ε) (view : σ' → σ) (J : σ' → Prop)

/-- `p` does to the part what `q` does on its own, and keeps `J`. -/
def Simulates (p : Prog σ' Q' ι' Empty ε α) (q : Prog σ Q ι Empty ε α) : Prop :=
  ∀ (post : σ → α → Prop) (s : σ'), J s → wpe C q post (view s) →
    wpe C' p (fun s a => J s ∧ post (view s) a) s

end

namespace Simulates

variable {C : Contract σ Q ι Empty ε} {C' : Contract σ' Q' ι' Empty ε} {view : σ' → σ} {J : σ' → Prop}

theorem ret (a : α) : Simulates C C' view J (.ret a) (.ret a) := fun _ _ hJ h => ⟨hJ, h⟩

theorem bind {p : Prog σ' Q' ι' Empty ε α} {q : Prog σ Q ι Empty ε α} {f : α → Prog σ' Q' ι' Empty ε β}
    {g : α → Prog σ Q ι Empty ε β} (hp : Simulates C C' view J p q)
    (hf : ∀ a, Simulates C C' view J (f a) (g a)) : Simulates C C' view J (p.bind f) (q.bind g) := by
  intro post s hJ h
  refine wpe_bind.mpr (wpe_mono (hp _ s hJ (wpe_bind.mp h)) ?_)
  exact fun s a ⟨hJ, h⟩ => hf a post s hJ h

theorem silent {p : Prog σ' Q' ι' Empty ε Unit}
    (hp : ∀ s, J s → wpe C' p (fun s' _ => J s' ∧ view s' = view s) s) :
    Simulates C C' view J p (.ret ()) := by
  intro post s hJ h
  refine wpe_mono (hp s hJ) ?_
  rintro s' ⟨⟩ ⟨hJ', hview⟩
  refine ⟨hJ', ?_⟩
  rw [hview]
  exact h

theorem part {E : Embedding σ Q ι Empty σ' Q' ι' Empty ε} (hE : E.Lawful) (hJ : ∀ c s, J s → J (E.put c s))
    (hallow : ∀ s q a, J s → C'.allow s (E.lift q) a → C.allow (E.view s) q (E.back a))
    (hfault : ∀ e s, J s → C.tolerates e (E.view s) → C'.tolerates e s) (q : Prog σ Q ι Empty ε α) :
    Simulates C C' E.view J (E.run q) q := by
  induction q with
  | ret a => exact ret a
  | fault e => exact fun _ s hs h => hfault e s hs h
  | get k ih => exact fun post s hs h => ih (E.view s) post s hs h
  | set c k ih =>
    intro post s hs h
    have hk : wpe C k post (E.view (E.put c s)) := by
      rw [hE.view_put]
      exact wp_start h
    exact wp_start (ih post (E.put c s) (hJ c s hs) hk)
  | ask q k ih => exact fun post s hs h a ha => ih (E.back a) post s hs (h (E.back a) (hallow s q a hs ha))
  | call u k => cases u

section
variable {σ₀ Q₀ ι₀ κ₀ : Type} {E : Embedding σ₀ Q₀ ι₀ κ₀ σ Q ι Empty ε}
  {E' : Embedding σ₀ Q₀ ι₀ κ₀ σ' Q' ι' Empty ε}

/-- **A component in two places**: in the part and, through it, in the system. Its programs do the same in
both when its callbacks do. -/
theorem run (hview : ∀ s, E'.view s = E.view (view s)) (hput : ∀ c s, view (E'.put c s) = E.put c (view s))
    (hJ : ∀ c s, J s → J (E'.put c s))
    (hallow : ∀ s q a, C'.allow s (E'.lift q) a → ∃ b, C.allow (view s) (E.lift q) b ∧ E.back b = E'.back a)
    (hfault : ∀ e s, J s → C.tolerates e (view s) → C'.tolerates e s)
    (hhandler : ∀ u, Simulates C C' view J (E'.handler u) (E.handler u)) (p : Prog σ₀ Q₀ ι₀ κ₀ ε α) :
    Simulates C C' view J (E'.run p) (E.run p) := by
  induction p with
  | ret a => exact ret a
  | fault e => exact fun _ s hs h => hfault e s hs h
  | get k ih =>
    intro post s hs h
    show wpe C' (E'.run (k (E'.view s))) _ s
    rw [hview s]
    exact ih (E.view (view s)) post s hs h
  | set c k ih =>
    intro post s hs h
    have hk : wpe C (E.run k) post (view (E'.put c s)) := by
      rw [hput]
      exact wp_start h
    exact wp_start (ih post (E'.put c s) (hJ c s hs) hk)
  | ask q k ih =>
    intro post s hs h a ha
    obtain ⟨b, hb, heq⟩ := hallow s q a ha
    have hk : wpe C (E.run (k (E.back b))) post (view s) := h b hb
    rw [heq] at hk
    exact ih (E'.back a) post s hs hk
  | call u k ih => exact bind (hhandler u) fun _ => ih

end

end Simulates

end Agora.Lib.Prog

/-! ## Machines without callbacks -/

namespace Agora.Lib.Machine

open Prog

variable {σ Q ι ε l : Type} (M : Machine Unit σ Q ι Empty ε l) (cond : Condition σ Q ι l)

/-- The most that is true of every run: the invariant is to be reached. -/
def runs : Contract σ Q ι Empty ε where
  inv s := M.Reach cond (.initial s)
  pre _ _ := True
  tolerates e s := M.Reach cond ⟨s, fun _ => [], none, some e⟩
  allow s q a := M.valid q a = true ∧ cond.answer s q a

theorem runs_entry (label : l) {s : σ} {p : Prog σ Q ι Empty ε Unit} (hp : M.entry label s = some p)
    (hlabel : cond.label s label) (hs : M.Reach cond (.initial s)) :
    wpe (M.runs cond) p (fun s _ => M.Reach cond (.initial s)) s := by
  have hstep : ∀ answers stop, p.Meets cond.answer s answers → p.exec M.valid s answers = some stop →
      M.Reach cond (settle (Config.initial s) () [] stop) := by
    intro answers stop hm he
    have hmeets : M.Meets cond (.initial s) (.start label answers) := by
      refine ⟨hlabel, fun q hq => ?_⟩
      obtain rfl := Option.some.inj (hp.symm.trans hq)
      exact hm
    refine .step hs hmeets ?_
    show M.step (.initial s) (.start label answers) = _
    simp [step, Config.initial, hp, he]
  have hidle : (Function.update (fun _ => []) () [] : Unit → List (Empty × Prog σ Q ι Empty ε Unit)) =
      fun _ => [] := Function.update_eq_self ..
  refine wpe_of_exec (fun _ _ _ h => h) (fun answers s' a hm he => ?_) fun answers s' e hm he => ?_
  · have h := hstep answers _ hm he
    unfold settle Config.initial at h
    rw [hidle] at h
    exact h
  · have h := hstep answers _ hm he
    unfold settle Config.initial at h
    rw [hidle] at h
    exact h

end Agora.Lib.Machine
