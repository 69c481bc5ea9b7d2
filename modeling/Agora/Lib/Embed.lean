import Agora.Lib.Prog

/-!
# Programs on a part of a larger state

A component is verified on its own state, with callbacks to whoever uses it. In a system that
contains it, its programs run on their part of the state, and its callbacks are code of the system.
-/

namespace Agora.Lib

structure Embedding (σ Q ι κ σ' Q' ι' κ' ε : Type) where
  view : σ' → σ
  put : σ → σ' → σ'
  lift : Q → Q'
  back : ι' → ι
  handler : κ → Prog σ' Q' ι' κ' ε Unit

namespace Embedding

open Prog

variable {σ Q ι κ σ' Q' ι' κ' ε α β : Type} (E : Embedding σ Q ι κ σ' Q' ι' κ' ε)

def run : Prog σ Q ι κ ε α → Prog σ' Q' ι' κ' ε α
  | .ret a => .ret a
  | .fault e => .fault e
  | .get k => .get fun s => run (k (E.view s))
  | .set c k => .get fun s => .set (E.put c s) (run k)
  | .ask q k => .ask (E.lift q) fun a => run (k (E.back a))
  | .call u k => (E.handler u).bind fun _ => run k

theorem run_bind (p : Prog σ Q ι κ ε α) (f : α → Prog σ Q ι κ ε β) :
    E.run (p.bind f) = (E.run p).bind fun a => E.run (f a) := by
  induction p with
  | ret a => rfl
  | fault e => rfl
  | get k ih => simp only [Prog.bind, run, ih]
  | set c k ih => simp only [Prog.bind, run, ih]
  | ask q k ih => simp only [Prog.bind, run, ih]
  | call u k ih =>
    have assoc : ∀ p : Prog σ' Q' ι' κ' ε Unit,
        (p.bind fun _ => E.run k).bind (fun a => E.run (f a)) =
          p.bind fun _ => (E.run k).bind fun a => E.run (f a) := by
      intro p
      induction p <;> simp_all [Prog.bind]
    simp only [Prog.bind, run, ih, assoc]

section
variable {C : Contract σ' Q' ι' κ' ε} {guar rely : σ' → σ' → Prop}

@[simp] theorem wp_run_pure (a : α) (post : σ' → σ' → α → Prop) (s₀ s : σ') :
    wp C guar rely (E.run (pure a)) post s₀ s = post s₀ s a := rfl

@[simp] theorem wp_run_fault (e : ε) (post : σ' → σ' → α → Prop) (s₀ s : σ') :
    wp C guar rely (E.run (fault e)) post s₀ s = C.tolerates e s := rfl

@[simp] theorem wp_run_bind (p : Prog σ Q ι κ ε α) (f : α → Prog σ Q ι κ ε β)
    (post : σ' → σ' → β → Prop) (s₀ s : σ') :
    wp C guar rely (E.run (p >>= f)) post s₀ s =
      wp C guar rely (E.run p) (fun s₀ s a => wp C guar rely (E.run (f a)) post s₀ s) s₀ s := by
  show wp C guar rely (E.run (p.bind f)) post s₀ s = _
  rw [run_bind]
  exact wp_bind (E.run p) (fun a => E.run (f a)) post s₀ s

@[simp] theorem wp_run_read (post : σ' → σ' → σ → Prop) (s₀ s : σ') :
    wp C guar rely (E.run read) post s₀ s = post s₀ s (E.view s) := rfl

@[simp] theorem wp_run_modify (f : σ → σ) (post : σ' → σ' → Unit → Prop) (s₀ s : σ') :
    wp C guar rely (E.run (modify f)) post s₀ s = post s₀ (E.put (f (E.view s)) s) () := rfl

@[simp] theorem wp_run_syscall (q : Q) (post : σ' → σ' → ι → Prop) (s₀ s : σ') :
    wp C guar rely (E.run (syscall q)) post s₀ s =
      ∀ a, C.allow s (E.lift q) a → post s₀ s (E.back a) := rfl

@[simp] theorem wp_run_callback (u : κ) (post : σ' → σ' → Unit → Prop) (s₀ s : σ') :
    wp C guar rely (E.run (callback u)) post s₀ s = wp C guar rely (E.handler u) post s₀ s :=
  wp_bind (E.handler u) (fun _ => ret ()) post s₀ s

@[simp] theorem wp_run_assert (e : ε) (c : Bool) (post : σ' → σ' → Unit → Prop) (s₀ s : σ') :
    wp C guar rely (E.run (assert e c)) post s₀ s =
      if c then post s₀ s () else C.tolerates e s := by
  unfold assert; split <;> rfl

@[simp] theorem wp_run_when (c : Bool) (p : Prog σ Q ι κ ε Unit) (post : σ' → σ' → Unit → Prop)
    (s₀ s : σ') :
    wp C guar rely (E.run (when c p)) post s₀ s =
      if c then wp C guar rely (E.run p) post s₀ s else post s₀ s () := by
  unfold when; split <;> rfl

@[simp] theorem wp_run_ite (c : Prop) [Decidable c] (p q : Prog σ Q ι κ ε α)
    (post : σ' → σ' → α → Prop) (s₀ s : σ') :
    wp C guar rely (E.run (if c then p else q)) post s₀ s =
      if c then wp C guar rely (E.run p) post s₀ s else wp C guar rely (E.run q) post s₀ s := by
  split <;> rfl

section
variable {E} {J : σ' → σ' → Prop}

theorem stable_bind {p : Prog σ Q ι κ ε α} {f : α → Prog σ Q ι κ ε β}
    (hp : Stable C guar rely J (E.run p)) (hf : ∀ a, Stable C guar rely J (E.run (f a))) :
    Stable C guar rely J (E.run (p >>= f)) := by
  intro s₀ s h
  rw [wp_run_bind]
  exact wp_mono (hp s₀ s h) fun s₀ s a h => hf a s₀ s h

theorem stable_read : Stable C guar rely J (E.run read) := fun _ _ h => h

theorem stable_when {c : Bool} {p : Prog σ Q ι κ ε Unit} (hp : Stable C guar rely J (E.run p)) :
    Stable C guar rely J (E.run (when c p)) := by
  unfold when
  split
  · exact hp
  · exact fun _ _ h => h

end

/-- The laws of a part of a state. -/
structure Lawful : Prop where
  view_put : ∀ c s, E.view (E.put c s) = c
  put_put : ∀ c c' s, E.put c' (E.put c s) = E.put c' s
  put_view : ∀ s, E.put (E.view s) s = s

section
variable {Cin : Contract σ Q ι κ ε} {gin rin : σ → σ → Prop} {I : σ' → σ' → Prop}

/-- `I` relates the state of the system at the start of a segment to its state when the component took
over. Each callback of the component has to lead from there to such a state again. -/
theorem wp_run_put (hE : E.Lawful)
    (hallow : ∀ s q a, C.allow s (E.lift q) a → Cin.allow (E.view s) q (E.back a))
    (hfault : ∀ s₀ s₁ c e, I s₀ s₁ → Cin.tolerates e c → C.tolerates e (E.put c s₁))
    (hcall : ∀ s₀ s₁ c u, I s₀ s₁ → Cin.inv c → gin (E.view s₁) c → Cin.pre u c →
      wp C guar rely (E.handler u)
        (fun s₀ s _ => I s₀ s ∧ Cin.inv (E.view s) ∧ rin c (E.view s)) s₀ (E.put c s₁))
    {p : Prog σ Q ι κ ε α} {post : σ → σ → α → Prop} {s₀ s₁ : σ'} {c : σ} (h₁ : I s₀ s₁)
    (hp : wp Cin gin rin p post (E.view s₁) c) :
    wp C guar rely (E.run p)
      (fun s₀ s a => ∃ s₁ c, I s₀ s₁ ∧ s = E.put c s₁ ∧ post (E.view s₁) c a) s₀ (E.put c s₁) := by
  induction p generalizing s₀ s₁ c with
  | ret a => exact ⟨s₁, c, h₁, rfl, hp⟩
  | fault e => exact hfault s₀ s₁ c e h₁ hp
  | get k ih =>
    show wp C guar rely (E.run (k (E.view (E.put c s₁)))) _ s₀ (E.put c s₁)
    rw [hE.view_put]
    exact ih c h₁ hp
  | set c' k ih =>
    show wp C guar rely (E.run k) _ s₀ (E.put c' (E.put c s₁))
    rw [hE.put_put]
    exact ih h₁ hp
  | ask q k ih =>
    intro a ha
    have hallowed := hallow _ _ _ ha
    rw [hE.view_put] at hallowed
    exact ih (E.back a) h₁ (hp (E.back a) hallowed)
  | call u k ih =>
    unfold run
    refine (wp_bind (E.handler u) (fun _ => E.run k) _ s₀ (E.put c s₁)).mpr ?_
    refine wp_mono (hcall s₀ s₁ c u h₁ hp.1.1 hp.1.2.1 hp.1.2.2) ?_
    rintro s₀' s _ ⟨hs, hinv, hrel⟩
    have hw := ih hs (hp.2 (E.view s) hinv hrel)
    rwa [hE.put_view] at hw

/-- **What holds of the component on its own holds of it in the system.** -/
theorem wp_run (hE : E.Lawful)
    (hallow : ∀ s q a, C.allow s (E.lift q) a → Cin.allow (E.view s) q (E.back a))
    (hfault : ∀ s₀ s₁ c e, I s₀ s₁ → Cin.tolerates e c → C.tolerates e (E.put c s₁))
    (hcall : ∀ s₀ s₁ c u, I s₀ s₁ → Cin.inv c → gin (E.view s₁) c → Cin.pre u c →
      wp C guar rely (E.handler u)
        (fun s₀ s _ => I s₀ s ∧ Cin.inv (E.view s) ∧ rin c (E.view s)) s₀ (E.put c s₁))
    {p : Prog σ Q ι κ ε α} {post : σ → σ → α → Prop} {post' : σ' → σ' → α → Prop}
    (hdone : ∀ s₀ s₁ c a, I s₀ s₁ → post (E.view s₁) c a → post' s₀ (E.put c s₁) a) {s₀ s : σ'}
    (h : I s₀ s) (hp : wp Cin gin rin p post (E.view s) (E.view s)) :
    wp C guar rely (E.run p) post' s₀ s := by
  have hw := E.wp_run_put hE hallow hfault hcall h hp
  rw [hE.put_view] at hw
  refine wp_mono hw ?_
  rintro s₀ _ a ⟨s₁, c, hI, rfl, hpost⟩
  exact hdone s₀ s₁ c a hI hpost

end

/-! ## What no program of the component can break -/

/-- The program makes no callback outside `allowed`. -/
def Calls (allowed : κ → Prop) (p : Prog σ Q ι κ ε α) : Prop :=
  Keeps ⟨fun _ => True, fun u _ => allowed u, fun _ _ => True, fun _ _ _ => True⟩ p

theorem calls_any (p : Prog σ Q ι κ ε α) : Calls (fun _ => True) p := by
  intro c₀ c _
  induction p generalizing c₀ c with
  | ret a => trivial
  | fault e => trivial
  | get k ih => exact ih c c₀ c trivial
  | set c' k ih => exact ih c₀ c' trivial
  | ask q k ih => exact fun a _ => ih a c₀ c trivial
  | call u k ih => exact ⟨⟨trivial, trivial, trivial⟩, fun c' _ _ => ih c' c' trivial⟩

theorem stable_run {J : σ' → σ' → Prop} {allowed : κ → Prop} {p : Prog σ Q ι κ ε α}
    (hcalls : Calls allowed p) (hE : E.Lawful) (hput : ∀ s₀ s c, J s₀ s → J s₀ (E.put c s))
    (hfault : ∀ e s₀ s, J s₀ s → C.tolerates e s)
    (hhandler : ∀ u, allowed u → Stable C guar rely J (E.handler u)) :
    Stable C guar rely J (E.run p) := by
  intro s₀ s hs
  refine E.wp_run (I := J) hE (fun _ _ _ _ => trivial) ?_ ?_ ?_ hs
    (hcalls (E.view s) (E.view s) trivial)
  · exact fun s₀ s c e hs _ => hfault e s₀ _ (hput s₀ s c hs)
  · intro s₀ s c u hs _ _ hu
    refine wp_mono (hhandler u hu s₀ _ (hput s₀ s c hs)) ?_
    exact fun _ s _ hs => ⟨hs, trivial, trivial⟩
  · exact fun s₀ s c _ hs _ => hput s₀ s c hs

theorem keeps_run {allowed : κ → Prop} {p : Prog σ Q ι κ ε α} (hcalls : Calls allowed p)
    (hE : E.Lawful) (hput : ∀ c s, C.inv s → C.inv (E.put c s))
    (hfault : ∀ e s, C.inv s → C.tolerates e s)
    (hhandler : ∀ u, allowed u → Keeps C (E.handler u)) : Keeps C (E.run p) :=
  E.stable_run hcalls hE (fun _ s c hs => hput c s hs) (fun e _ s hs => hfault e s hs) hhandler

end

end Embedding

end Agora.Lib
