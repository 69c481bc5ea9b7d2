import Agora.TimerQueue.Moves

/-! # What the timerfd is armed for -/

open Agora.Lib Agora.Lib.Prog

namespace Agora

/-- In microseconds, on the clock that gave the reading. -/
def Arming.deadline (a : Arming) : Int :=
  a.reading + a.it_value.tv_sec * 1000000 + a.it_value.tv_nsec / 1000

/-! ## The order of `timers_` -/

namespace Entry

theorem before_iff {a b : Entry} : a.before b = true ↔ a.1 < b.1 ∨ a.1 = b.1 ∧ a.2 < b.2 := by
  unfold before
  simp

theorem before_trans {a b c : Entry} (h : a.before b = true) (h' : b.before c = true) :
    a.before c = true := by
  rw [before_iff] at *
  omega

theorem mem_insert {e x : Entry} {l : List Entry} (h : x ∈ insert e l) : x = e ∨ x ∈ l := by
  induction l with
  | nil => simpa [insert] using h
  | cons y ys ih =>
    unfold insert at h
    split at h
    · simpa using h
    split at h
    · rcases List.mem_cons.mp h with rfl | hin
      · exact .inr List.mem_cons_self
      · exact (ih hin).imp id (List.mem_cons_of_mem y)
    · exact .inr h

abbrev Sorted (l : List Entry) : Prop := l.Pairwise fun a b => a.before b = true

theorem Sorted.insert {l : List Entry} (h : Sorted l) (e : Entry) : Sorted (Entry.insert e l) := by
  induction l with
  | nil => exact List.pairwise_singleton _ _
  | cons x xs ih =>
    obtain ⟨hx, hxs⟩ := List.pairwise_cons.mp h
    unfold Entry.insert
    split
    · rename_i hfirst
      refine List.pairwise_cons.mpr ⟨fun y hy => ?_, h⟩
      rcases List.mem_cons.mp hy with rfl | hin
      · exact hfirst
      · exact before_trans hfirst (hx y hin)
    split
    · rename_i hlater
      refine List.pairwise_cons.mpr ⟨fun y hy => ?_, ih hxs⟩
      rcases mem_insert hy with rfl | hin
      · exact hlater
      · exact hx y hin
    · exact h

theorem insert_earlier {e : Entry} {l : List Entry} (h : ∀ first ∈ l.head?, e.1 < first.1) :
    insert e l = e :: l := by
  rcases l with _ | ⟨x, xs⟩
  · rfl
  · unfold insert
    rw [if_pos (before_iff.mpr (.inl (h x rfl)))]

theorem insert_later {expiration : Int} {x : Entry} (h : ¬ expiration < x.1) (timer : Nat)
    (xs : List Entry) :
    ∃ first ∈ (insert (expiration, timer) (x :: xs)).head?, first.1 = x.1 := by
  unfold insert
  split
  · rename_i hbefore
    rw [before_iff] at hbefore
    exact ⟨_, rfl, by simp only at hbefore ⊢; omega⟩
  split
  · exact ⟨x, rfl, rfl⟩
  · exact ⟨x, rfl, rfl⟩

end Entry

namespace TimerQueue

/-- The timerfd has expired and is not read yet, or it will expire in time for this expiration. -/
def ArmedFor (s : TimerQueue) (expiration : Int) : Prop :=
  s.unread = true ∨ ∃ a, s.armed = some a ∧ a.it_value ≠ ⟨0, 0⟩ ∧
    a.deadline ≤ max expiration (a.reading + 100)

structure ArmOk (s : TimerQueue) : Prop where
  sorted : Entry.Sorted s.timers
  armed : s.handling = false → ∀ first ∈ s.timers.head?, s.ArmedFor first.1

variable {s s' : TimerQueue}

theorem armedAt_armedFor (s : TimerQueue) (expiration now : Int) :
    (s.armedAt expiration now).ArmedFor expiration := by
  refine .inr ⟨_, rfl, ?_, ?_⟩
  · unfold howMuchTimeFromNow
    simp only [ne_eq, Timespec.mk.injEq]
    split
    · decide
    · omega
  · unfold Arming.deadline howMuchTimeFromNow
    simp only
    split
    · omega
    · omega

theorem rearmed_armedFor (s : TimerQueue) (now : Int) (first : Entry)
    (h : first ∈ (s.rearmed now).timers.head?) : (s.rearmed now).ArmedFor first.1 := by
  have hhead : s.timers.head? = some first := h
  rcases hfirst : s.timers with _ | ⟨x, rest⟩
  · rw [hfirst] at hhead
    cases hhead
  · rw [hfirst] at hhead
    obtain rfl := Option.some.inj hhead
    rw [rearmed_cons hfirst]
    exact armedAt_armedFor s x.1 now

theorem ArmOk.same (h : ArmOk s) (ht : s'.timers = s.timers) (ha : s'.armed = s.armed)
    (hu : s'.unread = s.unread) (hh : s'.handling = s.handling) : ArmOk s' := by
  refine ⟨ht ▸ h.sorted, fun hoff first hfirst => ?_⟩
  have harmed := h.armed (hh ▸ hoff) first (ht ▸ hfirst)
  unfold ArmedFor at *
  rwa [ha, hu]

theorem ArmOk.added (h : ArmOk s) (timer : Nat) (expiration now : Int) :
    ArmOk (s.added timer expiration now) := by
  refine ⟨h.sorted.insert _, fun hoff first hfirst => ?_⟩
  rcases hchanged : s.earliestChanged expiration with _ | _
  · rw [added_later hchanged] at hfirst ⊢
    unfold earliestChanged at hchanged
    rcases htimers : s.timers with _ | ⟨x, xs⟩
    · rw [htimers] at hchanged
      cases hchanged
    rw [htimers] at hchanged
    have hlater : ¬ expiration < x.1 := by simpa using hchanged
    obtain ⟨first', hfirst', heq⟩ := Entry.insert_later hlater timer xs
    simp only [htimers] at hfirst
    obtain rfl := Option.some.inj (hfirst.symm.trans hfirst')
    rw [heq]
    exact h.armed hoff x (by rw [htimers]; rfl)
  · rw [added_earliest hchanged] at hfirst ⊢
    have hearlier : ∀ x ∈ s.timers.head?, expiration < x.1 := by
      intro x hx
      unfold earliestChanged at hchanged
      rw [Option.mem_def.mp hx] at hchanged
      simpa using hchanged
    have hfirst : first ∈ (Entry.insert (expiration, timer) s.timers).head? := hfirst
    rw [Entry.insert_earlier hearlier] at hfirst
    obtain rfl := Option.some.inj hfirst
    exact armedAt_armedFor _ expiration now

theorem ArmOk.cancelled (h : ArmOk s) (id : TimerId) (now : Int) : ArmOk (s.cancelled id now) := by
  unfold TimerQueue.cancelled
  split
  · exact ⟨h.sorted.sublist List.eraseP_sublist, fun _ => rearmed_armedFor _ now⟩
  · exact h.same rfl rfl rfl rfl

theorem ArmOk.move {m : Option TimerLabel} (h : ArmOk s) (ho : Owned s) (hm : Move s m s') :
    ArmOk s' := by
  cases hm with
  | addTimer timer expiration now interval _ =>
    refine ArmOk.added ?_ timer expiration now
    exact h.same rfl rfl rfl rfl
  | addTimerElsewhere timer expiration interval _ => exact h.same rfl rfl rfl rfl
  | returnElsewhere timer t _ => exact h.same rfl rfl rfl rfl
  | cancel id now _ => exact h.cancelled id now
  | cancelElsewhere id _ => exact h.same rfl rfl rfl rfl
  | functorAdd timer t rest now _ _ =>
    refine ArmOk.added ?_ timer t.expiration now
    exact h.same rfl rfl rfl rfl
  | functorCancel id rest now _ =>
    refine ArmOk.cancelled ?_ id now
    exact h.same rfl rfl rfl rfl
  | expire armed _ => exact ⟨h.sorted, fun _ _ _ => .inl rfl⟩
  | expired now _ _ _ => exact ⟨h.sorted.sublist (List.dropWhile_sublist _), nofun⟩
  | run entry rest t _ _ => exact h.same rfl rfl rfl rfl
  | again now entry rest t _ hd _ _ =>
    refine ⟨h.sorted.insert _, fun hoff => ?_⟩
    exact nomatch (ho.handling_of_done hd).symm.trans hoff
  | dropped entry rest t _ hd _ _ => exact h.same rfl rfl rfl rfl
  | finished now _ _ => exact ⟨h.sorted, fun _ => rearmed_armedFor s now⟩

theorem new_armOk : ArmOk new := ⟨.nil, fun _ _ hfirst => (nomatch hfirst)⟩

theorem armOk_of_reachable {c : Config Unit TimerQueue Unit Int Nat Fault}
    (h : machine.Reachable c) : Owned c.st ∧ ArmOk c.st :=
  (@invariant_of_move (fun _ _ => True) ArmOk new_armOk (fun _ _ _ ho hk _ hm => hk.move ho hm) c h).2

/-! ## Results -/

/-- **The timerfd is armed for the earliest timer** whenever no `handleRead` is running. -/
theorem armed_for_earliest {c : Config Unit TimerQueue Unit Int Nat Fault} (h : machine.Reachable c)
    (hoff : c.st.handling = false) {first : Entry} {rest : List Entry}
    (htimers : c.st.timers = first :: rest) :
    c.st.ArmedFor first.1 ∧ ∀ entry ∈ rest, first.1 ≤ entry.1 := by
  have hok := (armOk_of_reachable h).2
  refine ⟨hok.armed hoff first (by rw [htimers]; rfl), fun entry hin => ?_⟩
  have hsorted := hok.sorted
  rw [htimers] at hsorted
  have hbefore := Entry.before_iff.mp ((List.pairwise_cons.mp hsorted).1 entry hin)
  omega

/-- A callback adds a timer and cancels another while the expired ones are out of `timers_`, the
clock jumps back, and the timerfd expires once more. -/
theorem armed_for_earliest_in_pass :
    ∃ c, machine.system.run (fun _ _ => True) (.initial new)
        [.start (.addTimer 8 50 (some 10)) [0], .start (.addTimer 16 70 none) [],
          .start .expire [], .start .handleRead [60], .start (.addTimer 24 40 none) [30],
          .start (.cancel ⟨16, 2⟩) [20], .start .expire [], .resume () [10]] = some c ∧
      c.st.timers = [(40, 24), (70, 8)] ∧ c.st.ArmedFor 40 := by
  have hrun : (machine.system.run (fun _ _ => True) (.initial new)
        [.start (.addTimer 8 50 (some 10)) [0], .start (.addTimer 16 70 none) [],
          .start .expire [], .start .handleRead [60], .start (.addTimer 24 40 none) [30],
          .start (.cancel ⟨16, 2⟩) [20], .start .expire [], .resume () [10]]).map
      (fun c => (c.st.timers, c.st.handling)) = some ([(40, 24), (70, 8)], false) := by
    decide +kernel
  obtain ⟨c, hc, hst⟩ := Option.map_eq_some_iff.mp hrun
  have htimers := congrArg Prod.fst hst
  exact ⟨c, hc, htimers,
    (armed_for_earliest (machine.reachable_of_run rfl hc) (congrArg Prod.snd hst) htimers).1⟩

end TimerQueue

end Agora
