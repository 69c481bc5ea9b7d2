import Agora.Connector.Rules

/-!
# What the loop does to a connector

The loop polls, keeps timers and queues functors. It takes an attempt further in a few ways only, and
what these keep, it keeps.
-/

open Agora.Lib Agora.Lib.Prog

namespace Agora.Connector

/-- A change of the loop that leaves the attempt alone. -/
structure Aside (c c' : Connector) : Prop where
  connect_ : c'.connect_ = c.connect_
  state : c'.state = c.state
  newConnectionCallback : c'.newConnectionCallback = c.newConnectionCallback
  trace : c'.trace = c.trace
  nextFd : c'.nextFd = c.nextFd
  channel : ∀ ch', c'.channel = some ch' → ∃ ch, c.channel = some ch ∧ ch'.fd = ch.fd

theorem Aside.of_channel {c c' : Connector} (hconnect : c'.connect_ = c.connect_)
    (hstate : c'.state = c.state) (hcallback : c'.newConnectionCallback = c.newConnectionCallback)
    (ht : c'.trace = c.trace) (hn : c'.nextFd = c.nextFd) (hch : c'.channel = c.channel) : Aside c c' :=
  ⟨hconnect, hstate, hcallback, ht, hn, fun ch' h => ⟨ch', hch ▸ h, rfl⟩⟩

/-- The ways in which the loop takes an attempt further do not disturb `J`. When a socket is handed over,
user code may be called, and comes back to `J`. -/
structure LoopRule (C : Contract Connector ConnectorCall Nat Nat Fault)
    (guar rely J : Connector → Connector → Prop) : Prop where
  aborts : ∀ c₀ c e, J c₀ c → C.tolerates e c
  removing : ∀ c₀ c, J c₀ c → J c₀ c.removing
  aside : ∀ c₀ c c', J c₀ c → Aside c c' → J c₀ c'
  reset : ∀ c₀ c sockfd, J c₀ c → J c₀ (c.reset sockfd)
  tried : ∀ c₀ c savedErrno, J c₀ c → c.state = .kDisconnected → c.connect_ = true →
    C.allow c.discarded.attempted (.connect c.nextFd) savedErrno → J c₀ (c.tried savedErrno)
  stopped : ∀ c₀ c ch, J c₀ c → c.state = .kConnecting → c.channel = some ch → J c₀ (c.stopped ch)
  failed : ∀ c₀ c ch err, J c₀ c → c.state = .kConnecting → c.channel = some ch →
    C.allow ((c.removed ch).asked ch.fd) (.getSocketError ch.fd) err → J c₀ (c.failed ch)
  unwanted : ∀ c₀ c ch, J c₀ c → c.state = .kConnecting → c.channel = some ch →
    C.allow ((c.removed ch).asked ch.fd) (.getSocketError ch.fd) 0 →
    (c.connect_ && c.newConnectionCallback) = false → J c₀ (c.opened ch)
  call : ∀ c₀ c ch, J c₀ c → c.state = .kConnecting → c.channel = some ch →
    C.allow ((c.removed ch).asked ch.fd) (.getSocketError ch.fd) 0 →
    c.connect_ = true → c.newConnectionCallback = true →
    C.inv (c.opened ch) ∧ guar c₀ (c.opened ch) ∧ C.pre ch.fd (c.opened ch)
  back : ∀ c c', C.inv c' → rely c c' → J c' c'

namespace LoopRule

variable {C : Contract Connector ConnectorCall Nat Nat Fault} {guar rely J : Connector → Connector → Prop}
  (h : LoopRule C guar rely J)
include h

theorem startInLoop : Stable C guar rely J startInLoop := by
  intro c₀ c hc
  refine startInLoop_ends fun c' hc' => ?_
  cases hc' with
  | idle _ => exact hc
  | tried savedErrno hstate hconnect ha => exact h.tried c₀ c savedErrno hc hstate hconnect ha

/-- `channel_` is null while connecting: the process dies. -/
theorem null {c₀ c : Connector} (hc : J c₀ c) : C.tolerates .nullChannel c.removing :=
  h.aborts c₀ c.removing _ (h.removing c₀ c hc)

theorem stopInLoop : Stable C guar rely J stopInLoop := by
  intro c₀ c hc
  refine (wp_stopInLoop _).mpr ?_
  split
  · rename_i hstate
    exact ⟨fun _ => h.null hc, fun ch hch => h.stopped c₀ c ch hc hstate hch⟩
  · exact hc

theorem handleError : Stable C guar rely J handleError := by
  intro c₀ c hc
  refine (wp_handleError _).mpr ?_
  split
  · rename_i hstate
    exact ⟨fun _ => h.null hc, fun ch hch err ha => h.failed c₀ c ch err hc hstate hch ha⟩
  · exact hc

theorem handleWrite : Stable C guar rely J handleWrite := by
  intro c₀ c hc
  refine (wp_handleWrite _).mpr ?_
  split
  · rename_i hstate
    refine ⟨fun _ => h.null hc, fun ch hch err ha => ?_⟩
    split
    · rename_i hzero
      obtain rfl : err = 0 := by simpa using hzero
      split
      · rename_i hwanted
        obtain ⟨hconnect, hset⟩ := Bool.and_eq_true_iff.mp hwanted
        rw [wp_callback]
        exact ⟨h.call c₀ c ch hc hstate hch ha hconnect hset, h.back _⟩
      · rename_i hunwanted
        exact h.unwanted c₀ c ch hc hstate hch ha (eq_false_of_ne_true hunwanted)
    · exact h.failed c₀ c ch err hc hstate hch ha
  · exact hc

theorem channelAt (sockfd : Nat) : Stable C guar rely J (channelAt sockfd) :=
  fun c₀ c hc => channelAt_ends (fun _ => h.aborts c₀ c _ hc) fun _ _ => hc

theorem handleEvent (sockfd : Nat) : Stable C guar rely J (handleEvent sockfd) :=
  Stable.bind (h.channelAt sockfd) fun _ => Stable.bind (Stable.when h.handleError) fun _ =>
  Stable.bind (h.channelAt sockfd) fun _ => Stable.when h.handleWrite

theorem fillActiveChannels (events : List (Nat × EventMask)) :
    Stable C guar rely J (fillActiveChannels events) := by
  induction events with
  | nil => exact Stable.pure ()
  | cons e events ih =>
    intro c₀ c hc
    unfold Connector.fillActiveChannels
    rw [wp_bind]
    refine channelAt_ends (fun _ => h.aborts c₀ c _ hc) fun ch hch => ?_
    rw [wp_bind, wp_modify]
    refine ih c₀ _ (h.aside c₀ c _ hc ⟨rfl, rfl, rfl, rfl, rfl, fun ch' hch' => ?_⟩)
    obtain rfl := Option.some.inj hch'
    exact ⟨ch, hch.1, rfl⟩

theorem runFunctor (f : ConnectorFunctor) : Stable C guar rely J (runFunctor f) := by
  cases f with
  | startInLoop => exact h.startInLoop
  | stopInLoop => exact h.stopInLoop
  | resetChannel sockfd => exact fun c₀ c hc => h.reset c₀ c sockfd hc

/-- **Every step of the loop keeps `J`.** -/
theorem entry {label : ConnectorLabel} {p : ConnectorM Unit} {c : Connector}
    (hl : loopOnly label = true) (hp : entry label c = some p) : Stable C guar rely J p := by
  have haside : ∀ f : Connector → Connector, (∀ c, Aside c (f c)) → Stable C guar rely J (modify f) :=
    fun f hf => Stable.modify fun c₀ c hc => h.aside c₀ c _ hc (hf c)
  cases label with
  | start | startElsewhere | restart | stop => cases hl
  | poll events =>
    obtain ⟨-, hp⟩ := Option.ite_none_right_eq_some.mp hp
    obtain rfl := Option.some.inj hp
    exact h.fillActiveChannels events
  | handleEvent =>
    rcases hactive : c.active with _ | ⟨sockfd, rest⟩
    · simp only [Connector.entry, hactive] at hp
      cases hp
    · simp only [Connector.entry, hactive] at hp
      obtain rfl := Option.some.inj hp
      exact Stable.bind (haside _ fun _ => .of_channel rfl rfl rfl rfl rfl rfl) fun _ =>
        h.handleEvent sockfd
  | timer place =>
    obtain ⟨-, hp⟩ := Option.ite_none_right_eq_some.mp hp
    obtain rfl := Option.some.inj hp
    exact Stable.bind (haside _ fun _ => .of_channel rfl rfl rfl rfl rfl rfl) fun _ => h.startInLoop
  | doPendingFunctors =>
    obtain ⟨-, hp⟩ := Option.ite_none_right_eq_some.mp hp
    obtain rfl := Option.some.inj hp
    exact haside _ fun _ => .of_channel rfl rfl rfl rfl rfl rfl
  | functor =>
    rcases hfunctors : c.functors with _ | ⟨f, rest⟩
    · simp only [Connector.entry, hfunctors] at hp
      cases hp
    · simp only [Connector.entry, hfunctors] at hp
      obtain rfl := Option.some.inj hp
      exact Stable.bind (haside _ fun _ => .of_channel rfl rfl rfl rfl rfl rfl) fun _ => h.runFunctor f

end LoopRule

end Agora.Connector
