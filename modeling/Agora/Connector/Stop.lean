import Agora.Connector.Loop
import Agora.Lib.Barrier

/-! # What a connector does behind `stop` -/

open Agora.Lib Agora.Lib.Prog

namespace Agora.Connector

/-- `stop` bars `::connect` and `newConnectionCallback_`, up to the next `start`. -/
def stopBarrier : Barrier ConnectorEvent where
  raises e := e = .stop
  lowers e := e = .start
  stops
    | .connect _ | .newConnection _ => true
    | _ => false

/-- A connector that is stopped is not wanted. -/
structure HeedsStop (c : Connector) : Prop where
  kept : stopBarrier.Kept c.trace
  unwanted : stopBarrier.up c.trace = true → c.connect_ = false

/-- There was neither a `start` nor a `stop`, and no attempt that was not wanted. -/
structure Follows (c c' : Connector) : Prop where
  connect_ : c'.connect_ = c.connect_
  trace : ∃ es, c'.trace = c.trace ++ es ∧ ∀ e ∈ es, stopBarrier.passes (!c.connect_) e = true

variable {c₀ c c' c'' : Connector}

theorem new_heedsStop (b : Bool) : HeedsStop (new b) := ⟨.nil, nofun⟩

theorem Follows.refl (c : Connector) : Follows c c := ⟨rfl, [], (List.append_nil _).symm, nofun⟩

theorem Follows.trans (h : Follows c c') (h' : Follows c' c'') : Follows c c'' := by
  obtain ⟨es, ht, hes⟩ := h.trace
  obtain ⟨es', ht', hes'⟩ := h'.trace
  refine ⟨h'.connect_.trans h.connect_, es ++ es', by rw [ht', ht, List.append_assoc], fun e he => ?_⟩
  rcases List.mem_append.mp he with he | he
  · exact hes e he
  · exact h.connect_ ▸ hes' e he

theorem Follows.of_same (hconnect : c'.connect_ = c.connect_) (ht : c'.trace = c.trace) : Follows c c' :=
  ⟨hconnect, [], ht.trans (List.append_nil _).symm, nofun⟩

theorem Follows.note (e : ConnectorEvent) (hconnect : c'.connect_ = c.connect_)
    (ht : c'.trace = c.trace ++ [e]) (he : stopBarrier.passes (!c.connect_) e = true) : Follows c c' := by
  refine ⟨hconnect, [e], ht, fun e' he' => ?_⟩
  rwa [List.mem_singleton.mp he']

theorem HeedsStop.passes (h : HeedsStop c) {e : ConnectorEvent}
    (he : stopBarrier.passes (!c.connect_) e = true) :
    stopBarrier.passes (stopBarrier.up c.trace) e = true := by
  rw [Barrier.passes_iff] at he ⊢
  refine ⟨he.1, fun hstops => ?_⟩
  have hwanted : c.connect_ = true := by simpa using he.2 hstops
  refine eq_false_of_ne_true fun hup => ?_
  exact nomatch hwanted.symm.trans (h.unwanted hup)

theorem HeedsStop.up_eq (h : HeedsStop c) (hf : Follows c c') :
    stopBarrier.up c'.trace = stopBarrier.up c.trace := by
  obtain ⟨es, ht, hes⟩ := hf.trace
  rw [ht]
  exact Barrier.up_passed fun e he => h.passes (hes e he)

theorem HeedsStop.follow (h : HeedsStop c) (hf : Follows c c') : HeedsStop c' := by
  refine ⟨?_, fun hup => ?_⟩
  · obtain ⟨es, ht, hes⟩ := hf.trace
    rw [ht]
    exact h.kept.passed fun e he => h.passes (hes e he)
  · rw [hf.connect_]
    exact h.unwanted (h.up_eq hf ▸ hup)

/-! ## The changes -/

theorem follows_dropped (c : Connector) (ch : Channel) : Follows c (c.dropped ch) := by
  refine ⟨rfl, (dropCtls ch).map .epollCtl, rfl, fun e he => ?_⟩
  obtain ⟨ctl, -, rfl⟩ := List.mem_map.mp he
  cases c.connect_ <;> rfl

theorem follows_removing (c : Connector) : Follows c c.removing :=
  .note _ rfl rfl (by cases c.connect_ <;> rfl)

theorem follows_removed (c : Connector) (ch : Channel) : Follows c (c.removed ch) :=
  (follows_removing c).trans ((follows_dropped c.removing ch).trans (.of_same rfl rfl))

theorem follows_asked (c : Connector) (sockfd : Nat) : Follows c (c.asked sockfd) :=
  .note _ rfl rfl (by cases c.connect_ <;> rfl)

theorem follows_closed (c : Connector) (sockfd : Nat) : Follows c (closed sockfd c) :=
  .note _ rfl rfl (by cases c.connect_ <;> rfl)

theorem follows_installed (c : Connector) (sockfd : Nat) : Follows c (c.installed sockfd) :=
  .note _ rfl rfl (by cases c.connect_ <;> rfl)

theorem retried_connect (c : Connector) : c.retried.connect_ = c.connect_ := by
  unfold retried
  split <;> rfl

theorem follows_retried (c : Connector) : Follows c c.retried :=
  .of_same (retried_connect c) (retried_trace c)

theorem follows_discarded (c : Connector) : Follows c c.discarded := by
  unfold discarded
  split
  · exact .refl c
  · exact (follows_dropped c _).trans (.of_same rfl rfl)

theorem follows_attempted (hconnect : c.connect_ = true) : Follows c c.attempted := by
  refine ⟨rfl, [.socket c.nextFd, .connect c.nextFd], List.append_assoc _ _ _, ?_⟩
  rw [hconnect]
  simp [Barrier.passes, stopBarrier]

theorem follows_stopped (c : Connector) (ch : Channel) : Follows c (c.stopped ch) :=
  (follows_removed c ch).trans ((follows_closed _ ch.fd).trans (.of_same rfl rfl))

theorem follows_failed (c : Connector) (ch : Channel) : Follows c (c.failed ch) :=
  (follows_removed c ch).trans
    ((follows_asked _ ch.fd).trans ((follows_closed _ ch.fd).trans (follows_retried _)))

theorem follows_connected (c : Connector) (ch : Channel) : Follows c (c.connected ch) :=
  (follows_removed c ch).trans ((follows_asked _ ch.fd).trans (.of_same rfl rfl))

theorem follows_opened (c : Connector) (ch : Channel) : Follows c (c.opened ch) := by
  unfold opened
  split
  · rename_i hwanted
    have hconnect : c.connect_ = true := (Bool.and_eq_true_iff.mp hwanted).1
    refine (follows_connected c ch).trans (.note _ rfl rfl ?_)
    rw [(follows_connected c ch).connect_, hconnect]
    rfl
  · exact (follows_connected c ch).trans (follows_closed _ ch.fd)

theorem follows_tried (hconnect : c.connect_ = true) (savedErrno : Nat) :
    Follows c (c.tried savedErrno) := by
  have hattempted : Follows c c.discarded.attempted :=
    (follows_discarded c).trans (follows_attempted ((discarded_connect c).trans hconnect))
  unfold tried
  split
  · have hdelay : Follows c.discarded.attempted c.discarded.attempted.setDelay := .of_same rfl rfl
    exact hattempted.trans (hdelay.trans (follows_installed _ _))
  split
  · exact hattempted.trans (follows_installed _ _)
  · exact hattempted.trans ((follows_closed _ _).trans (follows_retried _))

/-! ## The functions -/

/-- `newConnectionCallback_` is called on the way to `kConnected`. -/
def heedContract : Contract Connector ConnectorCall Nat Nat Fault where
  inv := HeedsStop
  pre _ _ := True
  tolerates _ c := stopBarrier.Kept c.trace
  allow _ _ _ := True

structure Opens (c₀ c : Connector) : Prop where
  before : c₀.state ≠ .kConnected
  wanted : c₀.connect_ = true
  state : c.state = .kConnected
  follows : Follows c₀ c

structure HeedAt (c₀ c : Connector) : Prop where
  heeds : HeedsStop c₀
  follows : Follows c₀ c
  connected : c₀.state = .kConnected → c.state = .kConnected

theorem HeedsStop.here (h : HeedsStop c) : HeedAt c c := ⟨h, .refl c, id⟩

theorem HeedAt.ok (h : HeedAt c₀ c) : HeedsStop c := h.heeds.follow h.follows

theorem HeedAt.move (h : HeedAt c₀ c) (hf : Follows c c')
    (hstate : c.state = .kConnected → c'.state = .kConnected) : HeedAt c₀ c' :=
  ⟨h.heeds, h.follows.trans hf, fun hs => hstate (h.connected hs)⟩

theorem HeedAt.tried (h : HeedAt c₀ c) (hstate : c.state = .kDisconnected) (hconnect : c.connect_ = true)
    (savedErrno : Nat) : HeedAt c₀ (c.tried savedErrno) :=
  h.move (follows_tried hconnect savedErrno) fun hs => nomatch hstate.symm.trans hs

theorem heed_loop : LoopRule heedContract Opens (fun _ _ => True) HeedAt where
  aborts _ _ _ h := h.ok.kept
  removing _ c h := h.move (follows_removing c) id
  aside _ _ _ h ha := h.move (.of_same ha.connect_ ha.trace) fun hs => ha.state.trans hs
  reset _ c sockfd h := h.move (.note _ rfl rfl (by cases c.connect_ <;> rfl)) id
  tried _ _ savedErrno h hstate hconnect _ := h.tried hstate hconnect savedErrno
  stopped _ c ch h hstate _ := h.move (follows_stopped c ch) fun hs => nomatch hstate.symm.trans hs
  failed _ c ch _ h hstate _ _ := h.move (follows_failed c ch) fun hs => nomatch hstate.symm.trans hs
  unwanted _ c ch h hstate _ _ _ := h.move (follows_opened c ch) fun hs => nomatch hstate.symm.trans hs
  call c₀ c ch h hstate _ _ hconnect _ := by
    have hopened : (c.opened ch).state = .kConnected := by
      unfold opened
      split <;> rfl
    have hat : HeedAt c₀ (c.opened ch) := h.move (follows_opened c ch) fun _ => hopened
    refine ⟨hat.ok, ⟨fun hs => ?_, h.follows.connect_.symm.trans hconnect, hopened, hat.follows⟩, trivial⟩
    exact nomatch hstate.symm.trans (h.connected hs)
  back _ _ h _ := h.here

/-! ## The calls of the client -/

/-- The connector is wanted again. -/
structure Wanted (c₀ c : Connector) : Prop where
  heeds : HeedsStop c
  unstopped : stopBarrier.up c.trace = false
  connected : c₀.state = .kConnected → c.state = .kConnected

theorem HeedAt.wanted (h : HeedAt c₀ c) (hdown : stopBarrier.up c₀.trace = false) : Wanted c₀ c :=
  ⟨h.ok, (h.heeds.up_eq h.follows).trans hdown, h.connected⟩

theorem up_start (t : List ConnectorEvent) : stopBarrier.up (t ++ [.start]) = false := by
  rw [Barrier.up_snoc]
  simp [Barrier.after, stopBarrier]

theorem HeedsStop.calledStart (h : HeedsStop c) : HeedsStop c.calledStart :=
  ⟨h.kept.snoc nofun, fun hup => nomatch (up_start c.trace).symm.trans hup⟩

theorem HeedsStop.calledStop (h : HeedsStop c) : HeedsStop (c.calledStop.queued .stopInLoop) :=
  ⟨h.kept.snoc nofun, fun _ => rfl⟩

section
variable {C : Contract Connector ConnectorCall Nat Nat Fault} {guar rely : Connector → Connector → Prop}

theorem startInLoop_wanted (h : HeedsStop c) (hdown : stopBarrier.up c.trace = false) :
    wp C guar rely startInLoop (fun _ c' _ => Wanted c c') c₀ c := by
  refine startInLoop_ends fun c' hc' => ?_
  cases hc' with
  | idle _ => exact h.here.wanted hdown
  | tried savedErrno hstate hconnect _ => exact (h.here.tried hstate hconnect savedErrno).wanted hdown

theorem start_wanted (h : HeedsStop c) : wp C guar rely start (fun _ c' _ => Wanted c c') c₀ c := by
  unfold start emit
  rw [wp_bind, wp_modify, wp_bind, wp_modify]
  refine wp_mono (startInLoop_wanted h.calledStart (up_start c.trace)) fun _ _ _ hc' => ?_
  exact ⟨hc'.heeds, hc'.unstopped, hc'.connected⟩

theorem startElsewhere_wanted (h : HeedsStop c) :
    wp C guar rely startElsewhere (fun _ c' _ => Wanted c c') c₀ c := by
  have hstart := h.calledStart
  exact ⟨⟨hstart.kept, hstart.unwanted⟩, up_start c.trace, id⟩

/-- `restart` sets `connect_`; `start` has not been called for it. -/
theorem restart_wanted (h : HeedsStop c) (hdown : stopBarrier.up c.trace = false) :
    wp C guar rely restart (fun _ c' _ => HeedsStop c' ∧ stopBarrier.up c'.trace = false) c₀ c := by
  unfold restart setState
  rw [wp_bind, wp_modify, wp_bind, wp_modify]
  have hset : HeedsStop { c with
      state := .kDisconnected, retryDelayMs := kInitRetryDelayMs, connect_ := true } :=
    ⟨h.kept, fun hup => nomatch hdown.symm.trans hup⟩
  exact wp_mono (startInLoop_wanted hset hdown) fun _ _ _ hc' => ⟨hc'.heeds, hc'.unstopped⟩

end

end Agora.Connector
