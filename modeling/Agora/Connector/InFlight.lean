import Agora.Connector.Loop
import Agora.Connector.Outstanding

/-!
# A connector that is connecting has an attempt in flight

So it is while no attempt ends that `stop` has given up.
-/

open Agora.Lib Agora.Lib.Prog

namespace Agora.Connector

/-- The outcome of an attempt is asked for only while the attempt is wanted. -/
def asksWanted (c : Connector) : ConnectorCall → Nat → Prop
  | .connect _, _ => True
  | .getSocketError _, _ => c.connect_ = true

structure TryOk (c : Connector) : Prop where
  callback : c.newConnectionCallback = true
  basis : Basis c
  attempt : c.state = .kConnecting → c.live ≠ []

/-- The connector has not connected since `c₀` without a call of `newConnectionCallback_`. -/
structure TryAt (c₀ c : Connector) : Prop where
  ok : TryOk c
  connected : c.state = .kConnected → c₀.state = .kConnected

abbrev tryContract : Contract Connector ConnectorCall Nat Nat Fault := stepContract TryOk asksWanted

abbrev Tries (p : ConnectorM Unit) : Prop :=
  Stable tryContract (fun _ _ => True) (fun _ _ => True) TryAt p

variable {c₀ c c' : Connector}

theorem new_tryOk : TryOk (new true) := by
  refine ⟨rfl, new_basis true, fun hs => ?_⟩
  cases hs

theorem TryOk.here (h : TryOk c) : TryAt c c := ⟨h, id⟩

/-! ## Changes -/

theorem Basis.stopped {ch : Channel} (h : Basis c) (hch : c.channel = some ch) :
    Basis (c.stopped ch) :=
  h.endedBy (l := [.close ch.fd]) hch rfl rfl (by simp [concludes]) rfl

theorem Basis.refusedBy {ch : Channel} (h : Basis c) (hch : c.channel = some ch) :
    Basis (((c.removed ch).asked ch.fd).closed ch.fd) :=
  h.endedBy (l := [.getSocketError ch.fd, .close ch.fd]) hch (List.append_assoc _ _ _) rfl
    (by simp [concludes]) rfl

theorem Basis.opened {ch : Channel} (h : Basis c) (hch : c.channel = some ch) :
    Basis (c.opened ch) := by
  unfold Connector.opened
  split
  · exact h.endedBy (l := [.getSocketError ch.fd, .newConnection ch.fd]) hch
      (List.append_assoc _ _ _) rfl (by simp [concludes]) rfl
  · exact h.endedBy (l := [.getSocketError ch.fd, .close ch.fd]) hch (List.append_assoc _ _ _) rfl
      (by simp [concludes]) rfl

theorem TryOk.note {l : List ConnectorEvent} (h : TryOk c)
    (hcallback : c'.newConnectionCallback = c.newConnectionCallback) (ht : c'.trace = c.trace ++ l)
    (hes : ∀ e ∈ l, concludes e = none) (hn : c'.nextFd = c.nextFd)
    (hch : ∀ ch', c'.channel = some ch' → ∃ ch, c.channel = some ch ∧ ch'.fd = ch.fd)
    (hs : c'.state = .kConnecting → c.state = .kConnecting) : TryOk c' := by
  refine ⟨hcallback.trans h.callback, ?_, fun hconnecting => ?_⟩
  · exact h.basis.of_append ht hn (fun e he fd hfd => nomatch (hes e he).symm.trans hfd) hch
  · rw [live_note ht hn hes]
    exact h.attempt (hs hconnecting)

theorem TryAt.note {l : List ConnectorEvent} (h : TryAt c₀ c)
    (hcallback : c'.newConnectionCallback = c.newConnectionCallback) (ht : c'.trace = c.trace ++ l)
    (hes : ∀ e ∈ l, concludes e = none) (hn : c'.nextFd = c.nextFd)
    (hch : ∀ ch', c'.channel = some ch' → ∃ ch, c.channel = some ch ∧ ch'.fd = ch.fd)
    (hs : c'.state = c.state) : TryAt c₀ c' := by
  refine ⟨h.ok.note hcallback ht hes hn hch ?_, ?_⟩
  · rw [hs]
    exact id
  · rw [hs]
    exact h.connected

theorem TryAt.same (h : TryAt c₀ c) (hcallback : c'.newConnectionCallback = c.newConnectionCallback)
    (ht : c'.trace = c.trace) (hn : c'.nextFd = c.nextFd)
    (hch : ∀ ch', c'.channel = some ch' → ∃ ch, c.channel = some ch ∧ ch'.fd = ch.fd)
    (hs : c'.state = c.state) : TryAt c₀ c' :=
  h.note hcallback (ht.trans (List.append_nil _).symm) nofun hn hch hs

theorem TryAt.ended (hcallback : c'.newConnectionCallback = true) (hbasis : Basis c')
    (hs : c'.state = .kDisconnected) : TryAt c₀ c' := by
  refine ⟨⟨hcallback, hbasis, fun hs' => ?_⟩, fun hs' => ?_⟩
  · exact nomatch hs.symm.trans hs'
  · exact nomatch hs.symm.trans hs'

theorem tried_ok (h : TryOk c) (hconnect : c.connect_ = true) (savedErrno : Nat) :
    TryAt c₀ (c.tried savedErrno) := by
  have hd := h.basis.discarded
  have hcallback : c.discarded.newConnectionCallback = true :=
    (discarded_newConnectionCallback c).trans h.callback
  have hinstalled : ∀ d : Connector, d.newConnectionCallback = c.discarded.newConnectionCallback →
      d.trace = c.discarded.attempted.trace → d.nextFd = c.discarded.attempted.nextFd →
      TryAt c₀ (d.installed c.discarded.nextFd) := by
    intro d hset ht hn
    refine ⟨⟨hset.trans hcallback, hd.installed ht hn, fun _ => ?_⟩, by nofun⟩
    rw [hd.live_installed ht hn]
    exact List.append_ne_nil_of_right_ne_nil _ (List.cons_ne_nil _ _)
  unfold Connector.tried
  rw [← discarded_nextFd c]
  split
  · exact hinstalled c.discarded.attempted.setDelay rfl rfl rfl
  split
  · exact hinstalled c.discarded.attempted rfl rfl rfl
  · refine .ended ((retried_newConnectionCallback _).trans hcallback) hd.refused.retried ?_
    exact retried_wanted (c := c.discarded.attempted.closed _) ((discarded_connect c).trans hconnect)

theorem TryOk.failed {ch : Channel} (h : TryOk c) (hch : c.channel = some ch)
    (hconnect : c.connect_ = true) : TryAt c₀ (c.failed ch) := by
  refine .ended ((retried_newConnectionCallback _).trans h.callback) (h.basis.refusedBy hch).retried ?_
  exact retried_wanted (c := ((c.removed ch).asked ch.fd).closed ch.fd) hconnect

theorem TryOk.opened {ch : Channel} (h : TryOk c) (hch : c.channel = some ch) :
    TryOk (c.opened ch) := by
  refine ⟨?_, h.basis.opened hch, ?_⟩
  all_goals
    unfold Connector.opened
    split
  · exact h.callback
  · exact h.callback
  · nofun
  · nofun

/-! ## Functions -/

theorem TryAt.removing (h : TryAt c₀ c) : TryAt c₀ c.removing :=
  h.note rfl rfl (by simp [concludes]) rfl (fun ch hch => ⟨ch, hch, rfl⟩) rfl

theorem tries_loop : LoopRule tryContract (fun _ _ => True) (fun _ _ => True) TryAt where
  aborts _ _ _ h := h.ok
  removing _ _ h := h.removing
  aside _ _ _ h ha := h.same ha.newConnectionCallback ha.trace ha.nextFd ha.channel ha.state
  reset c₀ c sockfd h := by
    refine h.note rfl rfl (by simp [concludes]) rfl (fun ch' hch' => ?_) rfl
    cases hch'
  tried _ _ savedErrno h _ hconnect _ := tried_ok h.ok hconnect savedErrno
  stopped _ _ _ h _ hch := .ended h.ok.callback (h.ok.basis.stopped hch) rfl
  failed _ _ _ _ h _ hch hwanted := h.ok.failed hch hwanted
  unwanted _ c _ h _ _ hwanted hunwanted := by
    have hwanted : c.connect_ = true := hwanted
    rw [hwanted, h.ok.callback] at hunwanted
    cases hunwanted
  call _ _ _ h _ hch _ _ _ := ⟨h.ok.opened hch, trivial, trivial⟩
  back _ _ h _ := h.here

theorem tries_start : Tries start := by
  intro c₀ c h
  refine tries_loop.startInLoop c₀ c.calledStart ?_
  exact h.note rfl rfl (by simp [concludes]) rfl (fun ch hch => ⟨ch, hch, rfl⟩) rfl

theorem tries_startElsewhere : Tries startElsewhere :=
  fun c₀ c h => h.note (by rfl) (by rfl) (by simp [concludes]) (by rfl) (fun ch hch => ⟨ch, hch, rfl⟩) (by rfl)

theorem tries_stop : Tries stop :=
  fun c₀ c h => h.note (by rfl) (by rfl) (by simp [concludes]) (by rfl) (fun ch hch => ⟨ch, hch, rfl⟩) (by rfl)

theorem restart_ok (h : TryOk c) :
    wp tryContract (fun _ _ => True) (fun _ _ => True) restart
      (fun _ c' _ => TryOk c' ∧ c'.state ≠ .kConnected) c₀ c := by
  have hset : TryOk { c with
      state := .kDisconnected, retryDelayMs := kInitRetryDelayMs, connect_ := true } :=
    h.note rfl (List.append_nil _).symm nofun rfl (fun ch hch => ⟨ch, hch, rfl⟩) (by nofun)
  refine startInLoop_ends fun c' hc' => ?_
  cases hc' with
  | idle hidle => exact absurd ⟨rfl, rfl⟩ hidle
  | tried savedErrno _ hconnect _ =>
    have htried : TryAt (new true) _ := tried_ok hset hconnect savedErrno
    exact ⟨htried.ok, fun hs => nomatch htried.connected hs⟩

end Agora.Connector
