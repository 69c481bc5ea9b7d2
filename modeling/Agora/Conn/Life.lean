import Agora.Conn.Quiet
import Agora.Lib.Ledger
import Mathlib.Data.List.Induction

/-! # What a connection has told its user about its life -/

open Agora.Lib Agora.Lib.Prog

namespace Agora.TcpConnection

/-- The calls of `connectionCallback_`, each with what `connected()` was. -/
def noted (t : List ConnEvent) : List Bool :=
  t.filterMap fun e => match e with
    | .connectionCallback connected => some connected
    | _ => none

/-- Whenever `connectDestroyed` has returned, the user was told that the connection is up and then that it
is down, and it is. -/
def Notified (c : TcpConnection) : Prop :=
  ∀ u state, u ++ [.destroyed state] <+: c.trace → noted u = [true, false] ∧ state = .kDisconnected

/-- `connectDestroyed` was never entered between `shutdown` and the close. -/
def DestroyedCalmly (c : TcpConnection) : Prop := .destroying .kDisconnecting ∉ c.trace

theorem noted_snoc (t : List ConnEvent) (e : ConnEvent) : noted (t ++ [e]) = noted t ++ noted [e] :=
  List.filterMap_append

theorem noted_quiet {e : ConnEvent} (he : quietEvent e = true) : noted [e] = [] := by
  cases e with
  | connectionCallback connected => cases he
  | _ => rfl

/-- What the user has been told of a connection in this state. -/
def told : ConnState → List Bool
  | .kConnecting => []
  | .kConnected | .kDisconnecting => [true]
  | .kDisconnected => [true, false]

/-- Every `connectDestroyed` was right that did not come between `shutdown` and the close; one that did
has left the connection as it was. -/
structure Past (t : List ConnEvent) : Prop where
  destroyed : ∀ u state, u ++ [.destroyed state] <+: t →
    (noted u = [true, false] ∧ state = .kDisconnected) ∨ .destroying .kDisconnecting ∈ u
  entered : .destroying .kDisconnecting ∈ t → ∃ u, u ++ [.destroyed .kDisconnecting] <+: t

/-- A connection with a `connectionCallback_`, between calls. -/
structure Life (c : TcpConnection) : Prop where
  callback : c.connectionCallback = true
  told : noted c.trace = told c.state
  past : Past c.trace

theorem Past.notified_iff {c : TcpConnection} (h : Past c.trace) : Notified c ↔ DestroyedCalmly c := by
  constructor
  · intro hn hin
    obtain ⟨u, hu⟩ := h.entered hin
    exact nomatch (hn u _ hu).2
  · intro hcalm u state hu
    rcases h.destroyed u state hu with hright | hin
    · exact hright
    · have hpre := (List.prefix_append u _).trans hu
      exact absurd (hpre.subset hin) hcalm

/-- What a connection does not take back. -/
structure Later (c c' : TcpConnection) : Prop where
  established : c.state ≠ .kConnecting → c'.state ≠ .kConnecting
  down : c.state = .kDisconnected → c'.state = .kDisconnected

theorem Later.refl (c : TcpConnection) : Later c c := ⟨id, id⟩

theorem Later.trans {c c' c'' : TcpConnection} (h : Later c c') (h' : Later c' c'') : Later c c'' :=
  ⟨fun hs => h'.established (h.established hs), fun hs => h'.down (h.down hs)⟩

/-! ## Changes -/

theorem Past.snoc {t : List ConnEvent} (h : Past t) {e : ConnEvent} (hd : ∀ state, e ≠ .destroyed state)
    (he : e ≠ .destroying .kDisconnecting) : Past (t ++ [e]) := by
  refine ⟨fun u state hu => ?_, fun hin => ?_⟩
  · rcases prefix_snoc hu with ⟨-, heq⟩ | hpre
    · exact absurd heq.symm (hd state)
    · exact h.destroyed u state hpre
  · rcases List.mem_append.mp hin with hin | hin
    · obtain ⟨u, hu⟩ := h.entered hin
      exact ⟨u, hu.trans (List.prefix_append _ _)⟩
    · exact absurd (List.mem_singleton.mp hin).symm he

theorem Past.quiet {t : List ConnEvent} (h : Past t) {e : ConnEvent} (he : quietEvent e = true) :
    Past (t ++ [e]) := by
  refine h.snoc (fun state => ?_) ?_
  · rintro rfl
    cases he
  · rintro rfl
    cases he

theorem Past.left {t : List ConnEvent} (h : Past t) (htold : noted t = [true, false]) :
    Past (t ++ [.destroyed .kDisconnected]) := by
  refine ⟨fun u state hu => ?_, fun hin => ?_⟩
  · rcases prefix_snoc hu with ⟨rfl, heq⟩ | hpre
    · cases heq
      exact .inl ⟨htold, rfl⟩
    · exact h.destroyed u state hpre
  · rcases List.mem_append.mp hin with hin | hin
    · obtain ⟨u, hu⟩ := h.entered hin
      exact ⟨u, hu.trans (List.prefix_append _ _)⟩
    · cases List.mem_singleton.mp hin

/-- `connectDestroyed` comes between `shutdown` and the close. -/
theorem Past.skipped {t : List ConnEvent} (h : Past t) :
    Past (t ++ [.destroying .kDisconnecting] ++ [.destroyed .kDisconnecting]) := by
  refine ⟨fun u state hu => ?_, fun _ => ⟨_, List.prefix_rfl⟩⟩
  rcases prefix_snoc hu with ⟨rfl, -⟩ | hpre
  · exact .inr (List.mem_append_right t (List.mem_singleton_self _))
  · rcases prefix_snoc hpre with ⟨-, heq⟩ | hpre
    · cases heq
    · exact h.destroyed u state hpre

theorem Life.quiet {c c' : TcpConnection} (h : Life c) (hq : Quiet c c') : Life c' := by
  have hevents : ∀ es : List ConnEvent, (∀ e ∈ es, quietEvent e = true) →
      noted (c.trace ++ es) = noted c.trace ∧ Past (c.trace ++ es) := by
    intro es
    induction es using List.reverseRecOn with
    | nil =>
      intro _
      rw [List.append_nil]
      exact ⟨rfl, h.past⟩
    | append_singleton es e ih =>
      intro hes
      obtain ⟨hnoted, hpast⟩ := ih fun e he => hes e (List.mem_append_left _ he)
      have he := hes e (List.mem_append_right _ (List.mem_singleton_self e))
      rw [← List.append_assoc, noted_snoc, noted_quiet he, List.append_nil]
      exact ⟨hnoted, hpast.quiet he⟩
  obtain ⟨es, ht, hes⟩ := hq.trace
  obtain ⟨hnoted, hpast⟩ := hevents es hes
  refine ⟨hq.connectionCallback.trans h.callback, ?_, ht ▸ hpast⟩
  rw [ht, hnoted, h.told]
  rcases hq.state with hs | ⟨hs, hs'⟩
  · rw [hs]
  · rw [hs, hs']
    rfl

theorem Later.quiet {c c' : TcpConnection} (hq : Quiet c c') : Later c c' := by
  refine ⟨fun hs => ?_, fun hs => ?_⟩
  · rcases hq.state with hs' | ⟨-, hs'⟩
    · rw [hs']
      exact hs
    · rw [hs']
      nofun
  · rcases hq.state with hs' | ⟨hs', -⟩
    · rw [hs']
      exact hs
    · exact nomatch hs'.symm.trans hs

/-! ## Programs -/

structure Lives (c : TcpConnection) : Prop where
  life : Life c
  established : c.state ≠ .kConnecting

def lifeContract : Contract TcpConnection SysCall SysResult Callback Fault where
  inv := Lives
  pre _ _ := True
  tolerates _ := Life
  allow _ _ _ := True

structure LifeAt (c₀ c : TcpConnection) : Prop where
  lives : Lives c
  later : Later c₀ c

abbrev Tells {α : Type} (p : ConnM α) : Prop := Stable lifeContract Later Later LifeAt p

theorem Lives.refl {c : TcpConnection} (h : Lives c) : LifeAt c c := ⟨h, .refl c⟩

theorem life_rule : QuietRule lifeContract Later Later LifeAt where
  quiet _ _ _ h hq :=
    have hquiet := Later.quiet hq
    ⟨⟨h.lives.life.quiet hq, hquiet.established h.lives.established⟩, h.later.trans hquiet⟩
  call _ _ _ _ h := ⟨h.lives, h.later, trivial⟩
  back _ _ hi _ := hi.refl

theorem LifeAt.same {c₀ c c' : TcpConnection} (h : LifeAt c₀ c)
    (hc : c'.connectionCallback = c.connectionCallback) (hs : c'.state = c.state)
    (ht : c'.trace = c.trace) : LifeAt c₀ c' := by
  refine ⟨⟨⟨hc.trans h.lives.life.callback, ?_, ht ▸ h.lives.life.past⟩, ?_⟩, ?_, ?_⟩
  · rw [ht, hs]
    exact h.lives.life.told
  · rw [hs]
    exact h.lives.established
  · rw [hs]
    exact h.later.established
  · rw [hs]
    exact h.later.down

theorem LifeAt.emit {c₀ c : TcpConnection} (h : LifeAt c₀ c) {e : ConnEvent} (hn : noted [e] = [])
    (hd : ∀ state, e ≠ .destroyed state) (he : e ≠ .destroying .kDisconnecting) :
    LifeAt c₀ { c with trace := c.trace ++ [e] } := by
  have hlife := h.lives.life
  refine ⟨⟨⟨hlife.callback, ?_, hlife.past.snoc hd he⟩, h.lives.established⟩, h.later.established,
    h.later.down⟩
  rw [noted_snoc, hn, List.append_nil]
  exact hlife.told

theorem tells_callback (u : Callback) : Tells (callback u) :=
  Stable.callback (fun _ _ h => ⟨h.lives, h.later, trivial⟩) fun _ _ hi _ => hi.refl

theorem tells_invokeCloseCallback : Tells invokeCloseCallback :=
  Stable.bind Stable.read fun _ => Stable.when
    (Stable.bind (Stable.modify fun _ _ h => h.emit rfl nofun nofun) fun _ => tells_callback _)

theorem tells_invokeMessageCallback : Tells invokeMessageCallback :=
  Stable.bind Stable.read fun _ => Stable.when
    (Stable.bind (Stable.modify fun _ _ h => h.emit rfl nofun nofun) fun _ => tells_callback _)

theorem enters_wp {c₀ c c₁ : TcpConnection} {post : TcpConnection → TcpConnection → Prop}
    (state : ConnState) (h : Life c) (hstate : c₁.state = state) (hup : state ≠ .kConnecting)
    (hcallback : c₁.connectionCallback = c.connectionCallback) (htrace : c₁.trace = c.trace)
    (htold : told c.state ++ [decide (state = .kConnected)] = told state) (hlater : Later c₀ c₁)
    (hpost : ∀ c', Lives c' → Later c₁ c' → post c' c') :
    wp lifeContract Later Later invokeConnectionCallback (fun c₀ c' _ => post c₀ c') c₀ c₁ := by
  have hset : c₁.connectionCallback = true := hcallback.trans h.callback
  unfold invokeConnectionCallback emit
  simp only [wp_bind, wp_read, wp_when, wp_modify, wp_callback]
  rw [if_pos hset]
  refine ⟨⟨⟨⟨hset, ?_, ?_⟩, ?_⟩, ⟨hlater.established, hlater.down⟩, trivial⟩, fun c' hi hr => ?_⟩
  · rw [noted_snoc, htrace, h.told, hstate, ← htold]
    rfl
  · rw [htrace]
    exact h.past.snoc nofun nofun
  · rw [hstate]
    exact hup
  · exact hpost c' hi ⟨hr.established, hr.down⟩

theorem told_open {c : TcpConnection} (h : c.isOpen = true) : told c.state = [true] := by
  unfold isOpen at h
  rcases hs : c.state with _ | _ | _ | _ <;> simp_all [told]

theorem tells_handleClose : Tells handleClose := by
  intro c₀ c h
  unfold handleClose setState setChannel
  simp only [wp_bind, wp_read, wp_assert, wp_modify]
  split
  · rename_i hopen
    refine enters_wp .kDisconnected h.lives.life rfl nofun rfl rfl ?_ ⟨nofun, fun _ => rfl⟩ ?_
    · rw [told_open hopen]
      rfl
    · exact fun c' hi _ => tells_invokeCloseCallback c' c' hi.refl
  · exact h.lives.life

theorem tells_forceClose : Tells forceClose := by
  intro c₀ c h
  unfold forceClose setState
  simp only [wp_bind, wp_read, wp_when, wp_modify]
  split
  · rename_i hopen
    have hlife : Life { c with state := .kDisconnecting } :=
      ⟨h.lives.life.callback, h.lives.life.told.trans (told_open hopen), h.lives.life.past⟩
    refine tells_handleClose c₀ _ ⟨⟨hlife, nofun⟩, nofun, fun hd => ?_⟩
    have hdown := told_open hopen
    rw [h.later.down hd] at hdown
    cases hdown
  · exact h

theorem tells_handleRead : Tells handleRead := by
  refine Stable.bind Stable.read fun c => Stable.bind (Stable.syscall _) fun a => ?_
  rcases a with n | ⟨_ | ⟨b, data⟩⟩ | ⟨_ | _⟩
  · exact stable_handleError
  · exact tells_handleClose
  · exact Stable.bind (Stable.modify fun _ _ h => h.same rfl rfl rfl) fun _ => tells_invokeMessageCallback
  · exact Stable.pure ()
  · exact stable_handleError

theorem tells_handleEvent : Tells handleEvent :=
  Stable.bind Stable.read fun _ => Stable.bind (Stable.when tells_handleClose) fun _ =>
  Stable.bind Stable.read fun _ => Stable.bind (Stable.when stable_handleError) fun _ =>
  Stable.bind Stable.read fun _ => Stable.bind (Stable.when tells_handleRead) fun _ =>
  Stable.bind Stable.read fun _ => Stable.when (stable_handleWrite life_rule)

theorem tells_connectEstablished {c : TcpConnection} (h : Life c) :
    wp lifeContract Later Later connectEstablished (fun c₀ c' _ => LifeAt c₀ c') c c := by
  unfold connectEstablished setState setChannel
  simp only [wp_bind, wp_read, wp_assert, wp_modify]
  split
  · rename_i hs
    have hs : c.state = .kConnecting := by simpa using hs
    refine enters_wp .kConnected h rfl nofun rfl rfl ?_ ⟨nofun, fun hd => ?_⟩ fun c' hi _ => hi.refl
    · rw [hs]
      rfl
    · exact nomatch hs.symm.trans hd
  · exact h

theorem LifeAt.left {c₀ c : TcpConnection} (h : LifeAt c₀ c) (hs : c.state = .kDisconnected) :
    LifeAt c₀ { c with
      channel := c.channel.removeChannel.1, trace := c.trace ++ [.destroyed c.state] } := by
  have hlife := h.lives.life
  have htold := hlife.told
  rw [hs] at htold
  refine ⟨⟨⟨hlife.callback, ?_, ?_⟩, h.lives.established⟩, h.later.established, h.later.down⟩
  · rw [noted_snoc, htold, hs]
    rfl
  · rw [hs]
    exact hlife.past.left htold

theorem tells_connectDestroyed : Tells connectDestroyed := by
  intro c₀ c h
  unfold connectDestroyed setState setChannel emit
  simp only [wp_bind, wp_read, wp_modify, wp_when]
  cases hstate : c.state with
  | kConnecting => exact absurd hstate h.lives.established
  | kConnected =>
    have hentered : LifeAt c₀ { c with trace := c.trace ++ [.destroying .kConnected] } :=
      h.emit rfl nofun nofun
    rw [if_pos (by decide)]
    refine enters_wp .kDisconnected hentered.lives.life rfl nofun rfl rfl ?_ ⟨nofun, fun _ => rfl⟩ ?_
    · show told c.state ++ _ = _
      rw [hstate]
      rfl
    · exact fun c' hi hr => hi.refl.left (hr.down rfl)
  | kDisconnected =>
    have hentered : LifeAt c₀ { c with trace := c.trace ++ [.destroying .kDisconnected] } :=
      h.emit rfl nofun nofun
    rw [if_neg (by decide)]
    have hleft := hentered.left hstate
    rw [hstate] at hleft
    exact hleft
  | kDisconnecting =>
    rw [if_neg (by decide)]
    have hlife := h.lives.life
    have htold := hlife.told
    rw [hstate] at htold
    refine ⟨⟨⟨hlife.callback, ?_, hlife.past.skipped⟩, nofun⟩, fun _ => nofun, fun hd => ?_⟩
    · rw [noted_snoc, noted_snoc, htold]
      rfl
    · exact nomatch hstate.symm.trans (h.later.down hd)

theorem tells_entry {label : ConnLabel} (hl : label ≠ .connectEstablished) : Tells (entry label) := by
  cases label with
  | connectEstablished => exact absurd rfl hl
  | connectDestroyed => exact tells_connectDestroyed
  | event revents =>
    exact Stable.bind (Stable.modify fun _ _ h => h.same rfl rfl rfl) fun _ => tells_handleEvent
  | send message => exact stable_send life_rule message
  | sendBuffer buffer => exact Stable.bind (stable_sendBuffer life_rule buffer) fun _ => Stable.pure _
  | shutdown => exact stable_shutdown life_rule
  | forceClose => exact tells_forceClose
  | consume len => exact stable_consume life_rule len

theorem new_life (fd : Nat) (message close writeComplete : Bool) :
    Life (new fd true message close writeComplete) :=
  ⟨rfl, rfl, fun _ _ hu => absurd (List.prefix_nil.mp hu) (by simp), nofun⟩

/-! ## In the system of an owner -/

section
variable {σ Q ι κ : Type} {E : Embedding TcpConnection SysCall SysResult Callback σ Q ι κ Fault}
  {C : Contract σ Q ι κ Fault} {guar rely I J : σ → σ → Prop}

/-- The system keeps `J` while the connection runs, from `I` on. -/
structure Hosts (E : Embedding TcpConnection SysCall SysResult Callback σ Q ι κ Fault)
    (C : Contract σ Q ι κ Fault) (guar rely I J : σ → σ → Prop) : Prop where
  lawful : E.Lawful
  fault : ∀ s₀ s c e, I s₀ s → Life c → C.tolerates e (E.put c s)
  put : ∀ s₀ s c, I s₀ s → Lives c → Later (E.view s) c → J s₀ (E.put c s)
  weaken : ∀ s₀ s, J s₀ s → I s₀ s
  lives : ∀ s₀ s, J s₀ s → Lives (E.view s)
  handler : ∀ u s₀ s, J s₀ s →
    wp C guar rely (E.handler u) (fun s₀ s' _ => J s₀ s' ∧ Later (E.view s) (E.view s')) s₀ s

theorem Hosts.run (h : Hosts E C guar rely I J) {α : Type} {p : ConnM α} {s₀ s : σ} (hs : I s₀ s)
    (hp : wp lifeContract Later Later p (fun c₀ c _ => LifeAt c₀ c) (E.view s) (E.view s)) :
    wp C guar rely (E.run p) (fun s₀ s _ => J s₀ s) s₀ s := by
  refine E.wp_run h.lawful (I := I) (fun _ _ _ _ => trivial) h.fault ?_ ?_ hs hp
  · intro s₀ s₁ c u h₁ hlives hlater _
    refine wp_mono (h.handler u s₀ _ (h.put s₀ s₁ c h₁ hlives hlater)) ?_
    rintro s₀' s' _ ⟨hs', hlater'⟩
    rw [h.lawful.view_put] at hlater'
    exact ⟨h.weaken _ _ hs', h.lives _ _ hs', hlater'⟩
  · exact fun s₀ s₁ c _ h₁ hat => h.put s₀ s₁ c h₁ hat.lives hat.later

theorem Hosts.tells (h : Hosts E C guar rely I J) {α : Type} {p : ConnM α} (hp : Tells p) :
    Stable C guar rely J (E.run p) :=
  fun _ _ hs => h.run (h.weaken _ _ hs) (hp _ _ (h.lives _ _ hs).refl)

end

end Agora.TcpConnection
