import Agora.Code.HttpServer
import Agora.Http.Context

/-! # No request is dispatched twice -/

open Agora.Lib Agora.Lib.Prog

namespace Agora.HttpSession

def gotAll (s : HttpSession) : Bool := s.context.any HttpContext.gotAll

/-- `httpCallback_` was called at most once for each request of the stream. The place where it ends
tells a request from all others. -/
def DispatchedOnce (s : HttpSession) : Prop := (s.dispatched.map Prod.fst).Nodup

structure DispatchInv (s : HttpSession) : Prop where
  once : DispatchedOnce s
  consumed : ∀ d ∈ s.dispatched, d.1 ≤ s.consumed.length

/-- With an `httpCallback_`, no bytes are read while the context is still in `kGotAll`: after a
response with `closeConnection()` the client sends nothing. -/
def QuietAfterClose : Machine.Condition HttpSession HttpCall HttpAnswer HttpLabel where
  label _ _ := True
  answer s
    | .sys (.readv _), .sys (.bytes (_ :: _)) => s.httpCallback = true → s.gotAll = false
    | _, _ => True

instance : ∀ s q a, Decidable (QuietAfterClose.answer s q a)
  | s, .sys (.readv _), .sys (.bytes (_ :: _)) =>
    inferInstanceAs (Decidable (s.httpCallback = true → s.gotAll = false))
  | _, .sys (.readv _), .sys (.bytes []) | _, .sys (.readv _), .sys (.count _)
  | _, .sys (.readv _), .sys (.error _) | _, .sys (.readv _), .response _
  | _, .sys (.write _), _ | _, .sys .getSocketError, _ | _, .httpCallback _, _ => isTrue trivial

instance (s : HttpSession) (label : HttpLabel) : Decidable (QuietAfterClose.label s label) :=
  isTrue trivial

def dispatchContract : Contract HttpSession HttpCall HttpAnswer Empty Fault where
  inv := DispatchInv
  pre _ _ := True
  tolerates _ := DispatchInv
  allow := QuietAfterClose.answer

/-! ## The functions of the connection -/

theorem DispatchInv.setConn {s : HttpSession} (h : DispatchInv s) (c : TcpConnection) :
    DispatchInv (setConn c s) := ⟨h.once, h.consumed⟩

theorem DispatchInv.setContext {s : HttpSession} (h : DispatchInv s) (context : Option HttpContext) :
    DispatchInv { s with context := context } := ⟨h.once, h.consumed⟩

theorem connection_lawful (handler : Callback → HttpM Unit) : (connection handler).Lawful :=
  ⟨fun _ _ => rfl, fun _ _ _ => rfl, fun _ => rfl⟩

theorem keeps_setContext (context : HttpContext) :
    Keeps dispatchContract (HttpSession.setContext context) :=
  Keeps.modify fun _ h => h.setContext _

theorem keeps_onConnection : Keeps dispatchContract onConnection :=
  Stable.bind Stable.read fun _ => Stable.when (keeps_setContext _)

theorem keeps_onConn {α : Type} (p : ConnM α) : Keeps dispatchContract (onConn p) :=
  Embedding.keeps_run _ (Embedding.calls_any p) (connection_lawful _) (fun c _ h => h.setConn c)
    (fun _ _ h => h) fun _ _ => Stable.pure ()

theorem keeps_onLoop {α : Type} {p : ConnM α} (hp : Embedding.Calls (· ≠ .message) p) :
    Keeps dispatchContract (onLoop p) := by
  refine Embedding.keeps_run _ hp (connection_lawful _) (fun c _ h => h.setConn c) (fun _ _ h => h) ?_
  intro u hu
  cases u with
  | connection => exact keeps_onConnection
  | message => exact absurd rfl hu
  | close => exact Stable.pure ()
  | writeComplete => exact Stable.pure ()

theorem calls_handleClose : Embedding.Calls (· ≠ .message) TcpConnection.handleClose := by
  intro c₀ c _
  unfold TcpConnection.handleClose
  simp [TcpConnection.setState, TcpConnection.setChannel, TcpConnection.invokeConnectionCallback,
    TcpConnection.invokeCloseCallback, TcpConnection.emit]

theorem calls_handleError : Embedding.Calls (· ≠ .message) TcpConnection.handleError := by
  intro c₀ c _
  unfold TcpConnection.handleError
  simp

theorem calls_handleWrite : Embedding.Calls (· ≠ .message) TcpConnection.handleWrite := by
  intro c₀ c _
  unfold TcpConnection.handleWrite TcpConnection.finishWrite TcpConnection.write
  simp [TcpConnection.setChannel, TcpConnection.invokeWriteCompleteCallback,
    TcpConnection.emit, TcpConnection.shutdownInLoop, TcpConnection.shutdownWrite]
  intro _ a
  cases a <;> simp

theorem calls_connectEstablished :
    Embedding.Calls (· ≠ .message) TcpConnection.connectEstablished := by
  intro c₀ c _
  unfold TcpConnection.connectEstablished
  simp [TcpConnection.setState, TcpConnection.setChannel, TcpConnection.invokeConnectionCallback,
    TcpConnection.emit]

theorem calls_connectDestroyed : Embedding.Calls (· ≠ .message) TcpConnection.connectDestroyed := by
  intro c₀ c _
  unfold TcpConnection.connectDestroyed
  simp [TcpConnection.setState, TcpConnection.setChannel, TcpConnection.invokeConnectionCallback,
    TcpConnection.emit]

/-! ## Messages -/

theorem parse_inv {s : HttpSession} (h : DispatchInv s) (context : HttpContext) :
    DispatchInv (parse context s) := by
  refine ⟨h.once, fun d hd => ?_⟩
  have hle := h.consumed d hd
  simp only [parse, List.length_append]
  omega

theorem parse_consumed {s : HttpSession} {context : HttpContext} (hctx : context.gotAll = false)
    (hgot : (context.parseRequest s.conn.inputBuffer).1.gotAll = true) :
    s.consumed.length < (parse context s).consumed.length := by
  have hbytes := HttpContext.parseRequest_bytes context s.conn.inputBuffer
  have hless := Spec.parseBytes_gotAll (l := s.conn.inputBuffer.readable) hctx
  rw [← hbytes] at hless
  have := hless hgot
  simp only [HttpContext.bytesOf] at this
  simp only [parse, List.length_append, List.length_take]
  omega

theorem respond_wp {s₀ s : HttpSession} (h : DispatchInv s)
    (hnew : s.httpCallback = true → ∀ d ∈ s.dispatched, d.1 < s.consumed.length)
    (request : HttpRequest) :
    wp dispatchContract (fun _ _ => True) (fun _ _ => True) (respond request)
      (fun _ s _ => DispatchInv s) s₀ s := by
  have hpush : s.httpCallback = true → DispatchInv
      { s with dispatched := s.dispatched ++ [(s.consumed.length, request)] } := by
    intro hset
    refine ⟨?_, ?_⟩
    · unfold DispatchedOnce
      rw [List.map_append, List.nodup_append]
      refine ⟨h.once, by simp, ?_⟩
      intro n hn m hm
      obtain ⟨d, hd, rfl⟩ := List.mem_map.mp hn
      obtain rfl : m = s.consumed.length := by simpa using hm
      exact Nat.ne_of_lt (hnew hset d hd)
    · intro d hd
      rcases List.mem_append.mp hd with hd | hd
      · exact h.consumed d hd
      · obtain rfl := List.mem_singleton.mp hd
        exact Nat.le_refl _
  unfold respond
  simp only [wp_bind, wp_read, wp_ite, wp_modify, wp_syscall, wp_pure]
  split
  · rename_i hset
    intro a _
    cases a <;> exact hpush hset
  · exact h

theorem keeps_close (close : Bool) (context : HttpContext) :
    Keeps dispatchContract
      (if close then onConn TcpConnection.shutdown else HttpSession.setContext context) :=
  Stable.ite (keeps_onConn _) (keeps_setContext _)

theorem answer_wp {s₀ s : HttpSession} (h : DispatchInv s)
    (hnew : s.httpCallback = true → ∀ d ∈ s.dispatched, d.1 < s.consumed.length)
    (context : HttpContext) :
    wp dispatchContract (fun _ _ => True) (fun _ _ => True) (answer context)
      (fun _ s _ => DispatchInv s) s₀ s := by
  unfold answer
  rw [wp_bind]
  refine wp_mono (respond_wp h hnew context.request) ?_
  intro s₀ s response h
  exact Stable.bind (keeps_onConn _) (fun _ => keeps_close _ _) s₀ s h

theorem onMessage_wp {s₀ s : HttpSession} (h : DispatchInv s)
    (hquiet : s.httpCallback = true → s.gotAll = false) :
    wp dispatchContract (fun _ _ => True) (fun _ _ => True) onMessage
      (fun _ s _ => DispatchInv s) s₀ s := by
  unfold onMessage
  rw [wp_bind, wp_read]
  cases hctx : s.context with
  | none => exact h
  | some context =>
    have hparsed := parse_inv h context
    have hnew : s.httpCallback = true → _ := fun hset =>
      parse_consumed (s := s) (by simpa [gotAll, hctx] using hquiet hset)
    simp only [wp_bind, wp_modify, wp_when]
    generalize hr : context.parseRequest s.conn.inputBuffer = r at hnew
    -- A refused line answers 400, and a complete request is answered; never both.
    by_cases hok : r.2.2 = true
    · simp only [hok, Bool.not_true, Bool.false_eq_true, if_false]
      split
      · rename_i hgot
        refine answer_wp hparsed (fun hset d hd => ?_) r.1
        exact Nat.lt_of_le_of_lt (h.consumed d hd) (hnew hset hgot)
      · exact hparsed
    · have hrefused : r.1.gotAll = false := by
        have hbytes := HttpContext.parseRequest_bytes context s.conn.inputBuffer
        have hspec : (Spec.parseBytes context s.conn.inputBuffer.readable).2.2 = false → _ :=
          Spec.parseBytes_refused
        rw [← hbytes, hr] at hspec
        exact hspec (by simpa [HttpContext.bytesOf] using hok)
      simp only [hok, hrefused, Bool.not_false, if_true, Bool.false_eq_true, if_false]
      rw [← wp_bind]
      exact Stable.bind (keeps_onConn _) (fun _ => keeps_onConn _) s₀ _ hparsed

/-! ## The events of the connection -/

theorem keeps_handleRead : Keeps dispatchContract (onLoop TcpConnection.handleRead) := by
  intro s₀ s h
  have hclose := keeps_onLoop calls_handleClose
  have herror := keeps_onLoop calls_handleError
  unfold onLoop at hclose herror ⊢
  unfold TcpConnection.handleRead TcpConnection.invokeMessageCallback TcpConnection.emit
  simp only [Embedding.wp_run_bind, Embedding.wp_run_read, Embedding.wp_run_syscall]
  intro a ha
  rcases a with (_ | ⟨_ | ⟨b, data⟩⟩ | ⟨_ | _⟩) | _
  · exact herror s₀ s h
  · exact hclose s₀ s h
  · simp only [connection, HttpAnswer.sysResult, Embedding.wp_run_bind, Embedding.wp_run_modify,
      Embedding.wp_run_read, Embedding.wp_run_when, Embedding.wp_run_callback]
    split
    · exact onMessage_wp ((h.setConn _).setConn _) ha
    · exact h.setConn _
  · exact h
  · exact herror s₀ s h
  · exact herror s₀ s h

theorem keeps_handleEvent : Keeps dispatchContract (onLoop TcpConnection.handleEvent) := by
  have hclose := keeps_onLoop calls_handleClose
  have herror := keeps_onLoop calls_handleError
  have hread := keeps_handleRead
  have hwrite := keeps_onLoop calls_handleWrite
  unfold TcpConnection.handleEvent
  refine Embedding.stable_bind Embedding.stable_read fun _ => ?_
  refine Embedding.stable_bind (Embedding.stable_when hclose) fun _ => ?_
  refine Embedding.stable_bind Embedding.stable_read fun _ => ?_
  refine Embedding.stable_bind (Embedding.stable_when herror) fun _ => ?_
  refine Embedding.stable_bind Embedding.stable_read fun _ => ?_
  refine Embedding.stable_bind (Embedding.stable_when hread) fun _ => ?_
  exact Embedding.stable_bind Embedding.stable_read fun _ => Embedding.stable_when hwrite

theorem keeps_entry {label : HttpLabel} {s : HttpSession} {p : HttpM Unit}
    (hp : entry label s = some p) : Keeps dispatchContract p := by
  cases label with
  | connectEstablished =>
    unfold entry at hp
    obtain ⟨-, hp⟩ := Option.ite_none_right_eq_some.mp hp
    obtain rfl := Option.some.inj hp
    exact keeps_onLoop calls_connectEstablished
  | event revents =>
    unfold entry at hp
    obtain ⟨-, hp⟩ := Option.ite_none_right_eq_some.mp hp
    obtain rfl := Option.some.inj hp
    refine Embedding.stable_bind ?_ fun _ => keeps_handleEvent
    exact fun _ _ h => h.setConn _
  | connectDestroyed =>
    obtain rfl := Option.some.inj hp
    exact keeps_onLoop calls_connectDestroyed

/-! ## Runs -/

theorem machine_keeps_dispatch :
    machine.Keeps dispatchContract (fun _ _ _ => True) QuietAfterClose := by
  refine Machine.Keeps.of_inv ?_ (fun _ _ _ _ h => h) fun label s p hp _ h => keeps_entry hp s s h
  rintro s ⟨fd, httpCallback, rfl⟩
  exact ⟨List.nodup_nil, nofun⟩

/-- **No request is dispatched twice**, as long as the client is quiet after a closing response. -/
theorem dispatched_once {c : Config Unit HttpSession HttpCall HttpAnswer Empty Fault}
    (h : machine.Reach QuietAfterClose c) : DispatchedOnce c.st := by
  have hok := machine_keeps_dispatch.runOk h
  cases hc : c.crashed with
  | none => exact (hok.inv hc).once
  | some e => exact (hok.crash e hc).once

/-- `GET / HTTP/1.0` and an empty line. -/
def getRoot : List Byte :=
  ascii ['G', 'E', 'T', ' ', '/', ' ', 'H', 'T', 'T', 'P', '/', '1', '.', '0', '\r', '\n', '\r', '\n']

/-- Two requests on a connection that is kept alive. -/
theorem dispatched_once_keep_alive :
    ∃ c, machine.system.run (machine.Meets QuietAfterClose) (.initial (new 3 true))
        [.start .connectEstablished [],
          .start (.event kReadEvent)
            [.sys (.bytes getRoot), .response (.new false), .sys (.count 58)],
          .start (.event kReadEvent)
            [.sys (.bytes getRoot), .response (.new false), .sys (.count 58)]] = some c ∧
      c.st.dispatched.map Prod.fst = [18, 36] ∧ DispatchedOnce c.st := by
  have hrun : (machine.system.run (machine.Meets QuietAfterClose) (.initial (new 3 true))
        [.start .connectEstablished [],
          .start (.event kReadEvent)
            [.sys (.bytes getRoot), .response (.new false), .sys (.count 58)],
          .start (.event kReadEvent)
            [.sys (.bytes getRoot), .response (.new false), .sys (.count 58)]]).map
      (fun c => c.st.dispatched.map Prod.fst) = some [18, 36] := by decide +kernel
  obtain ⟨c, hc, hdispatched⟩ := Option.map_eq_some_iff.mp hrun
  exact ⟨c, hc, hdispatched, dispatched_once (machine.reach_of_run ⟨3, true, rfl⟩ hc)⟩

/-- After a closing response a further byte arrives: the same request is dispatched again. -/
theorem dispatched_twice_after_close :
    ¬ ∀ c : Config Unit HttpSession HttpCall HttpAnswer Empty Fault,
      machine.Reachable c → DispatchedOnce c.st := by
  intro hall
  have hrun : (machine.system.run (fun _ _ => True) (.initial (new 3 true))
        [.start .connectEstablished [],
          .start (.event kReadEvent)
            [.sys (.bytes getRoot), .response (.new true), .sys (.count 53)],
          .start (.event kReadEvent) [.sys (.bytes [120]), .response (.new true)]]).map
      (fun c => c.st.dispatched.map Prod.fst) = some [18, 18] := by decide +kernel
  obtain ⟨c, hc, hdispatched⟩ := Option.map_eq_some_iff.mp hrun
  have honce := hall c (machine.reachable_of_run ⟨3, true, rfl⟩ hc)
  unfold DispatchedOnce at honce
  rw [hdispatched] at honce
  exact absurd honce (by decide)

end Agora.HttpSession
