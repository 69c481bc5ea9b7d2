import Agora.Conn.Stream
import Agora.Server.Sessions

/-!
# Two sessions at the ends of one TCP connection

TCP delivers what the kernel of the other side has taken, in order, as late and in as many pieces as it
likes, or never.
-/

open Agora.Lib Agora.Lib.Prog Agora.Spec

namespace Agora

variable {S T : Type}

/-- The two ends. -/
structure Wire (S T : Type) where
  near : S
  far : T

namespace Wire

/-- The near end, as a part. -/
def nearPart (S T : Type) : Embedding S SysCall SysResult Empty (Wire S T) (Bool × SysCall) SysResult Empty Fault :=
  ⟨near, fun t s => { s with near := t }, fun q => (true, q), id, Empty.elim⟩

def farPart (S T : Type) : Embedding T SysCall SysResult Empty (Wire S T) (Bool × SysCall) SysResult Empty Fault :=
  ⟨far, fun t s => { s with far := t }, fun q => (false, q), id, Empty.elim⟩

inductive Label
  | near (label : SessionLabel)
  | far (label : SessionLabel)

variable (A : Application S SysCall SysResult) (B : Application T SysCall SysResult)

/-- Either end runs a function of its loop, in any order. -/
def machine : Machine Unit (Wire S T) (Bool × SysCall) SysResult Empty Fault Label where
  init s := A.machine.init s.near ∧ B.machine.init s.far
  valid q a := if q.1 then A.valid q.2 a else B.valid q.2 a
  thread _ := ()
  idleOnly _ := true
  entry
    | .near label, s => (A.entry label s.near).map (nearPart S T).run
    | .far label, s => (B.entry label s.far).map (farPart S T).run

/-- What has arrived at an end, from its own state. -/
structure Ends (S T : Type) where
  near : S → List Byte
  far : T → List Byte

/-- Bytes only arrive that the other end has written. -/
def Delivers (ends : Ends S T) : Machine.Condition (Wire S T) (Bool × SysCall) SysResult Label where
  label _ _ := True
  answer s
    | (true, .readv _), .bytes data => ends.near s.near ++ data <+: written (B.part.view s.far).trace
    | (false, .readv _), .bytes data => ends.far s.far ++ data <+: written (A.part.view s.near).trace
    | _, _ => True

instance (ends : Ends S T) (s : Wire S T) (label : Label) : Decidable ((Delivers A B ends).label s label) :=
  .isTrue trivial

instance (ends : Ends S T) (s : Wire S T) : ∀ q a, Decidable ((Delivers A B ends).answer s q a)
  | (true, .readv _), .bytes data =>
    inferInstanceAs (Decidable (ends.near s.near ++ data <+: written (B.part.view s.far).trace))
  | (false, .readv _), .bytes data =>
    inferInstanceAs (Decidable (ends.far s.far ++ data <+: written (A.part.view s.near).trace))
  | (true, .readv _), .count _ | (true, .readv _), .error _ => .isTrue trivial
  | (false, .readv _), .count _ | (false, .readv _), .error _ => .isTrue trivial
  | (true, .write _), _ | (false, .write _), _ => .isTrue trivial
  | (true, .getSocketError), _ | (false, .getSocketError), _ => .isTrue trivial

variable {A B}

/-! ## The contract of an end -/

/-- What an application guarantees at its end of a wire, while it may hear `heard` and has done `past`. -/
structure Endpoint (A : Application S SysCall SysResult) (arrived : S → List Byte) (I : S → Prop)
    (C : (List Byte → Prop) → List ConnEvent → Contract S SysCall SysResult Empty Fault) : Prop where
  inv : ∀ P past t, (C P past).inv t ↔ I t ∧ P (arrived t) ∧ past <+: (A.part.view t).trace
  allow : ∀ P past t q a, A.valid q a = true →
    (∀ space data, q = .readv space → a = .bytes data → P (arrived t ++ data)) → (C P past).allow t q a
  preserves : ∀ P past, A.Preserves (C P past) fun _ _ => True
  new : ∀ fd, I (A.part.put (A.newConn fd) A.blank) ∧ arrived (A.part.put (A.newConn fd) A.blank) = []

variable {ends : Ends S T} {I : S → Prop} {J : T → Prop}
  {C : (List Byte → Prop) → List ConnEvent → Contract S SysCall SysResult Empty Fault}
  {D : (List Byte → Prop) → List ConnEvent → Contract T SysCall SysResult Empty Fault}

/-- Each end has heard a prefix of what the other has written. -/
structure WireInv (A : Application S SysCall SysResult) (B : Application T SysCall SysResult) (ends : Ends S T)
    (I : S → Prop) (J : T → Prop) (s : Wire S T) : Prop where
  near : I s.near
  far : J s.far
  nearHears : ends.near s.near <+: written (B.part.view s.far).trace
  farHears : ends.far s.far <+: written (A.part.view s.near).trace

def wireContract (A : Application S SysCall SysResult) (B : Application T SysCall SysResult) (ends : Ends S T)
    (I : S → Prop) (J : T → Prop) : Contract (Wire S T) (Bool × SysCall) SysResult Empty Fault where
  inv := WireInv A B ends I J
  pre _ _ := True
  tolerates _ _ := True
  allow s q a := (machine A B).valid q a = true ∧ (Delivers A B ends).answer s q a

theorem written_of_past {t t' : List ConnEvent} (h : t <+: t') : written t <+: written t' := by
  obtain ⟨u, rfl⟩ := h
  rw [written_append]
  exact List.prefix_append _ _

theorem near_step (hA : Endpoint A ends.near I C) {s : Wire S T} (h : WireInv A B ends I J s)
    {label : SessionLabel} {p : Prog S SysCall SysResult Empty Fault Unit} (hp : A.entry label s.near = some p) :
    wpe (wireContract A B ends I J) ((nearPart S T).run p) (fun s' _ => WireInv A B ends I J s') s := by
  have hsim : Simulates (C (· <+: written (B.part.view s.far).trace) (A.part.view s.near).trace)
      (wireContract A B ends I J) (nearPart S T).view (fun s' => s'.far = s.far) ((nearPart S T).run p) p := by
    refine .part ⟨fun _ _ => rfl, fun _ _ _ => rfl, fun _ => rfl⟩ (fun _ _ hs => hs) ?_ (fun _ _ _ _ => trivial) p
    rintro s' q a hs' ⟨hvalid, hdelivers⟩
    refine hA.allow _ _ _ q a hvalid ?_
    rintro space data rfl rfl
    rw [← hs']
    exact hdelivers
  have hinv := (hA.inv (· <+: written (B.part.view s.far).trace) _ _).mpr ⟨h.near, h.nearHears, List.prefix_rfl⟩
  refine wpe_mono (hsim _ s rfl ((hA.preserves _ _).entry hp hinv fun _ _ => trivial)) fun s' _ => ?_
  rintro ⟨hfar, hinv'⟩
  obtain ⟨hnear, hhears, hpast⟩ := (hA.inv _ _ _).mp hinv'
  refine ⟨hnear, hfar ▸ h.far, hfar.symm ▸ hhears, ?_⟩
  rw [hfar]
  exact h.farHears.trans (written_of_past hpast)

theorem far_step (hB : Endpoint B ends.far J D) {s : Wire S T} (h : WireInv A B ends I J s)
    {label : SessionLabel} {p : Prog T SysCall SysResult Empty Fault Unit} (hp : B.entry label s.far = some p) :
    wpe (wireContract A B ends I J) ((farPart S T).run p) (fun s' _ => WireInv A B ends I J s') s := by
  have hsim : Simulates (D (· <+: written (A.part.view s.near).trace) (B.part.view s.far).trace)
      (wireContract A B ends I J) (farPart S T).view (fun s' => s'.near = s.near) ((farPart S T).run p) p := by
    refine .part ⟨fun _ _ => rfl, fun _ _ _ => rfl, fun _ => rfl⟩ (fun _ _ hs => hs) ?_ (fun _ _ _ _ => trivial) p
    rintro s' q a hs' ⟨hvalid, hdelivers⟩
    refine hB.allow _ _ _ q a hvalid ?_
    rintro space data rfl rfl
    rw [← hs']
    exact hdelivers
  have hinv := (hB.inv (· <+: written (A.part.view s.near).trace) _ _).mpr ⟨h.far, h.farHears, List.prefix_rfl⟩
  refine wpe_mono (hsim _ s rfl ((hB.preserves _ _).entry hp hinv fun _ _ => trivial)) fun s' _ => ?_
  rintro ⟨hnear, hinv'⟩
  obtain ⟨hfar, hhears, hpast⟩ := (hB.inv _ _ _).mp hinv'
  refine ⟨hnear ▸ h.near, hfar, ?_, hnear.symm ▸ hhears⟩
  rw [hnear]
  exact h.nearHears.trans (written_of_past hpast)

/-- **The rule for wires.** What the two applications guarantee each for itself holds in every run of the two,
and each has heard a prefix of what the other has written. -/
theorem reach_inv (hA : Endpoint A ends.near I C) (hB : Endpoint B ends.far J D)
    {c : Config Unit (Wire S T) (Bool × SysCall) SysResult Empty Fault}
    (h : (machine A B).Reach (Delivers A B ends) c) (hc : c.crashed = none) : WireInv A B ends I J c.st := by
  have hkeeps : (machine A B).Keeps (wireContract A B ends I J) (fun _ _ _ => True) (Delivers A B ends) := by
    refine .of_inv ?_ (fun _ _ _ hv ha => ⟨hv, ha⟩) fun label s p hp _ hs => ?_
    · rintro ⟨near, far⟩ ⟨⟨fd, rfl⟩, fd', rfl⟩
      obtain ⟨hnear, hempty⟩ := hA.new fd
      obtain ⟨hfar, hempty'⟩ := hB.new fd'
      exact ⟨hnear, hfar, hempty.symm ▸ List.nil_prefix, hempty'.symm ▸ List.nil_prefix⟩
    · cases label with
      | near label =>
        obtain ⟨q, hq, rfl⟩ := Option.map_eq_some_iff.mp hp
        exact near_step hA hs hq
      | far label =>
        obtain ⟨q, hq, rfl⟩ := Option.map_eq_some_iff.mp hp
        exact far_step hB hs hq
  exact (hkeeps.runOk h).inv hc

/-! ## What each end keeps on its own -/

theorem reach_keeps {C : Contract S SysCall SysResult Empty Fault} {D : Contract T SysCall SysResult Empty Fault}
    (hA : A.Keeps C fun _ _ => True) (hB : B.Keeps D fun _ _ => True)
    (hallowA : ∀ t q a, A.valid q a = true → C.allow t q a)
    (hallowB : ∀ t q a, B.valid q a = true → D.allow t q a)
    {cond : Machine.Condition (Wire S T) (Bool × SysCall) SysResult Label}
    {c : Config Unit (Wire S T) (Bool × SysCall) SysResult Empty Fault} (h : (machine A B).Reach cond c)
    (hc : c.crashed = none) : C.inv c.st.near ∧ D.inv c.st.far := by
  let both : Contract (Wire S T) (Bool × SysCall) SysResult Empty Fault :=
    ⟨fun s => C.inv s.near ∧ D.inv s.far, fun _ _ => True, fun _ _ => True,
      fun _ q a => (machine A B).valid q a = true⟩
  have hkeeps : (machine A B).Keeps both (fun _ _ _ => True) cond := by
    refine .of_inv ?_ (fun _ _ _ hv _ => hv) fun label s p hp _ hs => ?_
    · rintro ⟨near, far⟩ ⟨⟨fd, rfl⟩, fd', rfl⟩
      exact ⟨hA.new fd, hB.new fd'⟩
    · cases label with
      | near label =>
        obtain ⟨q, hq, rfl⟩ := Option.map_eq_some_iff.mp hp
        have hsim : Simulates C both (nearPart S T).view (fun s' => s'.far = s.far) ((nearPart S T).run q) q :=
          .part ⟨fun _ _ => rfl, fun _ _ _ => rfl, fun _ => rfl⟩ (fun _ _ hs => hs)
            (fun s q a _ hv => hallowA s.near q a hv) (fun _ _ _ _ => trivial) q
        refine wpe_mono (hsim _ s rfl (hA.entry hq hs.1 fun _ _ => trivial)) fun s' _ h => ⟨h.2, ?_⟩
        rw [h.1]
        exact hs.2
      | far label =>
        obtain ⟨q, hq, rfl⟩ := Option.map_eq_some_iff.mp hp
        have hsim : Simulates D both (farPart S T).view (fun s' => s'.near = s.near) ((farPart S T).run q) q :=
          .part ⟨fun _ _ => rfl, fun _ _ _ => rfl, fun _ => rfl⟩ (fun _ _ hs => hs)
            (fun s q a _ hv => hallowB s.far q a hv) (fun _ _ _ _ => trivial) q
        refine wpe_mono (hsim _ s rfl (hB.entry hq hs.2 fun _ _ => trivial)) fun s' _ h => ⟨?_, h.2⟩
        rw [h.1]
        exact hs.1
  exact (hkeeps.runOk h).inv hc

end Wire

end Agora
