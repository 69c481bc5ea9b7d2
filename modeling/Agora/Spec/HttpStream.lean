import Agora.Spec.HttpParse

/-! # The requests of a stream -/

open Agora.Lib

namespace Agora.Spec

open HttpContext

theorem parseBytes_done {ctx : HttpContext} (h : ctx.gotAll = true) (l : List Byte) :
    parseBytes ctx l = (ctx, l, true) := by
  refine lineLoop_out ?_
  unfold lineTurn
  have hs : ctx.state = .kGotAll := by simpa [HttpContext.gotAll] using h
  rw [hs]

theorem parseBytes_again (ctx : HttpContext) (l : List Byte) :
    parseBytes (parseBytes ctx l).1 (parseBytes ctx l).2.1 = parseBytes ctx l := by
  have happend := parseBytes_append ctx l []
  rw [List.append_nil, List.append_nil] at happend
  exact happend.symm

theorem parseBytes_suffix (ctx : HttpContext) (l : List Byte) : (parseBytes ctx l).2.1 <:+ l := by
  suffices hloop : ∀ s : HttpContext × List Byte × Bool, (lineLoop.eval s).2.1 <:+ s.2.1 from
    hloop (ctx, l, true)
  intro s
  induction s using lineLoop.eval_induct with
  | out s r hout =>
    obtain ⟨ctx, l, ok⟩ := s
    obtain ⟨ctx', l', ok'⟩ := r
    rw [lineLoop_out hout]
    rcases lineTurn_out hout with ⟨-, rfl, -⟩ | ⟨rfl, -⟩
    · exact List.suffix_rfl
    · exact List.suffix_rfl
  | again s s' hagain ih =>
    rw [lineLoop.eval_again hagain]
    refine ih.trans ?_
    obtain ⟨ctx, l, ok⟩ := s
    unfold lineLoop lineTurn at hagain
    simp only at hagain
    split at hagain
    · split at hagain
      · cases hagain
        exact List.drop_suffix _ _
      · cases hagain
    · cases hagain
      exact List.drop_suffix _ _
    · cases hagain

/-! ## One request after the other -/

/-- The requests before it, and the bytes behind them. -/
def requestTurn (s : List HttpRequest × List Byte) :
    Turn (List HttpRequest × List Byte) (List HttpRequest × HttpContext × List Byte × Bool) :=
  if (parseBytes .new s.2).1.gotAll then
    .again (s.1 ++ [(parseBytes .new s.2).1.request], (parseBytes .new s.2).2.1)
  else .out (s.1, parseBytes .new s.2)

theorem requestTurn_again {s s' : List HttpRequest × List Byte} (h : requestTurn s = .again s') :
    (parseBytes .new s.2).1.gotAll = true ∧
      s' = (s.1 ++ [(parseBytes .new s.2).1.request], (parseBytes .new s.2).2.1) := by
  unfold requestTurn at h
  split at h
  · rename_i hgot
    cases h
    exact ⟨hgot, rfl⟩
  · cases h

theorem requestTurn_out {s : List HttpRequest × List Byte}
    {r : List HttpRequest × HttpContext × List Byte × Bool} (h : requestTurn s = .out r) :
    (parseBytes .new s.2).1.gotAll = false ∧ r = (s.1, parseBytes .new s.2) := by
  unfold requestTurn at h
  split at h
  · cases h
  · rename_i hgot
    cases h
    exact ⟨eq_false_of_ne_true hgot, rfl⟩

theorem requestTurn_decreases {s s' : List HttpRequest × List Byte} (h : requestTurn s = .again s') :
    s'.2.length < s.2.length := by
  obtain ⟨hgot, rfl⟩ := requestTurn_again h
  exact parseBytes_gotAll rfl hgot

def requestLoop :
    Loop (List HttpRequest × List Byte) (List HttpRequest × HttpContext × List Byte × Bool) :=
  ⟨requestTurn, fun s => s.2.length, fun _ _ h => requestTurn_decreases h⟩

theorem requestLoop_again {s : List HttpRequest × List Byte}
    (h : (parseBytes .new s.2).1.gotAll = true) :
    requestLoop.eval s = requestLoop.eval
      (s.1 ++ [(parseBytes .new s.2).1.request], (parseBytes .new s.2).2.1) := by
  refine requestLoop.eval_again ?_
  show requestTurn s = _
  rw [requestTurn, if_pos h]

theorem requestLoop_out {s : List HttpRequest × List Byte}
    (h : (parseBytes .new s.2).1.gotAll = false) :
    requestLoop.eval s = (s.1, parseBytes .new s.2) := by
  refine requestLoop.eval_out ?_
  show requestTurn s = _
  rw [requestTurn, if_neg (by simp [h])]

theorem requestLoop_induct {motive : List HttpRequest × List Byte → Prop}
    (out : ∀ s, (parseBytes .new s.2).1.gotAll = false → motive s)
    (again : ∀ s, (parseBytes .new s.2).1.gotAll = true →
      motive (s.1 ++ [(parseBytes .new s.2).1.request], (parseBytes .new s.2).2.1) → motive s)
    (s : List HttpRequest × List Byte) : motive s := by
  induction s using requestLoop.eval_induct with
  | out s r hout => exact out s (requestTurn_out hout).1
  | again s s' hagain ih =>
    obtain ⟨hgot, rfl⟩ := requestTurn_again hagain
    exact again s hgot ih

/-- The complete requests of a stream, and the parse of what is behind them. -/
def parseStream (l : List Byte) : List HttpRequest × HttpContext × List Byte × Bool :=
  requestLoop.eval ([], l)

def requests (l : List Byte) : List HttpRequest := (parseStream l).1

/-- No request line of the stream is refused. -/
def WellFormed (l : List Byte) : Prop := (parseStream l).2.2.2 = true

instance (l : List Byte) : Decidable (WellFormed l) := inferInstanceAs (Decidable (_ = _))

theorem requestLoop_front (front : List HttpRequest) (s : List HttpRequest × List Byte) :
    requestLoop.eval (front ++ s.1, s.2) =
      (front ++ (requestLoop.eval s).1, (requestLoop.eval s).2) := by
  induction s using requestLoop_induct with
  | out s hout =>
    rw [requestLoop_out hout, requestLoop_out (s := (front ++ s.1, s.2)) hout]
  | again s hagain ih =>
    rw [requestLoop_again hagain, requestLoop_again (s := (front ++ s.1, s.2)) hagain, ← ih,
      List.append_assoc]

theorem requestLoop_done (done : List HttpRequest) (l : List Byte) :
    requestLoop.eval (done, l) = (done ++ requests l, (parseStream l).2) := by
  have hfront := requestLoop_front done ([], l)
  rw [List.append_nil] at hfront
  exact hfront

theorem parseStream_out {l : List Byte} (h : (parseBytes .new l).1.gotAll = false) :
    parseStream l = ([], parseBytes .new l) := requestLoop_out (s := ([], l)) h

theorem parseStream_again {l : List Byte} (h : (parseBytes .new l).1.gotAll = true) :
    parseStream l = ((parseBytes .new l).1.request :: requests (parseBytes .new l).2.1,
      (parseStream (parseBytes .new l).2.1).2) :=
  (requestLoop_again (s := ([], l)) h).trans (requestLoop_done _ _)

theorem parseStream_rest (l : List Byte) : (parseStream l).2.1.gotAll = false := by
  suffices h : ∀ s : List HttpRequest × List Byte, (requestLoop.eval s).2.1.gotAll = false from
    h ([], l)
  intro s
  induction s using requestLoop_induct with
  | out s hout =>
    rw [requestLoop_out hout]
    exact hout
  | again s hagain ih =>
    rw [requestLoop_again hagain]
    exact ih

/-- **More bytes of a stream**: the requests so far stay, and the parse goes on behind them. -/
theorem parseStream_append (l m : List Byte) :
    parseStream (l ++ m) =
      let r := parseBytes (parseStream l).2.1 ((parseStream l).2.2.1 ++ m)
      if r.1.gotAll then (requests l ++ r.1.request :: requests r.2.1, (parseStream r.2.1).2)
      else (requests l, r) := by
  suffices h : ∀ s : List HttpRequest × List Byte, parseStream (s.2 ++ m) =
      let r := parseBytes (parseStream s.2).2.1 ((parseStream s.2).2.2.1 ++ m)
      if r.1.gotAll then (requests s.2 ++ r.1.request :: requests r.2.1, (parseStream r.2.1).2)
      else (requests s.2, r) from h ([], l)
  intro s
  induction s using requestLoop_induct with
  | out s hout =>
    obtain ⟨done, l⟩ := s
    have hnone : requests l = [] := by rw [requests, parseStream_out hout]
    rw [parseStream_out hout, hnone, ← parseBytes_append]
    by_cases hgot : (parseBytes .new (l ++ m)).1.gotAll = true
    · rw [parseStream_again hgot]
      simp [hgot]
    · rw [parseStream_out (eq_false_of_ne_true hgot)]
      simp [hgot]
  | again s hagain ih =>
    obtain ⟨done, l⟩ := s
    have hfirst := parseBytes_append .new l m
    rw [parseBytes_done hagain] at hfirst
    have hgot : (parseBytes .new (l ++ m)).1.gotAll = true := by rw [hfirst]; exact hagain
    have hsome : requests l =
        (parseBytes .new l).1.request :: requests (parseBytes .new l).2.1 := by
      rw [requests, parseStream_again hagain]
    rw [parseStream_again hgot, hfirst, hsome, parseStream_again hagain]
    unfold requests at ih ⊢
    simp only at ih ⊢
    rw [ih]
    split
    · rfl
    · rfl

end Agora.Spec
