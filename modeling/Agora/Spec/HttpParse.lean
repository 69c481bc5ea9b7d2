import Agora.Code.HttpContext

/-! # What `parseRequest` does to the bytes of a stream -/

open Agora.Lib

namespace Agora.Spec

open HttpContext

/-- One line of the stream, or the end of the parse: the context, the unread bytes and whether the
request line was good. -/
def lineTurn (ctx : HttpContext) (l : List Byte) (ok : Bool) :
    Turn (HttpContext × List Byte × Bool) (HttpContext × List Byte × Bool) :=
  match ctx.state, firstCRLF l with
  | .kExpectRequestLine, some i =>
    match processRequestLine ctx.request (l.take i) with
    | (true, request) => .again (⟨.kExpectHeaders, request⟩, l.drop (i + 2), true)
    | (false, request) => .out (⟨ctx.state, request⟩, l, false)
  | .kExpectHeaders, some i => .again (processHeaderLine ctx (l.take i), l.drop (i + 2), ok)
  | _, _ => .out (ctx, l, ok)

theorem setTarget_again (r : HttpRequest) (m : Method) (t : List Byte) :
    setTarget { setTarget { r with method := m } t with method := m } t =
      setTarget { r with method := m } t := by
  unfold setTarget
  split <;> rfl

theorem processRequestLine_again {r r' : HttpRequest} {line : List Byte}
    (h : processRequestLine r line = (false, r')) : processRequestLine r' line = (false, r') := by
  unfold processRequestLine at h ⊢
  cases hcut : cut SP line with
  | none => simp
  | some p =>
    simp only [hcut] at h ⊢
    cases hm : methodOf p.1 with
    | none => simp
    | some m =>
      simp only [hm] at h ⊢
      cases htarget : cut SP p.2 with
      | none =>
        simp only [htarget] at h ⊢
        obtain rfl := congrArg Prod.snd h
        rfl
      | some q =>
        simp only [htarget] at h ⊢
        by_cases h11 : q.2 = http11
        · rw [if_pos h11] at h; cases h
        by_cases h10 : q.2 = http10
        · rw [if_neg h11, if_pos h10] at h; cases h
        simp only [if_neg h11, if_neg h10, Prod.mk.injEq, true_and] at h ⊢
        rw [← h, setTarget_again]

theorem lineTurn_decreases {ctx : HttpContext} {l : List Byte} {ok : Bool}
    {s' : HttpContext × List Byte × Bool} (h : lineTurn ctx l ok = .again s') :
    s'.2.1.length < l.length := by
  unfold lineTurn at h
  split at h
  · rename_i i _ hi
    have := firstCRLF_length hi
    split at h
    · cases h
      simp; omega
    · simp at h
  · rename_i i _ hi
    have := firstCRLF_length hi
    cases h
    simp; omega
  · simp at h

def lineLoop : Loop (HttpContext × List Byte × Bool) (HttpContext × List Byte × Bool) :=
  ⟨fun s => lineTurn s.1 s.2.1 s.2.2, fun s => s.2.1.length, fun _ _ h => lineTurn_decreases h⟩

theorem lineLoop_out {ctx : HttpContext} {l : List Byte} {ok : Bool}
    {r : HttpContext × List Byte × Bool} (h : lineTurn ctx l ok = .out r) :
    lineLoop.eval (ctx, l, ok) = r := lineLoop.eval_out h

theorem lineLoop_again {ctx : HttpContext} {l : List Byte} {ok : Bool}
    {s : HttpContext × List Byte × Bool} (h : lineTurn ctx l ok = .again s) :
    lineLoop.eval (ctx, l, ok) = lineLoop.eval s := lineLoop.eval_again h

/-- The context, the unread bytes and the return value. -/
def parseBytes (ctx : HttpContext) (l : List Byte) : HttpContext × List Byte × Bool :=
  lineLoop.eval (ctx, l, true)

/-- A parse that stops either has changed nothing since its last line, or it has refused the line
that is still in front. -/
theorem lineTurn_out {ctx ctx' : HttpContext} {l l' : List Byte} {ok ok' : Bool}
    (h : lineTurn ctx l ok = .out (ctx', l', ok')) :
    (ctx' = ctx ∧ l' = l ∧ ok' = ok) ∨
    (l' = l ∧ ok' = false ∧ ∃ i, firstCRLF l = some i ∧ ctx.state = .kExpectRequestLine ∧
      ctx'.state = .kExpectRequestLine ∧
      processRequestLine ctx.request (l.take i) = (false, ctx'.request)) := by
  unfold lineTurn at h
  split at h
  · rename_i i hs hi
    split at h
    · simp at h
    · rename_i hline
      cases h
      exact .inr ⟨rfl, rfl, i, hi, hs, hs, hline⟩
  · simp at h
  · cases h
    exact .inl ⟨rfl, rfl, rfl⟩

theorem lineTurn_ok {ctx ctx' : HttpContext} {l l' : List Byte} {ok' : Bool}
    (h : lineTurn ctx l true = .again (ctx', l', ok')) : ok' = true := by
  unfold lineTurn at h
  split at h
  · split at h <;> simp_all
  · simp_all
  · simp at h

theorem parseBytes_refused {ctx : HttpContext} {l : List Byte}
    (h : (parseBytes ctx l).2.2 = false) : (parseBytes ctx l).1.gotAll = false := by
  suffices hloop : ∀ s : HttpContext × List Byte × Bool, s.2.2 = true →
      (lineLoop.eval s).2.2 = false → (lineLoop.eval s).1.gotAll = false from
    hloop (ctx, l, true) rfl h
  clear h
  intro s
  induction s using lineLoop.eval_induct with
  | out s r hout =>
    obtain ⟨ctx, l, ok⟩ := s
    obtain ⟨ctx', l', ok'⟩ := r
    rintro rfl h
    rw [lineLoop_out hout] at h ⊢
    rcases lineTurn_out hout with ⟨-, -, rfl⟩ | ⟨-, -, i, -, -, hs, -⟩
    · cases h
    · simp [HttpContext.gotAll, hs]
  | again s s' hagain ih =>
    obtain ⟨ctx, l, ok⟩ := s
    obtain ⟨ctx', l', ok'⟩ := s'
    rintro rfl h
    rw [lineLoop.eval_again hagain] at h ⊢
    exact ih (lineTurn_ok hagain) h

theorem lineLoop_unread (s : HttpContext × List Byte × Bool) :
    (lineLoop.eval s).2.1.length ≤ s.2.1.length := by
  induction s using lineLoop.eval_induct with
  | out s r hout =>
    obtain ⟨ctx, l, ok⟩ := s
    obtain ⟨ctx', l', ok'⟩ := r
    rw [lineLoop_out hout]
    rcases lineTurn_out hout with ⟨-, rfl, -⟩ | ⟨rfl, -⟩ <;> exact Nat.le_refl _
  | again s s' hagain ih =>
    rw [lineLoop.eval_again hagain]
    exact Nat.le_trans ih (Nat.le_of_lt (lineTurn_decreases hagain))

theorem parseBytes_gotAll {ctx : HttpContext} {l : List Byte} (hctx : ctx.gotAll = false)
    (h : (parseBytes ctx l).1.gotAll = true) : (parseBytes ctx l).2.1.length < l.length := by
  cases hturn : lineTurn ctx l true with
  | out r =>
    obtain ⟨ctx', l', ok'⟩ := r
    have hout : parseBytes ctx l = (ctx', l', ok') := lineLoop_out hturn
    rw [hout] at h
    rcases lineTurn_out hturn with ⟨rfl, -, -⟩ | ⟨-, -, i, -, -, hs, -⟩
    · rw [hctx] at h
      cases h
    · simp [HttpContext.gotAll, hs] at h
  | again s' =>
    have hagain : parseBytes ctx l = lineLoop.eval s' := lineLoop_again hturn
    have hless := lineTurn_decreases hturn
    have hle := lineLoop_unread s'
    rw [hagain]
    omega

/-! ## Bytes that arrive later -/

theorem lineTurn_append {ctx ctx' : HttpContext} {l l' : List Byte} {ok ok' : Bool}
    (h : lineTurn ctx l ok = .again (ctx', l', ok')) (m : List Byte) :
    lineTurn ctx (l ++ m) ok = .again (ctx', l' ++ m, ok') := by
  have line : ∀ {i}, firstCRLF l = some i →
      (l ++ m).take i = l.take i ∧ (l ++ m).drop (i + 2) = l.drop (i + 2) ++ m := by
    intro i hi
    have := firstCRLF_length hi
    exact ⟨List.take_append_of_le_length (by omega), List.drop_append_of_le_length (by omega)⟩
  unfold lineTurn at h ⊢
  split at h
  · rename_i i hs hi
    obtain ⟨htake, hdrop⟩ := line hi
    simp only [hs, firstCRLF_append hi, htake, hdrop]
    split at h
    · cases h
      rfl
    · simp at h
  · rename_i i hs hi
    obtain ⟨htake, hdrop⟩ := line hi
    simp only [hs, firstCRLF_append hi, htake, hdrop]
    cases h
    rfl
  · simp at h

theorem lineTurn_refused {ctx : HttpContext} {l : List Byte} {i : Nat} {r : HttpRequest}
    (hs : ctx.state = .kExpectRequestLine) (hi : firstCRLF l = some i)
    (hline : processRequestLine ctx.request (l.take i) = (false, r)) (ok : Bool) :
    lineTurn ctx l ok = .out (⟨.kExpectRequestLine, r⟩, l, false) := by
  simp [lineTurn, hs, hi, hline]

/-- Parsing what has arrived, and going on when more has, is parsing everything at once. -/
theorem parseBytes_append (ctx : HttpContext) (l m : List Byte) :
    parseBytes ctx (l ++ m) =
      parseBytes (parseBytes ctx l).1 ((parseBytes ctx l).2.1 ++ m) := by
  suffices h : ∀ s : HttpContext × List Byte × Bool, s.2.2 = true →
      lineLoop.eval (s.1, s.2.1 ++ m, true) =
        lineLoop.eval ((lineLoop.eval s).1, (lineLoop.eval s).2.1 ++ m, true) from
    h (ctx, l, true) rfl
  intro s
  induction s using lineLoop.eval_induct with
  | out s r hout =>
    obtain ⟨ctx, l, ok⟩ := s
    obtain ⟨ctx', l', ok'⟩ := r
    rintro rfl
    rw [lineLoop_out hout]
    rcases lineTurn_out hout with ⟨rfl, rfl, -⟩ | ⟨rfl, -, i, hi, hs, hs', hline⟩
    · rfl
    · -- The refused line is still in front, and is refused again.
      dsimp only at hi hs hline ⊢
      have hlen := firstCRLF_length hi
      have htake : (l' ++ m).take i = l'.take i := List.take_append_of_le_length (by omega)
      have hi' := firstCRLF_append hi m
      rw [lineLoop_out (lineTurn_refused hs hi' (by rw [htake]; exact hline) true),
        lineLoop_out (lineTurn_refused hs' hi'
          (by rw [htake]; exact processRequestLine_again hline) true)]
  | again s s' hagain ih =>
    obtain ⟨ctx, l, ok⟩ := s
    obtain ⟨ctx', l', ok'⟩ := s'
    rintro rfl
    obtain rfl : ok' = true := lineTurn_ok hagain
    have hmore : lineTurn ctx (l ++ m) true = .again (ctx', l' ++ m, true) := lineTurn_append hagain m
    rw [lineLoop_again hagain, ← ih rfl, lineLoop_again hmore]

/-! ## Lines that are refused -/

theorem lineTurn_headers {ctx : HttpContext} {l : List Byte} {ok : Bool}
    {s' : HttpContext × List Byte × Bool} (h : lineTurn ctx l ok = .again s') :
    s'.1.state ≠ .kExpectRequestLine ∧ (ctx.state ≠ .kExpectRequestLine → s'.2.2 = ok) := by
  unfold lineTurn at h
  split at h
  · rename_i i hs _
    split at h
    · cases h
      exact ⟨nofun, fun hne => absurd hs hne⟩
    · cases h
  · rename_i i hs _
    cases h
    refine ⟨?_, fun _ => rfl⟩
    unfold processHeaderLine
    split
    · dsimp only
      rw [hs]
      nofun
    · nofun
  · cases h

theorem lineLoop_headers (s : HttpContext × List Byte × Bool) (hs : s.1.state ≠ .kExpectRequestLine) :
    (lineLoop.eval s).2.2 = s.2.2 := by
  induction s using lineLoop.eval_induct with
  | out s r hout =>
    rw [lineLoop.eval_out hout]
    rcases lineTurn_out hout with ⟨-, -, hok⟩ | ⟨-, -, -, -, hstate, -⟩
    · exact hok
    · exact absurd hstate hs
  | again s s' hagain ih =>
    obtain ⟨hne, hok⟩ := lineTurn_headers hagain
    rw [lineLoop.eval_again hagain, ih hne, hok hs]

theorem parseBytes_of_refused {ctx : HttpContext} {l : List Byte} {i : Nat} {r : HttpRequest}
    (hs : ctx.state = .kExpectRequestLine) (hi : firstCRLF l = some i)
    (hline : processRequestLine ctx.request (l.take i) = (false, r)) :
    parseBytes ctx l = (⟨.kExpectRequestLine, r⟩, l, false) :=
  lineLoop_out (lineTurn_refused hs hi hline true)

theorem parseBytes_refused_iff {ctx : HttpContext} {l : List Byte} :
    (parseBytes ctx l).2.2 = false ↔ ctx.state = .kExpectRequestLine ∧
      ∃ i r, firstCRLF l = some i ∧ processRequestLine ctx.request (l.take i) = (false, r) := by
  constructor
  · intro h
    cases hturn : lineTurn ctx l true with
    | out r =>
      obtain ⟨ctx', l', ok'⟩ := r
      unfold parseBytes at h
      rw [lineLoop_out hturn] at h
      rcases lineTurn_out hturn with ⟨-, -, hok⟩ | ⟨-, -, i, hi, hs, -, hline⟩
      · rw [hok] at h
        cases h
      · exact ⟨hs, i, _, hi, hline⟩
    | again s' =>
      obtain ⟨ctx', l', ok'⟩ := s'
      unfold parseBytes at h
      rw [lineLoop_again hturn, lineLoop_headers _ (lineTurn_headers hturn).1, lineTurn_ok hturn] at h
      cases h
  · rintro ⟨hs, i, r, hi, hline⟩
    rw [parseBytes_of_refused hs hi hline]

theorem parseBytes_refused_again {ctx : HttpContext} {l : List Byte}
    (h : (parseBytes ctx l).2.2 = false) (m : List Byte) :
    (parseBytes ctx (l ++ m)).2.2 = false ∧ (parseBytes ctx l).2.1 = l ∧
      (parseBytes (parseBytes ctx l).1 l).2.2 = false := by
  obtain ⟨hs, i, r, hi, hline⟩ := parseBytes_refused_iff.mp h
  have hlen := firstCRLF_length hi
  have htake : (l ++ m).take i = l.take i := List.take_append_of_le_length (by omega)
  have hmore := parseBytes_of_refused hs (firstCRLF_append hi m) (htake.symm ▸ hline)
  have hagain := @parseBytes_of_refused ⟨.kExpectRequestLine, r⟩ l i r rfl hi
    (processRequestLine_again hline)
  rw [hmore, parseBytes_of_refused hs hi hline, hagain]
  exact ⟨rfl, rfl, rfl⟩

end Agora.Spec
