import Agora.Spec.HttpParse

/-!
# HTTP parsing does not depend on how the bytes arrive

`parseRequest` on a `Buffer` is `parseBytes` on its readable bytes, and `parseBytes` may stop and go
on at any byte.
-/

open Agora.Lib Agora.Spec

namespace Agora.HttpContext

/-- What a parse leaves, with the bytes of its buffer in place of the buffer. -/
def bytesOf (r : HttpContext × WfBuffer × Bool) : HttpContext × List Byte × Bool :=
  (r.1, r.2.1.readable, r.2.2)

theorem parseTurn_out {ctx : HttpContext} {buf : WfBuffer} {ok : Bool}
    {r : HttpContext × WfBuffer × Bool} (h : parseTurn ctx buf ok = .out r) :
    lineTurn ctx buf.readable ok = .out (bytesOf r) := by
  unfold parseTurn at h
  unfold lineTurn
  cases hs : ctx.state <;> simp only [hs] at h ⊢
  case kExpectRequestLine =>
    cases hc : buf.findCRLF with
    | none =>
      simp only [hc] at h
      rw [WfBuffer.findCRLF_readable, Option.map_eq_none_iff] at hc
      cases h
      simp [hc, bytesOf]
    | some crlf =>
      obtain ⟨i, hi, hline, -⟩ := line_of_findCRLF hc
      simp only [hc, hline] at h
      simp only [hi]
      obtain ⟨⟨good, request⟩, hr⟩ : ∃ r, processRequestLine ctx.request (buf.readable.take i) = r :=
        ⟨_, rfl⟩
      rw [hr] at h ⊢
      cases good with
      | true => cases h
      | false =>
        cases h
        simp [bytesOf]
  case kExpectHeaders =>
    cases hc : buf.findCRLF with
    | none =>
      simp only [hc] at h
      rw [WfBuffer.findCRLF_readable, Option.map_eq_none_iff] at hc
      cases h
      simp [hc, bytesOf]
    | some crlf =>
      simp only [hc] at h
      cases h
  all_goals
    cases h
    rfl

theorem parseTurn_again {ctx : HttpContext} {buf : WfBuffer} {ok : Bool}
    {s' : HttpContext × WfBuffer × Bool} (h : parseTurn ctx buf ok = .again s') :
    lineTurn ctx buf.readable ok = .again (bytesOf s') := by
  unfold parseTurn at h
  unfold lineTurn
  cases hs : ctx.state <;> simp only [hs] at h ⊢
  case kExpectRequestLine =>
    cases hc : buf.findCRLF with
    | none => simp only [hc] at h; cases h
    | some crlf =>
      obtain ⟨i, hi, hline, hrest⟩ := line_of_findCRLF hc
      simp only [hc, hline] at h
      simp only [hi]
      obtain ⟨⟨good, request⟩, hr⟩ : ∃ r, processRequestLine ctx.request (buf.readable.take i) = r :=
        ⟨_, rfl⟩
      rw [hr] at h ⊢
      cases good with
      | true =>
        cases h
        simp [bytesOf, hrest]
      | false => cases h
  case kExpectHeaders =>
    cases hc : buf.findCRLF with
    | none => simp only [hc] at h; cases h
    | some crlf =>
      obtain ⟨i, hi, hline, hrest⟩ := line_of_findCRLF hc
      simp only [hc, hline] at h
      cases h
      simp [hi, bytesOf, hrest]
  all_goals cases h

theorem parseRequest_bytes (ctx : HttpContext) (buf : WfBuffer) :
    bytesOf (parseRequest ctx buf) = parseBytes ctx buf.readable :=
  (parseLoop.eval_map lineLoop bytesOf bytesOf (fun _ _ h => parseTurn_out h)
    (fun _ _ h => parseTurn_again h) (ctx, buf, true)).symm

/-- A call of `parseRequest` after each chunk; the results of the last call. -/
def parseChunks (ctx : HttpContext) (buf : WfBuffer) :
    List Byte → List (List Byte) → HttpContext × WfBuffer × Bool
  | c, [] => parseRequest ctx (buf.append c)
  | c, c' :: cs =>
    parseChunks (parseRequest ctx (buf.append c)).1 (parseRequest ctx (buf.append c)).2.1 c' cs

/-- **Parsing chunk by chunk is parsing at once**, and every call ends. -/
theorem parse_chunks (ctx : HttpContext) (buf : WfBuffer) (c : List Byte) (cs : List (List Byte)) :
    bytesOf (parseChunks ctx buf c cs) =
      bytesOf (parseRequest ctx (buf.append (c :: cs).flatten)) ∧
    ∀ (ctx : HttpContext) (buf : WfBuffer), ∃ turns,
      Loop.run parseLoop.body turns (ctx, buf, true) = some (parseRequest ctx buf) := by
  refine ⟨?_, fun ctx buf => ⟨_, parseLoop.run_eval (ctx, buf, true)⟩⟩
  induction cs generalizing ctx buf c with
  | nil => simp [parseChunks]
  | cons c' cs ih =>
    have hfirst := parseRequest_bytes ctx (buf.append c)
    have hctx : (parseRequest ctx (buf.append c)).1 = (parseBytes ctx (buf.readable ++ c)).1 := by
      rw [← WfBuffer.readable_append, ← hfirst]; rfl
    have hrest : (parseRequest ctx (buf.append c)).2.1.readable =
        (parseBytes ctx (buf.readable ++ c)).2.1 := by
      rw [← WfBuffer.readable_append, ← hfirst]; rfl
    rw [parseChunks, ih, parseRequest_bytes, parseRequest_bytes, WfBuffer.readable_append,
      WfBuffer.readable_append, hctx, hrest, List.flatten_cons (l := c), ← List.append_assoc,
      parseBytes_append ctx (buf.readable ++ c)]

end Agora.HttpContext
