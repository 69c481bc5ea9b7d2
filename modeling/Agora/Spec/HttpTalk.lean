import Agora.Code.Servers
import Agora.Spec.HttpStream

/-!
# What a server says on a connection

One response for each request of the stream, in order, up to one that closes the connection or a request
line that is refused.
-/

namespace Agora.Spec

/-- What may have been said so far to a client that has sent `l`: requests behind the last answer may still be
without theirs. -/
inductive Transcript (F : HttpCallback) : List Byte → List (List Byte) → Prop
  | silent (l : List Byte) : Transcript F l []
  | refused {l : List Byte} : (parseBytes .new l).2.2 = false → Transcript F l [HttpSession.badRequest]
  | closing {l : List Byte} {response : HttpResponse} : (parseBytes .new l).1.gotAll = true →
      F (parseBytes .new l).1.request response → response.closeConnection = true →
      Transcript F l [response.bytes]
  | keepAlive {l : List Byte} {response : HttpResponse} {said : List (List Byte)} :
      (parseBytes .new l).1.gotAll = true → F (parseBytes .new l).1.request response →
      response.closeConnection = false → Transcript F (parseBytes .new l).2.1 said →
      Transcript F l (response.bytes :: said)

/-- `said` answers requests in front of `rest`, all of which have kept the connection alive. -/
inductive Kept (F : HttpCallback) : List Byte → List (List Byte) → List Byte → Prop
  | nil (l : List Byte) : Kept F l [] l
  | cons {l rest : List Byte} {response : HttpResponse} {said : List (List Byte)} :
      (parseBytes .new l).1.gotAll = true → F (parseBytes .new l).1.request response →
      response.closeConnection = false → Kept F (parseBytes .new l).2.1 said rest →
      Kept F l (response.bytes :: said) rest

/-- All has been said to a client that has sent `l`: the last answer closes the connection. -/
inductive Ended (F : HttpCallback) : List Byte → List (List Byte) → Prop
  | refused {l : List Byte} : (parseBytes .new l).2.2 = false → Ended F l [HttpSession.badRequest]
  | closing {l : List Byte} {response : HttpResponse} : (parseBytes .new l).1.gotAll = true →
      F (parseBytes .new l).1.request response → response.closeConnection = true → Ended F l [response.bytes]
  | keepAlive {l : List Byte} {response : HttpResponse} {said : List (List Byte)} :
      (parseBytes .new l).1.gotAll = true → F (parseBytes .new l).1.request response →
      response.closeConnection = false → Ended F (parseBytes .new l).2.1 said → Ended F l (response.bytes :: said)

variable {F : HttpCallback} {l rest : List Byte} {said said' : List (List Byte)}

theorem parseBytes_complete (h : (parseBytes .new l).1.gotAll = true) (m : List Byte) :
    parseBytes .new (l ++ m) = ((parseBytes .new l).1, (parseBytes .new l).2.1 ++ m, true) := by
  rw [parseBytes_append, parseBytes_done h]

/-! ## More of the stream -/

theorem Ended.append (h : Ended F l said) (m : List Byte) : Ended F (l ++ m) said := by
  induction h with
  | refused hbad => exact .refused (parseBytes_refused_again hbad m).1
  | closing hgot hF hclose =>
    have hmore := parseBytes_complete hgot m
    refine .closing ?_ ?_ hclose
    · rw [hmore]
      exact hgot
    · rw [hmore]
      exact hF
  | keepAlive hgot hF hopen _ ih =>
    have hmore := parseBytes_complete hgot m
    refine .keepAlive ?_ ?_ hopen ?_
    · rw [hmore]
      exact hgot
    · rw [hmore]
      exact hF
    · rw [hmore]
      exact ih

theorem Kept.append (h : Kept F l said rest) (m : List Byte) : Kept F (l ++ m) said (rest ++ m) := by
  induction h with
  | nil l => exact .nil _
  | cons hgot hF hopen _ ih =>
    have hmore := parseBytes_complete hgot m
    refine .cons ?_ ?_ hopen ?_
    · rw [hmore]
      exact hgot
    · rw [hmore]
      exact hF
    · rw [hmore]
      exact ih

/-! ## One more answer -/

theorem Kept.ended (h : Kept F l said rest) (h' : Ended F rest said') : Ended F l (said ++ said') := by
  induction h with
  | nil l => exact h'
  | cons hgot hF hopen _ ih => exact .keepAlive hgot hF hopen (ih h')

theorem Ended.transcript (h : Ended F l said) : Transcript F l said := by
  induction h with
  | refused hbad => exact .refused hbad
  | closing hgot hF hclose => exact .closing hgot hF hclose
  | keepAlive hgot hF hopen _ ih => exact .keepAlive hgot hF hopen ih

theorem Kept.spoken (h : Kept F l said rest) : Transcript F l said := by
  induction h with
  | nil l => exact .silent l
  | cons hgot hF hopen _ ih => exact .keepAlive hgot hF hopen ih

theorem Kept.snoc (h : Kept F l said rest) {response : HttpResponse} (hgot : (parseBytes .new rest).1.gotAll = true)
    (hF : F (parseBytes .new rest).1.request response) (hopen : response.closeConnection = false) :
    Kept F l (said ++ [response.bytes]) (parseBytes .new rest).2.1 := by
  induction h with
  | nil l => exact .cons hgot hF hopen (.nil _)
  | cons hgot' hF' hopen' _ ih => exact .cons hgot' hF' hopen' (ih hgot hF)

/-- Where a transcript ends: with an answer that closes the connection, or in front of what is not answered. -/
theorem Transcript.ends (h : Transcript F l said) : Ended F l said ∨ ∃ rest, Kept F l said rest := by
  induction h with
  | silent l => exact .inr ⟨l, .nil l⟩
  | refused hbad => exact .inl (.refused hbad)
  | closing hgot hF hclose => exact .inl (.closing hgot hF hclose)
  | keepAlive hgot hF hopen _ ih =>
    rcases ih with hended | ⟨rest, hkept⟩
    · exact .inl (.keepAlive hgot hF hopen hended)
    · exact .inr ⟨rest, .cons hgot hF hopen hkept⟩

theorem Transcript.append (h : Transcript F l said) (m : List Byte) : Transcript F (l ++ m) said := by
  rcases h.ends with hended | ⟨rest, hkept⟩
  · exact (hended.append m).transcript
  · exact (hkept.append m).spoken

/-! ## The requests that are answered -/

theorem Kept.count (h : Kept F l said rest) :
    (requests l).length = said.length + (requests rest).length := by
  induction h with
  | nil l => simp
  | cons hgot _ _ _ ih =>
    rw [requests, parseStream_again hgot]
    simp only [List.length_cons]
    omega

theorem requests_incomplete (h : (parseBytes .new l).1.gotAll = false) : requests l = [] := by
  rw [requests, parseStream_out h]

/-! ## Servers that close after each response -/

/-- No response keeps the connection alive. -/
def AlwaysCloses (F : HttpCallback) : Prop := ∀ request response, F request response → response.closeConnection = true

theorem Kept.of_closes (h : Kept F l said rest) (hF : AlwaysCloses F) : said = [] ∧ rest = l := by
  cases h with
  | nil l => exact ⟨rfl, rfl⟩
  | cons _ hF' hopen _ => cases hopen.symm.trans (hF _ _ hF')

end Agora.Spec
