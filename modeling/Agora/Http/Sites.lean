import Agora.Http.Delimit
import Agora.Http.Hosted
import Agora.Http.RequestLine
import Agora.Http.UrlDecode

/-! # What the clients of the two HTTP sites read -/

open Agora.Lib Agora.Spec

namespace Agora

/-! ## Pages -/

/-- The text fits in a line. -/
def Clean (text : List Byte) : Prop := CR ∉ text ∧ LF ∉ text

instance (text : List Byte) : Decidable (Clean text) := inferInstanceAs (Decidable (_ ∧ _))

theorem readable_plain {r : HttpResponse} (hmessage : Clean r.statusMessage) (hheaders : r.headers = []) :
    Readable r := by
  refine ⟨⟨hmessage.1, hmessage.2, ?_, ?_, ?_⟩, ?_⟩
  all_goals simp [hheaders]

theorem readable_typed {r : HttpResponse} (type : List Byte) (hmessage : Clean r.statusMessage)
    (hheaders : r.headers = [(ascii "Content-Type".toList, type)]) (htype : Clean type) : Readable r := by
  have hfield : Writable (ascii "Content-Type".toList, type) :=
    ⟨by show ascii "Content-Type".toList ≠ []; decide,
      by show HttpContext.COLON ∉ ascii "Content-Type".toList; decide,
      by show CR ∉ ascii "Content-Type".toList; decide,
      by show LF ∉ ascii "Content-Type".toList; decide, htype.1, htype.2⟩
  have hlength : ascii "Content-Type".toList ≠ HttpResponse.contentLength := by decide
  have hconnection : ascii "Content-Type".toList ≠ HttpResponse.connection := by decide
  refine ⟨⟨hmessage.1, hmessage.2, ?_, ?_, ?_⟩, ?_⟩
  all_goals rw [hheaders]
  · exact List.forall_mem_singleton.mpr hfield
  · exact List.forall_mem_singleton.mpr hlength
  · exact List.forall_mem_singleton.mpr hconnection
  · exact List.nodup_singleton _

/-! ## `main.cpp` -/

namespace Main

theorem onRequest_readable (req : HttpRequest) : Readable (onRequest req (.new true)) := by
  unfold onRequest
  split
  · exact readable_typed (ascii "text/html".toList) (by decide) rfl (by decide)
  split
  · exact readable_typed (ascii "text/plain".toList) (by decide) rfl (by decide)
  · exact readable_plain (by decide) rfl

theorem onRequest_closes (req : HttpRequest) : (onRequest req (.new true)).closeConnection = true := by
  unfold onRequest
  split
  · rfl
  split
  · rfl
  · rfl

/-- The page of a path, as a client should see it. -/
def page (path : List Byte) : Response :=
  if path = ascii "/".toList then
    ⟨200, ascii "OK".toList, [(ascii "Content-Type".toList, ascii "text/html".toList)], true,
      ascii "<h1>Hello, AgoraIM!</h1>".toList⟩
  else if path = ascii "/hello".toList then
    ⟨200, ascii "OK".toList, [(ascii "Content-Type".toList, ascii "text/plain".toList)], true,
      ascii "Hello, World!".toList⟩
  else ⟨404, ascii "Not Found".toList, [], true, ascii "404 Not Found".toList⟩

theorem contents_onRequest (req : HttpRequest) : contents (onRequest req (.new true)) = page req.path := by
  unfold onRequest page
  split
  · rfl
  split
  · rfl
  · rfl

end Main

/-! ## `StaticFileServer` -/

theorem MimeType.getType_clean (path : List Byte) : Clean (MimeType.getType path) := by
  have hoctet : Clean MimeType.octetStream := by decide
  have hrows : ∀ row ∈ MimeType.types, Clean (ascii row.2) := by decide
  unfold MimeType.getType
  split
  · exact hoctet
  · split
    · rename_i hfind
      exact hrows _ (List.mem_of_find?_eq_some hfind)
    · exact hoctet

namespace StaticFileServer

theorem serveFile_readable {files : Files} {path : List Byte} {response : HttpResponse}
    (h : serveFile files path (.new true) = some (some response)) :
    Readable response ∧ response.closeConnection = true := by
  have hok : Clean (ascii "OK".toList) := by decide
  unfold serveFile at h
  rcases hfile : files path with _ | _ | bytes
  · simp [hfile] at h
  · simp only [hfile, Option.some.injEq] at h
    subst h
    exact ⟨readable_typed _ hok rfl (MimeType.getType_clean _), rfl⟩
  · simp [hfile] at h

theorem onRequest_readable {s : StaticFileServer} {files : Files} {req : HttpRequest} {response : HttpResponse}
    (h : (s.onRequest files req (.new true)).response = some response) :
    Readable response ∧ response.closeConnection = true := by
  have hrequest : Clean (ascii "Bad Request".toList) := by decide
  have hfound : Clean (ascii "Not Found".toList) := by decide
  unfold onRequest at h
  rcases hpath : s.checkedPath req.path with _ | _ | path
  · simp [hpath] at h
  · simp only [hpath, Option.some.injEq] at h
    subst h
    exact ⟨readable_plain hrequest rfl, rfl⟩
  · simp only [hpath] at h
    obtain ⟨found, hserve, rfl⟩ := Option.map_eq_some_iff.mp h
    cases found with
    | none => exact ⟨readable_typed (ascii "text/html".toList) hfound rfl (by decide), rfl⟩
    | some response => exact serveFile_readable hserve

theorem httpCallback_readable {s : StaticFileServer} {disk : Files → Prop} (req : HttpRequest)
    (resp : HttpResponse) (h : s.httpCallback disk req resp) : Readable resp ∧ resp.closeConnection = true := by
  obtain ⟨files, -, h⟩ := h
  exact onRequest_readable h

/-- The response to a request for a file. -/
def fileResponse (path content : List Byte) : Response :=
  ⟨200, ascii "OK".toList, [(ascii "Content-Type".toList, MimeType.getType path)], true, content⟩

theorem onRequest_file {s : StaticFileServer} {files : Files} {req : HttpRequest} {path content : List Byte}
    (hdecode : urlDecode req.path = some path) (hup : hasDotDot path = false)
    (hfile : files (s.filePath path) = some (.content content)) {response : HttpResponse}
    (h : (s.onRequest files req (.new true)).response = some response) :
    contents response = fileResponse (s.filePath path) content := by
  unfold onRequest at h
  rw [(checkedPath_iff s req.path _).mpr ⟨path, hdecode, hup, rfl⟩] at h
  simp only [serveFile, hfile] at h
  obtain rfl := Option.some.inj h
  rfl

end StaticFileServer

/-! ## The first request of a stream -/

theorem HttpContext.addLines_path (r : HttpRequest) (lines : List (List Byte)) :
    (HttpContext.addLines r lines).path = r.path := by
  unfold HttpContext.addLines
  induction lines generalizing r with
  | nil => rfl
  | cons line lines ih =>
    rw [List.foldl_cons, ih]
    unfold HttpContext.processHeaderLine
    split
    · rfl
    · rfl

theorem Spec.firstRequest {line target head : List Byte} {m : Method} {v : Version}
    (hline : RequestLine line m target v) (hends : Line line) (hsection : HttpContext.HeaderSection head)
    (rest : List Byte) :
    (parseBytes .new (ended line ++ (head ++ rest))).1.gotAll = true ∧
      (parseBytes .new (ended line ++ (head ++ rest))).1.request.path = pathOf target := by
  have hgood := HttpContext.processRequestLine_of_requestLine hline .new
  have hnew : HttpContext.new.state = .kExpectRequestLine := rfl
  obtain ⟨lines, hlines, rfl⟩ := hsection
  rw [HttpContext.parseBytes_requestLine hnew hends hgood, List.append_assoc,
    HttpContext.parseBytes_fieldLines hlines, HttpContext.parseBytes_lastLine rfl (by simp)]
  refine ⟨rfl, ?_⟩
  show (HttpContext.addLines _ lines).path = _
  rw [HttpContext.addLines_path, HttpContext.setTarget_eq]

/-! ## Results -/

namespace HttpServer

variable {τ : Type} [DecidableEq τ] {F : HttpCallback}
  {c : Config Unit (Service (application true) τ) (Nat × HttpCall) HttpAnswer Empty Fault}

theorem client_of_closing (hreadable : ∀ request response, F request response → Readable response)
    (hcloses : AlwaysCloses F)
    (h : (Service.machine (application true) τ).Reach (Service.each (HttpSession.Answers F)) c)
    (hc : c.crashed = none) {i : Nat} (hi : c.st.server.Created i) {p : List Byte}
    (hp : p <+: written (c.st.sessions i).conn.trace) :
    readAll p = [] ∨ ∃ response, (parseBytes .new (c.st.sessions i).stream).1.gotAll = true ∧
      F (parseBytes .new (c.st.sessions i).stream).1.request response ∧ readAll p = [contents response] := by
  have hwritten : p <+: (c.st.sessions i).conn.payloads.flatten := by
    rw [← (session_said h hc hi).2]
    exact hp.trans (List.prefix_append _ _)
  have hnothing : readAll [] = [] := readAll_none (readResponse_badRequest List.nil_prefix)
  have houtcome : Outcome F (c.st.sessions i) _ := session_outcome hcloses h hc hi
  cases houtcome with
  | silent _ hsaid _ =>
    rw [hsaid] at hwritten
    rw [List.prefix_nil.mp hwritten]
    exact .inl hnothing
  | refused _ hsaid _ _ =>
    rw [hsaid] at hwritten
    exact .inl (readAll_none (readResponse_badRequest hwritten))
  | answered response _ hsaid _ hgot hreply =>
    rw [hsaid] at hwritten
    have hread := hreadable _ _ hreply
    rcases eq_or_ne p response.bytes with rfl | hne
    · refine .inr ⟨response, hgot, hreply, ?_⟩
      have hwhole := hread.read []
      rw [List.append_nil] at hwhole
      rw [readAll_some hwhole, hnothing]
    · exact .inl (readAll_none (hread.waits hwritten hne))

/-- **The site of `main.cpp`.** In every run of its loops, a client gets at most one response on a connection, and
it is the page of the path that its first request names. -/
theorem main_page
    (h : (Service.machine (application true) τ).Reach (Service.each (HttpSession.Answers Main.httpCallback)) c)
    (hc : c.crashed = none) {i : Nat} (hi : c.st.server.Created i) {p : List Byte}
    (hp : p <+: written (c.st.sessions i).conn.trace) :
    readAll p = [] ∨ (parseBytes .new (c.st.sessions i).stream).1.gotAll = true ∧
      readAll p = [Main.page (parseBytes .new (c.st.sessions i).stream).1.request.path] := by
  have hreadable : ∀ request response, Main.httpCallback request response → Readable response := by
    rintro request _ rfl
    exact Main.onRequest_readable request
  have hcloses : AlwaysCloses Main.httpCallback := by
    rintro request _ rfl
    exact Main.onRequest_closes request
  rcases client_of_closing hreadable hcloses h hc hi hp with hnone | ⟨_, hgot, rfl, hread⟩
  · exact .inl hnone
  · rw [Main.contents_onRequest] at hread
    exact .inr ⟨hgot, hread⟩

instance (request : HttpRequest) (response : HttpResponse) : Decidable (Main.httpCallback request response) :=
  inferInstanceAs (Decidable (_ = _))

theorem main_page_root :
    ∃ c, (Service.machine (application true) Bool).system.run
        ((Service.machine (application true) Bool).Meets (Service.each (HttpSession.Answers Main.httpCallback)))
        (.initial (Service.new _ false [true]))
        [.start (.accept [5] .EAGAIN) [], .start (.functor true) [],
          .start (.event true 1 kReadEvent) [.sys (.bytes HttpSession.getRoot),
            .response (Main.onRequest ⟨.kGet, .kHttp11, [SLASH], [], []⟩ (.new true)), .sys (.count 107)]] = some c ∧
      (written (c.st.sessions 1).conn.trace).length = 107 ∧
        (readAll (written (c.st.sessions 1).conn.trace) = [] ∨
          (parseBytes .new (c.st.sessions 1).stream).1.gotAll = true ∧
            readAll (written (c.st.sessions 1).conn.trace) =
              [Main.page (parseBytes .new (c.st.sessions 1).stream).1.request.path]) := by
  have hrun : ((Service.machine (application true) Bool).system.run
      ((Service.machine (application true) Bool).Meets (Service.each (HttpSession.Answers Main.httpCallback)))
      (.initial (Service.new _ false [true]))
      [.start (.accept [5] .EAGAIN) [], .start (.functor true) [],
        .start (.event true 1 kReadEvent) [.sys (.bytes HttpSession.getRoot),
          .response (Main.onRequest ⟨.kGet, .kHttp11, [SLASH], [], []⟩ (.new true)), .sys (.count 107)]]).map
      (fun c => (c.crashed, c.st.server.nextConnId, (written (c.st.sessions 1).conn.trace).length)) =
        some (none, 2, 107) := by decide +kernel
  obtain ⟨c, hc, heq⟩ := Option.map_eq_some_iff.mp hrun
  obtain ⟨hcrashed, hmade, hwritten⟩ : _ ∧ _ ∧ _ := by simpa only [Prod.mk.injEq] using heq
  exact ⟨c, hc, hwritten, main_page (Machine.reach_of_run _ ⟨false, [true], rfl⟩ hc) hcrashed
    ⟨Nat.le_refl 1, by rw [hmade]; decide⟩ List.prefix_rfl⟩

/-- **A file is served whole**, however its name is percent-encoded, however the request is cut in pieces and
whatever other connections there are: a client that asks for a file gets its content and its type, or nothing. -/
theorem static_file_served {s : StaticFileServer} {disk : Files → Prop}
    {line encoded path head rest content : List Byte} {m : Method} {v : Version}
    (hline : RequestLine line m encoded v) (hends : Line line) (hquery : HttpContext.QUESTION ∉ encoded)
    (hencodes : Encodes encoded path) (hup : ¬ [DOT, DOT] <:+: path) (hsection : HttpContext.HeaderSection head)
    (hfile : ∀ files, disk files → files (s.filePath path) = some (.content content))
    (h : (Service.machine (application true) τ).Reach (Service.each (HttpSession.Answers (s.httpCallback disk))) c)
    (hc : c.crashed = none) {i : Nat} (hi : c.st.server.Created i)
    (hstream : (c.st.sessions i).stream = ended line ++ (head ++ rest)) :
    (c.st.sessions i).conn.state ≠ .kConnected ∧ ∀ p, p <+: written (c.st.sessions i).conn.trace →
      readAll p = [] ∨ readAll p = [StaticFileServer.fileResponse (s.filePath path) content] := by
  obtain ⟨hgot, hpath⟩ := firstRequest hline hends hsection rest
  rw [← hstream] at hgot hpath
  have hcloses : AlwaysCloses (s.httpCallback disk) := fun request response hF =>
    (StaticFileServer.httpCallback_readable request response hF).2
  refine ⟨fun hopen => ?_, fun p hp => ?_⟩
  · cases session_outcome hcloses h hc hi with
    | silent _ _ hwaits => cases hgot.symm.trans (hwaits hopen).1
    | refused _ _ hdown _ => exact hdown hopen
    | answered _ _ _ hdown _ _ => exact hdown hopen
  · have hreadable : ∀ request response, s.httpCallback disk request response → Readable response :=
      fun request response hF => (StaticFileServer.httpCallback_readable request response hF).1
    rcases client_of_closing hreadable hcloses h hc hi hp with hnone | ⟨response, -, ⟨files, hdisk, hF⟩, hread⟩
    · exact .inl hnone
    · refine .inr ?_
      rw [hread]
      have hdecode : StaticFileServer.urlDecode encoded = some path := by
        rw [(StaticFileServer.urlDecode_iff encoded).mpr hencodes.wellEscaped, hencodes.percentDecode]
      have hnotUp : StaticFileServer.hasDotDot path = false := by
        rw [← Bool.not_eq_true, StaticFileServer.hasDotDot_iff]
        exact hup
      rw [(HttpContext.pathOf_all hquery).1] at hpath
      rw [← hpath] at hdecode
      rw [StaticFileServer.onRequest_file hdecode hnotUp (hfile files hdisk) hF]

def cssFiles : Files := fun path => if path = ascii "/srv/a.css".toList then some (.content [97]) else none

def cssRequest : List Byte := ascii "GET /a%2Ecss HTTP/1.1\r\n\r\n".toList

def cssResponse : HttpResponse :=
  { (HttpResponse.new true).setContentType (ascii "text/css".toList) with
    statusCode := .k200Ok
    statusMessage := ascii "OK".toList
    body := [97] }

instance (s : StaticFileServer) (files : Files) (request : HttpRequest) (response : HttpResponse) :
    Decidable (s.httpCallback (fun files' => files' = files) request response) :=
  decidable_of_iff ((s.onRequest files request (.new true)).response = some response) (by
    simp [StaticFileServer.httpCallback])

/-- `/a%2Ecss` is `/srv/a.css`. -/
theorem static_file_served_css :
    ∃ c, (Service.machine (application true) Bool).Reach (Service.each (HttpSession.Answers
        ((StaticFileServer.mk (ascii "/srv".toList)).httpCallback fun files => files = cssFiles))) c ∧
      (written (c.st.sessions 1).conn.trace).length = 82 ∧
      ((c.st.sessions 1).conn.state ≠ .kConnected ∧ ∀ p, p <+: written (c.st.sessions 1).conn.trace →
        readAll p = [] ∨ readAll p = [StaticFileServer.fileResponse (ascii "/srv/a.css".toList) [97]]) := by
  have hrun : ((Service.machine (application true) Bool).system.run
      ((Service.machine (application true) Bool).Meets (Service.each (HttpSession.Answers
        ((StaticFileServer.mk (ascii "/srv".toList)).httpCallback fun files => files = cssFiles))))
      (.initial (Service.new _ false [true]))
      [.start (.accept [5] .EAGAIN) [], .start (.functor true) [],
        .start (.event true 1 kReadEvent) [.sys (.bytes cssRequest), .response cssResponse, .sys (.count 82)]]).map
      (fun c => (c.crashed, c.st.server.nextConnId, (written (c.st.sessions 1).conn.trace).length,
        (c.st.sessions 1).stream)) = some (none, 2, 82, cssRequest) := by decide +kernel
  obtain ⟨c, hc, heq⟩ := Option.map_eq_some_iff.mp hrun
  obtain ⟨hcrashed, hmade, hwritten, hstream⟩ : _ ∧ _ ∧ _ ∧ _ := by simpa only [Prod.mk.injEq] using heq
  have hreach := (Service.machine (application true) Bool).reach_of_run ⟨false, [true], rfl⟩ hc
  have hparts : cssRequest = ended (ascii "GET /a%2Ecss HTTP/1.1".toList) ++ (ended [] ++ []) := by decide
  have hencodes : Encodes (ascii "/a%2Ecss".toList) (ascii "/a.css".toList) :=
    .literal (by decide) (by decide) <| .literal (by decide) (by decide) <|
      @Encodes.escape 50 69 46 2 14 _ _ (by decide) (by decide) (by decide) <|
      .literal (by decide) (by decide) <| .literal (by decide) (by decide) <|
      .literal (by decide) (by decide) .nil
  refine ⟨c, hreach, hwritten, static_file_served (.mk .get (by decide) .http11) (by decide) (by decide)
    hencodes ?_ ⟨[], by simp, rfl⟩ ?_ hreach hcrashed ⟨Nat.le_refl 1, by rw [hmade]; decide⟩
    (hstream.trans hparts)⟩
  · rw [← StaticFileServer.hasDotDot_iff]
    decide
  · rintro _ rfl
    decide

end HttpServer

end Agora
