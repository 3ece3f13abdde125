import SentinelHub.Dashboard.Events
import SentinelHub.Dashboard.StaticFiles

/-!
# The HTTP handler

`handle_http_request` reads a request line, header lines and, at two paths, a
body, and answers.  The bytes of a request are any bytes, which can end at any
place; writing does not fail.  What the module leaves open are the tables of
Unicode, the JSON parser, and the files.
-/

namespace SentinelHub.Dashboard

open Support Broker

/-! ## Lines -/

/-- What `reader.readline()` returns one after the other: lines with their line
ends, and at last what is left. -/
def splitLines : Bytes → List Bytes
  | [] => []
  | b :: stream =>
      if b = 0x0A then [b] :: splitLines stream
      else
        match splitLines stream with
        | [] => [[b]]
        | line :: lines => (b :: line) :: lines

theorem flatten_splitLines (stream : Bytes) :
    (splitLines stream).flatten = stream := by
  induction stream with
  | nil => rfl
  | cons b stream ih =>
      rw [splitLines]
      split
      · rw [List.flatten_cons, ih, List.singleton_append]
      · split
        next hnil =>
          rw [hnil] at ih
          rw [List.flatten_singleton, ← ih, List.flatten_nil]
        next line lines hlines =>
          rw [hlines, List.flatten_cons] at ih
          rw [List.flatten_cons, List.cons_append, ih]

/-- `b"\r\n"`. -/
def crlf : Bytes := [0x0D, 0x0A]

/-- The default limit of a stream reader. -/
def lineLimit : ℕ := 65536

/-- The exceptions that can leave the handler. -/
inductive HttpError
  | valueError
  | unicodeDecodeError
  | incompleteReadError
  deriving DecidableEq, Repr

/-- The line is too long for `readline`. -/
def TooLong (line : Bytes) : Prop :=
  lineLimit < (line.takeWhile (· ≠ 0x0A)).length

instance (line : Bytes) : Decidable (TooLong line) :=
  inferInstanceAs (Decidable (_ < _))

/-! ## Integers in a text -/

/-- What `int` makes of a character first. -/
def toAscii (decimal : Char → Option ℕ) (c : Char) : Char :=
  if c.toNat < 127 then c
  else if Client.isSpace c then ' '
  else
    match decimal c with
    | some d => Char.ofNat (48 + d)
    | none => '?'

/-- The characters that C calls space. -/
def isCSpace (c : Char) : Bool :=
  (9 ≤ c.toNat && c.toNat ≤ 13) || c.toNat = 32

/-- `sys.get_int_max_str_digits()`. -/
def maxStrDigits : ℕ := 4300

/-- `int(text)`, or `none` for `ValueError`: a sign, and digits with single
underscores between them.  `decimal` is the decimal value of a character. -/
def pyInt (decimal : Char → Option ℕ) (text : List Char) : Option ℤ :=
  let text := (text.map (toAscii decimal)).dropWhile isCSpace
  let text := (text.reverse.dropWhile isCSpace).reverse
  let (sign, digits) : ℤ × List Char :=
    match text with
    | '-' :: digits => (-1, digits)
    | '+' :: digits => (1, digits)
    | digits => (1, digits)
  let groups := digits.splitOn '_'
  if groups.all fun group => !group.isEmpty && group.all Char.isDigit then
    let digits := groups.flatten
    if maxStrDigits < digits.length then none
    else
      some (sign *
        digits.foldl (fun n c => 10 * n + (c.toNat - 48 : ℕ)) (0 : ℕ))
  else none

example : pyInt (fun _ => none) " -1_024\n".toList = some (-1024) := by
  decide +kernel

/-- `int(value)`, or `none` where it raises. -/
def intOf (decimal : Char → Option ℕ) : Json → Option ℤ
  | .int value => some value
  | .bool value => some (if value then 1 else 0)
  | .float (.finite value) => some (value.num.tdiv value.den)
  | .str text => pyInt decimal text
  | _ => none

/-! ## The request -/

/-- What the handler depends on: `netlocOk` for `urlparse`, the decimal values
of characters, `json.loads` with `none` where it raises, and the files. -/
structure HttpEnv where
  netlocOk : List Char → Bool
  decimal : Char → Option ℕ
  loads : List Char → Option Json
  staticDir : List Char
  tree : Node

/-- The value of a `Content-Length` header.  Beyond ASCII no letter becomes one
of its letters in lower case. -/
def contentLengthText (line : Bytes) : Option (List Char) := do
  let text ← Utf8.decode line
  let header := (Client.strip text).map Char.toLower
  if "content-length:".toList.isPrefixOf header then
    some (Client.strip ((header.splitOn ':').getD 1 []))
  else none

/-- The header loop: `content_length`, and the lines that are left. -/
def readHeaders (env : HttpEnv) :
    List Bytes → ℤ → Except HttpError (ℤ × List Bytes)
  | [], contentLength => .ok (contentLength, [])
  | line :: lines, contentLength =>
      if TooLong line then .error .valueError
      else if line = crlf then .ok (contentLength, lines)
      else
        match Utf8.decode line with
        | none => .error .unicodeDecodeError
        | some _ =>
            match contentLengthText line with
            | none => readHeaders env lines contentLength
            | some text =>
                match pyInt env.decimal text with
                | none => .error .valueError
                | some contentLength => readHeaders env lines contentLength

/-- `await reader.readexactly(content_length) if content_length else b""`. -/
def readBody (contentLength : ℤ) (rest : Bytes) : Except HttpError Bytes :=
  if contentLength = 0 then .ok []
  else if contentLength < 0 then .error .valueError
  else if rest.length < contentLength then .error .incompleteReadError
  else .ok (rest.take contentLength.toNat)

/-! ## The answer -/

/-- A piece of what is written; line ends are left out. -/
inductive Chunk
  | statusLine (text : String)
  | field (name value : String)
  | endOfHeaders
  | content (data : Bytes)
  deriving DecidableEq, Repr

/-- The coroutines that are handed to `asyncio.create_task`. -/
inductive HttpTask
  | simulateBurst
  | simulateDevice (device : Json)
  | triggerTimeTravel (offset : ℤ)
  deriving Repr

/-- The handler returns, an exception leaves it, or it goes on with the events
of a browser. -/
inductive HttpOutcome
  | returned
  | raised (e : HttpError)
  | streaming
  deriving DecidableEq, Repr

structure HttpRun where
  written : List Chunk
  tasks : List HttpTask
  closed : Bool
  outcome : HttpOutcome
  deriving Repr

/-- Write, close the writer and return. -/
def answer (written : List Chunk) (tasks : List HttpTask) : HttpRun where
  written := written
  tasks := tasks
  closed := true
  outcome := .returned

/-- An exception before anything is written. -/
def raising (e : HttpError) : HttpRun where
  written := []
  tasks := []
  closed := false
  outcome := .raised e

def badRequest : List Chunk :=
  [.statusLine "HTTP/1.1 400 Bad Request", .endOfHeaders]

/-- `{"status":"ok"}`. -/
def okBody : Bytes :=
  utf8Bytes "\x7b\"status\":\"ok\"\x7d"

def okResponse : List Chunk :=
  [.statusLine "HTTP/1.1 200 OK", .field "Content-Type" "application/json",
    .field "Access-Control-Allow-Origin" "*",
    .field "Content-Length" (toString okBody.length), .endOfHeaders,
    .content okBody]

/-- The `try` block of `/api/simulate`. -/
def simulate (env : HttpEnv) (body : Bytes) : HttpRun :=
  match (Utf8.decode body).bind env.loads with
  | some (.dict items) =>
      let device :=
        (items.lookup "device".toList).getD (.str "temperature".toList)
      let task : HttpTask :=
        match device with
        | .str text =>
            if text = "burst".toList then .simulateBurst
            else .simulateDevice device
        | _ => .simulateDevice device
      answer okResponse [task]
  | _ => answer badRequest []

/-- The `try` block of `/api/time-travel`. -/
def timeTravel (env : HttpEnv) (body : Bytes) : HttpRun :=
  match (Utf8.decode body).bind env.loads with
  | some (.dict items) =>
      match intOf env.decimal
          ((items.lookup "offset".toList).getD (.int 0)) with
      | some offset => answer okResponse [.triggerTimeTravel offset]
      | none => answer badRequest []
  | _ => answer badRequest []

/-- What the static branch writes. -/
def staticChunks : StaticAnswer → List Chunk
  | .notFound => [.statusLine "HTTP/1.1 404 Not Found", .endOfHeaders]
  | .serverError =>
      [.statusLine "HTTP/1.1 500 Internal Server Error", .endOfHeaders]
  | .found _ ctype content =>
      [.statusLine "HTTP/1.1 200 OK", .field "Content-Type" ctype,
        .field "Cache-Control" "no-store", .field "Connection" "close",
        .field "Content-Length" (toString content.length), .endOfHeaders,
        .content content]

/-- The head of an event stream. -/
def streamHead : List Chunk :=
  [.statusLine "HTTP/1.1 200 OK", .field "Content-Type" "text/event-stream",
    .field "Cache-Control" "no-cache", .field "Connection" "keep-alive",
    .field "Access-Control-Allow-Origin" "*", .endOfHeaders]

/-- The answer to a preflight request. -/
def preflight : List Chunk :=
  [.statusLine "HTTP/1.1 204 No Content",
    .field "Access-Control-Allow-Origin" "*",
    .field "Access-Control-Allow-Methods" "GET, POST, OPTIONS",
    .field "Access-Control-Allow-Headers" "Content-Type", .endOfHeaders]

/-- Behind the headers. -/
def respond (env : HttpEnv) (method url : List Char) (contentLength : ℤ)
    (rest : Bytes) : HttpRun :=
  if method = "GET".toList ∧ url = "/stream".toList then
    { written := streamHead, tasks := [], closed := false,
      outcome := .streaming }
  else if method = "POST".toList ∧ url = "/api/simulate".toList then
    match readBody contentLength rest with
    | .error e => raising e
    | .ok body => simulate env body
  else if method = "POST".toList ∧ url = "/api/time-travel".toList then
    match readBody contentLength rest with
    | .error e => raising e
    | .ok body => timeTravel env body
  else if method = "OPTIONS".toList then answer preflight []
  else answer (staticChunks (serveStatic env.staticDir env.tree url)) []

/-- `handle_http_request`. -/
def handleHttpRequest (env : HttpEnv) (stream : Bytes) : HttpRun :=
  match splitLines stream with
  | [] => answer [] []
  | line :: lines =>
      if TooLong line then raising .valueError
      else
        match Utf8.decode line with
        | none => raising .unicodeDecodeError
        | some text =>
            match (Client.strip text).splitOn ' ' with
            | method :: path :: _ =>
                match readHeaders env lines 0 with
                | .error e => raising e
                | .ok (contentLength, lines) =>
                    match urlPath env.netlocOk path with
                    | none => raising .valueError
                    | some url =>
                        respond env method url contentLength lines.flatten
            | _ => answer [] []

/-! ## Requests -/

def requestLine (stream : Bytes) : Bytes :=
  (splitLines stream).headD []

/-- The parts of the request line between spaces. -/
def requestParts (stream : Bytes) : List (List Char) :=
  (Client.strip (Utf8.decodeReplace (requestLine stream))).splitOn ' '

def requestMethod (stream : Bytes) : List Char :=
  (requestParts stream).getD 0 []

def requestUrl (env : HttpEnv) (stream : Bytes) : Option (List Char) :=
  urlPath env.netlocOk ((requestParts stream).getD 1 [])

/-- The lines behind the request line up to an empty one. -/
def headerLines (stream : Bytes) : List Bytes :=
  (splitLines stream).tail.takeWhile (· ≠ crlf)

/-- What is behind the header lines. -/
def bodyBytes (stream : Bytes) : Bytes :=
  ((splitLines stream).tail.dropWhile (· ≠ crlf)).tail.flatten

/-- The line is short enough, and is UTF-8. -/
def Readable (line : Bytes) : Prop :=
  ¬TooLong line ∧ (Utf8.decode line).isSome

/-- The lines can be read, and every `Content-Length` among them is an
integer. -/
def HeadersOk (env : HttpEnv) (lines : List Bytes) : Prop :=
  ∀ line ∈ lines, Readable line ∧ ∀ text, contentLengthText line = some text →
    (pyInt env.decimal text).isSome

/-- The last `Content-Length`, or zero. -/
def announcedFrom (env : HttpEnv) (contentLength : ℤ) (lines : List Bytes) :
    ℤ :=
  lines.foldl (fun n line =>
    ((contentLengthText line).bind (pyInt env.decimal)).getD n) contentLength

def announced (env : HttpEnv) (stream : Bytes) : ℤ :=
  announcedFrom env 0 (headerLines stream)

/-- One of the two paths at which a body is read. -/
def IsPostEndpoint (method url : List Char) : Prop :=
  method = "POST".toList ∧
    (url = "/api/simulate".toList ∨ url = "/api/time-travel".toList)

/-- The body is complete. -/
def BodyComplete (env : HttpEnv) (stream : Bytes) : Prop :=
  0 ≤ announced env stream ∧
    announced env stream ≤ (bodyBytes stream).length

/-- The body is a JSON object, whose offset is an integer if it is to have
one. -/
def BodyOk (env : HttpEnv) (url : List Char) (body : Bytes) : Prop :=
  ∃ text items, Utf8.decode body = some text ∧
    env.loads text = some (.dict items) ∧
      (url = "/api/time-travel".toList →
        (intOf env.decimal
          ((items.lookup "offset".toList).getD (.int 0))).isSome)

/-- The request can be read as far as its answer needs it. -/
structure RequestOk (env : HttpEnv) (stream : Bytes) : Prop where
  line : Readable (requestLine stream)
  headers : HeadersOk env (headerLines stream)
  url : ∃ url, requestUrl env stream = some url ∧
    (IsPostEndpoint (requestMethod stream) url → BodyComplete env stream)

/-- The headers or the body of a request to one of the two paths are
malformed. -/
def Malformed (env : HttpEnv) (stream : Bytes) : Prop :=
  ∃ url, requestUrl env stream = some url ∧
    IsPostEndpoint (requestMethod stream) url ∧
      (¬HeadersOk env (headerLines stream) ∨ ¬BodyComplete env stream ∨
        ¬BodyOk env url
          ((bodyBytes stream).take (announced env stream).toNat))

def Chunk.isStatusLine : Chunk → Bool
  | .statusLine _ => true
  | _ => false

/-- One status line is written, the writer is closed, and no exception leaves
the handler. -/
structure AnsweredOnce (run : HttpRun) : Prop where
  outcome : run.outcome = .returned
  statusLine : run.written.countP Chunk.isStatusLine = 1
  closed : run.closed = true

/-! ## What the handler does -/

variable {env : HttpEnv} {stream rest body : Bytes} {line : Bytes}
  {lines : List Bytes} {method url : List Char} {n : ℤ}

theorem readHeaders_eq
    (h : HeadersOk env (lines.takeWhile (· ≠ crlf))) (n : ℤ) :
    readHeaders env lines n =
      .ok (announcedFrom env n (lines.takeWhile (· ≠ crlf)),
        (lines.dropWhile (· ≠ crlf)).tail) := by
  induction lines generalizing n with
  | nil => rfl
  | cons line lines ih =>
      by_cases hend : line = crlf
      · have hshort : ¬TooLong crlf := by decide
        rw [hend, readHeaders, if_neg hshort, if_pos rfl,
          List.takeWhile_cons_of_neg (by simp),
          List.dropWhile_cons_of_neg (by simp)]
        rfl
      · rw [List.takeWhile_cons_of_pos (by simpa using hend)] at h ⊢
        rw [List.dropWhile_cons_of_pos (by simpa using hend)]
        obtain ⟨⟨hshort, htext⟩, hlength⟩ := h line List.mem_cons_self
        have hrest : HeadersOk env (lines.takeWhile (· ≠ crlf)) :=
          fun line' hline' => h line' (List.mem_cons_of_mem _ hline')
        obtain ⟨text, htext⟩ := Option.isSome_iff_exists.mp htext
        rw [readHeaders, if_neg hshort, if_neg hend, htext, announcedFrom,
          List.foldl_cons]
        dsimp only
        cases hfield : contentLengthText line with
        | none => exact ih hrest n
        | some value =>
            obtain ⟨m, hm⟩ :=
              Option.isSome_iff_exists.mp (hlength value hfield)
            simp only [hm, Option.bind_some, Option.getD_some]
            exact ih hrest m

theorem readHeaders_error
    (h : ¬HeadersOk env (lines.takeWhile (· ≠ crlf))) (n : ℤ) :
    ∃ e, readHeaders env lines n = .error e := by
  induction lines generalizing n with
  | nil => exact absurd (fun line hline => by cases hline) h
  | cons line lines ih =>
      rw [readHeaders]
      split
      · exact ⟨_, rfl⟩
      next hshort =>
        split
        next hend =>
          rw [List.takeWhile_cons_of_neg (by simpa using hend)] at h
          exact absurd (fun line hline => by cases hline) h
        next hend =>
          rw [List.takeWhile_cons_of_pos (by simpa using hend)] at h
          have hrest : Readable line → (∀ value,
              contentLengthText line = some value →
                (pyInt env.decimal value).isSome) →
              ¬HeadersOk env (lines.takeWhile (· ≠ crlf)) := by
            intro hline hlength hrest
            refine h fun line' hline' => ?_
            rcases List.mem_cons.mp hline' with rfl | hline'
            · exact ⟨hline, hlength⟩
            · exact hrest line' hline'
          split
          · exact ⟨_, rfl⟩
          next text htext =>
            have hline : Readable line := ⟨hshort, by rw [htext]; rfl⟩
            split
            next hfield =>
              exact ih (hrest hline fun value hvalue => by
                rw [hfield] at hvalue
                cases hvalue) n
            next value hfield =>
              split
              · exact ⟨_, rfl⟩
              next m hm =>
                refine ih (hrest hline fun value' hvalue' => ?_) m
                rw [hfield] at hvalue'
                cases hvalue'
                rw [hm]
                rfl

theorem answeredOnce_answer {written : List Chunk} {tasks : List HttpTask}
    (h : written.countP Chunk.isStatusLine = 1) :
    AnsweredOnce (answer written tasks) :=
  ⟨rfl, h, rfl⟩

theorem not_answeredOnce_raising (e : HttpError) :
    ¬AnsweredOnce (raising e) := by
  intro h
  cases h.outcome

theorem readBody_eq (hnonneg : 0 ≤ n) (hle : n ≤ rest.length) :
    readBody n rest = .ok (rest.take n.toNat) := by
  rw [readBody]
  by_cases hzero : n = 0
  · rw [if_pos hzero, hzero]
    rfl
  · rw [if_neg hzero, if_neg (by omega), if_neg (by omega)]

theorem readBody_error (h : ¬(0 ≤ n ∧ n ≤ rest.length)) :
    ∃ e, readBody n rest = .error e := by
  have hzero : n ≠ 0 := by omega
  rw [readBody, if_neg hzero]
  by_cases hneg : n < 0
  · exact ⟨_, if_pos hneg⟩
  · rw [if_neg hneg]
    exact ⟨_, if_pos (by omega)⟩

theorem answeredOnce_simulate (env : HttpEnv) (body : Bytes) :
    AnsweredOnce (simulate env body) := by
  rw [simulate]
  split
  · exact answeredOnce_answer (by decide)
  · exact answeredOnce_answer (by decide)

theorem answeredOnce_timeTravel (env : HttpEnv) (body : Bytes) :
    AnsweredOnce (timeTravel env body) := by
  rw [timeTravel]
  split
  · split
    · exact answeredOnce_answer (by decide)
    · exact answeredOnce_answer (by decide)
  · exact answeredOnce_answer (by decide)

theorem simulate_of_not_bodyOk
    (h : ¬BodyOk env "/api/simulate".toList body) :
    simulate env body = answer badRequest [] := by
  rw [simulate]
  split
  next items hitems =>
    obtain ⟨text, htext, hloads⟩ := Option.bind_eq_some_iff.mp hitems
    exact absurd ⟨text, items, htext, hloads, fun hne => absurd hne (by decide)⟩
      h
  · rfl

theorem timeTravel_of_not_bodyOk
    (h : ¬BodyOk env "/api/time-travel".toList body) :
    timeTravel env body = answer badRequest [] := by
  rw [timeTravel]
  split
  next items hitems =>
    obtain ⟨text, htext, hloads⟩ := Option.bind_eq_some_iff.mp hitems
    split
    next offset hoffset =>
      refine absurd ⟨text, items, htext, hloads, fun _ => ?_⟩ h
      rw [hoffset]
      rfl
    · rfl
  · rfl

theorem answeredOnce_static (answered : StaticAnswer) :
    AnsweredOnce (answer (staticChunks answered) []) := by
  cases answered with
  | notFound => exact answeredOnce_answer rfl
  | serverError => exact answeredOnce_answer rfl
  | found filepath ctype content => exact answeredOnce_answer rfl

/-- What the two endpoints do with a body that can be read. -/
theorem respond_post (hpost : IsPostEndpoint method url)
    (hnonneg : 0 ≤ n) (hle : n ≤ rest.length) :
    respond env method url n rest =
      if url = "/api/simulate".toList then simulate env (rest.take n.toNat)
      else timeTravel env (rest.take n.toNat) := by
  have hbody := readBody_eq hnonneg hle
  obtain ⟨rfl, rfl | rfl⟩ := hpost
  · rw [respond, if_neg (by decide), if_pos (by decide), hbody,
      if_pos rfl]
  · rw [respond, if_neg (by decide), if_neg (by decide), if_pos (by decide),
      hbody, if_neg (by decide)]

/-- A malformed body is answered with the status 400. -/
theorem dispatch_of_not_bodyOk (hpost : IsPostEndpoint method url)
    (h : ¬BodyOk env url body) :
    (if url = "/api/simulate".toList then simulate env body
      else timeTravel env body) = answer badRequest [] := by
  obtain ⟨-, rfl | rfl⟩ := hpost
  · rw [if_pos rfl, simulate_of_not_bodyOk h]
  · rw [if_neg (by decide), timeTravel_of_not_bodyOk h]

theorem respond_post_raises (hpost : IsPostEndpoint method url)
    (h : ¬(0 ≤ n ∧ n ≤ rest.length)) :
    ∃ e, respond env method url n rest = raising e := by
  obtain ⟨e, hbody⟩ := readBody_error h
  refine ⟨e, ?_⟩
  obtain ⟨rfl, rfl | rfl⟩ := hpost
  · rw [respond, if_neg (by decide), if_pos (by decide), hbody]
  · rw [respond, if_neg (by decide), if_neg (by decide), if_pos (by decide),
      hbody]

theorem answeredOnce_respond
    (hstream : ¬(method = "GET".toList ∧ url = "/stream".toList))
    (hbody : IsPostEndpoint method url → 0 ≤ n ∧ n ≤ rest.length) :
    AnsweredOnce (respond env method url n rest) := by
  by_cases hpost : IsPostEndpoint method url
  · obtain ⟨hnonneg, hle⟩ := hbody hpost
    rw [respond_post hpost hnonneg hle]
    split
    · exact answeredOnce_simulate env _
    · exact answeredOnce_timeTravel env _
  · have hsimulate : ¬(method = "POST".toList ∧
        url = "/api/simulate".toList) :=
      fun h => hpost ⟨h.1, Or.inl h.2⟩
    have htravel : ¬(method = "POST".toList ∧
        url = "/api/time-travel".toList) :=
      fun h => hpost ⟨h.1, Or.inr h.2⟩
    rw [respond, if_neg hstream, if_neg hsimulate, if_neg htravel]
    split
    · exact answeredOnce_answer (by decide)
    · exact answeredOnce_static _

theorem requestLine_ne_nil (hparts : 2 ≤ (requestParts stream).length) :
    splitLines stream ≠ [] := by
  intro hnil
  rw [requestParts, requestLine, hnil] at hparts
  exact absurd hparts (by decide)

/-- The handler behind a request line that it can read. -/
theorem handleHttpRequest_readable (env : HttpEnv)
    (hparts : 2 ≤ (requestParts stream).length)
    (hline : Readable (requestLine stream)) :
    handleHttpRequest env stream =
      match readHeaders env (splitLines stream).tail 0 with
      | .error e => raising e
      | .ok (contentLength, lines) =>
          match requestUrl env stream with
          | none => raising .valueError
          | some url =>
              respond env (requestMethod stream) url contentLength
                lines.flatten := by
  obtain ⟨line, lines, hlines⟩ :=
    List.exists_cons_of_ne_nil (requestLine_ne_nil hparts)
  obtain ⟨hshort, hdecode⟩ := hline
  have hfirst : requestLine stream = line := by
    rw [requestLine, hlines, List.headD_cons]
  rw [hfirst] at hshort hdecode
  obtain ⟨text, htext⟩ := Option.isSome_iff_exists.mp hdecode
  have hsplit : requestParts stream = (Client.strip text).splitOn ' ' := by
    rw [requestParts, hfirst, Utf8.decodeReplace_of_decode htext]
  obtain ⟨method, path, more, hcons⟩ : ∃ method path more,
      (Client.strip text).splitOn ' ' = method :: path :: more := by
    rw [hsplit] at hparts
    match hmatch : (Client.strip text).splitOn ' ', hparts with
    | method :: path :: more, _ => exact ⟨method, path, more, rfl⟩
  rw [handleHttpRequest, hlines]
  simp only [if_neg hshort, htext, hcons, List.tail_cons]
  rw [requestMethod, requestUrl, hsplit, hcons]
  rfl

theorem handleHttpRequest_not_readable (env : HttpEnv)
    (hparts : 2 ≤ (requestParts stream).length)
    (hline : ¬Readable (requestLine stream)) :
    ∃ e, handleHttpRequest env stream = raising e := by
  obtain ⟨line, lines, hlines⟩ :=
    List.exists_cons_of_ne_nil (requestLine_ne_nil hparts)
  rw [requestLine, hlines, List.headD_cons] at hline
  rw [handleHttpRequest, hlines]
  dsimp only
  split
  · exact ⟨_, rfl⟩
  next hshort =>
    split
    · exact ⟨_, rfl⟩
    next text htext =>
      exact absurd ⟨hshort, by rw [htext]; rfl⟩ hline

/-- Behind headers that can be read, all depends on the body. -/
theorem answered_respond_iff (hheaders : HeadersOk env (headerLines stream))
    (hurl : requestUrl env stream = some url)
    (hstream : ¬(requestMethod stream = "GET".toList ∧
      url = "/stream".toList)) :
    (AnsweredOnce (respond env (requestMethod stream) url
        (announced env stream) (bodyBytes stream)) ∧
      (Malformed env stream →
        .statusLine "HTTP/1.1 400 Bad Request" ∈
          (respond env (requestMethod stream) url (announced env stream)
            (bodyBytes stream)).written)) ↔
      (IsPostEndpoint (requestMethod stream) url →
        BodyComplete env stream) := by
  constructor
  · rintro ⟨honce, -⟩ hpost
    by_contra hshort
    obtain ⟨e, hraises⟩ : ∃ e, respond env (requestMethod stream) url
        (announced env stream) (bodyBytes stream) = raising e :=
      respond_post_raises hpost hshort
    rw [hraises] at honce
    exact not_answeredOnce_raising e honce
  · intro hbody
    refine ⟨answeredOnce_respond hstream hbody, ?_⟩
    rintro ⟨url', hurl', hpost, hbad⟩
    rw [hurl] at hurl'
    cases hurl'
    obtain ⟨hnonneg, hle⟩ := hbody hpost
    have hnotBodyOk := (hbad.resolve_left (not_not_intro hheaders)).resolve_left
      (not_not_intro ⟨hnonneg, hle⟩)
    rw [respond_post hpost hnonneg hle,
      dispatch_of_not_bodyOk hpost hnotBodyOk]
    exact List.mem_cons_self

/-- A request is answered with one status line and a closed connection, and with
the status 400 if it is malformed and for one of the two endpoints, exactly when
its request line and its headers can be read, its path has no malformed host,
and, at the two endpoints, its body is as long as announced. -/
theorem http_answered_once_iff
    (hparts : 2 ≤ (requestParts stream).length)
    (hstream : ¬(requestMethod stream = "GET".toList ∧
      requestUrl env stream = some "/stream".toList)) :
    (AnsweredOnce (handleHttpRequest env stream) ∧
      (Malformed env stream →
        .statusLine "HTTP/1.1 400 Bad Request" ∈
          (handleHttpRequest env stream).written)) ↔
      RequestOk env stream := by
  have hraised : ∀ e, handleHttpRequest env stream = raising e →
      ¬(AnsweredOnce (handleHttpRequest env stream) ∧
        (Malformed env stream →
          .statusLine "HTTP/1.1 400 Bad Request" ∈
            (handleHttpRequest env stream).written)) := by
    intro e hraises h
    rw [hraises] at h
    exact not_answeredOnce_raising e h.1
  by_cases hline : Readable (requestLine stream)
  · have hhandle := handleHttpRequest_readable env hparts hline
    by_cases hheaders : HeadersOk env (headerLines stream)
    · rw [readHeaders_eq hheaders 0] at hhandle
      cases hurl : requestUrl env stream with
      | none =>
          rw [hurl] at hhandle
          refine iff_of_false (hraised _ hhandle) ?_
          rintro ⟨-, -, url, hsome, -⟩
          rw [hurl] at hsome
          cases hsome
      | some url =>
          rw [hurl] at hhandle
          have hrespond : handleHttpRequest env stream =
              respond env (requestMethod stream) url (announced env stream)
                (bodyBytes stream) :=
            hhandle
          rw [hurl, Option.some.injEq] at hstream
          rw [hrespond, answered_respond_iff hheaders hurl hstream]
          constructor
          · exact fun hbody => ⟨hline, hheaders, url, hurl, hbody⟩
          · rintro ⟨-, -, url', hurl', hbody⟩
            rw [hurl] at hurl'
            cases hurl'
            exact hbody
    · obtain ⟨e, hraises⟩ := readHeaders_error hheaders 0
      rw [hraises] at hhandle
      exact iff_of_false (hraised e hhandle) fun h => hheaders h.headers
  · obtain ⟨e, hraises⟩ := handleHttpRequest_not_readable env hparts hline
    exact iff_of_false (hraised e hraises) fun h => hline h.line

/-- No files, and no JSON text. -/
def bareEnv : HttpEnv where
  netlocOk := fun _ => true
  decimal := fun _ => none
  loads := fun _ => none
  staticDir := "/srv".toList
  tree := .dir []

/-- A body that is not JSON. -/
theorem http_answered_once_iff_bad_body :
    let stream := utf8Bytes
      "POST /api/time-travel HTTP/1.1\r\nContent-Length: 1\r\n\r\nx"
    (handleHttpRequest bareEnv stream).written = badRequest ∧
    ((AnsweredOnce (handleHttpRequest bareEnv stream) ∧
      (Malformed bareEnv stream →
        .statusLine "HTTP/1.1 400 Bad Request" ∈
          (handleHttpRequest bareEnv stream).written)) ↔
      RequestOk bareEnv stream) :=
  ⟨by decide +kernel,
    http_answered_once_iff (by decide +kernel) (by decide +kernel)⟩

/-- A length that is not a number: nothing is written, and the exception leaves
the handler. -/
theorem bad_content_length_escapes :
    let stream := utf8Bytes
      "POST /api/simulate HTTP/1.1\r\nContent-Length: abc\r\n\r\n"
    2 ≤ (requestParts stream).length ∧
    requestMethod stream ≠ "GET".toList ∧
    (handleHttpRequest bareEnv stream).outcome = .raised .valueError ∧
    (handleHttpRequest bareEnv stream).written = [] ∧
    ¬AnsweredOnce (handleHttpRequest bareEnv stream) := by
  intro stream
  have houtcome : (handleHttpRequest bareEnv stream).outcome =
      .raised .valueError := by
    decide +kernel
  refine ⟨by decide +kernel, by decide +kernel, houtcome, by decide +kernel, ?_⟩
  intro h
  rw [h.outcome] at houtcome
  cases houtcome

end SentinelHub.Dashboard
