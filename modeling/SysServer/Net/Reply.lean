import Mathlib.Data.List.Forall2
import SysServer.Net.Request

/-!
# The reply to a request

`read_file` puts the content of the requested file in the global `filedata`, and
`evhttp_request_handler` prints it into the reply as a string. Requests are handled one after
another by the one thread of the HTTP server, each over the file system as it finds it.
-/

namespace SysServer.Net

open Library

/-- What `stat`, `fopen` and `fread` find at a path. -/
inductive Entry where
  /-- `stat` fails. -/
  | missing
  /-- `stat` succeeds and `fopen` fails. -/
  | refused
  /-- The file opens, but reading its bytes fails, as for a directory. -/
  | unreadable (size : ℕ)
  /-- The file is read whole: `st_size` is the length of its content, which does not hold of
  entries such as those of `/proc`. -/
  | file (content : List UInt8)

/-- A request, with the file system as it is while the request is handled. -/
structure Request where
  /-- The URI. -/
  uri : Cstring
  /-- What is found at each path. -/
  files : List UInt8 → Entry

/-- The file that a request's URI maps to. -/
def Request.entry (request : Request) : Entry := request.files (requestPath request.uri)

/-- A reply sent. -/
structure Reply where
  /-- The status code. -/
  status : ℕ
  /-- The reason phrase. -/
  reason : String
  /-- The headers added. -/
  headers : List (String × String)
  /-- The bytes of the body. -/
  body : List UInt8
  deriving DecidableEq

/-- `HTTP_OK`. -/
def httpOk : ℕ := 200

/-- `read_file` — the global `filedata` after it: a cleared block one byte longer than the file,
filled with what was read, or whatever it was when the file does not open. -/
def readFile (filedata : Option (List UInt8)) : Entry → Option (List UInt8)
  | .missing => filedata
  | .refused => filedata
  | .unreadable size => some (List.replicate (size + 1) 0)
  | .file content => some (content ++ [0])

/-- What the conversion `%s` prints for a pointer: the string there, or a text for null. -/
def printString : Option (List UInt8) → List UInt8
  | none => ascii "(null)"
  | some memory => cText memory

/-- `evhttp_request_handler` — the reply, and `filedata` afterwards, which is freed and cleared. -/
def evhttpRequestHandler (filedata : Option (List UInt8)) (request : Request) :
    Reply × Option (List UInt8) :=
  let filedata := readFile filedata request.entry
  ({ status := httpOk
     reason := "OK"
     headers := [("Content-Type", "text/html"), ("Connection", "keep-alive"),
       ("Cache-Control", "no-cache")]
     body := printString filedata }, none)

/-- The replies to requests handled one after another. -/
def serve (filedata : Option (List UInt8)) : List Request → List Reply
  | [] => []
  | request :: requests =>
    let handled := evhttpRequestHandler filedata request
    handled.1 :: serve handled.2 requests

/-- What a reply owes to its request: the file as it is, or no success. -/
def Faithful (request : Request) (reply : Reply) : Prop :=
  match request.entry with
  | .file content => reply.status = httpOk ∧ reply.body = content
  | _ => reply.status ≠ httpOk

/-- The server's promise over a sequence of requests. -/
structure Served (requests : List Request) : Prop where
  /-- Each request has its reply, and the reply is faithful. -/
  faithful : List.Forall₂ Faithful requests (serve none requests)
  /-- Each reply is what the request alone would get, so nothing of an earlier one is in it. -/
  independent : ∀ earlier request later, requests = earlier ++ request :: later →
    (serve none requests)[earlier.length]? = (serve none [request]).head?

/-- The file is read and its bytes are all printed. -/
def Printable (request : Request) : Prop :=
  ∃ content, request.entry = .file content ∧ 0 ∉ content

/-- The replies are those of the requests taken one by one: the handler leaves `filedata` null. -/
theorem serve_eq (requests : List Request) :
    serve none requests = requests.map fun request => (evhttpRequestHandler none request).1 := by
  induction requests with
  | nil => rfl
  | cons request requests ih =>
    rw [serve, List.map_cons, ← ih]
    rfl

/-- A file of any bytes is printed whole exactly when none of them is zero. -/
theorem faithful_iff (request : Request) :
    Faithful request (evhttpRequestHandler none request).1 ↔ Printable request := by
  rw [Faithful, Printable]
  cases found : request.entry with
  | missing => simp [evhttpRequestHandler]
  | refused => simp [evhttpRequestHandler]
  | unreadable size => simp [evhttpRequestHandler]
  | file content =>
    have whole : printString (readFile none (.file content)) = content ↔ 0 ∉ content :=
      cText_eq_self_iff
    simp only [evhttpRequestHandler, found, Entry.file.injEq, exists_eq_left', true_and, whole]

/-- Every request gets the reply it would get alone. -/
theorem serve_independent (earlier later : List Request) (request : Request) :
    (serve none (earlier ++ request :: later))[earlier.length]? =
      (serve none [request]).head? := by
  simp [serve_eq]

/-- **When files are served faithfully.** Over all file systems and all sequences of requests,
every reply is faithful, and owes nothing to an earlier request, exactly when every request maps to
a file that can be read and holds no zero byte. The size that `stat` reports of a file is taken to
be the length of its content. -/
theorem served_iff (requests : List Request) :
    Served requests ↔ ∀ request ∈ requests, Printable request := by
  have each : List.Forall₂ Faithful requests (serve none requests) ↔
      ∀ request ∈ requests, Printable request := by
    rw [serve_eq, List.forall₂_map_right_iff, List.forall₂_same]
    simp only [faithful_iff]
  constructor
  · intro served
    exact each.mp served.faithful
  · intro printable
    refine ⟨each.mpr printable, ?_⟩
    rintro earlier request later rfl
    exact serve_independent earlier later request

/-- A page that is not there is answered with status 200 and the text of a null pointer, and an
image of three bytes is cut at its zero byte. -/
theorem replies_unfaithful :
    serve none [⟨slash, fun _ => .missing⟩, ⟨slash, fun _ => .file [137, 0, 78]⟩] =
        [(evhttpRequestHandler none ⟨slash, fun _ => .file (ascii "(null)")⟩).1,
          (evhttpRequestHandler none ⟨slash, fun _ => .file [137]⟩).1] ∧
      ¬ Served [⟨slash, fun _ => .missing⟩] ∧ ¬ Served [⟨slash, fun _ => .file [137, 0, 78]⟩] := by
  refine ⟨by decide, ?_, ?_⟩
  · intro served
    exact (List.forall₂_cons.mp served.faithful).1 rfl
  · intro served
    have body := (List.forall₂_cons.mp served.faithful).1.2
    exact absurd body (by decide)

end SysServer.Net
