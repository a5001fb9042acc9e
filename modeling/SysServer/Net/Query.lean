import SysServer.Net.Reply

/-!
# The query of a request

`evhttp_request_handler` gives the whole URI both to `evhttp_parse_query` and to `read_file`. The
string behind the question mark is therefore part of the name of the file, and two requests for one
path name one file only when their queries are the same.
-/

namespace SysServer.Net

open Library

/-- The character between a path and its query. -/
def questionMark : UInt8 := '?'.toNat.toUInt8

/-- The URI of a path with a query, which may be absent. -/
def uriOf (path : Cstring) : Option Cstring → Cstring
  | none => path
  | some query => ⟨path.val ++ questionMark :: query.val, by
      have zero : 0 ≠ questionMark := by decide
      simp [path.property, query.property, zero]⟩

/-- Two queries behind one path make no difference to the file opened or to the reply. -/
structure Indifferent (path : Cstring) (first second : Option Cstring) : Prop where
  /-- The same file is opened. -/
  file : requestPath (uriOf path first) = requestPath (uriOf path second)
  /-- Over every file system, the replies have the same status. -/
  status : ∀ filedata files,
    (evhttpRequestHandler filedata ⟨uriOf path first, files⟩).1.status =
      (evhttpRequestHandler filedata ⟨uriOf path second, files⟩).1.status
  /-- Over every file system, the replies have the same body. -/
  body : ∀ filedata files,
    (evhttpRequestHandler filedata ⟨uriOf path first, files⟩).1.body =
      (evhttpRequestHandler filedata ⟨uriOf path second, files⟩).1.body

/-- Different queries make different URIs. -/
theorem uriOf_injective (path : Cstring) : Function.Injective (uriOf path) := by
  intro first second same
  have bytes := congrArg Subtype.val same
  cases first with
  | none =>
    cases second with
    | none => rfl
    | some query =>
      have lengths := congrArg List.length bytes
      simp only [uriOf, List.length_append, List.length_cons] at lengths
      omega
  | some query =>
    cases second with
    | none =>
      have lengths := congrArg List.length bytes
      simp only [uriOf, List.length_append, List.length_cons] at lengths
      omega
    | some other =>
      have queries := List.append_cancel_left bytes
      rw [Subtype.ext (List.cons.inj queries).2]

/-- The root's page is not behind the prefix of the other paths. -/
theorem wwwIndex_ne_login (uri : Cstring) : wwwIndex.val ≠ wwwLogin.val ++ uri.val := by
  intro same
  have fifth : wwwIndex.val[4]? = (wwwLogin.val ++ uri.val)[4]? := by rw [same]
  rw [List.getElem?_append_left (by decide)] at fifth
  exact absurd fifth (by decide)

/-- Different URIs name different files. -/
theorem requestPath_injective : Function.Injective requestPath := by
  intro first second same
  by_cases firstRoot : first = slash
  · by_cases secondRoot : second = slash
    · rw [firstRoot, secondRoot]
    · rw [firstRoot, requestPath_slash, requestPath_login secondRoot] at same
      exact absurd same (wwwIndex_ne_login second)
  · by_cases secondRoot : second = slash
    · rw [secondRoot, requestPath_slash, requestPath_login firstRoot] at same
      exact absurd same.symm (wwwIndex_ne_login first)
    · rw [requestPath_login firstRoot, requestPath_login secondRoot] at same
      exact Subtype.ext (List.append_cancel_left same)

/-- Replies with one body over every file system are about one file: a file system that has only the
file of the first request tells another from it. -/
theorem requestPath_eq_of_body {first second : Cstring}
    (agree : ∀ files, (evhttpRequestHandler none ⟨first, files⟩).1.body =
      (evhttpRequestHandler none ⟨second, files⟩).1.body) :
    requestPath first = requestPath second := by
  by_contra different
  have same := agree fun path => if path = requestPath first then .file [72] else .missing
  have missed : requestPath second ≠ requestPath first := Ne.symm different
  simp only [evhttpRequestHandler, Request.entry, if_pos, if_neg missed, readFile] at same
  exact absurd same (by decide)

/-- **When a query makes no difference.** For every path and any two queries, either possibly
absent, the same file is opened and the replies agree over every file system exactly when the
queries are the same. A file system is any map from the names that are handed to `stat` and
`fopen`, so two spellings of one place count as two names. -/
theorem indifferent_iff (path : Cstring) (first second : Option Cstring) :
    Indifferent path first second ↔ first = second := by
  constructor
  · intro indifferent
    have named := requestPath_eq_of_body (indifferent.body none)
    exact uriOf_injective path (requestPath_injective named)
  · rintro rfl
    exact ⟨rfl, fun _ _ => rfl, fun _ _ => rfl⟩

/-- A page that is there is not found when its path has a query. -/
theorem query_misses_page :
    ∃ path query : Cstring, path.val = ascii "/a.htm" ∧ query.val = ascii "i=1" ∧
      questionMark ∉ path.val ∧
      (∃ files, (evhttpRequestHandler none ⟨uriOf path none, files⟩).1.body = [72] ∧
        (evhttpRequestHandler none ⟨uriOf path (some query), files⟩).1.body = ascii "(null)") ∧
      ¬ Indifferent path none (some query) := by
  let files : List UInt8 → Entry := fun path =>
    if path = ascii "www/login/a.htm" then .file [72] else .missing
  have served : (evhttpRequestHandler none ⟨uriOf ⟨ascii "/a.htm", by decide⟩ none, files⟩).1.body =
      [72] := by decide
  have missed : (evhttpRequestHandler none ⟨uriOf ⟨ascii "/a.htm", by decide⟩
      (some ⟨ascii "i=1", by decide⟩), files⟩).1.body = ascii "(null)" := by decide
  refine ⟨⟨ascii "/a.htm", by decide⟩, ⟨ascii "i=1", by decide⟩, rfl, rfl, by decide,
    ⟨files, served, missed⟩, ?_⟩
  intro indifferent
  have same := indifferent.body none files
  rw [served, missed] at same
  exact absurd same (by decide)

end SysServer.Net
