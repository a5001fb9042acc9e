import SysServer.Library.Cstring

/-!
# The path of a request

`evhttp_request_handler` rebuilds the path of the file to send inside the block that `strdup` gave
for the request's URI, by way of a temporary of fixed size. The block is exactly as long as the
URI, so no URI leaves room for the longer path.
-/

namespace SysServer.Net

open Library

/-- The bytes of a text of ASCII characters. -/
def ascii (text : String) : List UInt8 := text.toList.map fun char => char.toNat.toUInt8

/-- The URI of the site's root. -/
def slash : Cstring := ⟨ascii "/", by decide⟩

/-- The page of the site's root. -/
def wwwIndex : Cstring := ⟨ascii "www/index.htm", by decide⟩

/-- What is put before every other URI. -/
def wwwLogin : Cstring := ⟨ascii "www/login", by decide⟩

/-- What the handler does to its buffers. -/
structure Built where
  /-- The block that holds the path in the end. -/
  decodeUri : Buffer
  /-- The copies made, in order. -/
  copies : List Copy

/-- `char name[256]`, which holds the page of the root. -/
def name : Buffer := ⟨256, wwwIndex.val ++ List.replicate 243 0⟩

/-- `char tmp[256]`, cleared. -/
def tmp : Buffer := ⟨256, List.replicate 256 0⟩

/-- `evhttp_request_handler`, up to the path it reads; `decode_uri` is the duplicate of the URI. -/
def buildPath (uri : Cstring) : Built :=
  let decodeUri := strdup uri
  if decodeUri.text = slash then
    let copied := strcpy decodeUri name.text
    ⟨copied.1, [copied.2]⟩
  else
    let saved := strcpy tmp decodeUri.text
    let copied := strcpy decodeUri wwwLogin
    let joined := strcat copied.1 saved.1.text
    ⟨joined.1, [saved.2, copied.2, joined.2]⟩

/-- The path the handler passes to `read_file`. -/
def requestPath (uri : Cstring) : List UInt8 := (buildPath uri).decodeUri.text.val

/-- The path of the root. -/
theorem requestPath_slash : requestPath slash = wwwIndex.val := by
  decide

/-- The path of every other URI. -/
theorem requestPath_login {uri : Cstring} (other : uri ≠ slash) :
    requestPath uri = wwwLogin.val ++ uri.val := by
  simp [requestPath, buildPath, other]

/-- The path meant for a URI: the root's page, or the URI behind its prefix. -/
def meantPath (uri : Cstring) : List UInt8 :=
  if uri = slash then wwwIndex.val else wwwLogin.val ++ uri.val

/-- The path built is the one meant, when copies may run over. -/
theorem requestPath_eq (uri : Cstring) : requestPath uri = meantPath uri := by
  by_cases root : uri = slash
  · rw [root, requestPath_slash, meantPath, if_pos rfl]
  · rw [requestPath_login root, meantPath, if_neg root]

/-- The path is built as meant, and every copy stays in its destination. -/
structure WithinBuffers (uri : Cstring) : Prop where
  /-- No copy writes past its destination. -/
  fits : ∀ copy ∈ (buildPath uri).copies, copy.Fits
  /-- The path is the one meant. -/
  path : requestPath uri = meantPath uri

/-- The last copy for a URI other than the root's writes nine bytes past the block. -/
theorem joined_reach {uri : Cstring} (other : uri ≠ slash) :
    ⟨uri.val.length + 10, uri.val.length + 1⟩ ∈ (buildPath uri).copies := by
  have reach : (strcat (strcpy (strdup uri) wwwLogin).1 uri).2 =
      ⟨uri.val.length + 10, uri.val.length + 1⟩ := by
    have prefixed : wwwLogin.val.length = 9 := by decide
    simp only [strcat, strcpy_text, List.length_append, prefixed]
    simp only [strcpy, strdup, Copy.mk.injEq, and_true]
    omega
  rw [← reach]
  simp [buildPath, other]

/-- **The path never fits.** For every URI, of whatever length, some copy that builds the path
writes past the end of its destination, although the path is the one meant. -/
theorem never_within_buffers (uri : Cstring) :
    ¬ WithinBuffers uri ∧ requestPath uri = meantPath uri := by
  refine ⟨?_, requestPath_eq uri⟩
  intro within
  by_cases root : uri = slash
  · subst root
    exact absurd within.fits (by decide)
  · have fits := within.fits _ (joined_reach root)
    simp only [Copy.Fits] at fits
    omega

/-- For the root, fourteen bytes are written into a block of two. -/
theorem slash_overflows :
    (buildPath slash).copies = [⟨14, 2⟩] ∧ ¬ WithinBuffers slash := by
  refine ⟨by decide, ?_⟩
  intro within
  exact absurd within.fits (by decide)

end SysServer.Net
