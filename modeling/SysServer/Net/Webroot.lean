import SysServer.Library.Lexical
import SysServer.Net.Request

/-!
# The web root

Which file a request can name. The handler puts a directory of the site before the URI and hands
the result to `stat` and `fopen` as it is, so components of the URI lead out of the site again.
Exactly which URIs stay inside is decided by cancelling the components against one another.
-/

namespace SysServer.Net

open Library

/-- The name of the site's directory. -/
def www : List UInt8 := ascii "www"

/-- The component of a path that a piece between slashes stands for, when it stands for one. -/
def component (piece : List UInt8) : Option (Hop (List UInt8)) :=
  if piece = [] ∨ piece = ascii "." then none
  else if piece = ascii ".." then some .up
  else some (.into piece)

/-- The components of a path. -/
def components (path : List UInt8) : List (Hop (List UInt8)) :=
  (path.splitOn '/'.toNat.toUInt8).filterMap component

/-- The place a path denotes, from the root when it begins with a slash and from the working
directory otherwise. -/
def lexical (cwd : List (List UInt8)) (path : List UInt8) : List (List UInt8) :=
  if path.head? = some '/'.toNat.toUInt8 then resolve [] (components path)
  else resolve cwd (components path)

/-- The file that a request names lies inside the site's directory. -/
def Confined (cwd : List (List UInt8)) (uri : Cstring) : Prop :=
  ∃ inside, inside ≠ [] ∧ lexical cwd (requestPath uri) = cwd ++ www :: inside

/-- Cancel every `..` behind `www/` against the nearest name before it: the names left retrace what
the `..` left climbed over, and go on. -/
def Returns (cwd : List (List UInt8)) (uri : Cstring) : Prop :=
  let hops := components (ascii "login" ++ uri.val)
  ∃ inside, inside ≠ [] ∧ (cancel hops).2 = (cwd ++ [www]).rtake (cancel hops).1 ++ inside

/-- The components of a path behind the site's directory. -/
theorem components_www (path : List UInt8) :
    components (www ++ '/'.toNat.toUInt8 :: path) = .into www :: components path := by
  have absent : '/'.toNat.toUInt8 ∉ www := by decide
  have first : component www = some (.into www) := by decide
  rw [components, List.splitOn_append_cons_self_of_not_mem absent, List.filterMap_cons_some first]
  rfl

/-- A path behind the site's directory is resolved from there. -/
theorem lexical_www (cwd : List (List UInt8)) (path : List UInt8) :
    lexical cwd (www ++ '/'.toNat.toUInt8 :: path) = resolve (cwd ++ [www]) (components path) := by
  have relative : (www ++ '/'.toNat.toUInt8 :: path).head? ≠ some '/'.toNat.toUInt8 := by
    have first : www.head? = some 'w'.toNat.toUInt8 := by decide
    rw [List.head?_append, first, Option.some_or]
    decide
  rw [lexical, if_neg relative, components_www]
  rfl

/-- The root's page lies in the site's directory. -/
theorem slash_confined (cwd : List (List UInt8)) : Confined cwd slash := by
  refine ⟨[ascii "index.htm"], by decide, ?_⟩
  have parts : wwwIndex.val = www ++ '/'.toNat.toUInt8 :: ascii "index.htm" := by decide
  have hops : components (ascii "index.htm") = [.into (ascii "index.htm")] := by decide
  rw [requestPath_slash, parts, lexical_www, hops]
  simp [resolve, hop]

/-- For the root nothing climbs. -/
theorem slash_returns (cwd : List (List UInt8)) : Returns cwd slash := by
  have hops : cancel (components (ascii "login" ++ slash.val)) = (0, [ascii "login"]) := by decide
  exact ⟨[ascii "login"], by decide, by simp [hops]⟩

/-- **Which requests stay in the web root.** From every working directory, the file that a request
names lies inside the site's directory exactly when the names left after cancelling the URI's `..`
components lead back over all that the remaining `..` climbed. -/
theorem request_confined_iff (cwd : List (List UInt8)) (uri : Cstring) :
    Confined cwd uri ↔ Returns cwd uri := by
  by_cases root : uri = slash
  · subst root
    exact iff_of_true (slash_confined cwd) (slash_returns cwd)
  · have parts : wwwLogin.val ++ uri.val =
        www ++ '/'.toNat.toUInt8 :: (ascii "login" ++ uri.val) := by
      have split : wwwLogin.val = www ++ '/'.toNat.toUInt8 :: ascii "login" := by decide
      rw [split, List.append_assoc, List.cons_append]
    have below := resolve_below_iff (cwd ++ [www]) (components (ascii "login" ++ uri.val))
    simp only [Confined, Returns, requestPath_login root, parts, lexical_www]
    simpa using below

/-- Three components `..` climb from the login page over the site and the server's directory to the
root of the file system. -/
theorem passwd_requested :
    ∃ uri : Cstring, uri.val = ascii "/../../../etc/passwd" ∧
      lexical [ascii "srv"] (requestPath uri) = [ascii "etc", ascii "passwd"] ∧
      ¬ Confined [ascii "srv"] uri := by
  have reached : lexical [ascii "srv"] (requestPath ⟨ascii "/../../../etc/passwd", by decide⟩) =
      [ascii "etc", ascii "passwd"] := by decide
  refine ⟨⟨ascii "/../../../etc/passwd", by decide⟩, rfl, reached, ?_⟩
  rintro ⟨inside, -, same⟩
  rw [reached] at same
  exact absurd (List.cons.inj same).1 (by decide)

end SysServer.Net
