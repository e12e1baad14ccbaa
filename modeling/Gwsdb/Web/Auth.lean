import Gwsdb.Web.Requests

/-!
# The token of the scanner

`src/auth.ts`, and the two endpoints that begin with it: `/ingest` and `/recheck/result`. Texts are
compared as their bytes in UTF-8.
-/

namespace Gwsdb.Auth

open Gwsdb.Store (Program)
open Gwsdb.Web (IngestBody Response ResultBody handleIngest handleResult)

/-- White space that the value of a header is stripped of. -/
def isHeaderSpace (c : Char) : Bool := c = ' ' || c = '\t' || c = '\n' || c = '\r'

/-- The value of a header, as a request has it. -/
structure HeaderValue where
  text : List Char
  head : ∀ c ∈ text.head?, isHeaderSpace c = false
  last : ∀ c ∈ text.getLast?, isHeaderSpace c = false

/-- `enc.encode`. -/
def encode (s : List Char) : List UInt8 := s.flatMap String.utf8EncodeChar

/-- `timingSafeEqual`. -/
def timingSafeEqual (a b : List Char) : Bool :=
  let aBytes := encode a
  let bBytes := encode b
  if aBytes.length ≠ bBytes.length then false
  else (aBytes.zip bBytes).foldl (fun diff p => diff ||| (p.1 ^^^ p.2)) 0 = 0

/-- `checkBearerAuth`, given the `Authorization` header and `INGEST_TOKEN`; where that is not set, its bytes
are those of the empty text. -/
def checkBearerAuth (authorization : Option HeaderValue) (token : Option String) : Bool :=
  let auth := (authorization.map (·.text)).getD []
  if "Bearer ".toList.isPrefixOf auth = false then false
  else timingSafeEqual (auth.drop "Bearer ".toList.length) (token.getD "").toList

/-- What an endpoint answers to a request without the token. -/
def guarded (authorization : Option HeaderValue) (token : Option String) (endpoint : Program Response) : Program Response :=
  if checkBearerAuth authorization token = false then pure (.text 401 "unauthorized") else endpoint

/-- `onRequestPost` of `functions/ingest.ts`. -/
def onIngest (authorization : Option HeaderValue) (token : Option String) (insertAt poolAt : Int) (body : Option IngestBody) :
    Program Response :=
  guarded authorization token (handleIngest insertAt poolAt body)

/-- `onRequestPost` of `functions/recheck/result.ts`. -/
def onResult (authorization : Option HeaderValue) (token : Option String) (body : Option ResultBody) : Program Response :=
  guarded authorization token (handleResult body)

end Gwsdb.Auth
