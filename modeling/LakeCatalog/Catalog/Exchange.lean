import LakeCatalog.Catalog.Proposal
import LakeCatalog.Emission.Transport
import LakeCatalog.Json.Text
import LakeCatalog.Url.Reader

/-!
# Exchanges with the catalog

A proposal is sent to the catalog server as one request. The body names the entity, the kind of
change and the aspect; the value of the aspect is JSON text inside a JSON string. The address is
the configured server, in normal form and without slashes at its end, followed by a fixed path.

Every proposal is delivered by one request of its own. An answer whose status is between 200 and 299
accepts the proposal and any other answer rejects it; the body of the answer is kept in either case,
and a body that breaks off counts as empty. Where no answer comes at all, delivery fails for the
reason that the network gives.
-/

namespace LakeCatalog.Catalog

def Proposal.contentType (p : Proposal) : String :=
  if p.isPatch then "application/json-patch+json" else "application/json"

def Proposal.requestJson (p : Proposal) : Json :=
  .object [("proposal", .object
    [("entityType", .string p.kind.name), ("entityUrn", .string p.entity.text),
      ("changeType", .string p.changeType.name), ("aspectName", .string p.aspect.name),
      ("aspect", .object [("value", .string p.aspect.wireValue.compact),
        ("contentType", .string p.contentType)])])]

def Proposal.requestBody (p : Proposal) : String := p.requestJson.compact

/-- A text without slashes at its end. -/
def withoutSlashes (s : String) : String :=
  String.ofList ((s.toList.reverse.dropWhile (· == '/')).reverse)

/-- The address of the catalog server and the token that opens it. -/
structure Server where
  endpoint : String
  token : Option String
  deriving DecidableEq

namespace Server

/-- The server at an address; only addresses of http and https are servers. -/
def ofSettings [Url.DomainRule] (server : String) (token : Option String) : Except Fault Server :=
  match Url.parse server with
  | .error cause => .error (.config (.invalidServer server cause))
  | .ok (.other scheme) => .error (.config (.unsupportedScheme (String.ofList scheme)))
  | .ok (.web url) =>
    if url.scheme = "http".toList ∨ url.scheme = "https".toList then
      .ok ⟨withoutSlashes url.text, token⟩
    else .error (.config (.unsupportedScheme (String.ofList url.scheme)))

def ingestAddress (s : Server) : String := s.endpoint ++ "/aspects?action=ingestProposal"

/-- A character that the value of a header can hold. -/
def isHeaderChar (c : Char) : Bool := c == '\t' || (0x20 ≤ c.toNat && c.toNat != 0x7F)

/-- The header that presents the token; a token with control characters cannot be presented. -/
def authorization (s : Server) : Except String (Option String) :=
  match s.token with
  | none => .ok none
  | some token =>
    if token.toList.all isHeaderChar then .ok (some ("Bearer " ++ token))
    else .error "Invalid token: failed to parse header value"

end Server

end LakeCatalog.Catalog

namespace LakeCatalog.Emission

open Catalog

structure ServerRequest where
  method : String
  address : String
  contentType : String
  authorization : Option String
  protocolVersion : String
  body : String
  deriving DecidableEq

inductive ServerAnswer where
  | unanswered (reason : String)
  /-- An answer; there is no body if the text breaks off. -/
  | answered (status : Nat) (body : Option String)
  deriving DecidableEq

structure Receipt where
  status : Nat
  body : String
  deriving DecidableEq

/-- The request that delivers a proposal, with the header that presents the token. -/
def ServerRequest.of (server : Server) (authorization : Option String) (p : Proposal) :
    ServerRequest where
  method := "POST"
  address := server.ingestAddress
  contentType := "application/json"
  authorization
  protocolVersion := "2.0.0"
  body := p.requestBody

/-- Opens a channel to the server: the request for each proposal, unless the token cannot be
presented. -/
def openServer (server : Server) : Except TransportError (Proposal → ServerRequest) :=
  match server.authorization with
  | .ok authorization => .ok (ServerRequest.of server authorization)
  | .error reason => .error (.channelUnavailable reason)

def accepts (status : Nat) : Bool := 200 ≤ status && status < 300

/-- What an answer says about the proposal. -/
def ServerAnswer.receipt : ServerAnswer → Except TransportError Receipt
  | .unanswered reason => .error (.io reason)
  | .answered status body =>
    let text := body.getD ""
    if accepts status then .ok ⟨status, text⟩ else .error (.rejected status text)

end LakeCatalog.Emission
