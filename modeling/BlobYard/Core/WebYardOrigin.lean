/-
The public origin of hosted yards.

A yard is served from a first-level subdomain of a trusted root origin.  The origin is read with
a parser of URLs, which is not part of the program, and kept in its normalised form.

* `Url`, `UrlParser` — what the parser tells of a text;
* `WebYardOrigin.new` — the checks of an origin;
* `WebYardOrigin.urlFor` — the URL of a host label.
-/
import BlobYard.Contract.Text

namespace BlobYard

open Outcome

/-! ### Parsed URLs -/

/-- The kinds of hosts that the parser tells apart. -/
inductive Host where
  | domain (name : String)
  | ipv4
  | ipv6
  deriving DecidableEq

/-- A parsed URL; the port is absent when it is the default one of the scheme. -/
structure Url where
  scheme : String
  username : String
  password : Option String
  host : Option Host
  port : Option UInt16
  path : String
  query : Option String
  fragment : Option String
  deriving DecidableEq

/-- `Url::parse`. -/
class UrlParser where
  parse : String → Option Url

/-! ### Origins -/

/-- The refusal of an origin or of a label, `invalid_origin()`. -/
inductive OriginError where
  | invalidRequest
  deriving DecidableEq

/-- The text that is shown. -/
def OriginError.message : OriginError → String
  | .invalidRequest =>
    "Web Yard origin must be an HTTPS domain root, or HTTP on localhost for development."

/-- `is_valid_dns_label`. -/
def ValidDnsLabel (value : String) : Prop :=
  value ≠ "" ∧ value.utf8ByteSize ≤ 63 ∧
    value.toList.head? ≠ some '-' ∧ value.toList.getLast? ≠ some '-' ∧
    ∀ c ∈ value.toList, ('a' ≤ c ∧ c ≤ 'z') ∨ ('0' ≤ c ∧ c ≤ '9') ∨ c = '-'

instance (value : String) : Decidable (ValidDnsLabel value) :=
  inferInstanceAs (Decidable (_ ∧ _ ∧ _ ∧ _ ∧ _))

/-- The longest domain that leaves room for a label. -/
def maximumWebYardRootBytes : ℕ := 253 - 63 - 1

/-- `valid_root_domain`. -/
def ValidRootDomain (value : String) : Prop :=
  value.utf8ByteSize ≤ maximumWebYardRootBytes ∧
    ∀ label ∈ value.toList.splitOn '.', ValidDnsLabel (String.ofList label)

instance (value : String) : Decidable (ValidRootDomain value) :=
  inferInstanceAs (Decidable (_ ∧ _))

/-- `https`, or `http` on `localhost`. -/
def ValidScheme (scheme domain : String) : Prop :=
  scheme = "https" ∨ (scheme = "http" ∧ domain = "localhost")

instance (scheme domain : String) : Decidable (ValidScheme scheme domain) :=
  inferInstanceAs (Decidable (_ ∨ _))

/-- `serialize_authority`. -/
def serializeAuthority (host : String) : Option UInt16 → String
  | none => host
  | some port => host ++ ":" ++ String.ofList (Nat.toDigits 10 port.toNat)

/-- `serialize`. -/
def serialize (scheme host : String) (port : Option UInt16) : String :=
  scheme ++ "://" ++ serializeAuthority host port

/-- A trusted root origin; its authority and its text follow from the rest. -/
structure WebYardOrigin where
  scheme : String
  domain : String
  port : Option UInt16
  validScheme : ValidScheme scheme domain
  validDomain : ValidRootDomain domain
  deriving DecidableEq

namespace WebYardOrigin

/-- The domain and the port. -/
def authority (origin : WebYardOrigin) : String := serializeAuthority origin.domain origin.port

/-- The origin as it is written. -/
def asStr (origin : WebYardOrigin) : String := serialize origin.scheme origin.domain origin.port

/-- The domain of a parsed URL. -/
def domainOf (parsed : Url) : Except OriginError String :=
  match parsed.host with
  | some (.domain domain) => .ok domain
  | _ => .error .invalidRequest

/-- `WebYardOrigin::new`: a domain root over HTTPS, or over HTTP on this machine. -/
def new [UrlParser] (value : String) : Except OriginError WebYardOrigin := do
  let parsed ← ofOption .invalidRequest (UrlParser.parse value)
  let domain ← domainOf parsed
  if hvalid : ValidScheme parsed.scheme domain ∧ (parsed.username = "" ∧ parsed.password = none) ∧
      ((parsed.path = "" ∨ parsed.path = "/") ∧ parsed.query = none ∧ parsed.fragment = none) ∧
      ValidRootDomain domain then
    return { scheme := parsed.scheme, domain, port := parsed.port, validScheme := hvalid.1,
             validDomain := hvalid.2.2.2 }
  else throw .invalidRequest

/-- The URL of a label under the domain. -/
def urlFor (origin : WebYardOrigin) (hostLabel : String) : Except OriginError String := do
  ensure (ValidDnsLabel hostLabel) .invalidRequest
  return serialize origin.scheme (hostLabel ++ "." ++ origin.domain) origin.port

end WebYardOrigin

end BlobYard
