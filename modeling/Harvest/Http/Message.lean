import Harvest.Text.Utf8
import Harvest.Url.Basic

/-!
# Requests and responses

What is asked of a remote service and what it answers.
Design: `SPEC_FULL.md:54–56`.
-/

namespace Harvest.Http

/-- Credentials of one request. Design: `SPEC_FULL.md:101–103`. -/
inductive Authorization where
  | basic (username password : String)
  | bearer (token : String)
deriving DecidableEq, Repr, Inhabited

/-- A media type that an answer is asked for in. -/
abbrev MediaType := String

/-- JSON documents. -/
def json : MediaType := "application/json"

/-- XML documents. -/
def xml : MediaType := "application/xml"

/-- Plain text. -/
def plainText : MediaType := "text/plain"

/-- A request to read what stands at a URL. -/
structure Request where
  url : Url
  accept : MediaType
  authorization : Authorization
deriving DecidableEq, Repr

/-- The fields of a form in order. -/
abbrev Form := List (String × String)

/-- A whole answer. Design: `SPEC_FULL.md:54–56`. -/
structure Response where
  status : Nat
  reason : String
  /-- The version of the service's protocol, where the answer names one. -/
  version : Option String
  body : Text.Bytes
deriving DecidableEq, Repr, Inhabited

namespace Response

/-- Whether the request was granted. -/
def isSuccess (r : Response) : Bool := 200 ≤ r.status && r.status < 300

/-- The body as text. -/
def text (r : Response) : String := Text.textOf r.body

end Response

/-- The standard wording of a status code, empty where there is none. -/
def reasonPhrase (status : Nat) : String :=
  match status with
  | 100 => "Continue"
  | 101 => "Switching Protocols"
  | 102 => "Processing"
  | 103 => "Early Hints"
  | 200 => "OK"
  | 201 => "Created"
  | 202 => "Accepted"
  | 203 => "Non Authoritative Information"
  | 204 => "No Content"
  | 205 => "Reset Content"
  | 206 => "Partial Content"
  | 207 => "Multi-Status"
  | 208 => "Already Reported"
  | 226 => "IM Used"
  | 300 => "Multiple Choices"
  | 301 => "Moved Permanently"
  | 302 => "Found"
  | 303 => "See Other"
  | 304 => "Not Modified"
  | 305 => "Use Proxy"
  | 307 => "Temporary Redirect"
  | 308 => "Permanent Redirect"
  | 400 => "Bad Request"
  | 401 => "Unauthorized"
  | 402 => "Payment Required"
  | 403 => "Forbidden"
  | 404 => "Not Found"
  | 405 => "Method Not Allowed"
  | 406 => "Not Acceptable"
  | 407 => "Proxy Authentication Required"
  | 408 => "Request Timeout"
  | 409 => "Conflict"
  | 410 => "Gone"
  | 411 => "Length Required"
  | 412 => "Precondition Failed"
  | 413 => "Payload Too Large"
  | 414 => "URI Too Long"
  | 415 => "Unsupported Media Type"
  | 416 => "Range Not Satisfiable"
  | 417 => "Expectation Failed"
  | 418 => "I'm a teapot"
  | 421 => "Misdirected Request"
  | 422 => "Unprocessable Entity"
  | 423 => "Locked"
  | 424 => "Failed Dependency"
  | 425 => "Too Early"
  | 426 => "Upgrade Required"
  | 428 => "Precondition Required"
  | 429 => "Too Many Requests"
  | 431 => "Request Header Fields Too Large"
  | 451 => "Unavailable For Legal Reasons"
  | 500 => "Internal Server Error"
  | 501 => "Not Implemented"
  | 502 => "Bad Gateway"
  | 503 => "Service Unavailable"
  | 504 => "Gateway Timeout"
  | 505 => "HTTP Version Not Supported"
  | 506 => "Variant Also Negotiates"
  | 507 => "Insufficient Storage"
  | 508 => "Loop Detected"
  | 510 => "Not Extended"
  | 511 => "Network Authentication Required"
  | _ => ""

end Harvest.Http
