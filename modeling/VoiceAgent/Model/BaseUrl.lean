import VoiceAgent.Model.Config
import VoiceAgent.Model.PyVal

/-!
# `Settings._validate_public_base_url`

The validator, and what it reads of `urllib.parse.urlparse`. The checks that make
`urlparse` raise for its network location (brackets, characters that normalize to a
delimiter) are a parameter: they refuse settings and change nothing else.
-/

namespace VoiceAgent

/-- `_WHATWG_C0_CONTROL_OR_SPACE` -/
def isC0OrSpace (c : Char) : Bool := c.toNat ≤ 32

/-- `_UNSAFE_URL_BYTES_TO_REMOVE` -/
def isUnsafe (c : Char) : Bool := c == '\t' || c == '\r' || c == '\n'

/-- `scheme_chars` -/
def isSchemeChar (c : Char) : Bool := c.isAlphanum || c == '+' || c == '-' || c == '.'

/-- The parts of a `ParseResult` that are read. -/
structure ParseResult where
  scheme : String
  netloc : String

/-- `urlparse(url)`, with the text of its `ValueError`. -/
def urlparse (checkNetloc : String → Except String Unit) (url : String) :
    Except String ParseResult := do
  let url := (url.toList.dropWhile isC0OrSpace).filter fun c => !isUnsafe c
  let before := url.takeWhile (· != ':')
  let named := url.contains ':' && before.head?.any Char.isAlpha && before.all isSchemeChar
  let scheme := if named then before.map Char.toLower else []
  let url := if named then url.drop (before.length + 1) else url
  let netloc :=
    if url.take 2 = ['/', '/'] then
      (url.drop 2).takeWhile fun c => !(c == '/' || c == '?' || c == '#')
    else []
  checkNetloc (String.ofList netloc)
  return { scheme := String.ofList scheme, netloc := String.ofList netloc }

/-- `_validate_public_base_url`, with the text of its `ValueError`. -/
def Settings.validatePublicBaseUrl (checkNetloc : String → Except String Unit)
    (settings : Settings) : Except String Unit := do
  let parsed ← urlparse checkNetloc settings.publicBaseUrl
  if parsed.scheme ∉ ["http", "https"] ∨ parsed.netloc = "" then
    throw ("public_base_url must be an http(s) URL with a host, got " ++
      PyVal.reprStr settings.publicBaseUrl)
  else if settings.isProduction ∧ parsed.scheme ≠ "https" then
    throw "public_base_url must use https in production"
  else return ()

end VoiceAgent
