import Mathlib.Data.List.Basic

/-!
# `Settings`

The settings that the webhook reads.
-/

namespace VoiceAgent

/-- `Env` -/
inductive Env where
  | development
  | staging
  | production
  deriving DecidableEq, Repr

structure Settings where
  env : Env := .development
  publicBaseUrl : String := "http://localhost:8000"
  twilioAuthToken : String := ""
  twilioValidateSignature : Bool := true

/-- `is_production` -/
def Settings.isProduction (settings : Settings) : Bool := settings.env = .production

/-- `s.rstrip("/")` -/
def rstripSlash (s : String) : String :=
  String.ofList (s.toList.reverse.dropWhile (· == '/')).reverse

end VoiceAgent
