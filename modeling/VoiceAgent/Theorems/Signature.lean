import VoiceAgent.Model.Security

/-!
# Twilio's signature and the one that is checked

Twilio signs every distinct value of a repeated parameter; `dict(...)` keeps the last
one. The two strings agree exactly on the forms that are single-valued.
-/

namespace VoiceAgent

open Lib Lib.Params

/-- Twilio signs the request so: the URL, in one of its two forms, and all the form's
parameters. -/
def RequestValidator.Signs (validator : RequestValidator) (token url : String)
    (form : List (String × String)) (signature : String) : Prop :=
  signature = validator.hmac token (validator.removePort url ++ canonical form) ∨
    signature = validator.hmac token (validator.addPort url ++ canonical form)

section

variable {validator : RequestValidator} {token url signature : String}
  {form : List (String × String)}

theorem RequestValidator.validate_iff :
    validator.validate token url form signature = true ↔
      validator.Signs token url form signature := by
  rw [validate, Bool.or_eq_true, beq_iff_eq, beq_iff_eq]
  exact or_congr eq_comm eq_comm

theorem RequestValidator.Signs.ne_empty (h : validator.Signs token url form signature) :
    signature ≠ "" := by
  rintro rfl
  rcases h with h | h
  · exact validator.hmac_ne_empty _ _ h.symm
  · exact validator.hmac_ne_empty _ _ h.symm

/-- The same strings are signed where the dict has the form's string, and not all of
them are where its string is shorter. -/
theorem RequestValidator.signs_toDict_iff :
    (∀ signature, validator.Signs token url (toDict form) signature ↔
      validator.Signs token url form signature) ↔ SingleValued form := by
  constructor
  · intro hall
    by_contra hnot
    have hlt := canonical_toDict_lt hnot
    -- the longer form of the URL, signed with all the parameters
    have hlong : ∃ u, (validator.removePort url).length ≤ u.length ∧
        (validator.addPort url).length ≤ u.length ∧
        validator.Signs token url form (validator.hmac token (u ++ canonical form)) := by
      rcases Nat.le_total (validator.removePort url).length (validator.addPort url).length with
        hle | hle
      · exact ⟨_, hle, Nat.le_refl _, .inr rfl⟩
      · exact ⟨_, Nat.le_refl _, hle, .inl rfl⟩
    obtain ⟨u, hremove, hadd, hsigns⟩ := hlong
    rcases (hall _).mpr hsigns with h | h
    · have hlength := congrArg String.length (validator.hmac_injective token h)
      rw [String.length_append, String.length_append] at hlength
      omega
    · have hlength := congrArg String.length (validator.hmac_injective token h)
      rw [String.length_append, String.length_append] at hlength
      omega
  · intro h signature
    unfold Signs
    rw [canonical_toDict h]

end

/-- With the check on and a token, the request is let through exactly if its header is
signed for the dict. -/
theorem validateTwilioSignature_iff (validator : RequestValidator) (request : WebhookRequest)
    {settings : Settings} (hon : settings.twilioValidateSignature = true)
    (htoken : settings.twilioAuthToken ≠ "") :
    validateTwilioSignature validator request settings = .ok () ↔
      ∃ s, request.signature = some s ∧
        validator.Signs settings.twilioAuthToken (publicUrl request settings)
          (toDict request.form) s := by
  unfold validateTwilioSignature
  rw [if_neg (by simp [hon]), if_neg htoken]
  cases hheader : request.signature with
  | none => simp
  | some s =>
      by_cases hempty : s = ""
      · subst hempty
        simp only [Option.getD_some, if_true, reduceCtorEq, false_iff]
        rintro ⟨s, hs, hsigns⟩
        exact hsigns.ne_empty (Option.some.inj hs).symm
      · have hvalidate := @RequestValidator.validate_iff validator settings.twilioAuthToken
          (publicUrl request settings) s (toDict request.form)
        simpa [hempty] using hvalidate

/-- **The signature check.** With the check on and a token, for every request: over all
values of its header, it is let through exactly if the header is what Twilio signs for
the public URL and all the parameters, if and only if no name of the form has two
different values (an empty value of the empty name apart). -/
theorem signature_check_iff (validator : RequestValidator) (request : WebhookRequest)
    {settings : Settings} (hon : settings.twilioValidateSignature = true)
    (htoken : settings.twilioAuthToken ≠ "") :
    (∀ header : Option String,
      validateTwilioSignature validator { request with signature := header } settings = .ok () ↔
        ∃ s, header = some s ∧
          validator.Signs settings.twilioAuthToken (publicUrl request settings) request.form s) ↔
    SingleValued request.form := by
  rw [← @RequestValidator.signs_toDict_iff validator settings.twilioAuthToken
    (publicUrl request settings)]
  have haccepts : ∀ header : Option String,
      validateTwilioSignature validator { request with signature := header } settings = .ok () ↔
        ∃ s, header = some s ∧ validator.Signs settings.twilioAuthToken
          (publicUrl request settings) (toDict request.form) s :=
    fun header => validateTwilioSignature_iff validator { request with signature := header }
      hon htoken
  constructor
  · intro h s
    have hs := (haccepts (some s)).symm.trans (h (some s))
    simpa using hs
  · intro h header
    rw [haccepts]
    simp only [h]

/-- A validator that shows what it signs. -/
def plainValidator : RequestValidator where
  hmac token s := "sha1:" ++ token ++ s
  addPort url := if url = "https://example.org/voice/incoming" then
    "https://example.org:443/voice/incoming" else url
  removePort url := url
  hmac_injective token s t h := by simpa using h
  hmac_ne_empty token s h := by simp at h

/-- The settings of a deployment behind `https://example.org/`. -/
def exampleSettings : Settings where
  env := .production
  publicBaseUrl := "https://example.org/"
  twilioAuthToken := "secret"

/-- A form in which a name comes twice, signed as Twilio signs it. -/
def repeatedDigits : WebhookRequest where
  signature := some "sha1:secrethttps://example.org/voice/incomingCallSidCA1Digits1Digits2"
  path := "/voice/incoming"
  form := [("CallSid", "CA1"), ("Digits", "2"), ("Digits", "1")]

/-- The signed request is refused. -/
theorem repeated_parameter_refused :
    ¬ (validateTwilioSignature plainValidator repeatedDigits exampleSettings = .ok () ↔
      ∃ s, repeatedDigits.signature = some s ∧
        plainValidator.Signs exampleSettings.twilioAuthToken
          (publicUrl repeatedDigits exampleSettings) repeatedDigits.form s) := by
  have hrefused : validateTwilioSignature plainValidator repeatedDigits exampleSettings =
      .error ⟨403, "invalid signature"⟩ := by decide +kernel
  have hsigned : plainValidator.Signs exampleSettings.twilioAuthToken
      (publicUrl repeatedDigits exampleSettings) repeatedDigits.form
      "sha1:secrethttps://example.org/voice/incomingCallSidCA1Digits1Digits2" :=
    .inl (by decide +kernel)
  intro h
  have hok := h.mpr ⟨_, rfl, hsigned⟩
  rw [hrefused] at hok
  cases hok

/-- A form whose repeated name has one value only. -/
def repeatedValue : WebhookRequest where
  path := "/voice/incoming"
  form := [("A", "1"), ("A", "1")]

/-- It is let through with Twilio's signature. -/
theorem signature_check_repeated_value :
    validateTwilioSignature plainValidator
      { repeatedValue with
        signature := some "sha1:secrethttps://example.org/voice/incomingA1" }
      exampleSettings = .ok () := by
  have hsigned : plainValidator.Signs exampleSettings.twilioAuthToken
      (publicUrl repeatedValue exampleSettings) repeatedValue.form
      "sha1:secrethttps://example.org/voice/incomingA1" := .inl (by decide +kernel)
  have hiff := (@signature_check_iff plainValidator repeatedValue exampleSettings rfl
    (by decide)).mpr (by decide +kernel)
  exact (hiff _).mpr ⟨_, rfl, hsigned⟩

end VoiceAgent
