import VoiceAgent.Lib.Xml
import VoiceAgent.Logic.StreamUrls

/-!
# The identity of a call in its TwiML

The two strings of the form stand in attribute values as they came. What reads the
document finds them again exactly where no character of theirs means something else in
such a value.
-/

namespace VoiceAgent

open Lib.Xml

/-! ## What the document should say -/

def parameterEvents (name value : String) : List Event :=
  [.startElement "Parameter" [("name", name), ("value", value)], .endElement "Parameter"]

/-- One stream with the two parameters and nothing else. -/
def callEvents (url callSid fromNumber : String) : List Event :=
  [.startElement "Response" [], .startElement "Connect" [],
    .startElement "Stream" [("url", url)]] ++
  (parameterEvents "callSid" callSid ++ (parameterEvents "from" fromNumber ++
  [.endElement "Stream", .endElement "Connect", .endElement "Response"]))

/-- `customParameters` of a stream: the parameters of its document. -/
def customParameters (evs : List Event) : List (String × PyVal) :=
  evs.filterMap fun e =>
    match e with
    | .startElement "Parameter" attrs => do
        let name ← attrs.lookup "name"
        let value ← attrs.lookup "value"
        return (name, .str value)
    | _ => none

/-- The first frame of a stream. -/
def startMessage (streamSid : String) (params : List (String × PyVal)) : PyVal :=
  .dict [("event", .str "start"),
    ("start", .dict [("streamSid", .str streamSid), ("customParameters", .dict params)])]

/-- The document is well-formed and carries the two strings to `_run_media_stream`. -/
def CarriesIdentity (publicBaseUrl callSid fromNumber twiml : String) : Prop :=
  ∃ url, Value.unescape (publicWsUrl publicBaseUrl).toList = some url ∧
    events twiml = some (callEvents (String.ofList url) callSid fromNumber) ∧
    ∀ created streamSid, runMediaStream created (startMessage streamSid
        (customParameters (callEvents (String.ofList url) callSid fromNumber))) =
      .ok (.start {
        streamSid
        callSid := if callSid = "" then streamSid else callSid
        fromNumber })

/-- No character that means something else in an attribute value. -/
def Plain (s : String) : Prop := ∀ c ∈ s.toList, Value.plain c = true

instance (s : String) : Decidable (Plain s) :=
  List.decidableBAll (fun c => Value.plain c = true) s.toList

/-! ## The document in parts -/

/-- Before the stream's URL. -/
def toUrl : List Char :=
  ("<?xml version=\"1.0\" encoding=\"UTF-8\"?>\n" ++ "<Response>\n" ++ "  <Connect>\n" ++
    "    <Stream url=\"").toList

/-- From the URL's tag to the first string. -/
def toCallSid : List Char := ("\n" ++ "      <Parameter name=\"callSid\" value=\"").toList

/-- From the first string's tag to the second string. -/
def toFrom : List Char := ("\n" ++ "      <Parameter name=\"from\" value=\"").toList

/-- What follows the second string's tag. -/
def toEnd : List Char := ("\n" ++ "    </Stream>\n" ++ "  </Connect>\n" ++ "</Response>").toList

/-- From the end of a string on. -/
def afterString (rest : List Char) : List Char := '"' :: ' ' :: '/' :: '>' :: rest

theorem toList_connectTwiml (publicBaseUrl callSid fromNumber : String) :
    (connectTwiml publicBaseUrl ⟨some callSid, some fromNumber⟩).toList =
      toUrl ++ ((publicWsUrl publicBaseUrl).toList ++ '"' :: '>' :: (toCallSid ++
        (callSid.toList ++ afterString (toFrom ++
          (fromNumber.toList ++ afterString toEnd))))) := by
  have htag (rest : List Char) :
      "\">\n".toList ++ rest = '"' :: '>' :: ("\n".toList ++ rest) := rfl
  have hempty (rest : List Char) :
      "\" />\n".toList ++ rest = '"' :: ' ' :: '/' :: '>' :: ("\n".toList ++ rest) := rfl
  unfold connectTwiml toUrl toCallSid toFrom toEnd afterString
  rw [Option.getD_some, Option.getD_some]
  simp only [String.toList_append, List.append_assoc]
  simp only [htag, hempty]

/-- The elements around the stream. -/
def outside : List (List Char) := ["Connect".toList, "Response".toList]

/-- In the stream's URL. -/
def atUrl : State := ⟨.tag ⟨"Stream".toList, []⟩ (.value "url".toList '"' {}), outside, true⟩

/-- Between the tags in the stream. -/
def inStream : State := ⟨.text false 0, "Stream".toList :: outside, true⟩

/-- In the value of a parameter. -/
def atValue (name : String) : State :=
  ⟨.tag ⟨"Parameter".toList, [("name".toList, name.toList)]⟩ (.value "value".toList '"' {}),
    "Stream".toList :: outside, true⟩

theorem steps_toUrl : steps {} toUrl =
    some (atUrl, [.startElement "Response" [], .startElement "Connect" []]) := by
  decide +kernel

theorem steps_toCallSid : steps inStream toCallSid = some (atValue "callSid", []) := by
  decide +kernel

theorem steps_toFrom : steps inStream toFrom = some (atValue "from", []) := by
  decide +kernel

theorem run_toEnd : run inStream toEnd =
    some [.endElement "Stream", .endElement "Connect", .endElement "Response"] := by
  decide +kernel

/-! ## The stream's URL -/

/-- A plain text with a slash may stand outside a reference, and cuts one. -/
theorem refAfter_slash {before after : List Char}
    (hplain : (before ++ '/' :: after).all Value.plain = true) (hbefore : ';' ∉ before)
    (ref : Option (List Char)) :
    Value.refAfter ref (before ++ '/' :: after) = if ref = none then some none else none := by
  cases ref with
  | none => exact Value.refAfter_plain (List.all_eq_true.mp hplain)
  | some name =>
      have hslash : (isNameChar '/' || '/' == '#') = false := by decide
      exact Value.refAfter_cut hbefore (by simp) hslash name

/-- Where the pattern and its replacement may stand alike, the texts may. -/
theorem refAfter_replaceAll {pat rep : List Char} (hpat : pat ≠ [])
    (hsame : ∀ ref, Value.refAfter ref pat = Value.refAfter ref rep)
    (ref : Option (List Char)) (cs : List Char) :
    Value.refAfter ref (Lib.Replace.replaceAll pat rep cs) = Value.refAfter ref cs := by
  induction cs using Lib.Replace.replaceAll_induction hpat generalizing ref with
  | nil => rfl
  | found cs ih =>
      rw [Lib.Replace.replaceAll_append_match hpat, Value.refAfter_append, Value.refAfter_append,
        hsame]
      simp only [ih]
  | kept c cs hnot ih =>
      rw [Lib.Replace.replaceAll_cons_of_not hnot, Value.refAfter_cons,
        Value.refAfter_cons ref c cs]
      simp only [ih]

/-- The stream's URL is a legal value where the base URL is. -/
theorem isSome_unescape_publicWsUrl (publicBaseUrl : String) :
    (Value.unescape (publicWsUrl publicBaseUrl).toList).isSome = true ↔
      (Value.unescape publicBaseUrl.toList).isSome = true := by
  have hhttps (ref : Option (List Char)) : Value.refAfter ref "https://".toList =
      Value.refAfter ref "wss://".toList := by
    show Value.refAfter ref ("https:".toList ++ '/' :: ['/']) =
      Value.refAfter ref ("wss:".toList ++ '/' :: ['/'])
    rw [refAfter_slash rfl (by simp), refAfter_slash rfl (by simp)]
  have hhttp (ref : Option (List Char)) : Value.refAfter ref "http://".toList =
      Value.refAfter ref "ws://".toList := by
    show Value.refAfter ref ("http:".toList ++ '/' :: ['/']) =
      Value.refAfter ref ("ws:".toList ++ '/' :: ['/'])
    rw [refAfter_slash rfl (by simp), refAfter_slash rfl (by simp)]
  have hpath (ref : Option (List Char)) : Value.refAfter ref "/voice/stream".toList =
      if ref = none then some none else none := by
    show Value.refAfter ref ([] ++ '/' :: "voice/stream".toList) = _
    exact refAfter_slash rfl List.not_mem_nil ref
  rw [Value.isSome_unescape_iff, Value.isSome_unescape_iff, toList_publicWsUrl,
    Value.refAfter_append, wsChars, refAfter_replaceAll http_ne_nil hhttp,
    refAfter_replaceAll https_ne_nil hhttps]
  cases Value.refAfter none publicBaseUrl.toList with
  | none => rw [Option.bind_none]
  | some ref =>
      rw [Option.bind_some, hpath, Option.some.injEq]
      by_cases hnone : ref = none
      · rw [if_pos hnone]
        exact iff_of_true rfl hnone
      · rw [if_neg hnone]
        exact iff_of_false (by simp) hnone

/-! ## One parameter -/

section

variable {name value : String} {rest : List Char} {evs : List Event}

/-- A plain string is read as it is. -/
theorem run_plain (h : Plain value) :
    run (atValue name) (value.toList ++ afterString rest) =
      (run inStream rest).map (parameterEvents name value ++ ·) := by
  have hnew : "value".toList ∉ ["name".toList] := by decide
  rw [atValue, run_value (Value.foldlM_plain h []), afterString, run_quote rfl hnew, run_empty]
  simp only [strings, List.cons_append, List.nil_append, List.map_cons, List.map_nil,
    String.ofList_toList]
  rfl

/-- A string that is read as it is is plain. -/
theorem plain_of_run (h : run (atValue name) (value.toList ++ afterString rest) =
    some (parameterEvents name value ++ evs)) : Plain value := by
  obtain ⟨taken, v, rest', hprefix, hfold, hrun⟩ := value_of_run h
  obtain ⟨tag, attrs, later, heq, hattrs⟩ := start_of_run hrun
  -- the element's second attribute is what was read of the string
  have hvalue : String.ofList v.chars = value := by
    obtain ⟨more, rfl⟩ := hattrs
    have hstart := (List.cons.inj heq).1
    simp only [Event.startElement.injEq, strings, List.cons_append, List.nil_append,
      List.map_cons, List.cons.injEq, Prod.mk.injEq] at hstart
    exact hstart.2.2.1.2.symm
  have hchars : v.chars = value.toList := by rw [← hvalue, String.toList_ofList]
  have hlength := (Value.foldlM_chars hfold).1
  obtain rfl : taken = value.toList := by
    apply hprefix.eq_of_length_le
    rw [← hchars]
    simpa using hlength
  exact Value.plain_of_unescaped rfl hfold hchars

end

/-! ## The document -/

/-- Up to the first string. -/
theorem run_connectTwiml {publicBaseUrl : String} {url : List Char}
    (h : Value.unescape (publicWsUrl publicBaseUrl).toList = some url)
    (callSid fromNumber : String) :
    events (connectTwiml publicBaseUrl ⟨some callSid, some fromNumber⟩) =
      (run (atValue "callSid") (callSid.toList ++ afterString (toFrom ++
        (fromNumber.toList ++ afterString toEnd)))).map
          ([.startElement "Response" [], .startElement "Connect" [],
            .startElement "Stream" [("url", String.ofList url)]] ++ ·) := by
  obtain ⟨v, hfold, href, rfl⟩ := Value.exists_of_unescape h
  have hnew : "url".toList ∉ ([] : List (List Char)) := List.not_mem_nil
  rw [events, toList_connectTwiml, run_append steps_toUrl, atUrl, run_value hfold,
    run_quote href hnew, run_open]
  show Option.map _ (Option.map _ (run inStream (toCallSid ++ _))) = _
  rw [run_append steps_toCallSid, Option.map_map, Option.map_map]
  rfl

theorem map_append_eq_some {evs l : List Event} {x : Option (List Event)}
    (h : x.map (evs ++ ·) = some (evs ++ l)) : x = some l := by
  obtain ⟨l', rfl, heq⟩ := Option.map_eq_some_iff.mp h
  rw [List.append_cancel_left heq]

/-- The handler of the stream reads the two strings back. -/
theorem runMediaStream_call (url callSid fromNumber streamSid : String) (created : Bool) :
    runMediaStream created (startMessage streamSid
        (customParameters (callEvents url callSid fromNumber))) =
      .ok (.start {
        streamSid
        callSid := if callSid = "" then streamSid else callSid
        fromNumber }) := by
  have hparams : customParameters (callEvents url callSid fromNumber) =
      [("callSid", .str callSid), ("from", .str fromNumber)] := rfl
  rw [hparams]
  by_cases hempty : callSid = ""
  · subst hempty
    rfl
  · have htruthy : PyVal.truthy (.str callSid) = true := by
      rw [PyVal.truthy, bne_iff_ne]
      exact hempty
    have hget : PyVal.getOr (.dict [("callSid", .str callSid), ("from", .str fromNumber)])
        "callSid" (.str streamSid) = .ok (.str callSid) := by
      show Except.ok (if PyVal.truthy (.str callSid) then PyVal.str callSid else _) = _
      rw [if_pos htruthy]
    show (do
      let callSid ← PyVal.getOr (.dict [("callSid", .str callSid), ("from", .str fromNumber)])
        "callSid" (.str streamSid)
      return FrameStep.start { streamSid, callSid := callSid.toStr, fromNumber }) = _
    rw [hget, if_neg hempty]
    rfl

/-- Only plain strings are read back. -/
theorem plain_of_carries {publicBaseUrl callSid fromNumber : String}
    (h : CarriesIdentity publicBaseUrl callSid fromNumber
      (connectTwiml publicBaseUrl ⟨some callSid, some fromNumber⟩)) :
    Plain callSid ∧ Plain fromNumber := by
  obtain ⟨url, hurl, hevents, -⟩ := h
  rw [run_connectTwiml hurl] at hevents
  have hfirst := map_append_eq_some hevents
  have hcallSid := plain_of_run hfirst
  refine ⟨hcallSid, ?_⟩
  rw [run_plain hcallSid, run_append steps_toFrom, Option.map_map] at hfirst
  exact plain_of_run (map_append_eq_some hfirst)

/-- **The call's identity.** For every two strings posted to the webhook while the gate
is not full: its answer is well-formed XML, with one stream and exactly the two
parameters, which give `_run_media_stream` the strings that were posted, if and only if
the base URL is a legal attribute value and neither string has a quote, an ampersand, an
opening bracket, a tab, a line end or a character that XML does not allow. -/
theorem twiml_identity_iff (publicBaseUrl callSid fromNumber : String) {gate : CallGate}
    (hroom : gate.active < gate.max) :
    CarriesIdentity publicBaseUrl callSid fromNumber
        (incomingCall publicBaseUrl ⟨some callSid, some fromNumber⟩ gate) ↔
      (Value.unescape publicBaseUrl.toList).isSome = true ∧
        Plain callSid ∧ Plain fromNumber := by
  rw [incomingCall, if_neg (by omega), ← isSome_unescape_publicWsUrl]
  constructor
  · intro h
    have hplain := plain_of_carries h
    obtain ⟨url, hurl, -⟩ := h
    exact ⟨by rw [hurl]; rfl, hplain⟩
  · rintro ⟨hurl, hcallSid, hfrom⟩
    obtain ⟨url, hurl⟩ := Option.isSome_iff_exists.mp hurl
    refine ⟨url, hurl, ?_, fun created streamSid => runMediaStream_call ..⟩
    rw [run_connectTwiml hurl, run_plain hcallSid, run_append steps_toFrom, run_plain hfrom,
      run_toEnd]
    rfl

/-- An alphanumeric caller with an ampersand in its name. -/
theorem ampersand_breaks_twiml :
    ¬ CarriesIdentity "https://example.org" "CA1" "AT&T"
      (incomingCall "https://example.org" ⟨some "CA1", some "AT&T"⟩
        { sem := { value := 1 }, max := 1 }) := by
  rw [incomingCall, if_neg (by decide)]
  intro h
  exact absurd (plain_of_carries h).2 (by decide)

/-- A call from a number. -/
theorem twiml_identity_number :
    CarriesIdentity "https://example.org" "CA1" "+15550100"
      (incomingCall "https://example.org" ⟨some "CA1", some "+15550100"⟩
        { sem := { value := 1 }, max := 1 }) :=
  (twiml_identity_iff "https://example.org" "CA1" "+15550100" (by decide)).mpr
    ⟨by decide, by decide, by decide⟩

end VoiceAgent
