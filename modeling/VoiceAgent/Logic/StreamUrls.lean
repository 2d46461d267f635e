import VoiceAgent.Lib.Replace
import VoiceAgent.Model.FrontDoor

/-!
# The URL of the media stream

What the two replacements of `_public_ws_url` make of the base URL's characters: an
occurrence of `https://` or of `http://`, wherever it stands, and nothing else.
-/

namespace VoiceAgent

open Lib.Replace

/-- The replacements, one after the other. -/
def wsChars (base : List Char) : List Char :=
  replaceAll "http://".toList "ws://".toList (replaceAll "https://".toList "wss://".toList base)

theorem https_ne_nil : "https://".toList ≠ [] := by simp

theorem http_ne_nil : "http://".toList ≠ [] := by simp

theorem head?_https : "https://".toList.head? = some 'h' := rfl

theorem head?_http : "http://".toList.head? = some 'h' := rfl

theorem toList_publicWsUrl (publicBaseUrl : String) :
    (publicWsUrl publicBaseUrl).toList =
      wsChars publicBaseUrl.toList ++ "/voice/stream".toList := by
  rw [publicWsUrl, String.toList_append, toList_replace (by simp),
    toList_replace (by simp)]
  rfl

variable {cs rest : List Char}

/-- Before the first `h` nothing is replaced. -/
theorem wsChars_append {lead : List Char} (h : ∀ c ∈ lead, c ≠ 'h') (cs : List Char) :
    wsChars (lead ++ cs) = lead ++ wsChars cs := by
  rw [wsChars, replaceAll_append_of_ne head?_https h, replaceAll_append_of_ne head?_http h]
  rfl

theorem wsChars_https (rest : List Char) :
    wsChars ("https://".toList ++ rest) = "wss://".toList ++ wsChars rest := by
  have hws : ∀ c ∈ "wss://".toList, c ≠ 'h' := by simp
  rw [wsChars, replaceAll_append_match https_ne_nil, replaceAll_append_of_ne head?_http hws]
  rfl

theorem wsChars_http (rest : List Char) :
    wsChars ("http://".toList ++ rest) = "ws://".toList ++ wsChars rest := by
  have htail : ∀ c ∈ "ttp://".toList, c ≠ 'h' := by simp
  have hnot : ¬ "https://".toList <+: 'h' :: ("ttp://".toList ++ rest) := by
    rintro ⟨more, hmore⟩
    cases hmore
  have hfirst : replaceAll "https://".toList "wss://".toList ("http://".toList ++ rest) =
      "http://".toList ++ replaceAll "https://".toList "wss://".toList rest := by
    show replaceAll _ _ ('h' :: ("ttp://".toList ++ rest)) = _
    rw [replaceAll_cons_of_not hnot, replaceAll_append_of_ne head?_https htail]
    rfl
  rw [wsChars, hfirst, replaceAll_append_match http_ne_nil]
  rfl

/-- What begins with another character, and with neither of the two, keeps it. -/
theorem head?_wsChars {c : Char} (hhttps : ¬ "https://".toList <+: c :: cs)
    (hhttp : ¬ "http://".toList <+: c :: cs) : (wsChars (c :: cs)).head? = some c := by
  have hws : ("wss://".toList).head? = some 'w' := rfl
  have hno : 'w' ∉ "http://".toList := by simp
  have hnot : ¬ "http://".toList <+: replaceAll "https://".toList "wss://".toList (c :: cs) :=
    fun h => hhttp (prefix_of_replaceAll https_ne_nil hws hno h)
  rw [replaceAll_cons_of_not hhttps] at hnot
  rw [wsChars, replaceAll_cons_of_not hhttps, replaceAll_cons_of_not hnot]
  rfl

/-- A slash at the end stays there. -/
theorem getLast?_wsChars (h : cs.getLast? = some '/') : (wsChars cs).getLast? = some '/' := by
  have hws : "ws://".toList.getLast? = some '/' := rfl
  have hwss : "wss://".toList.getLast? = some '/' := rfl
  have hfirst := getLast?_replaceAll https_ne_nil hwss h
  exact getLast?_replaceAll http_ne_nil hws hfirst

/-- Nothing changes exactly where neither of the two occurs. -/
theorem wsChars_eq_self_iff :
    wsChars cs = cs ↔ ¬ "http://".toList <:+: cs ∧ ¬ "https://".toList <:+: cs := by
  have hhttp : ("ws://".toList).length < ("http://".toList).length := by simp
  have hhttps : ("wss://".toList).length < ("https://".toList).length := by simp
  constructor
  · intro heq
    have hlength := congrArg List.length heq
    have hfirst := length_replaceAll_le https_ne_nil (Nat.le_of_lt hhttps) cs
    have hsecond := length_replaceAll_le http_ne_nil (Nat.le_of_lt hhttp)
      (replaceAll "https://".toList "wss://".toList cs)
    rw [wsChars] at hlength
    have hnone := (length_replaceAll_eq_iff https_ne_nil hhttps cs).mp (by omega)
    rw [replaceAll_of_no_occurrence hnone] at hlength
    exact ⟨(length_replaceAll_eq_iff http_ne_nil hhttp cs).mp hlength, hnone⟩
  · rintro ⟨hnone, hnone'⟩
    rw [wsChars, replaceAll_of_no_occurrence hnone', replaceAll_of_no_occurrence hnone]

end VoiceAgent
