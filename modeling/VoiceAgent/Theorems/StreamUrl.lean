import Mathlib.Data.List.DropRight
import Mathlib.Data.List.TakeWhile
import VoiceAgent.Logic.StreamUrls
import VoiceAgent.Model.BaseUrl
import VoiceAgent.Model.Security

/-!
# The stream's URL and the URL that is signed

Both begin with `public_base_url`. The validator reads its scheme as `urlparse` does,
`_public_url` strips its slashes and `_public_ws_url` replaces two strings wherever they
occur, so the two URLs agree only where all three mean the same.
-/

namespace VoiceAgent

open Lib.Replace

/-! ## The scheme of a URL -/

/-- The scheme as `urlparse` reads what is before the first `:`. -/
def schemeOf (named : List Char) : List Char :=
  (named.filter fun c => !isUnsafe c).map Char.toLower

/-- What replaces an accepted scheme. -/
def swapped (named : List Char) : List Char :=
  if schemeOf named = "https".toList then "wss".toList
  else if schemeOf named = "http".toList then "ws".toList
  else named

/-- The URL with `ws` for `http` and `wss` for `https`, and every other character as it
was. -/
def swapScheme (url : String) : String :=
  let body := url.toList.dropWhile isC0OrSpace
  let named := body.takeWhile (· != ':')
  String.ofList
    (url.toList.takeWhile isC0OrSpace ++ (swapped named ++ body.drop named.length))

theorem takeWhile_colon {named : List Char} (h : ':' ∉ named) (rest : List Char) :
    (named ++ ':' :: rest).takeWhile (· != ':') = named := by
  have hkeep : ∀ c ∈ named, (c != ':') = true := by
    intro c hc
    rw [bne_iff_ne]
    intro heq
    exact h (heq ▸ hc)
  rw [List.takeWhile_append_of_pos hkeep, List.takeWhile_cons_of_neg (by decide),
    List.append_nil]

/-- A URL in the parts that `urlparse` finds, with a scheme that is accepted. -/
structure SplitUrl where
  lead : List Char
  named : List Char
  rest : List Char
  lead_space : ∀ c ∈ lead, isC0OrSpace c = true
  named_head : ∀ c ∈ named.head?, isC0OrSpace c = false
  no_colon : ':' ∉ named
  accepted : schemeOf named = "https".toList ∨ schemeOf named = "http".toList

namespace SplitUrl

def chars (url : SplitUrl) : List Char := url.lead ++ (url.named ++ ':' :: url.rest)

variable (url : SplitUrl)

theorem named_ne_nil : url.named ≠ [] := by
  intro hnil
  have haccepted := url.accepted
  rw [hnil] at haccepted
  exact absurd haccepted (by decide)

/-- The scheme begins with an `h` of either case. -/
theorem exists_named_head :
    ∃ c tail, url.named = c :: tail ∧ c.toLower = 'h' := by
  obtain ⟨c, tail, hnamed⟩ := List.exists_cons_of_ne_nil url.named_ne_nil
  refine ⟨c, tail, hnamed, ?_⟩
  have hspace := url.named_head c (by rw [hnamed]; rfl)
  have hsafe : isUnsafe c = false := by
    rw [Bool.eq_false_iff]
    intro hunsafe
    rw [isUnsafe, Bool.or_eq_true, Bool.or_eq_true, beq_iff_eq, beq_iff_eq, beq_iff_eq]
      at hunsafe
    obtain (rfl | rfl) | rfl := hunsafe <;> cases hspace
  have hscheme : schemeOf url.named = c.toLower :: schemeOf tail := by
    rw [hnamed, schemeOf, List.filter_cons_of_pos (by rw [hsafe]; rfl), List.map_cons]
    rfl
  rcases url.accepted with h | h
  all_goals
    rw [hscheme] at h
    exact (List.cons.inj h).1

theorem dropWhile_chars : url.chars.dropWhile isC0OrSpace = url.named ++ ':' :: url.rest := by
  obtain ⟨c, tail, hnamed, -⟩ := url.exists_named_head
  have hspace := url.named_head c (by rw [hnamed]; rfl)
  rw [chars, List.dropWhile_append_of_pos url.lead_space, hnamed, List.cons_append,
    List.dropWhile_cons_of_neg (by rw [hspace]; decide)]

theorem takeWhile_chars : url.chars.takeWhile isC0OrSpace = url.lead := by
  obtain ⟨c, tail, hnamed, -⟩ := url.exists_named_head
  have hspace := url.named_head c (by rw [hnamed]; rfl)
  rw [chars, List.takeWhile_append_of_pos url.lead_space, hnamed, List.cons_append,
    List.takeWhile_cons_of_neg (by rw [hspace]; decide), List.append_nil]

theorem toList_swapScheme {s : String} (h : s.toList = url.chars) :
    (swapScheme s).toList = url.lead ++ (swapped url.named ++ ':' :: url.rest) := by
  unfold swapScheme
  rw [h, dropWhile_chars, takeWhile_chars]
  dsimp only
  rw [takeWhile_colon url.no_colon, String.toList_ofList, List.drop_left]

end SplitUrl

/-- Before the first colon, the unsafe characters can be left out as well afterwards. -/
theorem takeWhile_filter_safe (body : List Char) :
    (body.filter fun c => !isUnsafe c).takeWhile (· != ':') =
      (body.takeWhile (· != ':')).filter fun c => !isUnsafe c := by
  have hcolon : (fun c => !!isUnsafe c || c != ':') = (· != ':') := by
    funext c
    by_cases hc : c = ':'
    · subst hc
      rfl
    · have hne : (c != ':') = true := bne_iff_ne.mpr hc
      rw [hne, Bool.or_true]
  rw [List.takeWhile_filter, hcolon]

/-- The scheme that `urlparse` finds. -/
theorem scheme_urlparse {checkNetloc : String → Except String Unit} {url : String}
    {parsed : ParseResult} (h : urlparse checkNetloc url = .ok parsed)
    (hscheme : parsed.scheme ≠ "") :
    ':' ∈ url.toList.dropWhile isC0OrSpace ∧
      parsed.scheme.toList =
        schemeOf ((url.toList.dropWhile isC0OrSpace).takeWhile (· != ':')) := by
  rw [urlparse, takeWhile_filter_safe] at h
  generalize url.toList.dropWhile isC0OrSpace = body at h ⊢
  simp only [bind, Except.bind, pure, Except.pure] at h
  split at h
  case h_1 => cases h
  case h_2 =>
    cases h
    dsimp only at hscheme ⊢
    split
    case isTrue hnamed =>
      rw [Bool.and_eq_true, Bool.and_eq_true, List.contains_iff_mem, List.mem_filter] at hnamed
      exact ⟨hnamed.1.1.1, String.toList_ofList⟩
    case isFalse hnamed =>
      rw [if_neg hnamed] at hscheme
      exact absurd rfl hscheme

/-- The validator accepts two schemes. -/
theorem exists_parsed {checkNetloc : String → Except String Unit} {settings : Settings}
    (h : settings.validatePublicBaseUrl checkNetloc = .ok ()) :
    ∃ parsed, urlparse checkNetloc settings.publicBaseUrl = .ok parsed ∧
      (parsed.scheme = "http" ∨ parsed.scheme = "https") := by
  cases hparsed : urlparse checkNetloc settings.publicBaseUrl with
  | error e =>
      rw [Settings.validatePublicBaseUrl, hparsed] at h
      cases h
  | ok parsed =>
      refine ⟨parsed, rfl, ?_⟩
      by_contra hnot
      have hrefused : parsed.scheme ∉ ["http", "https"] := by simpa using hnot
      rw [Settings.validatePublicBaseUrl, hparsed] at h
      change (if _ then _ else _) = _ at h
      rw [if_pos (.inl hrefused)] at h
      cases h

/-- What `Settings` accepts has these parts. -/
theorem exists_splitUrl {checkNetloc : String → Except String Unit} {settings : Settings}
    (h : settings.validatePublicBaseUrl checkNetloc = .ok ()) :
    ∃ url : SplitUrl, settings.publicBaseUrl.toList = url.chars := by
  obtain ⟨parsed, hparsed, hscheme⟩ := exists_parsed h
  have hne : parsed.scheme ≠ "" := by
    obtain hscheme | hscheme := hscheme
    all_goals
      rw [hscheme]
      decide
  obtain ⟨hcolon, heq⟩ := scheme_urlparse hparsed hne
  have hspace := List.head?_dropWhile_not isC0OrSpace settings.publicBaseUrl.toList
  have hbase := @List.takeWhile_append_dropWhile _ isC0OrSpace settings.publicBaseUrl.toList
  generalize settings.publicBaseUrl.toList.dropWhile isC0OrSpace = body at hcolon heq hspace hbase
  obtain ⟨named, rest, rfl, hnocolon⟩ := List.eq_append_cons_of_mem hcolon
  rw [takeWhile_colon hnocolon] at heq
  have haccepted : schemeOf named = "https".toList ∨ schemeOf named = "http".toList := by
    rw [← heq, String.toList_inj, String.toList_inj]
    exact hscheme.symm
  have hhead : ∀ c ∈ named.head?, isC0OrSpace c = false := by
    intro c hc
    obtain ⟨tail, rfl⟩ := List.head?_eq_some_iff.mp (Option.mem_def.mp hc)
    exact hspace
  exact ⟨{
    lead := settings.publicBaseUrl.toList.takeWhile isC0OrSpace
    named, rest
    lead_space := fun c => List.mem_takeWhile_imp
    named_head := hhead
    no_colon := hnocolon
    accepted := haccepted }, hbase.symm⟩

/-! ## The two URLs -/

theorem toList_rstripSlash (s : String) :
    (rstripSlash s).toList = s.toList.rdropWhile (· == '/') := by
  rw [rstripSlash, String.toList_ofList]
  rfl

/-- Nothing before another character is stripped. -/
theorem rdropWhile_append_cons {c : Char} (h : c ≠ '/') (before after : List Char) :
    (before ++ c :: after).rdropWhile (· == '/') =
      before ++ c :: after.rdropWhile (· == '/') := by
  induction after using List.reverseRecOn with
  | nil =>
      rw [List.rdropWhile_nil, List.rdropWhile_concat_neg]
      rw [beq_iff_eq]
      exact h
  | append_singleton after d ih =>
      rw [← List.cons_append, ← List.append_assoc]
      by_cases hd : d = '/'
      · have hslash : (d == '/') = true := beq_iff_eq.mpr hd
        rw [List.rdropWhile_concat_pos (· == '/') _ d hslash, ih,
          List.rdropWhile_concat_pos (· == '/') _ d hslash]
      · have hkeep : ¬ (d == '/') = true := mt beq_iff_eq.mp hd
        rw [List.rdropWhile_concat_neg (· == '/') _ d hkeep,
          List.rdropWhile_concat_neg (· == '/') _ d hkeep, List.append_assoc, List.cons_append]

/-- The request for the media stream. -/
def streamRequest : WebhookRequest := { path := "/voice/stream" }

/-- The URL as it is signed, with its scheme replaced. -/
theorem toList_swapScheme_publicUrl {settings : Settings} {url : SplitUrl}
    (h : settings.publicBaseUrl.toList = url.chars) :
    (swapScheme (publicUrl streamRequest settings)).toList =
      url.lead ++ (swapped url.named ++ ':' :: url.rest.rdropWhile (· == '/')) ++
        "/voice/stream".toList := by
  have hchars : (publicUrl streamRequest settings).toList =
      SplitUrl.chars { url with
        rest := url.rest.rdropWhile (· == '/') ++ "/voice/stream".toList } := by
    show (rstripSlash settings.publicBaseUrl ++ "/voice/stream" ++ "").toList = _
    rw [String.append_empty, String.toList_append, toList_rstripSlash, h, SplitUrl.chars,
      ← List.append_assoc, rdropWhile_append_cons (by decide)]
    simp only [SplitUrl.chars, List.append_assoc, List.cons_append]
  rw [SplitUrl.toList_swapScheme _ hchars]
  simp only [List.append_assoc, List.cons_append]

/-- The base URL begins with a scheme as `_public_ws_url` looks for it, names neither of
the two again and does not end with a slash. -/
def LiteralBase (base : String) : Prop :=
  base.toList.getLast? ≠ some '/' ∧
    ∃ scheme ∈ ["https://", "http://"], ∃ rest,
      base.toList.dropWhile isC0OrSpace = scheme.toList ++ rest ∧
        ¬ "http://".toList <:+: rest ∧ ¬ "https://".toList <:+: rest

/-- The stream's URL, in the parts of the base. -/
theorem toList_publicWsUrl_split {base : String} {url : SplitUrl}
    (h : base.toList = url.chars) :
    (publicWsUrl base).toList =
      url.lead ++ wsChars (url.named ++ ':' :: url.rest) ++ "/voice/stream".toList := by
  have hlead : ∀ c ∈ url.lead, c ≠ 'h' := by
    intro c hc heq
    have hspace := url.lead_space c hc
    rw [heq] at hspace
    exact absurd hspace (by decide)
  rw [toList_publicWsUrl, h, SplitUrl.chars, wsChars_append hlead]

/-- The two URLs, without what they have in common. -/
theorem publicWsUrl_eq_iff {settings : Settings} {url : SplitUrl}
    (h : settings.publicBaseUrl.toList = url.chars) :
    publicWsUrl settings.publicBaseUrl = swapScheme (publicUrl streamRequest settings) ↔
      wsChars (url.named ++ ':' :: url.rest) =
        swapped url.named ++ ':' :: url.rest.rdropWhile (· == '/') := by
  rw [← String.toList_inj, toList_publicWsUrl_split h, toList_swapScheme_publicUrl h,
    List.append_left_inj, List.append_right_inj]

/-- A text without a slash at its end keeps its length, and no other. -/
theorem rdropWhile_slash_eq_self_iff (cs : List Char) :
    cs.rdropWhile (· == '/') = cs ↔ cs.getLast? ≠ some '/' := by
  rw [List.rdropWhile_eq_self_iff]
  constructor
  · intro h hlast
    obtain ⟨front, rfl⟩ := List.getLast?_eq_some_iff.mp hlast
    apply h (List.append_ne_nil_of_right_ne_nil front (List.cons_ne_nil '/' []))
    rw [List.getLast_append_singleton]
    rfl
  · intro h hne heq
    apply h
    rw [List.getLast?_eq_some_getLast hne, beq_iff_eq.mp heq]

/-- After a scheme that is spelled out, the replacements do what the strip does exactly
where neither changes anything. -/
theorem wsChars_eq_strip_iff (z : List Char) :
    "//".toList ++ wsChars z = ("//".toList ++ z).rdropWhile (· == '/') ↔
      ("//".toList ++ z).getLast? ≠ some '/' ∧
        ¬ "http://".toList <:+: z ∧ ¬ "https://".toList <:+: z := by
  have hslashes : ∀ c ∈ "//".toList, c ≠ 'h' := by simp
  rw [← wsChars_eq_self_iff]
  constructor
  · intro h
    have hlast : ("//".toList ++ z).getLast? ≠ some '/' := by
      intro hslash
      -- the replacements keep the slash that the strip takes away
      have hkept := getLast?_wsChars hslash
      rw [wsChars_append hslashes, h] at hkept
      exact (rdropWhile_slash_eq_self_iff _).mp (List.rdropWhile_idempotent ..) hkept
    rw [(rdropWhile_slash_eq_self_iff _).mpr hlast] at h
    exact ⟨hlast, List.append_cancel_left h⟩
  · rintro ⟨hlast, hself⟩
    rw [(rdropWhile_slash_eq_self_iff _).mpr hlast, hself]

section

variable {base : String} {url : SplitUrl} {z : List Char}

/-- A scheme that is spelled out, and what the replacements make of it. -/
theorem wsChars_named_iff {scheme : List Char} (hbase : base.toList = url.chars)
    (hcolon : ':' ∉ scheme)
    (hbody : url.named ++ ':' :: url.rest = scheme ++ ':' :: ("//".toList ++ z))
    (hws : wsChars (scheme ++ ':' :: ("//".toList ++ z)) =
      swapped scheme ++ ':' :: ("//".toList ++ wsChars z)) :
    wsChars (url.named ++ ':' :: url.rest) =
        swapped url.named ++ ':' :: url.rest.rdropWhile (· == '/') ↔
      base.toList.getLast? ≠ some '/' ∧
        ¬ "http://".toList <:+: z ∧ ¬ "https://".toList <:+: z := by
  have hname : url.named = scheme := by
    rw [← takeWhile_colon url.no_colon url.rest, hbody, takeWhile_colon hcolon]
  rw [hname] at hbody
  have hrest := (List.cons.inj (List.append_cancel_left hbody)).2
  have hlast : base.toList.getLast? = ("//".toList ++ z).getLast? := by
    have hslashes : ("//".toList ++ z).getLast? = some (("/".toList ++ z).getLast?.getD '/') :=
      List.getLast?_cons
    rw [hbase, SplitUrl.chars, hname, hrest, List.getLast?_append, List.getLast?_append,
      List.getLast?_cons, hslashes]
    rfl
  rw [hname, hrest, hws, List.append_right_inj, List.cons_inj_right, wsChars_eq_strip_iff, hlast]

theorem wsChars_literal_iff {scheme : String} (hbase : base.toList = url.chars)
    (hscheme : scheme ∈ ["https://", "http://"])
    (hbody : url.named ++ ':' :: url.rest = scheme.toList ++ z) :
    wsChars (url.named ++ ':' :: url.rest) =
        swapped url.named ++ ':' :: url.rest.rdropWhile (· == '/') ↔
      base.toList.getLast? ≠ some '/' ∧
        ¬ "http://".toList <:+: z ∧ ¬ "https://".toList <:+: z := by
  rw [List.mem_cons, List.mem_singleton] at hscheme
  obtain rfl | rfl := hscheme
  · have hno : ':' ∉ "https".toList := by decide
    exact wsChars_named_iff hbase hno hbody (wsChars_https z)
  · have hno : ':' ∉ "http".toList := by decide
    exact wsChars_named_iff hbase hno hbody (wsChars_http z)

/-- Only a scheme that is spelled out is replaced. -/
theorem exists_literal {after : List Char}
    (h : wsChars (url.named ++ ':' :: url.rest) = swapped url.named ++ after) :
    ∃ scheme ∈ ["https://", "http://"], ∃ z,
      url.named ++ ':' :: url.rest = scheme.toList ++ z := by
  obtain ⟨c, tail, hnamed, hlower⟩ := url.exists_named_head
  by_cases hhttps : "https://".toList <+: url.named ++ ':' :: url.rest
  · obtain ⟨z, hz⟩ := hhttps
    exact ⟨_, List.mem_cons_self, z, hz.symm⟩
  by_cases hhttp : "http://".toList <+: url.named ++ ':' :: url.rest
  · obtain ⟨z, hz⟩ := hhttp
    exact ⟨_, List.mem_cons_of_mem _ List.mem_cons_self, z, hz.symm⟩
  -- otherwise the first letter stays, which is no `w`
  have hw : (swapped url.named ++ after).head? = some 'w' := by
    rcases url.accepted with haccepted | haccepted
    · rw [swapped, if_pos haccepted]
      rfl
    · have hne : schemeOf url.named ≠ "https".toList := by
        rw [haccepted]
        decide
      rw [swapped, if_neg hne, if_pos haccepted]
      rfl
  rw [hnamed, List.cons_append] at h hhttps hhttp
  rw [hnamed, ← h, head?_wsChars hhttps hhttp, Option.some.injEq] at hw
  rw [hw] at hlower
  exact absurd hlower (by decide)

end

/-- **One base.** For every base URL that `Settings` accepts: the stream's URL is the URL
that is signed for its path, with the scheme replaced, if and only if the base URL has its
scheme in lower case followed by `//`, has neither `http://` nor `https://` again later,
and does not end with a slash. -/
theorem stream_url_iff (checkNetloc : String → Except String Unit) {settings : Settings}
    (haccepted : settings.validatePublicBaseUrl checkNetloc = .ok ()) :
    publicWsUrl settings.publicBaseUrl = swapScheme (publicUrl streamRequest settings) ↔
      LiteralBase settings.publicBaseUrl := by
  obtain ⟨url, hurl⟩ := exists_splitUrl haccepted
  rw [publicWsUrl_eq_iff hurl]
  constructor
  · intro h
    obtain ⟨scheme, hscheme, z, hbody⟩ := exists_literal h
    obtain ⟨hlast, hnone⟩ := (wsChars_literal_iff hurl hscheme hbody).mp h
    exact ⟨hlast, scheme, hscheme, z, by rw [hurl, url.dropWhile_chars, hbody], hnone⟩
  · rintro ⟨hlast, scheme, hscheme, z, hbody, hnone⟩
    rw [hurl, url.dropWhile_chars] at hbody
    exact (wsChars_literal_iff hurl hscheme hbody).mpr ⟨hlast, hnone⟩

/-- A slash at the end is stripped from the one and stays in the other. -/
theorem trailing_slash_doubled :
    ¬ ∀ settings : Settings, settings.validatePublicBaseUrl (fun _ => .ok ()) = .ok () →
      publicWsUrl settings.publicBaseUrl = swapScheme (publicUrl streamRequest settings) := by
  intro h
  have heq := h { publicBaseUrl := "https://example.org/" } (by decide +kernel)
  rw [← String.toList_inj, toList_publicWsUrl] at heq
  revert heq
  decide +kernel

/-- A host and a port. -/
theorem stream_url_localhost :
    publicWsUrl "http://localhost:8000" = swapScheme (publicUrl streamRequest {}) :=
  (@stream_url_iff (fun _ => .ok ()) {} (by decide +kernel)).mpr
    ⟨by decide +kernel, "http://", by decide, "localhost:8000".toList, by decide +kernel,
      by decide +kernel, by decide +kernel⟩

end VoiceAgent
