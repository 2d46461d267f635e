import VoiceAgent.Logic.AgentSteps

/-!
# No empty message in a request

`onResponse` appends whatever content the model returned, and content lists may
be empty; the Messages API rejects a request in which such a message is not the
last. Nor does the agent check that a user message comes first: that is the
caller's `add_user_text`. Both show only in a later request.
-/

namespace VoiceAgent

open Lib Lib.TSys

/-- The content is an empty string or an empty list. -/
def Content.isEmpty : Content → Bool
  | .text s => s.isEmpty
  | .blocks bs => bs.isEmpty
  | .toolResults rs => rs.isEmpty

/-- A request the Messages API accepts: no empty message, a user message first. -/
structure Sendable (ms : List Message) : Prop where
  nonempty : ∀ m ∈ ms, m.content.isEmpty = false
  userFirst : ∀ m, ms.head? = some m → m.role = .user

/-- User text is not blank. -/
def speaks (_ : AgentState) : AgentAct → Bool
  | .addUserText text => !blank text
  | _ => true

/-- The step appends an empty message, or puts an assistant message first. -/
def spoils (σ : AgentState) : AgentAct → Bool
  | .responds r => r.content.isEmpty || σ.agent.messages.isEmpty
  | _ => false

theorem not_empty_of_not_blank {text : String} (h : blank text = false) :
    text.isEmpty = false := by
  by_contra hne
  obtain rfl : text = "" := by simpa using hne
  simp [blank] at h

theorem Sendable.nil : Sendable [] := ⟨by simp, by simp⟩

theorem Sendable.snoc {ms : List Message} (h : Sendable ms) {m : Message}
    (hm : m.content.isEmpty = false) (hrole : ms = [] → m.role = .user) :
    Sendable (ms ++ [m]) := by
  constructor
  · intro n hn
    rcases List.mem_append.mp hn with hn | hn
    · exact h.nonempty n hn
    · obtain rfl := List.mem_singleton.mp hn
      exact hm
  · intro n hn
    cases ms with
    | nil =>
        obtain rfl : m = n := by simpa using hn
        exact hrole rfl
    | cons k ks => exact h.userFirst n (by simpa using hn)

/-- Once unsendable, a history stays so. -/
theorem not_sendable_append {ms : List Message} (h : ¬ Sendable ms) (l : List Message) :
    ¬ Sendable (ms ++ l) := by
  rintro ⟨hne, hfirst⟩
  refine h ⟨fun m hm => hne m (List.mem_append_left _ hm), fun m hm => hfirst m ?_⟩
  rw [List.head?_append, hm]
  rfl

theorem spoils_responds (σ : AgentState) (r : Response) :
    spoils σ (.responds r) = true ↔ r.content = [] ∨ σ.agent.messages = [] := by
  simp [spoils]

/-- The history after a step: unchanged, or longer by one message. -/
theorem messages_step {σ τ : AgentState} {a : AgentAct} (h : σ.Step a τ) :
    ((∀ r, a ≠ .responds r) ∧ τ.agent.messages = σ.agent.messages) ∨
    (∃ text, a = .addUserText text ∧
      τ.agent.messages = σ.agent.messages ++ [⟨.user, .text text⟩]) ∨
    (∃ r, a = .responds r ∧
      τ.agent.messages = σ.agent.messages ++ [⟨.assistant, .blocks r.content⟩]) ∨
    (∃ handler rs, a = .toolDone handler ∧ rs ≠ [] ∧
      τ.agent.messages = σ.agent.messages ++ [⟨.user, .toolResults rs⟩]) := by
  cases h with
  | tick ms => exact .inl ⟨nofun, rfl⟩
  | addUserText text hidle => exact .inr (.inl ⟨text, rfl, rfl⟩)
  | runTurn hidle => exact .inl ⟨nofun, rfl⟩
  | streamRaises hturn => exact .inl ⟨nofun, rfl⟩
  | @responds started result r agent status hturn hgo =>
      refine .inr (.inr (.inl ⟨r, rfl, ?_⟩))
      cases hgo <;> rfl
  | toolDone hturn hgo =>
      cases hgo with
      | raises hdumps => exact .inl ⟨nofun, rfl⟩
      | next hdumps => exact .inl ⟨nofun, rfl⟩
      | last hdumps => exact .inr (.inr (.inr ⟨_, _, rfl, by simp, rfl⟩))

theorem sendable_taint : agentSys.Taint (speaks · ·) (spoils · ·)
    (fun σ => Sendable σ.agent.messages) (fun σ => ¬ Sendable σ.agent.messages) where
  clean σ a τ hσ hok hno h := by
    rcases messages_step (AgentState.step_cases h) with
      ⟨hr, heq⟩ | ⟨text, rfl, heq⟩ | ⟨r, rfl, heq⟩ | ⟨handler, rs, rfl, hne, heq⟩ <;> rw [heq]
    · exact hσ
    · exact hσ.snoc (not_empty_of_not_blank (by simpa [speaks] using hok)) (fun _ => rfl)
    · obtain ⟨hcontent, hms⟩ : r.content ≠ [] ∧ σ.agent.messages ≠ [] := by
        simpa [spoils_responds] using hno
      exact hσ.snoc (by simpa [Content.isEmpty] using hcontent) (fun h => absurd h hms)
    · exact hσ.snoc (by simpa [Content.isEmpty] using hne) (fun _ => rfl)
  taint σ a τ hσ _ hP h := by
    rcases messages_step (AgentState.step_cases h) with
      ⟨hr, heq⟩ | ⟨text, rfl, heq⟩ | ⟨r, rfl, heq⟩ | ⟨handler, rs, rfl, hne, heq⟩
    · cases a with
      | responds r => exact absurd rfl (hr r)
      | _ => simp [spoils] at hP
    · simp [spoils] at hP
    · rw [heq]
      rintro ⟨hne, hfirst⟩
      rcases (spoils_responds σ r).mp hP with hcontent | hms
      · have := hne ⟨.assistant, .blocks r.content⟩ (by simp)
        simp [Content.isEmpty, hcontent] at this
      · have := hfirst ⟨.assistant, .blocks r.content⟩ (by simp [hms])
        cases this
    · simp [spoils] at hP
  stays σ a τ hσ _ h := by
    rcases messages_step (AgentState.step_cases h) with
      ⟨hr, heq⟩ | ⟨text, rfl, heq⟩ | ⟨r, rfl, heq⟩ | ⟨handler, rs, rfl, hne, heq⟩ <;> rw [heq]
    · exact hσ
    all_goals exact not_sendable_append hσ _

/-- **No empty message.** Where user texts are not blank, every `messages` list
handed to `messages.stream` has non-empty messages and a user message first if
and only if no request is made after a response with empty content or a
response to an empty history. -/
theorem nonempty_messages_iff {registry : ToolRegistry}
    {tr : List (AgentState × AgentAct)} {σ : AgentState}
    (h : agentSys.Run { agent := { registry } } tr σ) (hspeaks : ∀ p ∈ tr, speaks p.1 p.2) :
    (∀ req ∈ σ.agent.requests, Sendable req) ↔
      NoneAfter (spoils · ·) (makesRequest · ·) tr := by
  refine requests_iff sendable_taint ?_ (fun _ h _ => h) (fun _ h => h) h hspeaks
    Sendable.nil
  intro σ a hP hreq
  cases a with
  | responds r => simp [makesRequest] at hreq
  | _ => simp [spoils] at hP

/-- A refusal with no output. -/
def silentRefusal : Response where
  events := []
  content := []
  usage := ⟨10, 0, none, none⟩
  stopReason := some .refusal

/-- The turn after a silent refusal sends the refusal's empty message. -/
theorem silent_refusal_resent :
    ∃ tr σ, agentSys.Run { agent := { registry := ⟨[]⟩ } } tr σ ∧
      (∀ p ∈ tr, speaks p.1 p.2) ∧ ¬ ∀ req ∈ σ.agent.requests, Sendable req := by
  refine exists_run (C := fun tr σ => (∀ p ∈ tr, speaks p.1 p.2) ∧
    ¬ ∀ req ∈ σ.agent.requests, Sendable req)
    [.addUserText "Hi", .runTurn, .responds silentRefusal, .addUserText "Hello?", .runTurn]
    rfl ⟨by decide, ?_⟩
  intro hall
  have hreq : Sendable [⟨.user, .text "Hi"⟩, ⟨.assistant, .blocks []⟩,
      ⟨.user, .text "Hello?"⟩] :=
    hall _ (List.mem_append_right _ (List.mem_singleton.mpr rfl))
  have := hreq.nonempty ⟨.assistant, .blocks []⟩ (by simp)
  simp [Content.isEmpty] at this

/-- Two turns of plain replies. -/
theorem nonempty_messages_two_turns :
    ∃ tr σ, agentSys.Run { agent := { registry := ⟨[]⟩ } } tr σ ∧
      σ.agent.requests.length = 2 ∧ ∀ req ∈ σ.agent.requests, Sendable req := by
  let start : AgentState := { agent := { registry := ⟨[]⟩ } }
  let acts : List AgentAct := [.addUserText "Hi", .runTurn,
    .responds { silentRefusal with content := [.text "Hello"], stopReason := some .endTurn },
    .addUserText "Bye", .runTurn]
  have hrun : agentSys.Run start (agentSys.trace start acts) _ := Run.of_exec rfl
  exact ⟨_, _, hrun, rfl, (nonempty_messages_iff hrun (by decide)).mpr (by decide)⟩

end VoiceAgent
