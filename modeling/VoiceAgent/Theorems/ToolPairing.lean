import VoiceAgent.Logic.History

/-!
# Tool pairing of every request

`onResponse` appends the assistant message before it looks at the stop reason,
so a refusal that carries tool uses leaves them unanswered in the history for
good; so does a tool output that `json.dumps` raises on. Every request the
agent makes is paired exactly when none is made after such a step.
-/

namespace VoiceAgent

open Lib Lib.TSys

/-- The `tool_use` ids of one response are distinct. -/
def distinctIds (_ : AgentState) : AgentAct → Bool
  | .responds r => ((toolUses r.content).map (·.id)).Nodup
  | _ => true

/-- The step ends a turn and leaves a tool use of its last response unanswered:
a refusal with a tool use, or a tool output that cannot be encoded. -/
def dangles (σ : AgentState) : AgentAct → Bool
  | .responds r => r.stopReason = some .refusal && !(toolUses r.content).isEmpty
  | .toolDone handler =>
      match σ.turn with
      | some (.suspended (.executing _ _ _ use _ _)) =>
          (σ.agent.registry.execute use.name handler).dumps.isNone
      | _ => false
  | _ => false

@[simp] theorem distinctIds_responds (σ : AgentState) (r : Response) :
    distinctIds σ (.responds r) = true ↔ ((toolUses r.content).map (·.id)).Nodup := by
  simp [distinctIds]

@[simp] theorem dangles_responds (σ : AgentState) (r : Response) :
    dangles σ (.responds r) = true ↔
      r.stopReason = some .refusal ∧ toolUses r.content ≠ [] := by
  simp [dangles]

/-- Between the response `bs` and its answers: `use` is running, `rest` follows,
the tool uses before it are answered by `results`. -/
def MidRound (ms : List Message) (use : ToolUse) (rest : List ToolUse)
    (results : List ToolResult) : Prop :=
  ∃ hist bs done, ms = hist ++ [⟨.assistant, .blocks bs⟩] ∧ Paired hist ∧
    toolUses bs = done ++ use :: rest ∧ ((toolUses bs).map (·.id)).Nodup ∧
    results.map (·.toolUseId) = done.map (·.id)

/-- The history answers every tool use, up to the round in progress. -/
def Settled (σ : AgentState) : Prop :=
  match σ.turn with
  | some (.suspended (.executing _ _ _ use rest results)) =>
      MidRound σ.agent.messages use rest results
  | _ => Paired σ.agent.messages

/-- A tool use of an earlier round is unanswered. -/
def Unanswered (σ : AgentState) : Prop :=
  Stuck σ.agent.messages ∨ (Open σ.agent.messages ∧ σ.inTool = false)

theorem Settled.paired {σ : AgentState} (h : Settled σ) (hin : σ.inTool = false) :
    Paired σ.agent.messages := by
  unfold Settled at h
  unfold AgentState.inTool at hin
  split at h
  · rename_i hturn
    simp [hturn] at hin
  · exact h

theorem Unanswered.not_paired {σ : AgentState} (h : Unanswered σ) :
    ¬ Paired σ.agent.messages := by
  rcases h with h | ⟨h, -⟩
  · exact h.not_paired
  · exact h.not_paired

/-- Appending a message that answers no tool use keeps a tool use unanswered. -/
theorem Unanswered.append {σ : AgentState} (h : Unanswered σ) {n : Message}
    (hn : n.toolResults = []) : Stuck (σ.agent.messages ++ [n]) := by
  rcases h with h | ⟨h, -⟩
  · exact h.append [n]
  · exact h.append hn

/-- A response taken in a settled state: the tool uses it runs, if any, open a
round; an unanswered one is a refusal's. -/
theorem settled_step {σ τ : AgentState} {a : AgentAct} (hσ : Settled σ)
    (hids : distinctIds σ a) (hno : ¬ dangles σ a) (h : σ.Step a τ) : Settled τ := by
  cases h with
  | tick ms => exact hσ
  | addUserText text hidle =>
      have hin := AgentState.inTool_of_idle hidle
      have hms := (hσ.paired hin).append (.plain (m := ⟨.user, .text text⟩) rfl rfl)
      unfold AgentState.idle at hidle
      unfold Settled
      split at hidle
      · cases hidle
      · rename_i hne
        split
        · rename_i heq
          exact absurd heq (hne _)
        · exact hms
  | runTurn hidle => exact hσ.paired (AgentState.inTool_of_idle hidle)
  | streamRaises hturn =>
      exact hσ.paired (by simp [AgentState.inTool, hturn])
  | @responds started result r agent status hturn hgo =>
      have hms : Paired σ.agent.messages := hσ.paired (by simp [AgentState.inTool, hturn])
      have hquiet : toolUses r.content = [] →
          Paired (σ.agent.messages ++ [⟨.assistant, .blocks r.content⟩]) :=
        fun hnone => hms.append (.plain hnone rfl)
      cases hgo with
      | refusal hstop =>
          apply hquiet
          by_contra huses
          exact hno ((dangles_responds σ r).mpr ⟨hstop, huses⟩)
      | final hstop hnone => exact hquiet hnone
      | tools hstop huses =>
          -- a round opens with nothing answered yet
          have hnodup := (distinctIds_responds σ r).mp hids
          exact ⟨σ.agent.messages, r.content, [], rfl, hms, huses, hnodup, rfl⟩
  | @toolDone started result toolStarted use rest results handler agent status hturn hgo =>
      have hmid : MidRound σ.agent.messages use rest results := by
        simpa [Settled, hturn] using hσ
      obtain ⟨hist, bs, done, hms, hpaired, huses, hnodup, hres⟩ := hmid
      cases hgo with
      | raises hdumps => exact absurd (by simpa [dangles, hturn] using hdumps) hno
      | @next text next rest hdumps =>
          exact ⟨hist, bs, done ++ [use], hms, hpaired, by simp [huses], hnodup,
            by simp [hres]⟩
      | @last text hdumps =>
          -- the answers are appended at once, in the order of the tool uses
          have hround : Paired [⟨.assistant, .blocks bs⟩,
              ⟨.user, .toolResults (results ++ [⟨use.id, text⟩])⟩] :=
            .round hnodup (by simp [huses, hres])
          have := hpaired.append hround
          simpa [Settled, hms] using this

theorem dangles_step {σ τ : AgentState} {a : AgentAct} (hσ : Settled σ)
    (hdangles : dangles σ a) (h : σ.Step a τ) : Unanswered τ := by
  cases h with
  | tick ms => simp [dangles] at hdangles
  | addUserText text hidle => simp [dangles] at hdangles
  | runTurn hidle => simp [dangles] at hdangles
  | streamRaises hturn => simp [dangles] at hdangles
  | @responds started result r agent status hturn hgo =>
      obtain ⟨hstop, huses⟩ := (dangles_responds σ r).mp hdangles
      cases hgo with
      | refusal _ => exact .inr ⟨⟨σ.agent.messages, _, rfl, rfl, huses⟩, rfl⟩
      | final hne _ => exact absurd hstop hne
      | tools hne _ => exact absurd hstop hne
  | @toolDone started result toolStarted use rest results handler agent status hturn hgo =>
      have hnone : (σ.agent.registry.execute use.name handler).dumps = none := by
        simpa [dangles, hturn] using hdangles
      have hmid : MidRound σ.agent.messages use rest results := by
        simpa [Settled, hturn] using hσ
      obtain ⟨hist, bs, done, hms, -, huses, -, -⟩ := hmid
      cases hgo with
      | raises _ =>
          exact .inr ⟨⟨hist, _, hms, rfl, by simp [huses]⟩, rfl⟩
      | next hdumps => rw [hnone] at hdumps; cases hdumps
      | last hdumps => rw [hnone] at hdumps; cases hdumps

theorem unanswered_step {σ τ : AgentState} {a : AgentAct} (hσ : Unanswered σ)
    (h : σ.Step a τ) : Unanswered τ := by
  cases h with
  | tick ms => exact hσ
  | addUserText text hidle => exact .inl (hσ.append rfl)
  | runTurn hidle =>
      rcases hσ with hσ | ⟨hσ, -⟩
      · exact .inl hσ
      · exact .inr ⟨hσ, rfl⟩
  | streamRaises hturn =>
      rcases hσ with hσ | ⟨hσ, -⟩
      · exact .inl hσ
      · exact .inr ⟨hσ, rfl⟩
  | @responds started result r agent status hturn hgo =>
      have hstuck := hσ.append (n := ⟨.assistant, .blocks r.content⟩) rfl
      cases hgo with
      | refusal _ => exact .inl hstuck
      | final _ _ => exact .inl hstuck
      | tools _ _ => exact .inl hstuck
  | @toolDone started result toolStarted use rest results handler agent status hturn hgo =>
      -- a tool is running, so the unanswered use is of an earlier round
      have hstuck : Stuck σ.agent.messages := by
        rcases hσ with hσ | ⟨-, hin⟩
        · exact hσ
        · simp [AgentState.inTool, hturn] at hin
      cases hgo with
      | raises _ => exact .inl hstuck
      | next _ => exact .inl hstuck
      | last _ => exact .inl (hstuck.append _)

theorem settled_taint : agentSys.Taint (distinctIds · ·) (dangles · ·) Settled Unanswered where
  clean _ _ _ hσ hids hno h := settled_step hσ hids hno (AgentState.step_cases h)
  taint _ _ _ hσ _ hdangles h := dangles_step hσ hdangles (AgentState.step_cases h)
  stays _ _ _ hσ _ h := unanswered_step hσ (AgentState.step_cases h)

/-- **Tool pairing.** In any sequence of calls on an agent, every `messages`
list handed to `messages.stream` is paired if and only if no request is made
after a step that dangles. -/
theorem tool_pairing_iff {registry : ToolRegistry} {tr : List (AgentState × AgentAct)}
    {σ : AgentState} (h : agentSys.Run { agent := { registry } } tr σ)
    (hids : ∀ p ∈ tr, distinctIds p.1 p.2) :
    (∀ req ∈ σ.agent.requests, Paired req) ↔ NoneAfter (dangles · ·) (makesRequest · ·) tr := by
  refine requests_iff settled_taint ?_ (fun _ h hin => h.paired hin)
    (fun _ h => h.not_paired) h hids Paired.nil
  intro σ a hd hreq
  cases a with
  | responds r => simp [makesRequest] at hreq
  | toolDone handler =>
      simp only [dangles] at hd
      simp only [makesRequest] at hreq
      split at hreq
      · rename_i hturn
        simp_all
      · cases hreq
  | _ => simp [dangles] at hd

/-- A refusal that still carries the tool use it was about to make. -/
def refusedBooking : Response where
  events := []
  content := [.toolUse ⟨"toolu_1", "book_slot", some .emptyDict⟩]
  usage := ⟨10, 5, none, none⟩
  stopReason := some .refusal

/-- The caller speaks again after the refused booking. -/
def refusedThenSpeaks : List AgentAct :=
  [.addUserText "Book it", .runTurn, .responds refusedBooking,
    .addUserText "Hello?", .runTurn]

/-- The second turn's request holds the refused booking with no answer. -/
theorem refused_tool_use_unanswered :
    ∃ tr σ, agentSys.Run { agent := { registry := ⟨["book_slot"]⟩ } } tr σ ∧
      (∀ p ∈ tr, distinctIds p.1 p.2) ∧ ¬ ∀ req ∈ σ.agent.requests, Paired req := by
  refine exists_run (C := fun tr σ => (∀ p ∈ tr, distinctIds p.1 p.2) ∧
    ¬ ∀ req ∈ σ.agent.requests, Paired req) refusedThenSpeaks rfl ⟨by decide, ?_⟩
  intro hall
  have hstuck : Stuck [⟨.user, .text "Book it"⟩,
      ⟨.assistant, .blocks refusedBooking.content⟩, ⟨.user, .text "Hello?"⟩] :=
    ⟨[_], _, _, [], rfl, rfl, by simp [refusedBooking, toolUses], rfl⟩
  exact hstuck.not_paired (hall _ (List.mem_append_right _ (List.mem_singleton.mpr rfl)))

/-- An answered booking, then the request after it: nothing dangles. -/
theorem tool_pairing_answered :
    ∃ tr σ, agentSys.Run { agent := { registry := ⟨["book_slot"]⟩ } } tr σ ∧
      σ.agent.requests.length = 2 ∧ ∀ req ∈ σ.agent.requests, Paired req := by
  let start : AgentState := { agent := { registry := ⟨["book_slot"]⟩ } }
  let acts : List AgentAct := [.addUserText "Book it", .runTurn,
    .responds { refusedBooking with stopReason := some .toolUse },
    .toolDone (.returns (.dict [("status", .str "confirmed")]))]
  have hrun : agentSys.Run start (agentSys.trace start acts) _ := Run.of_exec rfl
  exact ⟨_, _, hrun, rfl, (tool_pairing_iff hrun (by decide)).mpr (by decide)⟩

end VoiceAgent
