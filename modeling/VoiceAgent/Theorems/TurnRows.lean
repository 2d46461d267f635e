import VoiceAgent.Model.Persistence
import VoiceAgent.Model.Consumer

/-!
# The rows of a turn, all or none

`add_turn` and `add_tool_call` commit on their own, so the rollback of
`session_scope` finds at most one row to discard: the rows written before it stay.
-/

namespace VoiceAgent

open Lib Lib.DbM

/-- The block is one scope of writes, each of which commits itself. -/
theorem storeTurn_eq (raises : Nat → Bool) (callSid : String) (turn : TurnResult)
    (latencyMs : Nat) :
    storeTurn raises callSid turn latencyMs =
      scope raises (forM (turn.rows callSid latencyMs) (write raises)) := by
  unfold storeTurn sessionScope TurnResult.rows
  rw [List.forM_cons, List.forM_map]
  rfl

/-- The rows stored by the block: those whose writes complete before a call raises. -/
theorem storeTurn_stored (raises : Nat → Bool) (callSid : String) (turn : TurnResult)
    (latencyMs : Nat) {db : DbSession DbRow} (hdb : db.pending = []) :
    (exec (storeTurn raises callSid turn latencyMs) db).2.stored = db.stored ++
      (turn.rows callSid latencyMs).take
        (completed raises db.calls (turn.toolCalls.length + 1)) := by
  have hlength : (turn.rows callSid latencyMs).length = turn.toolCalls.length + 1 := by
    simp [TurnResult.rows]
  rw [storeTurn_eq, scope_writes_stored raises _ hdb, hlength]

/-- What the consumer task logs at `n` awaits in a row that return. -/
def Consumer.writes (llm : ClaudeAgent) (now : Nat) : ConsumerPc → Nat → List CallEvent
  | _, 0 => []
  | pc, n + 1 =>
      match Consumer.go llm now pc .returns with
      | some (.suspended pc _, effect) => effect.events ++ writes llm now pc n
      | _ => []

/-- The consumer task makes the writes of the block one by one: after the assistant's
turn, the tool calls in order. -/
theorem Consumer.writes_eq (llm : ClaudeAgent) (now : Nat) (turn : TurnResult) :
    Consumer.writes llm now (.addingAssistantTurn turn) turn.toolCalls.length =
      turn.toolCalls.map .toolRow := by
  have hrest : ∀ (calls : List ToolCall) (call tc : ToolCall),
      Consumer.writes llm now (.addingToolCall turn call (tc :: calls)) (calls.length + 1) =
        .toolRow tc :: calls.map .toolRow := by
    intro calls
    induction calls with
    | nil =>
        intro _ _
        rfl
    | cons next calls ih =>
        intro call tc
        exact congrArg (CallEvent.toolRow tc :: ·) (ih tc next)
  cases hcalls : turn.toolCalls with
  | nil => rfl
  | cons tc calls =>
      rw [List.length_cons, Consumer.writes, Consumer.go, hcalls]
      show CallEvent.toolRow tc :: Consumer.writes llm now (.addingToolCall turn tc calls) _ = _
      cases calls with
      | nil => rfl
      | cons next calls => exact congrArg (CallEvent.toolRow tc :: ·) (hrest calls tc next)

/-- **A turn's rows.** After the block, whatever calls on its session raise, the row of
the assistant's turn and all its tool-call rows are stored or none of them is, if and
only if a call of `add_turn` raises or no call of any of the writes does. -/
theorem turn_rows_atomic_iff (raises : Nat → Bool) (callSid : String) (turn : TurnResult)
    (latencyMs : Nat) (stored : List DbRow) :
    ((exec (storeTurn raises callSid turn latencyMs) { stored }).2.stored =
        stored ++ turn.rows callSid latencyMs ∨
      (exec (storeTurn raises callSid turn latencyMs) { stored }).2.stored = stored) ↔
    (raises 0 ∨ raises 1 ∨ ∀ k < 2 * (turn.toolCalls.length + 1), raises k = false) := by
  rw [storeTurn_eq, TurnResult.rows,
    scope_writes_atomic_iff raises (turn.turnRow callSid latencyMs) _ rfl, List.length_map]
  simp only [Nat.zero_add]

/-- A turn that booked a slot. -/
def bookedTurn : TurnResult where
  text := "Booked."
  toolCalls := [⟨"book_slot", .emptyDict, .dict [("status", .str "confirmed")], 12⟩]

/-- The commit of the tool call raises (the fourth call on the session): the turn's row
stays, the tool call's is lost. -/
theorem half_turn_stored :
    ¬ ((exec (storeTurn (· == 3) "CA1" bookedTurn 900) { stored := [] }).2.stored =
        [] ++ bookedTurn.rows "CA1" 900 ∨
      (exec (storeTurn (· == 3) "CA1" bookedTurn 900) { stored := [] }).2.stored = []) := by
  have hstored : (exec (storeTurn (· == 3) "CA1" bookedTurn 900) { stored := [] }).2.stored =
      [bookedTurn.turnRow "CA1" 900] := rfl
  rw [hstored]
  rintro (h | h)
  · exact absurd (congrArg List.length h) (by decide)
  · exact absurd (congrArg List.length h) (by decide)

end VoiceAgent
