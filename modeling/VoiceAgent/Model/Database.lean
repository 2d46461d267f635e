import Mathlib.Logic.Function.Basic
import VoiceAgent.Model.Persistence
import VoiceAgent.Model.Security
import VoiceAgent.Model.Server

/-!
# The database of the process

The tables `transcript_turns` and `tool_calls` beside the process: what each task has
added to its database session, and what commits have stored. Rows count as stored once
their commit has returned, as in every statement about a call alone; here a commit that
raises, or whose task is cancelled, may in addition have been carried out (`inDoubt`).
The foreign key of both tables refuses a commit without its row in `call_sessions`. Over it
`GET /sessions/{call_sid}`; the times it shows are left out, and of `created_at` only
the order matters.
-/

namespace VoiceAgent

open Lib

/-- The foreign key of a row. -/
def DbRow.callSid : DbRow → String
  | transcriptTurn callSid _ _ _ => callSid
  | toolCallRecord callSid _ _ _ _ => callSid

/-- What `add_turn` and `add_tool_call` add to the session. -/
def CallEvent.row? (callSid : String) : CallEvent → Option DbRow
  | .turnRow role text latencyMs => some (.transcriptTurn callSid role text latencyMs)
  | .toolRow tc => some (tc.row callSid)
  | _ => none

/-- The rows that a log has begun to write. -/
def rowsBegun (callSid : String) (log : List CallEvent) : List DbRow :=
  log.filterMap (CallEvent.row? callSid)

/-- The task that the step resumes. -/
def CallAct.task? : CallAct → Option TaskRef
  | .take => some .consumer
  | .consumer _ => some .consumer
  | .playback k _ => some (.playback k)
  | _ => none

/-- What the task awaited has returned. -/
def CallAct.returns : CallAct → Bool
  | .consumer (.outcome .raises) => false
  | .consumer (.outcome _) => true
  | .playback _ (.outcome .returns) => true
  | _ => false

/-- A task of a call of the process. -/
abbrev Writer := Nat × TaskRef

structure StoredRow where
  writer : Writer
  row : DbRow
  createdAt : Nat

/-- `added` are the rows a task has added to its session and not committed yet. -/
structure Database where
  server : Server
  added : Writer → List DbRow := fun _ => []
  stored : List StoredRow := []

/-- A step of the process, with the `created_at` that the database gives. -/
structure DbAct where
  act : ServerAct
  createdAt : Nat := 0

/-- The rows that the call has begun to write from `c` to `d`. -/
def Call.begun (c d : Call) : List DbRow :=
  rowsBegun c.callSid (d.state.log.drop c.state.log.length)

namespace Database

/-- The rows that a task has stored. -/
def storedBy (σ : Database) (writer : Writer) : List DbRow :=
  (σ.stored.filter fun s => s.writer = writer).map (·.row)

/-- A task goes on from its await, and begins to write. -/
def resumeTask (σ : Database) (server : Server) (writer : Writer) (commits : Bool)
    (createdAt : Nat) (begun : List DbRow) : Option Database :=
  if commits && (σ.added writer).any fun row => !σ.server.hasRow row.callSid then none
  else some {
    server
    added := Function.update σ.added writer begun
    stored := σ.stored ++
      if commits then (σ.added writer).map fun row => ⟨writer, row, createdAt⟩ else [] }

def step (synthesize : Nat → Nat → String → List Bytes) (σ : Database) (e : DbAct) :
    Option Database :=
  (σ.server.step synthesize e.act).bind fun server =>
    match e.act with
    | .call k a inDoubt =>
        match a.task?, σ.server.calls[k]?, server.calls[k]? with
        | some t, some c, some d =>
            σ.resumeTask server (k, t) (a.returns || inDoubt) e.createdAt (c.begun d)
        | _, _, _ => some { σ with server }
    | _ => some { σ with server }

end Database

/-- A new process over empty tables. -/
def databaseSys (synthesize : Nat → Nat → String → List Bytes) : TSys Database DbAct where
  init σ := ∃ max gate, CallGate.init max = .ok gate ∧ σ = { server := { gate := { gate } } }
  step := Database.step synthesize

/-! ## `GET /sessions/{call_sid}` -/

/-- What a path parameter matches: one segment of a path. -/
structure PathParam where
  value : String
  ne_empty : value ≠ ""
  no_slash : '/' ∉ value.toList

/-- The path of `/sessions/{call_sid}`. -/
def PathParam.path (callSid : PathParam) : String := "/sessions/" ++ callSid.value

/-- The parameter of a path that the route matches. -/
def matchCallSid (path : String) : Option PathParam :=
  let value := String.ofList (path.toList.drop "/sessions/".length)
  if h : path = "/sessions/" ++ value ∧ value ≠ "" ∧ '/' ∉ value.toList then
    some ⟨value, h.2.1, h.2.2⟩
  else none

theorem matchCallSid_eq_some {path : String} {callSid : PathParam} :
    matchCallSid path = some callSid ↔ path = callSid.path := by
  constructor
  · intro h
    obtain ⟨hpath, hvalue⟩ := Option.dite_none_right_eq_some.mp h
    obtain rfl := Option.some.inj hvalue
    exact hpath.1
  · rintro rfl
    have hvalue : String.ofList (callSid.path.toList.drop "/sessions/".length) = callSid.value := by
      rw [PathParam.path, String.toList_append, ← String.length_toList, List.drop_left,
        String.ofList_toList]
    obtain ⟨value, hne, hslash⟩ := callSid
    simp only [PathParam.path] at hvalue ⊢
    unfold matchCallSid
    simp only [hvalue]
    exact dif_pos ⟨trivial, hne, hslash⟩

/-- An entry of `turns`. -/
structure TurnView where
  role : Role
  text : String
  latencyMs : Option Nat

/-- An entry of `tool_calls`. -/
structure ToolCallView where
  name : String
  input : PyVal
  output : PyVal
  latencyMs : Option Nat

/-- The body of the answer; `ended` where `ended_at` is not null. -/
structure SessionView where
  callSid : String
  fromNumber : String
  ended : Bool
  turns : List TurnView
  toolCalls : List ToolCallView

def DbRow.turn? : DbRow → Option TurnView
  | transcriptTurn _ role text latencyMs => some ⟨role, text, latencyMs⟩
  | toolCallRecord _ _ _ _ _ => none

def DbRow.toolCall? : DbRow → Option ToolCallView
  | transcriptTurn _ _ _ _ => none
  | toolCallRecord _ name input output latencyMs => some ⟨name, input, output, latencyMs⟩

namespace Database

/-- The rows of one `call_sid`, as the two relations of `CallSession` load them. -/
def ordered (σ : Database) (callSid : String) : List DbRow :=
  ((σ.stored.filter fun s => s.row.callSid = callSid).mergeSort
    fun s s' => s.createdAt ≤ s'.createdAt).map (·.row)

/-- `SessionRepository.get_with_turns`; `scalar_one_or_none` raises on several rows. -/
def getWithTurns (σ : Database) (callSid : String) : Except Unit (Option SessionView) :=
  match σ.server.rows.filter fun r => r.callSid = callSid with
  | [] => .ok none
  | [r] => .ok (some {
      callSid := r.callSid
      fromNumber := r.fromNumber
      ended := r.ended
      turns := (σ.ordered callSid).filterMap DbRow.turn?
      toolCalls := (σ.ordered callSid).filterMap DbRow.toolCall? })
  | _ => .error ()

/-- `get_call_session`, with the handler of exceptions that nothing else handles;
`select` is what the queries come to. -/
def getCallSession (σ : Database) (select : Outcome) (callSid : PathParam) :
    Except HttpError SessionView :=
  match select with
  | .raises => .error ⟨500, "internal_error"⟩
  | .returns =>
      match σ.getWithTurns callSid.value with
      | .ok none => .error ⟨404, "session not found"⟩
      | .ok (some session) => .ok session
      | .error () => .error ⟨500, "internal_error"⟩

/-- A `GET` request, where the route of `get_call_session` matches its path. -/
def get (σ : Database) (select : Outcome) (path : String) :
    Option (Except HttpError SessionView) :=
  (matchCallSid path).map (σ.getCallSession select)

end Database

end VoiceAgent
