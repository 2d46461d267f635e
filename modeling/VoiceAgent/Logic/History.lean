import Mathlib.Data.List.Nodup
import VoiceAgent.Logic.AgentSteps

/-!
# Tool pairing of a message history

`Paired ms` is what the Messages API asks of a request: every `tool_use` is
answered in the very next message, and every `tool_result` answers a tool use
of the message just before. Paired histories compose (`Paired.append`); a
history that holds an unanswered tool use followed by anything that is not its
answer is `Stuck`, and no later message repairs it.
-/

namespace VoiceAgent

@[simp] theorem toolUses_blocks (role : Role) (bs : List Block) :
    Message.toolUses ⟨role, .blocks bs⟩ = toolUses bs := rfl

/-- Every `tool_use` has exactly one `tool_result` in the next message, which
is a user message, and every `tool_result` refers to the message before. -/
structure Paired (ms : List Message) : Prop where
  answered : ∀ i m, ms[i]? = some m → m.role = .assistant → ∀ use ∈ m.toolUses,
    ∃ n, ms[i + 1]? = some n ∧ n.role = .user ∧
      n.toolResults.countP (fun t => t.toolUseId == use.id) = 1
  refers : ∀ i m, ms[i]? = some m → ∀ t ∈ m.toolResults,
    ∃ j p, i = j + 1 ∧ ms[j]? = some p ∧ ∃ use ∈ p.toolUses, use.id = t.toolUseId

theorem Paired.nil : Paired [] := ⟨by simp, by simp⟩

/-- A message without tool blocks. -/
theorem Paired.plain {m : Message} (huses : m.toolUses = [])
    (hresults : m.toolResults = []) : Paired [m] := by
  constructor
  · intro i n hn _ use huse
    obtain ⟨rfl, rfl⟩ : i = 0 ∧ m = n := by simpa [List.getElem?_singleton] using hn
    simp [huses] at huse
  · intro i n hn t ht
    obtain ⟨rfl, rfl⟩ : i = 0 ∧ m = n := by simpa [List.getElem?_singleton] using hn
    simp [hresults] at ht

theorem Paired.append {ms l : List Message} (hms : Paired ms) (hl : Paired l) :
    Paired (ms ++ l) := by
  constructor
  · intro i m hm hrole use huse
    by_cases hi : i < ms.length
    · rw [List.getElem?_append_left hi] at hm
      obtain ⟨n, hn, hrest⟩ := hms.answered i m hm hrole use huse
      -- the last message of a paired history has no tool use
      have hi' : i + 1 < ms.length := (List.getElem?_eq_some_iff.mp hn).1
      exact ⟨n, by rw [List.getElem?_append_left hi', hn], hrest⟩
    · have hi' : ms.length ≤ i := Nat.le_of_not_lt hi
      rw [List.getElem?_append_right hi'] at hm
      obtain ⟨n, hn, hrest⟩ := hl.answered _ m hm hrole use huse
      refine ⟨n, ?_, hrest⟩
      rw [List.getElem?_append_right (by omega),
        show i + 1 - ms.length = i - ms.length + 1 by omega, hn]
  · intro i m hm t ht
    by_cases hi : i < ms.length
    · rw [List.getElem?_append_left hi] at hm
      obtain ⟨j, p, rfl, hp, hrest⟩ := hms.refers i m hm t ht
      exact ⟨j, p, rfl, by rw [List.getElem?_append_left (by omega), hp], hrest⟩
    · rw [List.getElem?_append_right (Nat.le_of_not_lt hi)] at hm
      obtain ⟨j, p, hj, hp, hrest⟩ := hl.refers _ m hm t ht
      refine ⟨ms.length + j, p, by omega, ?_, hrest⟩
      rw [List.getElem?_append_right (by omega), Nat.add_sub_cancel_left, hp]

/-- One round of the loop: a response and the answers to its tool uses, in
their order. -/
theorem Paired.round {bs : List Block} {rs : List ToolResult}
    (hids : ((toolUses bs).map (·.id)).Nodup)
    (hrs : rs.map (·.toolUseId) = (toolUses bs).map (·.id)) :
    Paired [⟨.assistant, .blocks bs⟩, ⟨.user, .toolResults rs⟩] := by
  constructor
  · intro i m hm hrole use huse
    match i with
    | 0 =>
        obtain rfl : Message.mk .assistant (.blocks bs) = m := by simpa using hm
        refine ⟨_, rfl, rfl, ?_⟩
        have hmem : use.id ∈ rs.map (·.toolUseId) :=
          hrs ▸ List.mem_map_of_mem huse
        have hcount : (rs.map (·.toolUseId)).count use.id = 1 :=
          List.count_eq_one_of_mem (hrs ▸ hids) hmem
        rwa [List.count, List.countP_map] at hcount
    | 1 =>
        obtain rfl : Message.mk .user (.toolResults rs) = m := by simpa using hm
        simp at hrole
    | i + 2 => simp at hm
  · intro i m hm t ht
    match i with
    | 0 =>
        obtain rfl : Message.mk .assistant (.blocks bs) = m := by simpa using hm
        simp [Message.toolResults] at ht
    | 1 =>
        obtain rfl : Message.mk .user (.toolResults rs) = m := by simpa using hm
        have hmem : t.toolUseId ∈ (toolUses bs).map (·.id) :=
          hrs ▸ List.mem_map_of_mem ht
        obtain ⟨use, huse, hid⟩ := List.mem_map.mp hmem
        exact ⟨0, _, rfl, rfl, use, huse, hid⟩
    | i + 2 => simp at hm

/-! ## Histories that are not paired -/

/-- The history ends in a message with a tool use. -/
def Open (ms : List Message) : Prop :=
  ∃ pre m, ms = pre ++ [m] ∧ m.role = .assistant ∧ m.toolUses ≠ []

/-- A message with a tool use is followed by one that answers none. -/
def Stuck (ms : List Message) : Prop :=
  ∃ pre m n post, ms = pre ++ m :: n :: post ∧ m.role = .assistant ∧
    m.toolUses ≠ [] ∧ n.toolResults = []

theorem Open.not_paired {ms : List Message} (h : Open ms) : ¬ Paired ms := by
  rintro ⟨hans, -⟩
  obtain ⟨pre, m, rfl, hrole, huses⟩ := h
  obtain ⟨use, huse⟩ := List.exists_mem_of_ne_nil _ huses
  obtain ⟨n, hn, -⟩ := hans pre.length m (by simp) hrole use huse
  simp at hn

theorem Stuck.not_paired {ms : List Message} (h : Stuck ms) : ¬ Paired ms := by
  rintro ⟨hans, -⟩
  obtain ⟨pre, m, n, post, rfl, hrole, huses, hnone⟩ := h
  obtain ⟨use, huse⟩ := List.exists_mem_of_ne_nil _ huses
  obtain ⟨n', hn', -, hone⟩ := hans pre.length m (by simp) hrole use huse
  obtain rfl : n = n' := by simpa using hn'
  simp [hnone] at hone

theorem Stuck.append {ms : List Message} (h : Stuck ms) (l : List Message) :
    Stuck (ms ++ l) := by
  obtain ⟨pre, m, n, post, rfl, hrest⟩ := h
  exact ⟨pre, m, n, post ++ l, by simp, hrest⟩

/-- Anything but tool results after an open message leaves the history stuck. -/
theorem Open.append {ms : List Message} (h : Open ms) {n : Message}
    (hn : n.toolResults = []) : Stuck (ms ++ [n]) := by
  obtain ⟨pre, m, rfl, hrole, huses⟩ := h
  exact ⟨pre, m, n, [], by simp, hrole, huses, hn⟩

end VoiceAgent
