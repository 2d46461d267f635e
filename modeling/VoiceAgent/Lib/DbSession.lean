import Mathlib.Data.List.Basic

/-!
# Database sessions that commit or roll back

A session collects rows and makes them durable at a commit; a rollback discards
those not yet committed. Which of the calls on a session raise is the
environment's: `raises n` says so of the `n`-th one.

* **programs** — `DbM` keeps the session through an exception, so that a handler
  sees what was done before it (`exec_bind`, `exec_tryCatch`);
* **scopes** — `scope` commits what its body leaves and rolls back when it raises;
* **writes that commit themselves** — a scope of such writes stores the rows before
  the first call that raises (`scope_writes_stored`); these are all of them or none
  exactly when the first write fails or none does (`scope_writes_atomic_iff`).
-/

namespace Lib

/-- A session on a table: the durable rows, those added since the last commit, and the
number of `add` and `commit` calls made so far. -/
structure DbSession (Row : Type) where
  stored : List Row
  pending : List Row := []
  calls : Nat := 0

/-- What a call on a session raises. -/
inductive DbError where
  | raised

/-- A program on a session. -/
abbrev DbM (Row : Type) := ExceptT DbError (StateM (DbSession Row))

namespace DbM

variable {Row α β : Type}

/-- What a program returns or raises, with the session after it. -/
def exec (m : DbM Row α) (s : DbSession Row) : Except DbError α × DbSession Row :=
  m.run.run s

@[simp] theorem exec_pure (a : α) (s : DbSession Row) :
    exec (pure a) s = (.ok a, s) := rfl

@[simp] theorem exec_throw (e : DbError) (s : DbSession Row) :
    exec (throw e : DbM Row α) s = (.error e, s) := rfl

@[simp] theorem exec_get (s : DbSession Row) :
    exec (get : DbM Row (DbSession Row)) s = (.ok s, s) := rfl

@[simp] theorem exec_set (s s' : DbSession Row) :
    exec (set s' : DbM Row PUnit) s = (.ok ⟨⟩, s') := rfl

theorem exec_bind (m : DbM Row α) (f : α → DbM Row β) (s : DbSession Row) :
    exec (m >>= f) s =
      match exec m s with
      | (.ok a, s) => exec (f a) s
      | (.error e, s) => (.error e, s) := by
  unfold exec
  rw [ExceptT.run_bind, StateT.run_bind]
  cases hm : m.run.run s with
  | mk r s' => cases r <;> rfl

theorem exec_tryCatch (m : DbM Row α) (handler : DbError → DbM Row α) (s : DbSession Row) :
    exec (tryCatch m handler) s =
      match exec m s with
      | (.ok a, s) => (.ok a, s)
      | (.error e, s) => exec (handler e) s := by
  show (ExceptT.tryCatch m handler).run.run s = _
  unfold exec ExceptT.tryCatch
  rw [ExceptT.run_mk, StateT.run_bind]
  cases hm : StateT.run m s with
  | mk r s' =>
      have hrun : m.run.run s = (r, s') := hm
      rw [hrun]
      cases r <;> rfl

/-! ## Calls on the session -/

section

variable (raises : Nat → Bool)

/-- A call on the session, which may raise. -/
def call : DbM Row Unit := do
  let s ← get
  set { s with calls := s.calls + 1 }
  if raises s.calls then throw .raised

def add (row : Row) : DbM Row Unit := do
  call raises
  modify fun s => { s with pending := s.pending ++ [row] }

/-- All that is pending becomes durable. -/
def commit : DbM Row Unit := do
  call raises
  modify fun s => { s with stored := s.stored ++ s.pending, pending := [] }

/-- All that is pending is discarded. -/
def rollback : DbM Row Unit :=
  modify fun s => { s with pending := [] }

/-- A block that commits at its end, and rolls back and raises again when something in
it raised. -/
def scope (body : DbM Row Unit) : DbM Row Unit :=
  tryCatch (do body; commit raises) fun e => do rollback; throw e

/-- A write that commits itself. -/
def write (row : Row) : DbM Row Unit := do
  add raises row
  commit raises

theorem exec_call (s : DbSession Row) :
    exec (call raises) s =
      (if raises s.calls then .error .raised else .ok (), { s with calls := s.calls + 1 }) := by
  rw [call, exec_bind, exec_get]
  simp only [exec_bind, exec_set]
  cases raises s.calls <;> rfl

theorem exec_add (row : Row) (s : DbSession Row) :
    exec (add raises row) s =
      if raises s.calls then (.error .raised, { s with calls := s.calls + 1 })
      else (.ok (), { s with pending := s.pending ++ [row], calls := s.calls + 1 }) := by
  rw [add, exec_bind, exec_call]
  cases raises s.calls <;> rfl

theorem exec_commit (s : DbSession Row) :
    exec (commit raises) s =
      if raises s.calls then (.error .raised, { s with calls := s.calls + 1 })
      else (.ok (), { stored := s.stored ++ s.pending, pending := [], calls := s.calls + 1 }) := by
  rw [commit, exec_bind, exec_call]
  cases raises s.calls <;> rfl

/-- A scope leaves nothing pending; what is stored was stored by its body, or by the
commit at its end. -/
theorem exec_scope (body : DbM Row Unit) (s : DbSession Row) :
    ((exec (scope raises body) s).2.pending = []) ∧
    ((exec (scope raises body) s).2.stored =
      match exec body s with
      | (.ok _, s) => if raises s.calls then s.stored else s.stored ++ s.pending
      | (.error _, s) => s.stored) := by
  rw [scope, exec_tryCatch, exec_bind]
  cases hbody : exec body s with
  | mk r s' =>
      cases r with
      | error e => exact ⟨rfl, rfl⟩
      | ok u =>
          simp only [exec_commit]
          cases raises s'.calls <;> exact ⟨rfl, rfl⟩

/-! ## Writes that commit themselves -/

/-- How many of `n` writes complete when the next call is the `c`-th one. -/
def completed (c : Nat) : Nat → Nat
  | 0 => 0
  | n + 1 => if raises c || raises (c + 1) then 0 else completed (c + 2) n + 1

theorem completed_le (n : Nat) : ∀ c, completed raises c n ≤ n := by
  induction n with
  | zero =>
      intro _
      exact Nat.le_refl 0
  | succ n ih =>
      intro c
      rw [completed]
      split
      · exact Nat.zero_le _
      · exact Nat.succ_le_succ (ih _)

/-- All writes complete exactly when none of their calls raises. -/
theorem completed_eq_iff (n : Nat) : ∀ c,
    completed raises c n = n ↔ ∀ k < 2 * n, raises (c + k) = false := by
  induction n with
  | zero => simp [completed]
  | succ n ih =>
      intro c
      rw [completed]
      by_cases hfirst : (raises c || raises (c + 1)) = true
      · rw [if_pos hfirst]
        constructor
        · intro h
          cases h
        · intro h
          have h0 : raises c = false := h 0 (by omega)
          have h1 : raises (c + 1) = false := h 1 (by omega)
          simp [h0, h1] at hfirst
      · rw [if_neg hfirst, Nat.add_right_cancel_iff, ih (c + 2)]
        rw [Bool.not_eq_true, Bool.or_eq_false_iff] at hfirst
        constructor
        · intro h k hk
          match k with
          | 0 => exact hfirst.1
          | 1 => exact hfirst.2
          | k + 2 =>
              have hk' := h k (by omega)
              rwa [Nat.add_assoc, Nat.add_comm 2 k] at hk'
        · intro h k hk
          have hk' := h (k + 2) (by omega)
          rwa [Nat.add_assoc, Nat.add_comm 2 k]

/-- A write from a session with nothing pending. -/
theorem exec_write {s : DbSession Row} (hs : s.pending = []) (row : Row) :
    ∃ s', exec (write raises row) s =
        (if raises s.calls || raises (s.calls + 1) then .error .raised else .ok (), s') ∧
      s'.stored = (if raises s.calls || raises (s.calls + 1) then s.stored
        else s.stored ++ [row]) ∧
      ((raises s.calls || raises (s.calls + 1)) = false →
        s'.pending = [] ∧ s'.calls = s.calls + 2) := by
  rw [write, exec_bind, exec_add]
  cases hadd : raises s.calls with
  | true => exact ⟨_, rfl, rfl, fun h => Bool.noConfusion h⟩
  | false =>
      simp only [Bool.false_eq_true, if_false, exec_commit, Bool.false_or]
      cases hcommit : raises (s.calls + 1) with
      | true => exact ⟨_, rfl, rfl, fun h => Bool.noConfusion h⟩
      | false => exact ⟨_, rfl, by simp [hs], fun _ => ⟨rfl, rfl⟩⟩

/-- Writes one after the other store the rows before the first call that raises, and
leave nothing pending where none raises. -/
theorem exec_writes (rows : List Row) : ∀ {s : DbSession Row}, s.pending = [] →
    (exec (forM rows (write raises)) s).2.stored =
        s.stored ++ rows.take (completed raises s.calls rows.length) ∧
      ((exec (forM rows (write raises)) s).1 = .ok () →
        (exec (forM rows (write raises)) s).2.pending = []) := by
  induction rows with
  | nil =>
      intro s hs
      exact ⟨by simp, fun _ => hs⟩
  | cons row rows ih =>
      intro s hs
      obtain ⟨s', hexec, hstored, hnext⟩ := exec_write raises hs row
      rw [List.forM_cons, exec_bind, hexec, List.length_cons, completed]
      cases hfail : raises s.calls || raises (s.calls + 1) with
      | true =>
          rw [hfail] at hstored
          refine ⟨by simpa using hstored, fun h => ?_⟩
          cases h
      | false =>
          rw [hfail] at hstored
          obtain ⟨hpending, hcalls⟩ := hnext hfail
          obtain ⟨hrest, hok⟩ := ih hpending
          refine ⟨?_, hok⟩
          simp only [Bool.false_eq_true, if_false] at hstored ⊢
          rw [hrest, hstored, hcalls, List.take_succ_cons, List.append_assoc,
            List.singleton_append]

/-- A scope of writes stores the rows before the first call that raises. -/
theorem scope_writes_stored (rows : List Row) {s : DbSession Row} (hs : s.pending = []) :
    (exec (scope raises (forM rows (write raises))) s).2.stored =
      s.stored ++ rows.take (completed raises s.calls rows.length) := by
  obtain ⟨hstored, hok⟩ := exec_writes raises rows hs
  rw [(exec_scope raises _ s).2]
  cases hexec : exec (forM rows (write raises)) s with
  | mk r s' =>
      rw [hexec] at hstored hok
      cases r with
      | error e => exact hstored
      | ok u =>
          have hpending : s'.pending = [] := hok rfl
          simp only [hpending, List.append_nil, ite_self]
          exact hstored

/-- All of the rows are stored or none of them exactly when a call of the first write
raises or no call of any write does. -/
theorem scope_writes_atomic_iff (row : Row) (rows : List Row) {s : DbSession Row}
    (hs : s.pending = []) :
    ((exec (scope raises (forM (row :: rows) (write raises))) s).2.stored =
        s.stored ++ row :: rows ∨
      (exec (scope raises (forM (row :: rows) (write raises))) s).2.stored = s.stored) ↔
    (raises s.calls ∨ raises (s.calls + 1) ∨
      ∀ k < 2 * (rows.length + 1), raises (s.calls + k) = false) := by
  rw [scope_writes_stored raises (row :: rows) hs, List.append_right_inj,
    List.append_right_eq_self, ← completed_eq_iff, ← or_assoc, ← Bool.or_eq_true]
  have hle := completed_le raises (rows.length + 1) s.calls
  have hall : (row :: rows).take (completed raises s.calls (row :: rows).length) =
      row :: rows ↔ completed raises s.calls (rows.length + 1) = rows.length + 1 := by
    constructor
    · intro h
      have hlength := congrArg List.length h
      rw [List.length_take, List.length_cons] at hlength
      omega
    · intro h
      exact List.take_of_length_le (Nat.le_of_eq (by rw [List.length_cons, h]))
  have hnone : (row :: rows).take (completed raises s.calls (row :: rows).length) = [] ↔
      (raises s.calls || raises (s.calls + 1)) = true := by
    rw [List.take_eq_nil_iff, List.length_cons, completed]
    split <;> simp_all
  rw [hall, hnone]
  exact or_comm

end

end DbM

end Lib
