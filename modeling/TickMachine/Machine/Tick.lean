import TickMachine.Machine.Basic

/-!
# Ticks

A tick runs a machine until an instruction suspends it, the bytes run out or an instruction fails.
While a wait is pending, a tick before its time only reports how long is left.

Time is compared and never assumed to go forward. A tick ends by itself: a step that does not end it
moves the pointer on (`lt_of_continued`), so a tick takes at most as many steps as bytes are left.
-/

namespace TickMachine

/-- What became of a command: the machine after it, what the machine noted, and the fault if there
was one. -/
structure Response where
  machine : Machine
  records : List Record
  result : Except Fault Unit

/-- The response with earlier records in front. -/
def Response.after (r : Response) (earlier : List Record) : Response :=
  { r with records := earlier ++ r.records }

/-- The events of the response. -/
def Response.events (r : Response) : List Event := Record.events r.records

namespace Machine

theorem heed_of_not_suspends {m : Machine} {now : Binary64} {e : Event}
    (h : e.suspends = false) : m.heed now e = m := by
  cases e with
  | wait _ | restart => cases h
  | _ => rfl

theorem lt_size_of_decode {p : Program} {pos : Nat} (h : p.decode pos ≠ .ended) : pos < p.size := by
  unfold Program.decode Program.fetch? at h
  split at h
  · exact absurd rfl h
  · next hb => exact (Array.getElem?_eq_some_iff.1 hb).1

/-- A step that does not end the tick finds a byte, and moves the pointer behind it. -/
theorem lt_of_continued {m n : Machine} {now : Binary64} {rs : List Record}
    (h : m.step now = .continued n rs) :
    m.ip < m.program.size ∧ m.ip < n.ip ∧ n.program = m.program := by
  unfold step at h
  split at h
  · cases h
  · next hd =>
    split at h
    · cases h
      exact ⟨lt_size_of_decode (by rw [hd]; simp), Nat.lt_succ_self _, rfl⟩
    · cases h
  · cases h
  · next i hd =>
    split at h
    · cases h
    · next e s _ =>
      dsimp only at h
      split at h
      · cases h
      · next hs =>
        rw [heed_of_not_suspends (by simpa using hs)] at h
        cases h
        have := i.width_pos
        exact ⟨lt_size_of_decode (by rw [hd]; simp), by simp only; omega, rfl⟩

/-- Executes instructions until one ends the tick. -/
def run (m : Machine) (now : Binary64) : Response :=
  match _h : m.step now with
  | .ended => ⟨m, [], .ok ()⟩
  | .continued next records => (next.run now).after records
  | .suspended next records => ⟨next, records, .ok ()⟩
  | .failed fault next records => ⟨next, records, .error fault⟩
termination_by m.program.size - m.ip
decreasing_by
  have := lt_of_continued _h
  grind

/-! ## Runs by their first step -/

section

variable {m n : Machine} {now : Binary64} {rs : List Record} {fault : Fault}

theorem run_of_ended (h : m.step now = .ended) : m.run now = ⟨m, [], .ok ()⟩ := by
  rw [run]
  split <;> simp_all

theorem run_of_continued (h : m.step now = .continued n rs) :
    m.run now = (n.run now).after rs := by
  rw [run]
  split <;> simp_all

theorem run_of_suspended (h : m.step now = .suspended n rs) : m.run now = ⟨n, rs, .ok ()⟩ := by
  rw [run]
  split <;> simp_all

theorem run_of_failed (h : m.step now = .failed fault n rs) :
    m.run now = ⟨n, rs, .error fault⟩ := by
  rw [run]
  split <;> simp_all

end

/-! ## Ticks -/

/-- A slice of the program, and its end: a fault stops the machine, and a program that has run out
is reported. -/
def slice (m : Machine) (now : Binary64) : Response :=
  let r := m.run now
  match r.result with
  | .error fault =>
    { r with
      machine := { r.machine with faulted := true }
      records := r.records ++ [.faulted fault r.machine.ip] }
  | .ok () =>
    if r.machine.isFinished then { r with records := r.records ++ [.event .finished] } else r

/-- One tick at the time `now`. -/
def tick (m : Machine) (now : Binary64) : Response :=
  if m.faulted then ⟨m, [], .error .faulted⟩
  else match m.wake with
    | none => m.slice now
    | some wake =>
      if now < wake then ⟨m, [.event (.waiting (wake - now).ceil)], .ok ()⟩
      else ({ m with wake := none }.slice now).after [.resuming wake]

end Machine

end TickMachine
