import TickMachine.Proofs.Commands

/-!
# How far a tick has got

A run gets from machine to machine by steps that do not end it: `Advances`, with what is noted on the
way. `Reaches` says the same of a tick.

A tick that has reached a machine comes to what the slice of that machine comes to, behind what was
noted before (`Reaches.tick_eq`). A tick that is neither refused nor held back reaches a machine whose
step ends it (`exists_reaches_stops`), and all others before that one (`Reaches.before_stop`).
-/

namespace TickMachine.Machine

/-- The run gets to a machine by steps that do not end it, and notes these records. -/
inductive Advances (now : Binary64) : Machine → List Record → Machine → Prop where
  | refl (m : Machine) : Advances now m [] m
  | step {m k n : Machine} {rs ss : List Record} (hs : m.step now = .continued k rs)
    (h : Advances now k ss n) : Advances now m (rs ++ ss) n

/-- The tick gets to a machine that is about to make a step, and has noted these records. -/
structure Reaches (m : Machine) (now : Binary64) (rs : List Record) (n : Machine) : Prop where
  faulted : m.faulted = false
  gated : m.gated now = false
  advances : ∃ ss, rs = m.waking ++ ss ∧ m.awake.Advances now ss n

/-- The next step ends the run. -/
def Stops (m : Machine) (now : Binary64) : Prop := ∀ n rs, m.step now ≠ .continued n rs

variable {m n k : Machine} {now : Binary64} {rs ss : List Record} {fault : Fault}

/-! ## Slices by their first step -/

theorem slice_of_ended (hs : m.step now = .ended) : m.slice now = ⟨m, m.closing, .ok ()⟩ := by
  rw [slice_of_ok (by rw [run_of_ended hs]), run_of_ended hs]
  rfl

theorem slice_of_suspended (hs : m.step now = .suspended n rs) :
    m.slice now = ⟨n, rs ++ n.closing, .ok ()⟩ := by
  rw [slice_of_ok (by rw [run_of_suspended hs]), run_of_suspended hs]

theorem slice_of_failed (hs : m.step now = .failed fault n rs) :
    m.slice now = ⟨{ n with faulted := true }, rs ++ [.faulted fault n.ip], .error fault⟩ := by
  rw [slice_of_error (by rw [run_of_failed hs]), run_of_failed hs]

theorem slice_of_continued (hs : m.step now = .continued n rs) :
    m.slice now = (n.slice now).after rs := by
  have hrun := run_of_continued hs
  cases hr : (n.run now).result with
  | ok =>
    rw [slice_of_ok (by rw [hrun]; exact hr), slice_of_ok hr, hrun]
    simp only [Response.after, List.append_assoc]
  | error fault =>
    rw [slice_of_error (by rw [hrun]; exact hr), slice_of_error hr, hrun]
    simp only [Response.after, List.append_assoc]

/-! ## Runs -/

/-- A step that does not end the run changes the pointer and the stack alone. -/
theorem frame_of_continued (hs : m.step now = .continued n rs) : n.program = m.program ∧
    n.policy = m.policy ∧ n.faulted = m.faulted ∧ n.wake = m.wake := by
  have hst := m.stepped now
  rw [hs] at hst
  cases hst with
  | skipped h => exact ⟨rfl, rfl, rfl, rfl⟩
  | executed h he => exact ⟨rfl, rfl, rfl, rfl⟩

theorem Advances.trans (h : m.Advances now rs n) (h' : n.Advances now ss k) :
    m.Advances now (rs ++ ss) k := by
  induction h with
  | refl m => exact h'
  | step hs h ih =>
    rw [List.append_assoc]
    exact .step hs (ih h')

theorem Advances.slice_eq (h : m.Advances now rs n) : m.slice now = (n.slice now).after rs := by
  induction h with
  | refl m => rfl
  | step hs h ih => rw [slice_of_continued hs, ih, Response.after_after]

/-- The way of a run is one: behind what it noted up to one machine it goes on to the last. -/
theorem Advances.before_stop (h : m.Advances now rs n) (hn : n.Stops now)
    (h' : m.Advances now ss k) : ∃ later, rs = ss ++ later ∧ k.Advances now later n := by
  induction h' generalizing rs with
  | refl m => exact ⟨rs, rfl, h⟩
  | step hs h' ih =>
    cases h with
    | refl => exact absurd hs (hn _ _)
    | step hs' h =>
      rw [hs] at hs'
      cases hs'
      obtain ⟨later, rfl, hlater⟩ := ih h
      exact ⟨later, (List.append_assoc ..).symm, hlater⟩

theorem Advances.eq_of_stops (h : m.Advances now rs n) (hm : m.Stops now) : n = m := by
  cases h with
  | refl => rfl
  | step hs h => exact absurd hs (hm _ _)

/-- A run comes to a step that ends it. -/
theorem exists_advances_stops (m : Machine) (now : Binary64) :
    ∃ rs n, m.Advances now rs n ∧ n.Stops now := by
  induction m using run_induction now with
  | step m ih =>
    by_cases hm : m.Stops now
    · exact ⟨[], m, .refl m, hm⟩
    · obtain ⟨k, rs, hs⟩ : ∃ k rs, m.step now = .continued k rs := by simpa [Stops] using hm
      obtain ⟨ss, n, hn, hstop⟩ := ih k rs hs
      exact ⟨rs ++ ss, n, .step hs hn, hstop⟩

/-! ## Ticks -/

theorem Underway.of_advances (hm : m.Underway now n) (h : n.Advances now rs k) :
    m.Underway now k := by
  induction h with
  | refl n => exact hm
  | step hs h ih => exact ih (hm.continued hs)

theorem Reaches.underway (h : m.Reaches now rs n) : m.Underway now n := by
  obtain ⟨ss, -, hss⟩ := h.advances
  exact (Underway.ready h.faulted h.gated).of_advances hss

theorem Reaches.of_advances (h : m.Reaches now rs n) (h' : n.Advances now ss k) :
    m.Reaches now (rs ++ ss) k := by
  obtain ⟨rs', rfl, hrs⟩ := h.advances
  exact ⟨h.faulted, h.gated, rs' ++ ss, List.append_assoc .., hrs.trans h'⟩

/-- What is left to a tick is the slice of the machine that it has reached. -/
theorem Reaches.tick_eq (h : m.Reaches now rs n) : m.tick now = (n.slice now).after rs := by
  obtain ⟨ss, rfl, hss⟩ := h.advances
  rw [tick_of_ready h.faulted h.gated, hss.slice_eq, Response.after_after]

theorem exists_reaches_stops (hf : m.faulted = false) (hg : m.gated now = false) :
    ∃ rs n, m.Reaches now rs n ∧ n.Stops now := by
  obtain ⟨ss, n, hss, hn⟩ := m.awake.exists_advances_stops now
  exact ⟨m.waking ++ ss, n, ⟨hf, hg, ss, rfl, hss⟩, hn⟩

/-- Whatever a tick reaches, it goes on from there to the machine whose step ends it. -/
theorem Reaches.before_stop (h : m.Reaches now rs n) (hn : n.Stops now)
    (h' : m.Reaches now ss k) : ∃ later, rs = ss ++ later ∧ k.Advances now later n := by
  obtain ⟨rs', rfl, hrs⟩ := h.advances
  obtain ⟨ss', rfl, hss⟩ := h'.advances
  obtain ⟨later, rfl, hlater⟩ := hrs.before_stop hn hss
  exact ⟨later, (List.append_assoc ..).symm, hlater⟩

end TickMachine.Machine
