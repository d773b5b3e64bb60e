import TickMachine.Proofs.Progress

/-!
# The fetches of a tick

A run fetches one opcode after the other. `Fetches` lists their positions step by step, so a run has
such a list only if its steps come to an end.

Every step moves the pointer on or ends the run; a restart, which moves the pointer back, does both.
So a tick fetches from ever higher positions (`Fetches.pairwise`), from each byte that is left at
most once, and reports no more than one event a fetch and its own end (`fetches_once`).
-/

namespace TickMachine.Machine

/-- The run of a machine: the positions that it fetches an opcode from, one after the other, and
what it comes to. -/
inductive Fetches (now : Binary64) : Machine → List Nat → Response → Prop where
  | ended {m : Machine} (hs : m.step now = .ended) : Fetches now m [] ⟨m, [], .ok ()⟩
  | continued {m n : Machine} {rs : List Record} {ps : List Nat} {r : Response}
    (hs : m.step now = .continued n rs) (h : Fetches now n ps r) :
    Fetches now m (m.ip :: ps) (r.after rs)
  | suspended {m n : Machine} {rs : List Record} (hs : m.step now = .suspended n rs) :
    Fetches now m [m.ip] ⟨n, rs, .ok ()⟩
  | failed {m n : Machine} {rs : List Record} {fault : Fault}
    (hs : m.step now = .failed fault n rs) : Fetches now m [m.ip] ⟨n, rs, .error fault⟩

/-- The positions that a tick fetches opcodes from: those of its run, and none if it is refused or
held back. -/
def TickFetches (m : Machine) (now : Binary64) (ps : List Nat) : Prop :=
  if m.faulted || m.gated now then ps = [] else m.awake.Fetches now ps (m.awake.run now)

variable {m n : Machine} {now : Binary64} {ps qs : List Nat} {r r' : Response} {rs : List Record}

/-! ## Each run has its fetches -/

/-- The run ends: its fetches are listed. -/
theorem exists_fetches (m : Machine) (now : Binary64) : ∃ ps, m.Fetches now ps (m.run now) := by
  induction m using run_induction now with
  | step m ih =>
    cases hs : m.step now with
    | ended => exact ⟨[], run_of_ended hs ▸ .ended hs⟩
    | continued n rs =>
      obtain ⟨ps, hps⟩ := ih n rs hs
      exact ⟨m.ip :: ps, run_of_continued hs ▸ .continued hs hps⟩
    | suspended n rs => exact ⟨[m.ip], run_of_suspended hs ▸ .suspended hs⟩
    | failed fault n rs => exact ⟨[m.ip], run_of_failed hs ▸ .failed hs⟩

theorem Fetches.unique (h : m.Fetches now ps r) (h' : m.Fetches now qs r') : qs = ps := by
  induction h generalizing qs r' with
  | ended hs => cases h' <;> simp_all
  | continued hs h ih =>
    cases h' with
    | continued hs' h' =>
      rw [hs] at hs'
      cases hs'
      rw [ih h']
    | _ => simp_all
  | suspended hs => cases h' <;> simp_all
  | failed hs => cases h' <;> simp_all

/-- No run goes on for ever. -/
theorem Fetches.not_forever (h : m.Fetches now ps r) {s : Nat → Machine} (hm : s 0 = m)
    (hs : ∀ k, ∃ rs, (s k).step now = .continued (s (k + 1)) rs) : False := by
  obtain ⟨rs, h0⟩ := hs 0
  rw [hm] at h0
  induction h generalizing s rs with
  | @continued m n rs' ps r hs' h ih =>
    rw [hs'] at h0
    cases h0
    obtain ⟨rs, h1⟩ := hs 1
    exact ih rfl (fun k => hs (k + 1)) rs h1
  | ended hs' | suspended hs' | failed hs' =>
    rw [hs'] at h0
    cases h0

/-! ## Where they are -/

/-- A step that does anything finds a byte. -/
theorem lt_size_of_step {s : Step} (hs : m.step now = s) (h : s ≠ .ended) :
    m.ip < m.program.size := by
  refine Nat.lt_of_not_le fun hle => h ?_
  rw [← hs]
  exact step_of_ended (Program.move_eq_ended_iff.2 (Program.decode_eq_ended_iff.2 hle))

theorem Fetches.mem_range (h : m.Fetches now ps r) :
    ∀ pos ∈ ps, m.ip ≤ pos ∧ pos < m.program.size := by
  induction h with
  | ended hs => simp
  | continued hs h ih =>
    obtain ⟨hlt, hnext, hprogram⟩ := lt_of_continued hs
    refine List.forall_mem_cons.2 ⟨⟨Nat.le_refl _, hlt⟩, fun pos hpos => ?_⟩
    obtain ⟨hle, hpos⟩ := ih pos hpos
    rw [hprogram] at hpos
    exact ⟨by omega, hpos⟩
  | suspended hs | failed hs =>
    exact List.forall_mem_singleton.2 ⟨Nat.le_refl _, lt_size_of_step hs (by simp)⟩

/-- From one fetch to the next the pointer moves on. -/
theorem Fetches.pairwise (h : m.Fetches now ps r) : ps.Pairwise (· < ·) := by
  induction h with
  | ended hs => exact .nil
  | continued hs h ih =>
    refine .cons (fun pos hpos => ?_) ih
    exact Nat.lt_of_lt_of_le (lt_of_continued hs).2.1 (h.mem_range pos hpos).1
  | suspended hs | failed hs => exact List.pairwise_singleton ..

theorem Fetches.length_le (h : m.Fetches now ps r) : ps.length ≤ m.program.size - m.ip := by
  induction h with
  | ended hs => exact Nat.zero_le _
  | continued hs h ih =>
    obtain ⟨hlt, hnext, hprogram⟩ := lt_of_continued hs
    rw [hprogram] at ih
    rw [List.length_cons]
    omega
  | suspended hs | failed hs =>
    have hlt := lt_size_of_step hs (by simp)
    rw [List.length_singleton]
    omega

/-! ## What they report -/

/-- One step reports one event at most. -/
theorem Fetches.length_events_le (h : m.Fetches now ps r) : r.events.length ≤ ps.length := by
  induction h with
  | ended hs => exact Nat.zero_le _
  | @continued m n rs ps r hs h ih =>
    have hrs : (Record.events rs).length ≤ 1 := by
      have hst := m.stepped now
      rw [hs] at hst
      cases hst with
      | skipped h => exact Nat.zero_le _
      | executed h he => rw [events_heading_append]; exact Nat.le_refl _
    rw [Response.events_after, List.length_append, List.length_cons]
    omega
  | @suspended m n rs hs =>
    have hst := m.stepped now
    rw [hs] at hst
    cases hst with
    | waited h | restarted h => rw [Response.events, events_heading_append]; exact Nat.le_refl _
  | @failed m n rs fault hs =>
    have hst := m.stepped now
    rw [hs] at hst
    cases hst with
    | failed h => rw [Response.events, events_heading]; exact Nat.zero_le _

theorem length_events_run_le (m : Machine) (now : Binary64) :
    (m.run now).events.length ≤ m.program.size - m.ip := by
  obtain ⟨ps, hps⟩ := m.exists_fetches now
  exact Nat.le_trans hps.length_events_le hps.length_le

/-- The end of a tick is an event more than the run reports, and so is the time left of a tick that
is held back. -/
theorem length_events_tick_le (m : Machine) (now : Binary64) :
    (m.tick now).events.length ≤ m.program.size - m.ip + 1 := by
  rcases m.tick_cases now with hf | ⟨wake, hf, hw, hlt⟩ | ⟨hf, hg⟩
  · rw [tick_of_faulted hf]
    exact Nat.zero_le _
  · rw [tick_of_gated hf hw hlt]
    exact Nat.le_add_left 1 _
  · have hrun : (m.awake.run now).events.length ≤ m.program.size - m.ip :=
      m.awake.length_events_run_le now
    rw [tick_of_ready hf hg]
    cases hr : (m.awake.run now).result with
    | ok =>
      rw [slice_of_ok hr, Response.after, events_stopped, List.length_append]
      split
      · exact Nat.add_le_add hrun (Nat.le_refl 1)
      · exact Nat.le_succ_of_le hrun
    | error fault =>
      rw [slice_of_error hr, Response.after, events_failed]
      exact Nat.le_succ_of_le hrun

/-- **One pass.** The fetches of a tick are listed, in one way. They are from ever higher positions,
the pointer or behind it and before the end of the bytes, so there is no more than one for each byte
that is left. The tick reports one event more at most. The steps of its run come to an end. -/
theorem fetches_once (m : Machine) (now : Binary64) :
    (∃ ps, m.TickFetches now ps ∧ (∀ qs, m.TickFetches now qs → qs = ps) ∧
      ps.Pairwise (· < ·) ∧ (∀ pos ∈ ps, m.ip ≤ pos ∧ pos < m.program.size) ∧
      ps.length ≤ m.program.size - m.ip) ∧
      (m.tick now).events.length ≤ m.program.size - m.ip + 1 ∧
      ∀ s : Nat → Machine, s 0 = m.awake →
        ∃ k, ∀ rs, (s k).step now ≠ .continued (s (k + 1)) rs := by
  obtain ⟨ps, hps⟩ := m.awake.exists_fetches now
  refine ⟨?_, m.length_events_tick_le now, fun s hs => ?_⟩
  · unfold TickFetches
    split
    · exact ⟨[], rfl, fun qs hqs => hqs, .nil, by simp, Nat.zero_le _⟩
    · exact ⟨ps, hps, fun qs => hps.unique, hps.pairwise, hps.mem_range, hps.length_le⟩
  · by_contra hforever
    push Not at hforever
    exact hps.not_forever hs hforever

end TickMachine.Machine
