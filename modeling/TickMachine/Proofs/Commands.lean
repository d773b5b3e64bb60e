import Mathlib.Data.List.DropRight
import TickMachine.Session
import TickMachine.Proofs.Move

/-!
# Ticks and commands

A tick is refused by a faulted machine, held back by a pending wait (`gated`), or runs a slice of
the program; `Ticked` says once what it comes to. The machines that a tick goes through are `Underway`;
`exists_underway_last` says how the last of them ends the tick.

`obey` gives commands one after the other. What every command keeps, `obey` keeps
(`obey_invariant`).
-/

namespace TickMachine

def Command.isLoad : Command → Bool
  | load _ => true
  | _ => false

@[simp] theorem Response.events_after (r : Response) (rs : List Record) :
    (r.after rs).events = Record.events rs ++ r.events :=
  Record.events_append rs r.records

theorem Response.after_after (r : Response) (rs earlier : List Record) :
    (r.after rs).after earlier = r.after (earlier ++ rs) := by
  simp only [after, List.append_assoc]

namespace Machine

variable {m n : Machine} {now wake : Binary64} {fault : Fault} {r : Response}

/-! ## The forms of a tick -/

/-- Whether a pending wait is not over yet. -/
def gated (m : Machine) (now : Binary64) : Bool := m.wake.any fun wake => decide (now < wake)

/-- The machine with no wait pending. -/
def awake (m : Machine) : Machine := { m with wake := none }

/-- The record of a wait that is over. -/
def waking (m : Machine) : List Record := m.wake.toList.map .resuming

@[simp] theorem events_waking (m : Machine) : Record.events m.waking = [] := by
  unfold waking
  cases m.wake <;> rfl

theorem gated_eq_true_iff : m.gated now = true ↔ ∃ wake, m.wake = some wake ∧ now < wake := by
  simp [gated, Option.any_eq_true]

/-- A tick is refused, held back, or neither. -/
theorem tick_cases (m : Machine) (now : Binary64) : m.faulted = true ∨
    (∃ wake, m.faulted = false ∧ m.wake = some wake ∧ now < wake) ∨
      m.faulted = false ∧ m.gated now = false := by
  by_cases hf : m.faulted = true
  · exact .inl hf
  have hf : m.faulted = false := Bool.eq_false_iff.2 hf
  by_cases hg : m.gated now = true
  · obtain ⟨wake, hw, hlt⟩ := gated_eq_true_iff.1 hg
    exact .inr (.inl ⟨wake, hf, hw, hlt⟩)
  · exact .inr (.inr ⟨hf, Bool.eq_false_iff.2 hg⟩)

theorem tick_of_faulted (hf : m.faulted = true) (now : Binary64) :
    m.tick now = ⟨m, [], .error .faulted⟩ := by
  rw [tick, if_pos hf]

theorem tick_of_gated (hf : m.faulted = false) (hw : m.wake = some wake) (hlt : now < wake) :
    m.tick now = ⟨m, [.event (.waiting (wake - now).ceil)], .ok ()⟩ := by
  simp [tick, hf, hw, hlt]

/-- A tick that is held back changes nothing. -/
theorem tick_eq_of_gated (hf : m.faulted = false) (hg : m.gated now = true) :
    (m.tick now).machine = m ∧ (m.tick now).result = .ok () := by
  obtain ⟨wake, hw, hlt⟩ := gated_eq_true_iff.1 hg
  rw [tick_of_gated hf hw hlt]
  exact ⟨rfl, rfl⟩

theorem tick_of_ready (hf : m.faulted = false) (hg : m.gated now = false) :
    m.tick now = (m.awake.slice now).after m.waking := by
  cases hw : m.wake with
  | none =>
    have hm : m.awake = m := by cases m; cases hw; rfl
    rw [tick, hm]
    simp [hf, hw, waking, Response.after]
  | some wake =>
    have hlt : ¬ now < wake := by simpa [gated, hw] using hg
    simp [tick, hf, hw, hlt, waking, awake]

/-- The report that no byte is left. -/
def closing (m : Machine) : List Record := if m.isFinished then [.event .finished] else []

theorem slice_of_ok (h : (m.run now).result = .ok ()) :
    m.slice now =
      ⟨(m.run now).machine, (m.run now).records ++ (m.run now).machine.closing, .ok ()⟩ := by
  unfold slice closing
  generalize m.run now = r at h ⊢
  cases r
  cases h
  dsimp only
  split <;> simp

theorem slice_of_error (h : (m.run now).result = .error fault) :
    m.slice now = ⟨{ (m.run now).machine with faulted := true },
      (m.run now).records ++ [.faulted fault (m.run now).machine.ip], .error fault⟩ := by
  unfold slice
  generalize m.run now = r at h ⊢
  cases r
  cases h
  rfl

/-- What a tick can come to. One that is not held back is a run, and a word about its end. -/
inductive Ticked (now : Binary64) (m : Machine) : Response → Prop where
  | faulted (hf : m.faulted = true) : Ticked now m ⟨m, [], .error .faulted⟩
  | gated {wake : Binary64} (hf : m.faulted = false) (hw : m.wake = some wake) (hlt : now < wake) :
    Ticked now m ⟨m, [.event (.waiting (wake - now).ceil)], .ok ()⟩
  | stopped {r : Response} (hf : m.faulted = false) (hg : m.gated now = false)
    (hrun : Runs now m.awake r) (hr : r.result = .ok ()) :
    Ticked now m ⟨r.machine, m.waking ++ (r.records ++ r.machine.closing), .ok ()⟩
  | failed {r : Response} {fault : Fault} (hf : m.faulted = false) (hg : m.gated now = false)
    (hrun : Runs now m.awake r) (hr : r.result = .error fault) :
    Ticked now m ⟨{ r.machine with faulted := true },
      m.waking ++ (r.records ++ [.faulted fault r.machine.ip]), .error fault⟩

theorem ticked (m : Machine) (now : Binary64) : Ticked now m (m.tick now) := by
  rcases m.tick_cases now with hf | ⟨wake, hf, hw, hlt⟩ | ⟨hf, hg⟩
  · rw [tick_of_faulted hf]
    exact .faulted hf
  · rw [tick_of_gated hf hw hlt]
    exact .gated hf hw hlt
  · rw [tick_of_ready hf hg]
    cases hr : (m.awake.run now).result with
    | ok =>
      rw [slice_of_ok hr]
      exact .stopped hf hg (m.awake.runs now) hr
    | error fault =>
      rw [slice_of_error hr]
      exact .failed hf hg (m.awake.runs now) hr

section

variable (m n : Machine) (r : Response) (result : Except Fault Unit)

theorem events_stopped :
    Response.events ⟨n, m.waking ++ (r.records ++ r.machine.closing), result⟩ =
      r.events ++ if r.machine.isFinished then [.finished] else [] := by
  unfold Response.events closing
  rw [Record.events_append, Record.events_append, events_waking]
  split <;> rfl

theorem events_failed (fault : Fault) (pos : Nat) :
    Response.events ⟨n, m.waking ++ (r.records ++ [.faulted fault pos]), result⟩ = r.events := by
  unfold Response.events
  rw [Record.events_append, Record.events_append, events_waking]
  exact List.append_nil _

end

/-! ## Underway -/

/-- The machines that a tick goes through, each about to make a step. -/
inductive Underway (m : Machine) (now : Binary64) : Machine → Prop where
  | ready (hf : m.faulted = false) (hg : m.gated now = false) : Underway m now m.awake
  | continued {n k : Machine} {rs : List Record} (h : Underway m now n)
    (hs : n.step now = .continued k rs) : Underway m now k

/-- A step that ends a run: it finds no byte, suspends the machine or fails. -/
def EndsRun (n : Machine) (now : Binary64) (r : Response) : Prop :=
  (n.step now = .ended ∧ r.machine = n ∧ r.result = .ok ()) ∨
    (∃ rs, n.step now = .suspended r.machine rs ∧ r.result = .ok ()) ∨
      ∃ fault rs, n.step now = .failed fault r.machine rs ∧ r.result = .error fault

theorem Underway.exists_endsRun (h : Underway m now n) :
    ∃ k, Underway m now k ∧ k.EndsRun now (n.run now) := by
  induction n using run_induction now with
  | step n ih =>
    cases hs : n.step now with
    | ended =>
      rw [run_of_ended hs]
      exact ⟨n, h, .inl ⟨hs, rfl, rfl⟩⟩
    | continued k rs =>
      rw [run_of_continued hs]
      exact ih k rs hs (h.continued hs)
    | suspended k rs =>
      rw [run_of_suspended hs]
      exact ⟨n, h, .inr (.inl ⟨rs, hs, rfl⟩)⟩
    | failed fault k rs =>
      rw [run_of_failed hs]
      exact ⟨n, h, .inr (.inr ⟨fault, rs, hs, rfl⟩)⟩

theorem Underway.ready_of (h : m.Underway now n) : m.faulted = false ∧ m.gated now = false := by
  induction h with
  | ready hf hg => exact ⟨hf, hg⟩
  | continued _ _ ih => exact ih

/-- Up to its last step a tick only moves the pointer and changes the stack. -/
theorem Underway.frame (h : m.Underway now n) : n.program = m.program ∧ n.policy = m.policy ∧
    n.faulted = false ∧ n.wake = none := by
  induction h with
  | ready hf hg => exact ⟨rfl, rfl, hf, rfl⟩
  | @continued n k rs _ hs ih =>
    have hst := n.stepped now
    rw [hs] at hst
    cases hst with
    | skipped h => exact ih
    | executed h he => exact ih

/-- Seen from any machine that a tick goes through, its run is the rest of the run. -/
theorem Underway.exists_run_eq (h : m.Underway now n) :
    ∃ rs, m.awake.run now = (n.run now).after rs := by
  induction h with
  | ready hf hg => exact ⟨[], rfl⟩
  | @continued n k rs _ hs ih =>
    obtain ⟨earlier, hr⟩ := ih
    rw [run_of_continued hs] at hr
    exact ⟨earlier ++ rs, by rw [hr, Response.after_after]⟩

theorem Underway.tick_of_ended (h : m.Underway now n) (hs : n.step now = .ended) :
    (m.tick now).machine = n ∧ (m.tick now).result = .ok () := by
  obtain ⟨rs, hr⟩ := h.exists_run_eq
  rw [run_of_ended hs] at hr
  rw [tick_of_ready h.ready_of.1 h.ready_of.2, slice_of_ok (by rw [hr]; rfl), hr]
  exact ⟨rfl, rfl⟩

theorem Underway.tick_of_suspended {k : Machine} {rs : List Record} (h : m.Underway now n)
    (hs : n.step now = .suspended k rs) :
    (m.tick now).machine = k ∧ (m.tick now).result = .ok () := by
  obtain ⟨earlier, hr⟩ := h.exists_run_eq
  rw [run_of_suspended hs] at hr
  rw [tick_of_ready h.ready_of.1 h.ready_of.2, slice_of_ok (by rw [hr]; rfl), hr]
  exact ⟨rfl, rfl⟩

/-- The last step of a tick decides its result and the machine after it. -/
theorem exists_underway_last (hf : m.faulted = false) (hg : m.gated now = false) :
    ∃ n, m.Underway now n ∧
      ((n.step now = .ended ∧ (m.tick now).machine = n ∧ (m.tick now).result = .ok ()) ∨
        (∃ rs, n.step now = .suspended (m.tick now).machine rs ∧ (m.tick now).result = .ok ()) ∨
          ∃ fault k rs, n.step now = .failed fault k rs ∧
            (m.tick now).machine = { k with faulted := true } ∧
              (m.tick now).result = .error fault) := by
  obtain ⟨n, hn, hend⟩ := (Underway.ready hf hg).exists_endsRun
  refine ⟨n, hn, ?_⟩
  rw [tick_of_ready hf hg]
  rcases hend with ⟨hs, hm, hr⟩ | ⟨rs, hs, hr⟩ | ⟨fault, rs, hs, hr⟩
  · rw [slice_of_ok hr]
    exact .inl ⟨hs, hm, rfl⟩
  · rw [slice_of_ok hr]
    exact .inr (.inl ⟨rs, hs, rfl⟩)
  · rw [slice_of_error hr]
    exact .inr (.inr ⟨fault, _, rs, hs, rfl, rfl⟩)

/-- A fault comes from a step, unless it only tells of an earlier one. -/
theorem exists_failed_of_tick (hr : (m.tick now).result = .error fault) (hne : fault ≠ .faulted) :
    m.faulted = false ∧ ∃ n k rs, m.Underway now n ∧ n.step now = .failed fault k rs ∧
      (m.tick now).machine = { k with faulted := true } := by
  cases hf : m.faulted with
  | true =>
    rw [tick_of_faulted hf] at hr
    cases hr
    exact absurd rfl hne
  | false =>
    refine ⟨rfl, ?_⟩
    cases hg : m.gated now with
    | true =>
      rw [(tick_eq_of_gated hf hg).2] at hr
      cases hr
    | false =>
      obtain ⟨n, hn, hlast⟩ := exists_underway_last hf hg
      rcases hlast with ⟨_, _, ho⟩ | ⟨_, _, ho⟩ | ⟨f, k, rs, hs, hm, ho⟩ <;> rw [hr] at ho <;>
        cases ho
      exact ⟨n, k, rs, hn, hs, hm⟩

/-- A tick keeps the program and the policy. -/
theorem tick_frame (m : Machine) (now : Binary64) :
    (m.tick now).machine.program = m.program ∧ (m.tick now).machine.policy = m.policy := by
  have ht := m.ticked now
  generalize m.tick now = r at ht ⊢
  cases ht with
  | faulted hf | gated hf hw hlt => exact ⟨rfl, rfl⟩
  | stopped hf hg hrun hr | failed hf hg hrun hr => exact ⟨hrun.frame.1, hrun.frame.2.1⟩

/-- A machine is faulted after a tick exactly if the tick failed. -/
theorem faulted_tick_iff : (m.tick now).machine.faulted = true ↔
    ∃ fault, (m.tick now).result = .error fault := by
  have ht := m.ticked now
  generalize m.tick now = r at ht ⊢
  cases ht with
  | faulted hf => exact ⟨fun _ => ⟨_, rfl⟩, fun _ => hf⟩
  | gated hf hw hlt => simp [hf]
  | stopped hf hg hrun hr =>
    have hfr := hrun.frame.2.2.trans hf
    simp [hfr]
  | failed hf hg hrun hr => exact ⟨fun _ => ⟨_, rfl⟩, fun _ => rfl⟩

theorem faulted_tick_of_ok (h : (m.tick now).result = .ok ()) :
    (m.tick now).machine.faulted = false := by
  refine Bool.eq_false_iff.2 fun hf => ?_
  obtain ⟨fault, herr⟩ := faulted_tick_iff.1 hf
  rw [h] at herr
  cases herr

/-! ## Commands in a row -/

/-- The machine after commands given one after the other. -/
def obey (m : Machine) (cs : List Command) : Machine :=
  cs.foldl (fun m c => (m.perform c).machine) m

@[simp] theorem obey_nil (m : Machine) : m.obey [] = m := rfl

@[simp] theorem obey_cons (m : Machine) (c : Command) (cs : List Command) :
    m.obey (c :: cs) = (m.perform c).machine.obey cs := rfl

@[simp] theorem obey_append (m : Machine) (cs ds : List Command) :
    m.obey (cs ++ ds) = (m.obey cs).obey ds :=
  List.foldl_append

/-- Ticks keep the program and the policy. -/
theorem obey_ticks_frame (m : Machine) (times : List Binary64) :
    (m.obey (times.map .tick)).program = m.program ∧
      (m.obey (times.map .tick)).policy = m.policy := by
  induction times generalizing m with
  | nil => exact ⟨rfl, rfl⟩
  | cons now times ih =>
    obtain ⟨hprogram, hpolicy⟩ := m.tick_frame now
    obtain ⟨hprogram', hpolicy'⟩ := ih (m.tick now).machine
    exact ⟨hprogram'.trans hprogram, hpolicy'.trans hpolicy⟩

theorem obey_invariant {P : Machine → Prop} (hp : ∀ m c, P m → P (m.perform c).machine)
    (h : P m) (cs : List Command) : P (m.obey cs) := by
  induction cs generalizing m with
  | nil => exact h
  | cons c cs ih => exact ih (hp m c h)

/-- What holds of the empty machine and behind every load holds behind the last load. -/
theorem obey_rdropWhile {P : Machine → Prop} (hempty : P empty) (hload : ∀ m p, P (load m p))
    (cs : List Command) : P (empty.obey (cs.rdropWhile (!·.isLoad))) := by
  have hlast := List.rdropWhile_last_not (!·.isLoad) cs
  rcases List.eq_nil_or_concat' (cs.rdropWhile (!·.isLoad)) with h | ⟨bs, c, h⟩
  · rw [h]
    exact hempty
  · rw [h] at hlast ⊢
    have hc : c.isLoad = true := by simpa using hlast (by simp)
    rw [obey_append]
    cases c with
    | load p => exact hload _ p
    | configure policy => cases hc
    | tick now => cases hc

end Machine

/-! ## Sessions -/

namespace Session

variable {σ : Type} [Sink σ]

/-- A session that no command was given to yet. -/
def new (sink : σ) : Session σ := ⟨.empty, sink⟩

/-- The session after commands given one after the other. -/
def obey (s : Session σ) (cs : List Command) : Session σ := cs.foldl (fun s c => (s.perform c).2) s

@[simp] theorem obey_nil (s : Session σ) : s.obey [] = s := rfl

@[simp] theorem obey_cons (s : Session σ) (c : Command) (cs : List Command) :
    s.obey (c :: cs) = (s.perform c).2.obey cs := rfl

@[simp] theorem obey_append (s : Session σ) (cs ds : List Command) :
    s.obey (cs ++ ds) = (s.obey cs).obey ds :=
  List.foldl_append

@[simp] theorem machine_obey (s : Session σ) (cs : List Command) :
    (s.obey cs).machine = s.machine.obey cs := by
  induction cs generalizing s with
  | nil => rfl
  | cons c cs ih => exact ih _

theorem events_perform (s : Session EventLog) (c : Command) :
    (s.perform c).2.sink.events.toList = s.sink.events.toList ++ (s.machine.perform c).events := by
  show ((s.machine.perform c).records.foldl (Sink.accept · c.now?) s.sink).events.toList = _
  rw [EventLog.foldl_accept]
  simp [Response.events]

end Session

end TickMachine
