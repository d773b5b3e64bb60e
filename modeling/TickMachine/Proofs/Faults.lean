import TickMachine.Proofs.Commands

/-!
# The life of a fault

A tick that meets a fault stops the machine. From then on ticks are refused and nothing changes but
the policy, nothing is reported and nothing logged, until a program is loaded.

So the results of the ticks between two loads are of one form (`FaultsOnce`): none fails, or one does
and all after it are refused. `fault_until_load` states this of every run.
-/

namespace TickMachine

/-- Results of ticks of which at most one meets a fault; those after it are refused. -/
inductive FaultsOnce : List (Except Fault Unit) → Prop where
  | never (n : Nat) : FaultsOnce (.replicate n (.ok ()))
  | once (n k : Nat) {fault : Fault} (h : fault ≠ .faulted) :
    FaultsOnce (.replicate n (.ok ()) ++ .error fault :: .replicate k (.error .faulted))

theorem FaultsOnce.cons_ok {results : List (Except Fault Unit)} (h : FaultsOnce results) :
    FaultsOnce (.ok () :: results) := by
  cases h with
  | never n => exact .never (n + 1)
  | once n k h => exact .once (n + 1) k h

theorem Program.Failure.ne_faulted {p : Program} {policy : UnknownPolicy} {ip next : Nat}
    {xs : List UInt8} {fault : Fault} (h : p.Failure policy ip xs fault next) :
    fault ≠ .faulted := by
  cases h <;> simp

namespace Machine

/-- The results of the ticks among commands given one after the other. -/
def tickResults (m : Machine) : List Command → List (Except Fault Unit)
  | [] => []
  | .load p :: cs => (m.load p).tickResults cs
  | .configure policy :: cs => (m.configure policy).tickResults cs
  | .tick now :: cs => (m.tick now).result :: (m.tick now).machine.tickResults cs

variable {m : Machine} {now : Binary64} {r : Response} {fault : Fault} {c : Command}
  {cs : List Command}

/-! ## Meeting a fault -/

/-- What a run meets is a fault of its own. -/
theorem Runs.ne_faulted (h : Runs now m r) (hr : r.result = .error fault) : fault ≠ .faulted := by
  induction h with
  | skipped _ _ ih | executed _ _ _ ih => exact ih hr
  | ended h | waited h | restarted h => cases hr
  | failed h =>
    cases hr
    exact (Program.move_eq_failed_iff.1 h).ne_faulted

/-- Only a faulted machine refuses a tick. -/
theorem ne_faulted_of_tick (hf : m.faulted = false) (hr : (m.tick now).result = .error fault) :
    fault ≠ .faulted := by
  have ht := m.ticked now
  generalize m.tick now = r at ht hr
  cases ht with
  | faulted hf' =>
    rw [hf] at hf'
    cases hf'
  | gated hf hw hlt | stopped hf hg hrun hr' => cases hr
  | failed hf hg hrun hr' =>
    cases hr
    exact hrun.ne_faulted hr'

/-! ## After a fault -/

/-- What a faulted machine preserves: all but the policy. It notes nothing. -/
theorem perform_of_faulted (hf : m.faulted = true) (hc : c.isLoad = false) :
    (m.perform c).records = [] ∧ ∃ policy, (m.perform c).machine = { m with policy } := by
  cases c with
  | load p => cases hc
  | configure policy => exact ⟨rfl, policy, rfl⟩
  | tick now =>
    have htick : m.perform (.tick now) = ⟨m, [], .error .faulted⟩ := tick_of_faulted hf now
    rw [htick]
    exact ⟨rfl, m.policy, rfl⟩

theorem faulted_perform (hf : m.faulted = true) (hc : c.isLoad = false) :
    (m.perform c).machine.faulted = true := by
  obtain ⟨-, policy, hm⟩ := perform_of_faulted hf hc
  rw [hm]
  exact hf

theorem faulted_obey (hf : m.faulted = true) (hcs : ∀ c ∈ cs, c.isLoad = false) :
    (m.obey cs).faulted = true := by
  induction cs generalizing m with
  | nil => exact hf
  | cons c cs ih =>
    obtain ⟨hc, hcs⟩ := List.forall_mem_cons.1 hcs
    exact ih (faulted_perform hf hc) hcs

theorem tickResults_of_faulted (hf : m.faulted = true) (hcs : ∀ c ∈ cs, c.isLoad = false) :
    ∃ k, m.tickResults cs = .replicate k (.error .faulted) := by
  induction cs generalizing m with
  | nil => exact ⟨0, rfl⟩
  | cons c cs ih =>
    obtain ⟨hc, hrest⟩ := List.forall_mem_cons.1 hcs
    obtain ⟨k, hk⟩ := ih (faulted_perform hf hc) hrest
    cases c with
    | load p => cases hc
    | configure policy => exact ⟨k, hk⟩
    | tick now =>
      have hresult : (m.tick now).result = .error .faulted := by rw [tick_of_faulted hf]
      refine ⟨k + 1, ?_⟩
      rw [tickResults, hresult, List.replicate_succ]
      exact congrArg _ hk

/-! ## Between two loads -/

theorem faultsOnce_tickResults (hf : m.faulted = false) (hcs : ∀ c ∈ cs, c.isLoad = false) :
    FaultsOnce (m.tickResults cs) := by
  induction cs generalizing m with
  | nil => exact .never 0
  | cons c cs ih =>
    obtain ⟨hc, hrest⟩ := List.forall_mem_cons.1 hcs
    cases c with
    | load p => cases hc
    | configure policy => exact ih (m := m.configure policy) hf hrest
    | tick now =>
      rw [tickResults]
      cases hr : (m.tick now).result with
      | ok => exact (ih (faulted_tick_of_ok hr) hrest).cons_ok
      | error fault =>
        have hne : fault ≠ .faulted := ne_faulted_of_tick hf hr
        obtain ⟨k, hk⟩ := tickResults_of_faulted (faulted_tick_iff.2 ⟨fault, hr⟩) hrest
        rw [hk]
        exact .once 0 k hne

/-- A machine is faulted once a tick has met a fault. -/
theorem faulted_obey_iff (hf : m.faulted = false) (hcs : ∀ c ∈ cs, c.isLoad = false) :
    (m.obey cs).faulted = true ↔ ∃ fault, fault ≠ .faulted ∧ .error fault ∈ m.tickResults cs := by
  induction cs generalizing m with
  | nil => simp [hf, tickResults]
  | cons c cs ih =>
    obtain ⟨hc, hrest⟩ := List.forall_mem_cons.1 hcs
    cases c with
    | load p => cases hc
    | configure policy => exact ih (m := m.configure policy) hf hrest
    | tick now =>
      rw [tickResults]
      show ((m.tick now).machine.obey cs).faulted = true ↔ _
      cases hr : (m.tick now).result with
      | ok =>
        rw [ih (faulted_tick_of_ok hr) hrest]
        simp
      | error fault =>
        have hne : fault ≠ .faulted := ne_faulted_of_tick hf hr
        have hfaulted : (m.tick now).machine.faulted = true := faulted_tick_iff.2 ⟨fault, hr⟩
        exact ⟨fun _ => ⟨fault, hne, List.mem_cons_self⟩, fun _ => faulted_obey hfaulted hrest⟩

theorem obey_configure (m : Machine) (policies : List UnknownPolicy) :
    ∃ policy, m.obey (policies.map .configure) = { m with policy } := by
  induction policies generalizing m with
  | nil => exact ⟨m.policy, rfl⟩
  | cons policy policies ih => exact ih (m.configure policy)

end Machine

/-! ## Sessions -/

namespace Session

variable {σ : Type} [Sink σ] {s : Session σ} {cs : List Command}

/-- Nothing reaches the sink of a faulted machine, and nothing but the policy changes. -/
theorem obey_of_faulted (hf : s.machine.faulted = true) (hcs : ∀ c ∈ cs, c.isLoad = false) :
    (s.obey cs).sink = s.sink ∧ ∃ policy, (s.obey cs).machine = { s.machine with policy } := by
  induction cs generalizing s with
  | nil => exact ⟨rfl, s.machine.policy, rfl⟩
  | cons c cs ih =>
    obtain ⟨hc, hcs⟩ := List.forall_mem_cons.1 hcs
    obtain ⟨hrecords, policy, hmachine⟩ := Machine.perform_of_faulted hf hc
    have hsink : (s.perform c).2.sink = s.sink := by
      show (s.machine.perform c).records.foldl _ s.sink = s.sink
      rw [hrecords]
      rfl
    have hnext : (s.perform c).2.machine = { s.machine with policy } := hmachine
    obtain ⟨hs, last, hlast⟩ := ih (s := (s.perform c).2) (Machine.faulted_perform hf hc) hcs
    rw [obey_cons]
    exact ⟨hs.trans hsink, last, by rw [hlast, hnext]⟩

/-- **Faults.** Between two loads no tick fails, or one meets a fault and all after it are refused;
the machine is faulted from that tick on. Then, until the next load, nothing reaches the sink and
nothing changes but the policy. A load ends the fault: the next tick runs the new program from the
start. -/
theorem fault_until_load (sink : σ) (cs : List Command) :
    let s := (new sink).obey (cs.rdropWhile (!·.isLoad))
    let results := s.machine.tickResults (cs.rtakeWhile (!·.isLoad))
    let t := (new sink).obey cs
    FaultsOnce results ∧
      (t.machine.faulted = true ↔ ∃ fault, fault ≠ .faulted ∧ .error fault ∈ results) ∧
      (t.machine.faulted = true → ∀ ds, (∀ d ∈ ds, d.isLoad = false) →
        (t.obey ds).sink = t.sink ∧ ∃ policy, (t.obey ds).machine = { t.machine with policy }) ∧
      ∀ p (policies : List UnknownPolicy) now,
        let u := (t.obey (.load p :: policies.map .configure)).machine
        (∃ policy, u = ⟨p, 0, .empty, none, false, policy⟩) ∧ u.tick now = u.slice now := by
  intro s results t
  have hsince : ∀ c ∈ cs.rtakeWhile (!·.isLoad), c.isLoad = false := by
    intro c hc
    simpa using List.mem_rtakeWhile_imp hc
  have hs : s.machine.faulted = false := by
    show ((new sink).obey _).machine.faulted = false
    rw [machine_obey]
    exact Machine.obey_rdropWhile (P := fun m => m.faulted = false) rfl (fun _ _ => rfl) cs
  have ht : t.machine = s.machine.obey (cs.rtakeWhile (!·.isLoad)) := by
    rw [← machine_obey, ← obey_append, List.rdropWhile_append_rtakeWhile]
  refine ⟨Machine.faultsOnce_tickResults hs hsince, ?_, ?_, ?_⟩
  · rw [ht]
    exact Machine.faulted_obey_iff hs hsince
  · intro hf ds hds
    exact obey_of_faulted hf hds
  · intro p policies now u
    obtain ⟨policy, hu⟩ : ∃ policy, u = ⟨p, 0, .empty, none, false, policy⟩ := by
      show ∃ policy, ((t.perform (.load p)).2.obey _).machine = _
      rw [machine_obey]
      exact Machine.obey_configure _ policies
    refine ⟨⟨policy, hu⟩, ?_⟩
    rw [hu]
    rfl

end Session

end TickMachine
