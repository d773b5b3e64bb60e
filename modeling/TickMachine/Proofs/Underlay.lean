import TickMachine.Proofs.Bounds
import TickMachine.Proofs.Progress

/-!
# Bytes below the stack

No instruction but a restart looks below the bytes that it takes. So more bytes may lie there: a
machine with them does the same, and they are left where they were (`tick_underlaid`), for as long
as there is room for them and for what is pushed.

A restart wipes them too. An instruction that lacks bytes may find them there, so a tick that fails
for want of bytes is the one kind of tick left out.
-/

namespace TickMachine

/-! ## Instructions and moves -/

theorem Instruction.Yields.underlaid {i : Instruction} {xs ys ts : List UInt8} {e : Event}
    (h : i.Yields xs ys e) (he : e ≠ .restart) (hroom : ts.length + ys.length ≤ stackCapacity) :
    i.Yields (ts ++ xs) (ts ++ ys) e := by
  cases h with
  | greet => exact .greet _
  | printInline xs operand => exact .printInline _ operand
  | restart => exact absurd rfl he
  | set xs v h =>
    rw [List.length_append, List.length_singleton] at hroom
    rw [← List.append_assoc]
    exact .set _ v (by rw [List.length_append]; omega)
  | add xs a b =>
    rw [← List.append_assoc, ← List.append_assoc]
    exact .add _ a b
  | printFloat xs b0 b1 b2 b3 =>
    rw [← List.append_assoc]
    exact .printFloat _ b0 b1 b2 b3
  | wait xs amount =>
    rw [← List.append_assoc]
    exact .wait _ amount

namespace Program

variable {p : Program} {policy : UnknownPolicy} {ip next : Nat} {xs ys ts : List UInt8} {e : Event}
  {fault : Fault}

theorem move_underlaid_of_executed (h : p.move policy ip xs = .executed e next ys)
    (he : e ≠ .restart) (hroom : ts.length + ys.length ≤ stackCapacity) :
    p.move policy ip (ts ++ xs) = .executed e next (ts ++ ys) := by
  obtain ⟨i, hd, hy, hnext⟩ := move_eq_executed_iff.1 h
  exact move_eq_executed_iff.2 ⟨i, hd, hy.underlaid he hroom, hnext⟩

theorem Failure.underlaid (h : p.Failure policy ip xs fault next) (ts : List UInt8)
    (hbytes : ∀ needed size, fault ≠ .stackUnderflow needed size) :
    p.Failure policy ip (ts ++ xs) fault next := by
  cases h with
  | unknown hd hp => exact .unknown hd hp
  | truncated hd => exact .truncated hd
  | overflow hd hfull => exact .overflow hd (by rw [List.length_append]; omega)
  | underflow hd hlt => exact absurd rfl (hbytes _ _)

end Program

namespace Machine

/-- The machine with another stack. -/
def withStack (m : Machine) (s : Stack) : Machine := { m with stack := s }

end Machine

def Response.withStack (r : Response) (s : Stack) : Response :=
  { r with machine := r.machine.withStack s }

namespace Machine

/-- The tick comes to a restart. -/
def Restarts (m : Machine) (now : Binary64) : Prop :=
  ∃ rs n, m.Reaches now rs n ∧ n.program.decode n.ip = .instruction .restart

/-- Wherever the tick comes, so many more bytes have room on the stack. -/
def HasRoom (m : Machine) (now : Binary64) (more : Nat) : Prop :=
  ∀ rs n, m.Reaches now rs n → more + n.stack.size ≤ stackCapacity

variable {m n : Machine} {now : Binary64} {rs : List Record} {s : Stack} {ts : List UInt8}

/-! ## Before the last step -/

theorem step_underlaid_of_continued (hs : s.toList = ts ++ m.stack.toList)
    (h : m.step now = .continued n rs) (hroom : ts.length + n.stack.size ≤ stackCapacity) :
    ∃ u : Stack, u.toList = ts ++ n.stack.toList ∧
      (m.withStack s).step now = .continued (n.withStack u) rs := by
  have hst := m.stepped now
  rw [h] at hst
  cases hst with
  | @skipped b hm =>
    have hmove : (m.withStack s).move = .skipped b :=
      Program.move_eq_skipped_iff.2 (Program.move_eq_skipped_iff.1 hm)
    exact ⟨s, hs, step_of_skipped hmove⟩
  | @executed e ip t hm he =>
    have hmove : (m.withStack s).move = .executed e ip (ts ++ t.toList) := by
      show m.program.move m.policy m.ip s.toList = _
      rw [hs]
      exact Program.move_underlaid_of_executed hm (by rintro rfl; cases he)
        (by rwa [Stack.length_toList])
    exact step_of_executed_of_not_suspends hmove he now

theorem Advances.underlaid (h : m.Advances now rs n) (hs : s.toList = ts ++ m.stack.toList)
    (hroom : ∀ ss k, m.Advances now ss k → ts.length + k.stack.size ≤ stackCapacity) :
    ∃ u : Stack, u.toList = ts ++ n.stack.toList ∧
      (m.withStack s).Advances now rs (n.withStack u) := by
  induction h generalizing s with
  | refl m => exact ⟨s, hs, .refl _⟩
  | @step m k n rs ss hstep h ih =>
    have hk : ts.length + k.stack.size ≤ stackCapacity := hroom _ k (.step hstep (.refl k))
    obtain ⟨u, hu, hnext⟩ := step_underlaid_of_continued hs hstep hk
    obtain ⟨v, hv, hrest⟩ := ih hu fun ts j hj => hroom _ j (.step hstep hj)
    exact ⟨v, hv, .step hnext hrest⟩

theorem Reaches.underlaid (h : m.Reaches now rs n) (hs : s.toList = ts ++ m.stack.toList)
    (hroom : m.HasRoom now ts.length) :
    ∃ u : Stack, u.toList = ts ++ n.stack.toList ∧
      (m.withStack s).Reaches now rs (n.withStack u) := by
  obtain ⟨ss, rfl, hss⟩ := h.advances
  obtain ⟨u, hu, hrest⟩ := hss.underlaid hs fun ss k hk =>
    hroom (m.waking ++ ss) k ⟨h.faulted, h.gated, ss, rfl, hk⟩
  exact ⟨u, hu, h.faulted, h.gated, ss, rfl, hrest⟩

/-! ## The last step -/

theorem stops_of_restart (h : n.program.decode n.ip = .instruction .restart) : n.Stops now := by
  obtain ⟨t, -, hs⟩ := step_of_restart h now
  intro k rs hk
  rw [hs] at hk
  cases hk

/-- A tick that comes to a restart goes no further. -/
theorem Reaches.restarts_iff (h : m.Reaches now rs n) (hn : n.Stops now) :
    m.Restarts now ↔ n.program.decode n.ip = .instruction .restart := by
  constructor
  · rintro ⟨ss, k, hk, hd⟩
    obtain ⟨later, -, hlater⟩ := h.before_stop hn hk
    rwa [hlater.eq_of_stops (stops_of_restart hd)]
  · intro hd
    exact ⟨rs, n, h, hd⟩

theorem slice_underlaid_of_stops (hn : n.Stops now) (hs : s.toList = ts ++ n.stack.toList)
    (hroom : ts.length + n.stack.size ≤ stackCapacity)
    (hbytes : ∀ needed size, (n.slice now).result ≠ .error (.stackUnderflow needed size)) :
    ∃ u : Stack, (n.withStack s).slice now = (n.slice now).withStack u ∧
      if n.program.decode n.ip = .instruction .restart then
        u.toList = [] ∧ (n.slice now).machine.stack.toList = []
      else u.toList = ts ++ (n.slice now).machine.stack.toList := by
  have hst := n.stepped now
  generalize hstep : n.step now = a at hst
  cases hst with
  | skipped h | executed h he => exact absurd hstep (hn _ _)
  | ended h =>
    have hd := Program.move_eq_ended_iff.1 h
    have hstep' : (n.withStack s).step now = .ended :=
      step_of_ended (Program.move_eq_ended_iff.2 hd)
    refine ⟨s, ?_, ?_⟩
    · rw [slice_of_ended hstep, slice_of_ended hstep']
      rfl
    · rw [slice_of_ended hstep, if_neg (by rw [hd]; simp)]
      exact hs
  | @waited amount ip t h =>
    obtain ⟨i, hd, hy, -⟩ := Program.move_eq_executed_iff.1 h
    obtain ⟨rfl, hxs⟩ := Instruction.yields_wait_iff.1 hy
    have hlen := congrArg List.length hxs
    rw [List.length_append, List.length_singleton, Stack.length_toList] at hlen
    have hmove : (n.withStack s).move = .executed (.wait amount) ip (ts ++ t.toList) := by
      show n.program.move n.policy n.ip s.toList = _
      rw [hs]
      exact Program.move_underlaid_of_executed h (by simp) (by omega)
    obtain ⟨u, hu, hstep'⟩ := step_of_executed hmove now
    refine ⟨u, ?_, ?_⟩
    · rw [slice_of_suspended hstep, slice_of_suspended hstep']
      rfl
    · rw [slice_of_suspended hstep, if_neg (by rw [hd]; simp)]
      exact hu
  | @restarted t h =>
    obtain ⟨i, hd, hy, -⟩ := Program.move_eq_executed_iff.1 h
    obtain ⟨rfl, ht⟩ := Instruction.yields_restart_iff.1 hy
    obtain ⟨u, hu, hstep'⟩ := step_of_restart (m := n.withStack s) hd now
    refine ⟨u, ?_, ?_⟩
    · rw [slice_of_suspended hstep, slice_of_suspended hstep']
      rfl
    · rw [slice_of_suspended hstep, if_pos hd]
      exact ⟨hu, ht⟩
  | @failed fault ip h =>
    rw [slice_of_failed hstep] at hbytes
    have hfail := Program.move_eq_failed_iff.1 h
    have hmove : (n.withStack s).move = .failed fault ip := by
      show n.program.move n.policy n.ip s.toList = _
      rw [hs]
      refine Program.move_eq_failed_iff.2 (hfail.underlaid ts fun needed size hfault => ?_)
      exact hbytes needed size (by rw [hfault])
    -- A restart does not fail, so the bytes below are still there.
    have hd : n.program.decode n.ip ≠ .instruction .restart := by
      intro hd
      obtain ⟨t, -, hrestart⟩ := step_of_restart hd now
      rw [hstep] at hrestart
      cases hrestart
    refine ⟨s, ?_, ?_⟩
    · rw [slice_of_failed hstep, slice_of_failed (step_of_failed hmove)]
      rfl
    · rw [slice_of_failed hstep, if_neg hd]
      exact hs

/-- **Bytes below the stack.** Two machines that have not failed differ in the stack alone, one of
them has the bytes of the other on top of some more. A tick that does not fail for want of bytes
comes to the same on both, if wherever it comes there is room for the bytes below; these are where
they were, unless the tick comes to a restart, which leaves both stacks empty. -/
theorem tick_underlaid (m : Machine) {s : Stack} {ts : List UInt8} {now : Binary64}
    (hf : m.faulted = false) (hs : s.toList = ts ++ m.stack.toList)
    (hroom : m.HasRoom now ts.length)
    (hbytes : ∀ needed size, (m.tick now).result ≠ .error (.stackUnderflow needed size)) :
    ∃ u : Stack, (m.withStack s).tick now = (m.tick now).withStack u ∧
      (¬ m.Restarts now → u.toList = ts ++ (m.tick now).machine.stack.toList) ∧
      (m.Restarts now → u.toList = [] ∧ (m.tick now).machine.stack.toList = []) := by
  cases hg : m.gated now with
  | true =>
    obtain ⟨wake, hw, hlt⟩ := gated_eq_true_iff.1 hg
    refine ⟨s, ?_, ?_, ?_⟩
    · rw [tick_of_gated hf hw hlt, tick_of_gated (m := m.withStack s) hf hw hlt]
      rfl
    · intro _
      rw [tick_of_gated hf hw hlt]
      exact hs
    · rintro ⟨rs, n, hn, -⟩
      rw [hn.gated] at hg
      cases hg
  | false =>
    obtain ⟨rs, n, hn, hstop⟩ := exists_reaches_stops hf hg
    obtain ⟨t, ht, hn'⟩ := hn.underlaid hs hroom
    rw [hn.tick_eq] at hbytes ⊢
    obtain ⟨u, hu, hstack⟩ := slice_underlaid_of_stops hstop ht (hroom rs n hn) hbytes
    rw [hn'.tick_eq, hu, hn.restarts_iff hstop]
    refine ⟨u, rfl, fun hd => ?_, fun hd => ?_⟩
    · rwa [if_neg hd] at hstack
    · rwa [if_pos hd] at hstack

/-- A sum of two bytes, on top of as many bytes as are sure to leave room. -/
theorem tick_underlaid_of_sum :
    let m := empty.load (.ofList [1, 5, 1, 7, 2, 5])
    let s : Stack := ⟨Vector.replicate _ 9, 125, by decide⟩
    m.faulted = false ∧ s.toList = List.replicate 125 9 ++ m.stack.toList ∧
      m.HasRoom (.ofNat 0) 125 ∧ (m.tick (.ofNat 0)).result = .ok () ∧
      (m.tick (.ofNat 0)).events = [.set 5, .set 7, .add 5 7 12, .wait 12, .finished] ∧
      ∃ u : Stack, u.toList = List.replicate 125 9 ∧
        (m.withStack s).tick (.ofNat 0) = (m.tick (.ofNat 0)).withStack u := by
  intro m s
  have hs : s.toList = List.replicate 125 9 ++ m.stack.toList := by decide +kernel
  have hroom : m.HasRoom (.ofNat 0) (List.replicate 125 (9 : UInt8)).length := by
    intro rs n hn
    obtain ⟨hb, -, -⟩ := (bounded_load empty (.ofList [1, 5, 1, 7, 2, 5])).underway hn.underway
    have htwo := hb.two_mul_size_le
    have hle : n.ip ≤ 6 := by
      have hip := hb.ip_le
      rwa [hn.underway.program_eq] at hip
    rw [List.length_replicate]
    show 125 + n.stack.size ≤ 128
    omega
  have hok : (m.tick (.ofNat 0)).result = .ok () := by decide +kernel
  have hip : (m.tick (.ofNat 0)).machine.ip = 6 := by decide +kernel
  have hstack : (m.tick (.ofNat 0)).machine.stack.toList = [] := by decide +kernel
  -- A restart would have left the pointer at the first byte.
  have hnot : ¬ m.Restarts (.ofNat 0) := by
    rintro ⟨rs, n, hn, hd⟩
    obtain ⟨t, -, hstep⟩ := step_of_restart hd (.ofNat 0)
    rw [(hn.underway.tick_of_suspended hstep).1] at hip
    cases hip
  obtain ⟨u, hu, hkept, -⟩ := tick_underlaid m rfl hs hroom fun needed size h => by
    rw [hok] at h
    cases h
  refine ⟨rfl, hs, hroom, hok, by decide +kernel, u, ?_, hu⟩
  rw [hkept hnot, hstack, List.append_nil]

end Machine

end TickMachine
