import TickMachine.Proofs.Commands

/-!
# Waits

A wait instruction leaves the machine asleep right behind itself. A tick before the time to wake
changes nothing and only reports how long is left; the first tick at which the wait is over runs on
from there. `wait_kept` states this for clocks that go in any direction.

A wait is over once its time is reached. What is no number is neither before nor after another time,
so it ends a wait as well (`Due`, `wait_ended_by_nan`).
-/

namespace TickMachine

/-! ## Times -/

namespace Binary

variable {f : Format} {x y : Binary f}

/-- The order of the numbers, the two zeros taken for one. What is no number stands in no order. -/
instance : LE (Binary f) := ⟨fun x y => x.isNaN = false ∧ y.isNaN = false ∧ x.rank ≤ y.rank⟩

instance (x y : Binary f) : Decidable (x ≤ y) := inferInstanceAs (Decidable (_ ∧ _ ∧ _))

theorem le_def : x ≤ y ↔ x.isNaN = false ∧ y.isNaN = false ∧ x.rank ≤ y.rank := Iff.rfl

/-- One number is not less than another exactly if it is as great or greater; beside what is no
number nothing is less. -/
theorem not_lt_iff : ¬ x < y ↔ y ≤ x ∨ y.isNaN = true ∨ x.isNaN = true := by
  rw [lt_iff, le_def]
  by_cases hx : x.isNaN = true
  · simp [hx]
  by_cases hy : y.isNaN = true
  · simp [hy]
  simp [hx, hy]

end Binary

/-- A wait until `wake` is over: its time is reached, or one of the times is no number. -/
def Due (wake now : Binary64) : Prop := wake ≤ now ∨ wake.isNaN = true ∨ now.isNaN = true

instance (wake now : Binary64) : Decidable (Due wake now) := inferInstanceAs (Decidable (_ ∨ _ ∨ _))

theorem not_lt_iff_due {wake now : Binary64} : ¬ now < wake ↔ Due wake now := Binary.not_lt_iff

/-- A command that cannot end a wait: it is no load and no tick at which the wait is over. -/
def Command.Early (wake : Binary64) (c : Command) : Prop :=
  c.isLoad = false ∧ ∀ now, c.now? = some now → ¬ Due wake now

namespace Machine

/-- The machine sleeps until `wake`; then it goes on at a position of its program, with the given
bytes on its stack. -/
structure Asleep (m : Machine) (wake : Binary64) (p : Program) (ip : Nat) (xs : List UInt8) :
    Prop where
  faulted : m.faulted = false
  wake : m.wake = some wake
  program : m.program = p
  ip : m.ip = ip
  stack : m.stack.toList = xs

variable {m n : Machine} {now later wake : Binary64} {p : Program} {ip : Nat} {xs : List UInt8}
  {amount : UInt8} {c : Command} {cs : List Command}

/-! ## Falling asleep -/

theorem Underway.asleep (hn : m.Underway now n) (hd : n.program.decode n.ip = .instruction .wait)
    (hxs : n.stack.toList = xs ++ [amount]) :
    (m.tick now).machine.Asleep (now + .ofNat amount.toNat) m.program (n.ip + 1) xs := by
  have hmove : n.move = .executed (.wait amount) (n.ip + 1) xs := by
    apply Program.move_eq_executed_iff.2
    refine ⟨.wait, hd, ?_, rfl⟩
    rw [hxs]
    exact .wait xs amount
  obtain ⟨t, ht, hs⟩ := step_of_executed hmove now
  obtain ⟨hprogram, -, hfaulted, -⟩ := hn.frame
  rw [(hn.tick_of_suspended hs).1]
  exact ⟨hfaulted, rfl, hprogram, rfl, ht⟩

/-! ## Sleeping on -/

theorem Asleep.tick_of_not_due (h : m.Asleep wake p ip xs) (hnow : ¬ Due wake now) :
    m.tick now = ⟨m, [.event (.waiting (wake - now).ceil)], .ok ()⟩ := by
  apply tick_of_gated h.faulted h.wake
  exact Decidable.not_not.1 (mt not_lt_iff_due.1 hnow)

/-- What a command that cannot end the wait preserves: the machine sleeps as before. -/
theorem Asleep.perform (h : m.Asleep wake p ip xs) (hc : c.Early wake) :
    (m.perform c).machine.Asleep wake p ip xs := by
  obtain ⟨hload, hearly⟩ := hc
  cases c with
  | load q => cases hload
  | configure policy => exact ⟨h.faulted, h.wake, h.program, h.ip, h.stack⟩
  | tick now =>
    show (m.tick now).machine.Asleep wake p ip xs
    rwa [h.tick_of_not_due (hearly now rfl)]

theorem Asleep.obey (h : m.Asleep wake p ip xs) (hcs : ∀ c ∈ cs, c.Early wake) :
    (m.obey cs).Asleep wake p ip xs := by
  induction cs generalizing m with
  | nil => exact h
  | cons c cs ih =>
    obtain ⟨hc, hcs⟩ := List.forall_mem_cons.1 hcs
    exact ih (h.perform hc) hcs

/-! ## Waking -/

/-- The machine goes on where it fell asleep, with no wait pending. -/
theorem Asleep.tick_of_due (h : m.Asleep wake p ip xs) (hnow : Due wake now) :
    m.tick now = (m.awake.slice now).after [.resuming wake] := by
  have hlt : ¬ now < wake := not_lt_iff_due.2 hnow
  have hg : m.gated now = false := by simp [gated, h.wake, hlt]
  rw [tick_of_ready h.faulted hg, waking, h.wake]
  rfl

/-- With no byte behind the wait, the tick that ends it finds the end of the program. -/
theorem Asleep.tick_of_due_of_end (h : m.Asleep wake p p.size xs) (hnow : Due wake now) :
    m.tick now = ⟨m.awake, [.resuming wake, .event .finished], .ok ()⟩ := by
  have hle : m.program.size ≤ m.ip := Nat.le_of_eq (by rw [h.program, h.ip])
  have hended : m.awake.step now = .ended :=
    step_of_ended (Program.move_eq_ended_iff.2 (Program.decode_eq_ended_iff.2 hle))
  have hfin : m.awake.isFinished = true := decide_eq_true hle
  have hrun := run_of_ended hended
  rw [h.tick_of_due hnow, slice_of_ok (by rw [hrun]), hrun, closing, if_pos hfin]
  rfl

/-- **Waits.** A tick executes a wait, and commands follow that cannot end it. Then the machine
sleeps right behind the wait, with the bytes that the wait left. The next tick, if the wait is not
over, only reports how long is left; if it is over, the tick runs the program from there, and finds
its end if no byte follows the wait. -/
theorem wait_kept (hn : m.Underway now n) (hd : n.program.decode n.ip = .instruction .wait)
    (hxs : n.stack.toList = xs ++ [amount])
    (hcs : ∀ c ∈ cs, c.Early (now + .ofNat amount.toNat)) (later : Binary64) :
    let wake : Binary64 := now + .ofNat amount.toNat
    let k := (m.tick now).machine.obey cs
    k.Asleep wake m.program (n.ip + 1) xs ∧
      (¬ Due wake later →
        k.tick later = ⟨k, [.event (.waiting (wake - later).ceil)], .ok ()⟩) ∧
      (Due wake later → ∃ s : Stack, s.toList = xs ∧ k.tick later =
        (slice ⟨m.program, n.ip + 1, s, none, false, k.policy⟩ later).after [.resuming wake]) ∧
      (Due wake later → n.ip + 1 = m.program.size →
        k.tick later = ⟨k.awake, [.resuming wake, .event .finished], .ok ()⟩) := by
  intro wake k
  have hk : k.Asleep wake m.program (n.ip + 1) xs := (hn.asleep hd hxs).obey hcs
  refine ⟨hk, hk.tick_of_not_due, ?_, ?_⟩
  · intro hdue
    refine ⟨k.stack, hk.stack, ?_⟩
    rw [hk.tick_of_due hdue, ← hk.program, ← hk.ip, ← hk.faulted]
    rfl
  · intro hdue hend
    rw [hend] at hk
    exact hk.tick_of_due_of_end hdue

/-- A wait for one unit of time, held through a change of the policy and an early tick. -/
theorem wait_kept_until_one :
    let m := empty.load (.ofList [1, 1, 5, 0])
    let early : List Command := [.configure .fatal, .tick (.ofNat 0)]
    let k := (m.tick (.ofNat 0)).machine.obey early
    (∃ n, m.Underway (.ofNat 0) n ∧ n.ip = 2 ∧ n.program.decode n.ip = .instruction .wait ∧
        n.stack.toList = [1]) ∧
      (∀ c ∈ early, c.Early (.ofNat 0 + .ofNat 1)) ∧ Due (.ofNat 0 + .ofNat 1) (.ofNat 1) ∧
      ∃ s : Stack, s.toList = [] ∧ k.tick (.ofNat 1) =
        (slice ⟨.ofList [1, 1, 5, 0], 3, s, none, false, k.policy⟩ (.ofNat 1)).after
          [.resuming (.ofNat 0 + .ofNat 1)] := by
  intro m early k
  obtain ⟨n, hn, hip, hd, hxs⟩ : ∃ n, m.Underway (.ofNat 0) n ∧ n.ip = 2 ∧
      n.program.decode n.ip = .instruction .wait ∧ n.stack.toList = [] ++ [1] :=
    ⟨_, .continued (.ready rfl rfl) rfl, rfl, rfl, rfl⟩
  have hearly : ∀ c ∈ early, c.Early (.ofNat 0 + .ofNat 1) := by
    refine List.forall_mem_cons.2 ⟨⟨rfl, fun now h => by cases h⟩, List.forall_mem_singleton.2 ?_⟩
    refine ⟨rfl, fun now h => ?_⟩
    cases h
    decide +kernel
  have hdue : Due (.ofNat 0 + .ofNat 1) (.ofNat 1) := by decide +kernel
  obtain ⟨-, -, hwakes, -⟩ := wait_kept hn hd hxs hearly (.ofNat 1)
  rw [hip] at hwakes
  exact ⟨⟨n, hn, hip, hd, hxs⟩, hearly, hdue, hwakes hdue⟩

/-- A tick at no time at all ends a wait whose time it does not reach. -/
theorem wait_ended_by_nan :
    let m := empty.load (.ofList [1, 1, 5, 0])
    let k := (m.tick (.ofNat 0)).machine
    (m.tick (.ofNat 0)).events = [.set 1, .wait 1] ∧ k.wake = some (.ofNat 0 + .ofNat 1) ∧
      ¬ (.ofNat 0 + .ofNat 1 : Binary64) ≤ .nan ∧ (k.tick .nan).events = [.helloWorld, .finished] ∧
      (k.tick .nan).machine.wake = none := by
  decide +kernel

end Machine

end TickMachine
