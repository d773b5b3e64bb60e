import Mathlib.Data.Stream.Init
import TickMachine.Proofs.Move

/-!
# Passes

A pass executes a program straight through, with no clock and no waiting, until it restarts, the
bytes run out or a move fails. Cut behind every event that suspends, it falls into segments.

`Program.segments` are the segments of a program, which go on for ever. Seen from any position
(`segmentsFrom`), the segments to come are known by the move there.
-/

namespace TickMachine

/-- An event of a pass; the pointer and the stack after it. -/
structure Moment where
  event : Event
  ip : Nat
  stack : List UInt8

inductive Ending where
  | restarted
  /-- No byte is left. -/
  | ranOut
  | failed (fault : Fault)
  deriving DecidableEq

structure Pass where
  moments : List Moment
  ending : Ending
  /-- The pointer at the end. -/
  ip : Nat
  stack : List UInt8

/-- What a tick that is not held back comes to. -/
structure Segment where
  events : List Event
  result : Except Fault Unit
  ip : Nat
  stack : List UInt8

namespace Program

variable {p : Program} {policy : UnknownPolicy} {ip next k : Nat} {xs ys : List UInt8} {b : UInt8}
  {e : Event} {fault : Fault}

theorem lt_size_of_move_skipped (h : p.move policy ip xs = .skipped b) : ip < p.size :=
  Machine.lt_size_of_decode (by rw [(move_eq_skipped_iff.1 h).1]; simp)

/-- Only a restart goes back. -/
theorem lt_of_move_executed (h : p.move policy ip xs = .executed e next ys) (he : e ≠ .restart) :
    ip < next ∧ next ≤ p.size := by
  obtain ⟨i, hd, -, rfl⟩ := move_eq_executed_iff.1 h
  rw [if_neg he]
  exact ⟨Nat.lt_add_of_pos_right i.width_pos, add_width_le_of_decode hd⟩

/-! ## Passes by their first move -/

/-- The pass from a position on. -/
def pass (p : Program) (policy : UnknownPolicy) (ip : Nat) (xs : List UInt8) : Pass :=
  match _h : p.move policy ip xs with
  | .ended => ⟨[], .ranOut, ip, xs⟩
  | .skipped _ => p.pass policy (ip + 1) xs
  | .executed e next ys =>
    if _he : e = .restart then ⟨[⟨e, next, ys⟩], .restarted, next, ys⟩
    else
      let a := p.pass policy next ys
      { a with moments := ⟨e, next, ys⟩ :: a.moments }
  | .failed fault next => ⟨[], .failed fault, next, xs⟩
termination_by p.size - ip
decreasing_by
  · have := lt_size_of_move_skipped _h
    omega
  · have := lt_of_move_executed _h _he
    omega

theorem pass_of_ended (h : p.move policy ip xs = .ended) :
    p.pass policy ip xs = ⟨[], .ranOut, ip, xs⟩ := by
  rw [pass]
  split <;> simp_all

theorem pass_of_skipped (h : p.move policy ip xs = .skipped b) :
    p.pass policy ip xs = p.pass policy (ip + 1) xs := by
  rw [pass]
  split <;> simp_all

theorem pass_of_executed (h : p.move policy ip xs = .executed e next ys) (he : e ≠ .restart) :
    p.pass policy ip xs =
      { p.pass policy next ys with
        moments := ⟨e, next, ys⟩ :: (p.pass policy next ys).moments } := by
  rw [pass]
  split <;> simp_all

theorem pass_of_restarted (h : p.move policy ip xs = .executed .restart next ys) :
    p.pass policy ip xs = ⟨[⟨.restart, next, ys⟩], .restarted, next, ys⟩ := by
  rw [pass]
  split <;> simp_all

theorem pass_of_failed (h : p.move policy ip xs = .failed fault next) :
    p.pass policy ip xs = ⟨[], .failed fault, next, xs⟩ := by
  rw [pass]
  split <;> simp_all

end Program

/-! ## Segments -/

namespace Segment

/-- A segment that does not fail: if no byte is left it says so. -/
def closed (size : Nat) (events : List Event) (ip : Nat) (stack : List UInt8) : Segment :=
  ⟨events ++ if ip = size then [.finished] else [], .ok (), ip, stack⟩

/-- The segment with an earlier event in front. -/
def after (s : Segment) (e : Event) : Segment := { s with events := e :: s.events }

end Segment

/-- Cuts behind every moment that suspends. The other moments go to the segment that follows. -/
def Moment.cut (size : Nat) (last : List Segment) : List Moment → List Segment
  | [] => last
  | mo :: mos =>
    if mo.event.suspends then .closed size [mo.event] mo.ip mo.stack :: cut size last mos
    else (cut size last mos).modifyHead (·.after mo.event)

namespace Pass

variable (a : Pass) (mo : Moment) (size : Nat)

/-- The segment behind the last cut. A pass that restarts is cut at its end. -/
def last : List Segment :=
  match a.ending with
  | .restarted => []
  | .ranOut => [.closed size [] a.ip a.stack]
  | .failed fault => [⟨[], .error fault, a.ip, a.stack⟩]

/-- The segments of a pass through a program of the given size. -/
def segments : List Segment := Moment.cut size (a.last size) a.moments

/-- What comes after the last segment; `again` is what comes after a restart. -/
def rest (again : Stream' Segment) : Stream' Segment :=
  match a.ending with
  | .restarted => again
  | .ranOut => .const ⟨[.finished], .ok (), a.ip, a.stack⟩
  | .failed _ => .const ⟨[], .error .faulted, a.ip, a.stack⟩

variable {mo}

theorem segments_of_suspends (h : mo.event.suspends = true) :
    segments { a with moments := mo :: a.moments } size =
      .closed size [mo.event] mo.ip mo.stack :: a.segments size :=
  if_pos h

theorem segments_of_not_suspends (h : mo.event.suspends = false) :
    segments { a with moments := mo :: a.moments } size =
      (a.segments size).modifyHead (·.after mo.event) :=
  if_neg (Bool.eq_false_iff.1 h)

end Pass

namespace Program

variable {p : Program} {policy : UnknownPolicy} {ip next : Nat} {xs ys : List UInt8} {b : UInt8}
  {e : Event} {fault : Fault}

theorem segments_pass_ne_nil (p : Program) (policy : UnknownPolicy) (ip : Nat) (xs : List UInt8) :
    (p.pass policy ip xs).segments p.size ≠ [] := by
  fun_induction p.pass policy ip xs with
  | case1 ip xs h => exact List.cons_ne_nil _ _
  | case2 ip xs b h ih => exact ih
  | case3 ip xs next ys h => exact List.cons_ne_nil _ _
  | case4 ip xs e next ys h he a ih =>
    cases hs : e.suspends with
    | true =>
      rw [Pass.segments_of_suspends a _ hs]
      exact List.cons_ne_nil _ _
    | false =>
      rw [Pass.segments_of_not_suspends a _ hs]
      rwa [ne_eq, List.modifyHead_eq_nil_iff]
  | case5 ip xs fault next h => exact List.cons_ne_nil _ _

/-- The segments of the program. After a restart they come from the first on, over and over. -/
def segments (p : Program) (policy : UnknownPolicy) : Stream' Segment :=
  let a := p.pass policy 0 []
  let ss := a.segments p.size
  ss ++ₛ a.rest (.cycle ss (p.segments_pass_ne_nil policy 0 []))

/-- The segments of the program from a position on. -/
def segmentsFrom (p : Program) (policy : UnknownPolicy) (ip : Nat) (xs : List UInt8) :
    Stream' Segment :=
  let a := p.pass policy ip xs
  a.segments p.size ++ₛ a.rest (p.segments policy)

theorem segmentsFrom_start (p : Program) (policy : UnknownPolicy) :
    p.segmentsFrom policy 0 [] = p.segments policy := by
  have hcycle := Stream'.cycle_eq _ (p.segments_pass_ne_nil policy 0 [])
  unfold segmentsFrom segments Pass.rest
  dsimp only
  cases (p.pass policy 0 []).ending with
  | restarted => dsimp only; rw [← hcycle, ← hcycle]
  | ranOut => rfl
  | failed fault => rfl

/-! ## Segments by the first move -/

theorem segmentsFrom_of_ended (h : p.move policy ip xs = .ended) :
    p.segmentsFrom policy ip xs =
      .cons (.closed p.size [] ip xs) (.const ⟨[.finished], .ok (), ip, xs⟩) := by
  rw [segmentsFrom, pass_of_ended h]
  rfl

theorem segmentsFrom_of_skipped (h : p.move policy ip xs = .skipped b) :
    p.segmentsFrom policy ip xs = p.segmentsFrom policy (ip + 1) xs := by
  rw [segmentsFrom, pass_of_skipped h]
  rfl

/-- An event that does not suspend goes to the segment that follows. -/
theorem segmentsFrom_of_executed (h : p.move policy ip xs = .executed e next ys)
    (hs : e.suspends = false) :
    p.segmentsFrom policy ip xs = .cons ((p.segmentsFrom policy next ys).head.after e)
      (p.segmentsFrom policy next ys).tail := by
  have hne := p.segments_pass_ne_nil policy next ys
  rw [segmentsFrom, segmentsFrom, pass_of_executed h (by rintro rfl; cases hs)]
  dsimp only
  rw [Pass.segments_of_not_suspends _ _ hs]
  generalize (p.pass policy next ys).segments p.size = ss at hne ⊢
  cases ss with
  | nil => exact absurd rfl hne
  | cons s ss => rfl

theorem segmentsFrom_of_waited {amount : UInt8}
    (h : p.move policy ip xs = .executed (.wait amount) next ys) :
    p.segmentsFrom policy ip xs =
      .cons (.closed p.size [.wait amount] next ys) (p.segmentsFrom policy next ys) := by
  rw [segmentsFrom, pass_of_executed h (by simp)]
  rfl

theorem segmentsFrom_of_restarted (h : p.move policy ip xs = .executed .restart next ys) :
    p.segmentsFrom policy ip xs =
      .cons (.closed p.size [.restart] next ys) (p.segments policy) := by
  rw [segmentsFrom, pass_of_restarted h]
  rfl

theorem segmentsFrom_of_failed (h : p.move policy ip xs = .failed fault next) :
    p.segmentsFrom policy ip xs =
      .cons ⟨[], .error fault, next, xs⟩ (.const ⟨[], .error .faulted, next, xs⟩) := by
  rw [segmentsFrom, pass_of_failed h]
  rfl

end Program

end TickMachine
