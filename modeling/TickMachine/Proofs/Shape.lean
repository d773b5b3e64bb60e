import TickMachine.Proofs.Bounds
import TickMachine.Proofs.Progress

/-!
# The shape of a tick

A tick reports what its instructions did one after the other, and then how it ended. There are six
ends (`TickEnd`); the events, the result and the machine after the tick all agree on which of them it
was (`Shaped`), so each tick has one shape (`shape_unique`).

The last step of the tick decides its end. What was reached before it only moved the pointer and
changed the stack, so its events are plain.
-/

namespace TickMachine

/-- Whether the tick goes on after the event. -/
def Event.isPlain : Event → Bool
  | helloWorld | set _ | add _ _ _ | printFloat _ _ => true
  | wait _ | restart | finished | waiting _ => false

theorem Instruction.Yields.isPlain {i : Instruction} {xs ys : List UInt8} {e : Event}
    (h : i.Yields xs ys e) (he : e.suspends = false) : e.isPlain = true := by
  cases h with
  | wait | restart => cases he
  | _ => rfl

/-! ## Ends -/

/-- How a tick ends. -/
inductive TickEnd where
  /-- A pending wait holds it back. -/
  | held (wake : Binary64)
  /-- A wait suspends it before bytes that are left. -/
  | asleep (amount : UInt8)
  /-- A wait on the last byte suspends it. -/
  | asleepAtEnd (amount : UInt8)
  | restarted
  /-- It finds no byte left. -/
  | ranOut
  | failed (fault : Fault)

namespace TickEnd

/-- What the end adds to the events. -/
def events (now : Binary64) : TickEnd → List Event
  | held wake => [.waiting (wake - now).ceil]
  | asleep amount => [.wait amount]
  | asleepAtEnd amount => [.wait amount, .finished]
  | restarted => [.restart]
  | ranOut => [.finished]
  | failed _ => []

def result : TickEnd → Except Fault Unit
  | failed fault => .error fault
  | held _ | asleep _ | asleepAtEnd _ | restarted | ranOut => .ok ()

/-- What the end says of the machine `m` before the tick and the machine `n` after it. -/
def Holds (now : Binary64) (m n : Machine) : TickEnd → Prop
  | held wake => m.wake = some wake ∧ now < wake ∧ n = m
  | asleep amount => n.wake = some (now + .ofNat amount.toNat) ∧ n.ip < n.program.size
  | asleepAtEnd amount => n.wake = some (now + .ofNat amount.toNat) ∧ n.ip = n.program.size
  | restarted => n.ip = 0 ∧ n.stack.toList = [] ∧ n.wake = none ∧ 0 < n.program.size
  | ranOut => n.ip = n.program.size ∧ n.wake = none
  | failed _ => n.wake = none

variable {now : Binary64} {a b : TickEnd}

theorem takeWhile_events (now : Binary64) (a : TickEnd) :
    (a.events now).takeWhile Event.isPlain = [] := by
  cases a <;> rfl

theorem events_ne_nil (h : a.result = .ok ()) : a.events now ≠ [] := by
  cases a with
  | failed fault => cases h
  | _ => exact List.cons_ne_nil _ _

/-- Events and result tell the ends apart, but for the time that a wait holds. -/
theorem eq_of_events_eq (hevents : a.events now = b.events now) (hresult : a.result = b.result)
    (hheld : ∀ w v, a = held w → b = held v → w = v) : a = b := by
  cases a <;> cases b <;> simp_all [events, result]

end TickEnd

namespace Machine

/-- The events of the tick are plain ones, and then those of its end. -/
structure Shaped (m : Machine) (now : Binary64) (body : List Event) (a : TickEnd) : Prop where
  plain : ∀ e ∈ body, e.isPlain = true
  events : (m.tick now).events = body ++ a.events now
  result : (m.tick now).result = a.result
  holds : a.Holds now m (m.tick now).machine
  /-- A machine that runs nothing reports nothing but the end. -/
  body_eq_nil : m.faulted = true ∨ m.gated now = true → body = []

variable {m n k : Machine} {now : Binary64} {rs ss : List Record} {body body' : List Event}
  {a a' : TickEnd}

/-! ## One shape at most -/

theorem Shaped.unique (h : m.Shaped now body a) (h' : m.Shaped now body' a') :
    body = body' ∧ a = a' := by
  have hevents : body ++ a.events now = body' ++ a'.events now := h.events.symm.trans h'.events
  have hbody : body = body' := by
    have htake := congrArg (List.takeWhile Event.isPlain) hevents
    rwa [List.takeWhile_append_of_pos h.plain, List.takeWhile_append_of_pos h'.plain,
      TickEnd.takeWhile_events, TickEnd.takeWhile_events, List.append_nil, List.append_nil] at htake
  subst hbody
  refine ⟨rfl, TickEnd.eq_of_events_eq (List.append_cancel_left hevents)
    (h.result.symm.trans h'.result) ?_⟩
  rintro w v rfl rfl
  exact Option.some.inj (h.holds.1.symm.trans h'.holds.1)

/-! ## The events before the last step -/

theorem Advances.isPlain (h : m.Advances now rs n) : ∀ e ∈ Record.events rs, e.isPlain = true := by
  induction h with
  | refl m => exact fun e he => absurd he List.not_mem_nil
  | @step m k n rs ss hs h ih =>
    have hrs : ∀ e ∈ Record.events rs, e.isPlain = true := by
      have hst := m.stepped now
      rw [hs] at hst
      cases hst with
      | skipped hm => exact fun e he => absurd he List.not_mem_nil
      | executed hm he =>
        obtain ⟨i, -, hy, -⟩ := Program.move_eq_executed_iff.1 hm
        rw [events_heading_append]
        exact List.forall_mem_singleton.2 (hy.isPlain he)
    rw [Record.events_append]
    exact List.forall_mem_append.2 ⟨hrs, ih⟩

theorem Reaches.isPlain (h : m.Reaches now rs n) : ∀ e ∈ Record.events rs, e.isPlain = true := by
  obtain ⟨ss, rfl, hss⟩ := h.advances
  rw [Record.events_append, events_waking]
  exact hss.isPlain

/-! ## The last step -/

theorem closing_of_lt (h : n.ip < n.program.size) : n.closing = [] :=
  if_neg fun hfin => Nat.not_le.2 h (decide_eq_true_iff.1 hfin)

theorem closing_of_le (h : n.program.size ≤ n.ip) : n.closing = [.event .finished] :=
  if_pos (decide_eq_true h)

/-- The last step decides how a tick ends. -/
theorem Reaches.exists_shaped (hb : m.Bounded) (h : m.Reaches now rs n) (hn : n.Stops now) :
    ∃ a, m.Shaped now (Record.events rs) a := by
  have hidle : m.faulted = true ∨ m.gated now = true → Record.events rs = [] := by
    rw [h.faulted, h.gated]
    rintro (hf | hg)
    · cases hf
    · cases hg
  have hshape (a : TickEnd) (hevents : (n.slice now).events = a.events now)
      (hresult : (n.slice now).result = a.result) (hholds : a.Holds now m (n.slice now).machine) :
      m.Shaped now (Record.events rs) a := by
    refine ⟨h.isPlain, ?_, ?_, ?_, hidle⟩ <;> rw [h.tick_eq]
    · rw [Response.events_after, hevents]
    · exact hresult
    · exact hholds
  obtain ⟨hnb, hnw, hnf⟩ := hb.underway h.underway
  have hstep := hnb.step hnw hnf now
  have hst := n.stepped now
  generalize hs : n.step now = s at hst hstep
  cases hst with
  | skipped h | executed h he => exact absurd hs (hn _ _)
  | ended hm =>
    have hle := Program.decode_eq_ended_iff.1 (Program.move_eq_ended_iff.1 hm)
    refine ⟨.ranOut, hshape _ ?_ ?_ ?_⟩ <;> rw [slice_of_ended hs]
    · rw [closing_of_le hle]
      rfl
    · rfl
    · exact ⟨Nat.le_antisymm hnb.ip_le hle, hnw⟩
  | @waited amount ip t hm =>
    rcases Nat.lt_or_eq_of_le (show ip ≤ n.program.size from hstep.ip_le) with hlt | heq
    · refine ⟨.asleep amount, hshape _ ?_ ?_ ?_⟩ <;> rw [slice_of_suspended hs]
      · rw [closing_of_lt hlt, Response.events, List.append_nil, events_heading_append]
        rfl
      · rfl
      · exact ⟨rfl, hlt⟩
    · refine ⟨.asleepAtEnd amount, hshape _ ?_ ?_ ?_⟩ <;> rw [slice_of_suspended hs]
      · rw [closing_of_le (Nat.le_of_eq heq.symm), Response.events, Record.events_append,
          events_heading_append]
        rfl
      · rfl
      · exact ⟨rfl, heq⟩
  | @restarted t hm =>
    obtain ⟨i, hd, hy, -⟩ := Program.move_eq_executed_iff.1 hm
    obtain ⟨-, ht⟩ := Instruction.yields_restart_iff.1 hy
    have hlt : n.ip < n.program.size := lt_size_of_decode (by rw [hd]; simp)
    have hpos : 0 < n.program.size := Nat.zero_lt_of_lt hlt
    refine ⟨.restarted, hshape _ ?_ ?_ ?_⟩ <;> rw [slice_of_suspended hs]
    · rw [closing_of_lt hpos, Response.events, List.append_nil, events_heading_append]
      rfl
    · rfl
    · exact ⟨rfl, ht, hnw, hpos⟩
  | @failed fault ip hm =>
    refine ⟨.failed fault, hshape _ ?_ ?_ ?_⟩ <;> rw [slice_of_failed hs]
    · rw [Response.events, events_heading_append]
      rfl
    · rfl
    · exact hnw

/-! ## Each tick has its shape -/

theorem Bounded.exists_shaped (hb : m.Bounded) (now : Binary64) : ∃ body a, m.Shaped now body a := by
  rcases m.tick_cases now with hf | ⟨wake, hf, hw, hlt⟩ | ⟨hf, hg⟩
  · refine ⟨[], .failed .faulted, fun e he => absurd he List.not_mem_nil, ?_, ?_, ?_, fun _ => rfl⟩
      <;> rw [tick_of_faulted hf]
    · rfl
    · rfl
    · exact hb.wake_of_faulted hf
  · refine ⟨[], .held wake, fun e he => absurd he List.not_mem_nil, ?_, ?_, ?_, fun _ => rfl⟩
      <;> rw [tick_of_gated hf hw hlt]
    · rfl
    · rfl
    · exact ⟨hw, hlt, rfl⟩
  obtain ⟨rs, n, hn, hstop⟩ := exists_reaches_stops hf hg
  exact ⟨_, hn.exists_shaped hb hstop⟩

theorem Shaped.events_ne_nil (h : m.Shaped now body a) (hok : (m.tick now).result = .ok ()) :
    (m.tick now).events ≠ [] := by
  rw [h.events]
  exact List.append_ne_nil_of_right_ne_nil _ (TickEnd.events_ne_nil (h.result.symm.trans hok))

theorem Shaped.notMem_body (h : m.Shaped now body a) {e : Event} (he : e.isPlain = false) :
    e ∉ body := by
  intro hmem
  rw [h.plain e hmem] at he
  cases he

/-- Time left is reported by a tick that is held back, and by no other. -/
theorem Shaped.waiting_iff (hb : m.Bounded) (h : m.Shaped now body a) {left : Binary64} :
    (m.tick now).events = [.waiting left] ↔
      ∃ wake, m.wake = some wake ∧ now < wake ∧ left = (wake - now).ceil := by
  constructor
  · intro hevents
    have hmem : Event.waiting left ∈ body ++ a.events now := by
      rw [← h.events, hevents]
      exact List.mem_singleton_self _
    have hend := (List.mem_append.1 hmem).resolve_left (h.notMem_body rfl)
    have hholds := h.holds
    cases a with
    | held wake =>
      obtain ⟨hw, hlt, -⟩ := hholds
      exact ⟨wake, hw, hlt, Event.waiting.inj (List.mem_singleton.1 hend)⟩
    | _ => simp [TickEnd.events] at hend
  · rintro ⟨wake, hw, hlt, rfl⟩
    rw [tick_of_gated (hb.waits wake hw).1 hw hlt]
    rfl

theorem Shaped.finished_mem_iff (h : m.Shaped now body a) (hg : m.gated now = false) :
    .finished ∈ (m.tick now).events ↔ (m.tick now).result = .ok () ∧
      (m.tick now).machine.ip = (m.tick now).machine.program.size := by
  have hholds := h.holds
  rw [h.events, h.result, List.mem_append, or_iff_right (h.notMem_body rfl)]
  cases a with
  | held wake =>
    obtain ⟨hw, hlt, -⟩ := hholds
    rw [gated_eq_true_iff.2 ⟨wake, hw, hlt⟩] at hg
    cases hg
  | asleep amount =>
    have hne := Nat.ne_of_lt hholds.2
    simp [TickEnd.events, TickEnd.result, hne]
  | asleepAtEnd amount => simp [TickEnd.events, TickEnd.result, hholds.2]
  | restarted =>
    obtain ⟨hip, -, -, hpos⟩ := hholds
    have hne := Nat.ne_of_lt hpos
    simp [TickEnd.events, TickEnd.result, hip, hne]
  | ranOut => simp [TickEnd.events, TickEnd.result, hholds.1]
  | failed fault => simp [TickEnd.events, TickEnd.result]

/-- **The shape of a tick.** A tick of a machine that commands lead to has one shape. It reports time
left exactly if it is held back; if it does not fail it reports something; if it is not held back, it
reports the end exactly if it does not fail and leaves no byte. An instruction that suspends it is the
last that it comes to, and the only one that does. -/
theorem shape_unique (cs : List Command) (now : Binary64) :
    let m := empty.obey cs
    let r := m.tick now
    (∃! s : List Event × TickEnd, m.Shaped now s.1 s.2) ∧
      (∀ left, r.events = [.waiting left] ↔
        ∃ wake, m.wake = some wake ∧ now < wake ∧ left = (wake - now).ceil) ∧
      (r.result = .ok () → r.events ≠ []) ∧
      (m.gated now = false → (.finished ∈ r.events ↔
        r.result = .ok () ∧ r.machine.ip = r.machine.program.size)) ∧
      ∀ rs n k ss, m.Reaches now rs n → n.step now = .suspended k ss →
        r = ⟨k, rs ++ (ss ++ k.closing), .ok ()⟩ ∧
          ∀ rs' n', m.Reaches now rs' n' →
            (∃ later, rs = rs' ++ later ∧ n'.Advances now later n) ∧
              ∀ k' ss', n'.step now = .suspended k' ss' → n' = n := by
  intro m r
  have hb : m.Bounded := bounded_obey cs
  obtain ⟨body, a, h⟩ := hb.exists_shaped now
  refine ⟨⟨(body, a), h, fun s hs => ?_⟩, fun left => h.waiting_iff hb, h.events_ne_nil,
    h.finished_mem_iff, ?_⟩
  · obtain ⟨hbody, ha⟩ := hs.unique h
    exact Prod.ext hbody ha
  · intro rs n k ss hn hs
    have hstop : n.Stops now := fun k' ss' hs' => by rw [hs] at hs'; cases hs'
    have hr : r = (n.slice now).after rs := hn.tick_eq
    rw [slice_of_suspended hs] at hr
    refine ⟨hr, fun rs' n' hn' => ?_⟩
    obtain ⟨later, hrs, hlater⟩ := hn.before_stop hstop hn'
    refine ⟨⟨later, hrs, hlater⟩, fun k' ss' hs' => ?_⟩
    exact (hlater.eq_of_stops fun k'' ss'' hs'' => by rw [hs'] at hs''; cases hs'').symm

end Machine

end TickMachine
