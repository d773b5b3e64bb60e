import TickMachine.Proofs.Commands
import TickMachine.Proofs.Listing

/-!
# Walking a listing

A walker runs a listing item by item. It knows no positions but for its faults: it counts items, and
a restart takes it back to the first one.

`tick_matches`: a walker at the item where the pointer of a machine stands answers each tick as the
machine does, and stays with it. So the pointer never leaves the boundaries of the listing, but for
the one opcode at the end that lacks its operand.
-/

namespace TickMachine

structure Walker where
  listing : Listing
  /-- The index of the next item. -/
  index : Nat
  stack : List UInt8
  wake : Option Binary64
  faulted : Bool
  policy : UnknownPolicy

namespace Walker

structure Answer where
  walker : Walker
  events : List Event
  result : Except Fault Unit

/-- The answer with an earlier event in front. -/
def Answer.after (a : Answer) (e : Event) : Answer := { a with events := e :: a.events }

/-- The walker at the next item. -/
def next (w : Walker) : Walker := { w with index := w.index + 1 }

/-- A wait sets the time to wake, a restart goes back to the first item. -/
def heed (w : Walker) (now : Binary64) : Event → Walker
  | .wait amount => { w with wake := some (now + .ofNat amount.toNat) }
  | .restart => { w with index := 0 }
  | _ => w

/-- Runs items until one ends the tick. -/
def walk (w : Walker) (now : Binary64) : Answer :=
  match _h : w.listing.items[w.index]? with
  | some (.instruction i) =>
    match i.effect w.stack with
    | .ok (xs, e) =>
      if e.suspends then ⟨heed { w.next with stack := xs } now e, [e], .ok ()⟩
      else (walk { w.next with stack := xs } now).after e
    | .error fault => ⟨w.next, [], .error fault⟩
  | some (.unknown byte _) =>
    match w.policy with
    | .ignore => walk w.next now
    | .fatal => ⟨w.next, [], .error (.unknownOpcode (w.listing.position w.index) byte)⟩
  | none =>
    match w.listing.stump with
    | some s =>
      let fault := .outOfRange (w.listing.position w.index + 1) s.op.operandWidth
        w.listing.encode.length
      ⟨w.next, [], .error fault⟩
    | none => ⟨w, [], .ok ()⟩
termination_by w.listing.items.length - w.index
decreasing_by
  all_goals
    have := (List.getElem?_eq_some_iff.1 _h).1
    show w.listing.items.length - (w.index + 1) < w.listing.items.length - w.index
    omega

/-- Whether there is nothing left to walk. -/
def atEnd (w : Walker) : Bool := w.listing.items.length ≤ w.index && w.listing.stump.isNone

/-- One tick at the time `now`. -/
def tick (w : Walker) (now : Binary64) : Answer :=
  if w.faulted then ⟨w, [], .error .faulted⟩
  else if w.wake.any (now < ·) then
    ⟨w, w.wake.toList.map fun wake => .waiting (wake - now).ceil, .ok ()⟩
  else
    let a := walk { w with wake := none } now
    match a.result with
    | .error fault => ⟨{ a.walker with faulted := true }, a.events, .error fault⟩
    | .ok () => ⟨a.walker, a.events ++ if a.walker.atEnd then [.finished] else [], .ok ()⟩

/-- The walker is where the machine is, and holds what it holds. -/
structure Follows (w : Walker) (m : Machine) : Prop where
  listing : w.listing = m.program.listing
  ip : m.ip = w.listing.position w.index
  stack : w.stack = m.stack.toList
  wake : w.wake = m.wake
  faulted : w.faulted = m.faulted
  policy : w.policy = m.policy

/-- The same answer, after which the walker still follows. It is off the boundaries only where an
operand is missing. -/
structure Answer.Matches (a : Answer) (r : Response) : Prop where
  follows : a.walker.Follows r.machine
  events : a.events = r.events
  result : a.result = r.result
  index_le : a.walker.index ≤ a.walker.listing.items.length ∨
    ∃ pos needed size, a.result = .error (.outOfRange pos needed size)

variable {w : Walker} {m : Machine} {now : Binary64} {r : Response}

theorem Follows.decode_eq (hw : w.Follows m) (hk : w.index ≤ w.listing.items.length) :
    m.program.decode m.ip = w.listing.decoded w.index := by
  have hd := m.program.decode_position (k := w.index) (by rwa [← hw.listing])
  rwa [← hw.listing, ← hw.ip] at hd

theorem lt_length_of_getElem? {item : Item} (h : w.listing.items[w.index]? = some item) :
    w.index + 1 ≤ w.listing.items.length :=
  (List.getElem?_eq_some_iff.1 h).1

/-! ## Walks by their first item -/

section

variable {s : Stump} {b : UInt8} {i : Instruction} {xs : List UInt8} {e : Event} {fault : Fault}

theorem walk_of_ended (hi : w.listing.items[w.index]? = none) (hs : w.listing.stump = none) :
    w.walk now = ⟨w, [], .ok ()⟩ := by
  rw [walk]
  split <;> simp_all

theorem walk_of_stump (hi : w.listing.items[w.index]? = none) (hs : w.listing.stump = some s) :
    w.walk now = ⟨w.next, [], .error (.outOfRange (w.listing.position w.index + 1)
      s.op.operandWidth w.listing.encode.length)⟩ := by
  rw [walk]
  split <;> simp_all

theorem walk_of_ignored {ho : Opcode.ofByte? b = none}
    (hi : w.listing.items[w.index]? = some (.unknown b ho)) (hp : w.policy = .ignore) :
    w.walk now = w.next.walk now := by
  rw [walk]
  split <;> simp_all

theorem walk_of_unknown {ho : Opcode.ofByte? b = none}
    (hi : w.listing.items[w.index]? = some (.unknown b ho)) (hp : w.policy = .fatal) :
    w.walk now = ⟨w.next, [], .error (.unknownOpcode (w.listing.position w.index) b)⟩ := by
  rw [walk]
  split <;> simp_all

theorem walk_of_failed (hi : w.listing.items[w.index]? = some (.instruction i))
    (he : i.effect w.stack = .error fault) : w.walk now = ⟨w.next, [], .error fault⟩ := by
  rw [walk]
  split <;> simp_all

theorem walk_of_suspended (hi : w.listing.items[w.index]? = some (.instruction i))
    (he : i.effect w.stack = .ok (xs, e)) (hs : e.suspends = true) :
    w.walk now = ⟨heed { w.next with stack := xs } now e, [e], .ok ()⟩ := by
  rw [walk]
  split <;> simp_all

theorem walk_of_executed (hi : w.listing.items[w.index]? = some (.instruction i))
    (he : i.effect w.stack = .ok (xs, e)) (hs : e.suspends = false) :
    w.walk now = (walk { w.next with stack := xs } now).after e := by
  rw [walk]
  split <;> simp_all

end

/-! ## Following -/

theorem Follows.withStack (hw : w.Follows m) (t : Stack) :
    Follows { w with stack := t.toList } { m with stack := t } :=
  ⟨hw.listing, hw.ip, rfl, hw.wake, hw.faulted, hw.policy⟩

theorem Follows.next {item : Item} (hw : w.Follows m)
    (hi : w.listing.items[w.index]? = some item) :
    w.next.Follows { m with ip := m.ip + item.width } := by
  refine ⟨hw.listing, ?_, hw.stack, hw.wake, hw.faulted, hw.policy⟩
  show m.ip + item.width = w.listing.position (w.index + 1)
  rw [Listing.position_succ hi, hw.ip]

theorem width_instruction (i : Instruction) : (Item.instruction i).width = i.width :=
  i.length_encode

/-- The move of the machine, seen from the walker. -/
theorem Follows.decoded_of_instruction {i : Instruction} (hw : w.Follows m)
    (hk : w.index ≤ w.listing.items.length) (hd : m.program.decode m.ip = .instruction i) :
    w.listing.items[w.index]? = some (.instruction i) ∧
      w.next.Follows { m with ip := m.ip + i.width } ∧ w.index + 1 ≤ w.listing.items.length := by
  rw [hw.decode_eq hk] at hd
  have hi := Listing.decoded_eq_instruction hd
  exact ⟨hi, width_instruction i ▸ hw.next hi, lt_length_of_getElem? hi⟩

/-- Walker and machine fail alike, and only for want of an operand does the walker leave the
items. -/
theorem walk_matches_of_failure {fault : Fault} {ip : Nat} (hw : w.Follows m)
    (hk : w.index ≤ w.listing.items.length)
    (h : m.program.Failure m.policy m.ip m.stack.toList fault ip) :
    (w.walk now).Matches ⟨{ m with ip }, m.heading, .error fault⟩ := by
  have hev : Response.events ⟨{ m with ip }, m.heading, .error fault⟩ = [] := m.events_heading
  cases h with
  | unknown hd hp =>
    rw [hw.decode_eq hk] at hd
    obtain ⟨ho, hi⟩ := Listing.decoded_eq_unknown hd
    rw [walk_of_unknown hi (hw.policy.trans hp), ← hw.ip]
    exact ⟨hw.next hi, hev.symm, rfl, .inl (lt_length_of_getElem? hi)⟩
  | truncated hd =>
    rw [hw.decode_eq hk] at hd
    obtain ⟨hi, s, hs, rfl⟩ := Listing.decoded_eq_truncated hd
    have hlen : w.index = w.listing.items.length :=
      Nat.le_antisymm hk (List.getElem?_eq_none_iff.1 hi)
    have hsize : w.listing.encode.length = m.program.size := by
      rw [hw.listing, Program.encode_listing, Program.length_toList]
    rw [walk_of_stump hi hs, ← hw.ip, hsize]
    refine ⟨⟨hw.listing, ?_, hw.stack, hw.wake, hw.faulted, hw.policy⟩, hev.symm, rfl,
      .inr ⟨_, _, _, rfl⟩⟩
    show m.ip + 1 = w.listing.position (w.index + 1)
    rw [hw.ip, hlen, Listing.position_succ_length]
  | @overflow v hd hfull =>
    obtain ⟨hi, hnext, hlt⟩ := hw.decoded_of_instruction hk hd
    have heff : (Instruction.set v).effect w.stack = .error (.stackOverflow stackCapacity) :=
      Instruction.effect_eq_error_iff.2 (.inl ⟨v, rfl, by rwa [hw.stack], rfl⟩)
    rw [walk_of_failed hi heff]
    exact ⟨hnext, hev.symm, rfl, .inl hlt⟩
  | @underflow i hd hlt =>
    obtain ⟨hi, hnext, hle⟩ := hw.decoded_of_instruction hk hd
    have heff : i.effect w.stack = .error (.stackUnderflow i.need m.stack.toList.length) := by
      rw [hw.stack]
      exact Instruction.effect_of_length_lt hlt
    rw [walk_of_failed hi heff]
    exact ⟨hnext, hev.symm, rfl, .inl hle⟩

/-- Walker and machine stay together through a run, one item for one step. -/
theorem walk_matches (h : Machine.Runs now m r) (hw : w.Follows m)
    (hk : w.index ≤ w.listing.items.length) : (w.walk now).Matches r := by
  induction h generalizing w with
  | @ended m h =>
    have hd := Program.move_eq_ended_iff.1 h
    rw [hw.decode_eq hk] at hd
    obtain ⟨hi, hs⟩ := Listing.decoded_eq_ended_iff.1 hd
    rw [walk_of_ended hi hs]
    exact ⟨hw, rfl, rfl, .inl hk⟩
  | @skipped m b r h hr ih =>
    obtain ⟨hd, hp⟩ := Program.move_eq_skipped_iff.1 h
    rw [hw.decode_eq hk] at hd
    obtain ⟨ho, hi⟩ := Listing.decoded_eq_unknown hd
    rw [walk_of_ignored hi (hw.policy.trans hp)]
    obtain ⟨hf, he, hres, hle⟩ := ih (hw.next hi) (lt_length_of_getElem? hi)
    exact ⟨hf, he, hres, hle⟩
  | @executed m e ip t r h hs hr ih =>
    obtain ⟨i, hd, hy, hip⟩ := Program.move_eq_executed_iff.1 h
    obtain ⟨hi, hnext, hlt⟩ := hw.decoded_of_instruction hk hd
    rw [if_neg (by rintro rfl; cases hs)] at hip
    subst hip
    have heff := Instruction.effect_of_yields hy
    rw [← hw.stack] at heff
    rw [walk_of_executed hi heff hs]
    obtain ⟨hf, he, hres, hle⟩ := ih (hnext.withStack t) hlt
    refine ⟨hf, ?_, hres, hle⟩
    rw [Response.events_after, Machine.events_heading_append, ← he]
    rfl
  | @waited m amount ip t h =>
    obtain ⟨i, hd, hy, rfl⟩ := Program.move_eq_executed_iff.1 h
    obtain ⟨hi, hnext, hlt⟩ := hw.decoded_of_instruction hk hd
    have heff := Instruction.effect_of_yields hy
    rw [← hw.stack] at heff
    rw [walk_of_suspended hi heff rfl]
    refine ⟨?_, ?_, rfl, .inl hlt⟩
    · exact ⟨hw.listing, hnext.ip, rfl, rfl, hw.faulted, hw.policy⟩
    · rw [Response.events, Machine.events_heading_append]
      rfl
  | @restarted m t h =>
    obtain ⟨i, hd, hy, _⟩ := Program.move_eq_executed_iff.1 h
    obtain ⟨hi, -, -⟩ := hw.decoded_of_instruction hk hd
    have heff := Instruction.effect_of_yields hy
    rw [← hw.stack] at heff
    rw [walk_of_suspended hi heff rfl]
    refine ⟨?_, ?_, rfl, .inl (Nat.zero_le _)⟩
    · exact ⟨hw.listing, (Listing.position_zero _).symm, rfl, hw.wake, hw.faulted, hw.policy⟩
    · rw [Response.events, Machine.events_heading_append]
      rfl
  | failed h => exact walk_matches_of_failure hw hk (Program.move_eq_failed_iff.1 h)

/-! ## Ticks -/

/-- Nothing is left for the walker when no byte is left for the machine. -/
theorem Follows.atEnd_eq (hw : w.Follows m) (hk : w.index ≤ w.listing.items.length) :
    w.atEnd = m.isFinished := by
  have hend : m.isFinished = true ↔ w.atEnd = true := by
    rw [Machine.isFinished, decide_eq_true_iff, ← Program.decode_eq_ended_iff, hw.decode_eq hk,
      Listing.decoded_eq_ended_iff, List.getElem?_eq_none_iff, atEnd, Bool.and_eq_true,
      decide_eq_true_iff, Option.isNone_iff_eq_none]
  exact Bool.eq_iff_iff.2 hend.symm

/-- A walker at the item where an unfaulted machine stands answers a tick as the machine does. -/
theorem tick_matches (hw : w.Follows m) (hk : w.index ≤ w.listing.items.length)
    (hf : m.faulted = false) (now : Binary64) : (w.tick now).Matches (m.tick now) := by
  have hwf : ¬ w.faulted = true := by
    rw [hw.faulted, hf]
    exact Bool.false_ne_true
  have hgate : w.wake.any (now < ·) = m.gated now := by
    rw [hw.wake]
    rfl
  have hawake : Follows { w with wake := none } m.awake :=
    ⟨hw.listing, hw.ip, hw.stack, rfl, hw.faulted, hw.policy⟩
  have ht := m.ticked now
  generalize m.tick now = r at ht ⊢
  rw [tick, if_neg hwf, hgate]
  cases ht with
  | faulted hf' => exact absurd (hf.symm.trans hf') Bool.false_ne_true
  | @gated wake _ hwake hlt =>
    rw [if_pos (Machine.gated_eq_true_iff.2 ⟨wake, hwake, hlt⟩), hw.wake, hwake]
    exact ⟨hw, rfl, rfl, .inl hk⟩
  | @stopped r _ hg hrun hr =>
    obtain ⟨hfol, hev, hres, hle⟩ := walk_matches hrun hawake hk
    rw [hg, if_neg Bool.false_ne_true]
    generalize walk { w with wake := none } now = a at hfol hev hres hle
    have hok : a.result = .ok () := hres.trans hr
    have hk' : a.walker.index ≤ a.walker.listing.items.length := by
      refine hle.resolve_right fun ⟨_, _, _, h⟩ => ?_
      rw [hok] at h
      cases h
    simp only [hok]
    refine ⟨hfol, ?_, rfl, .inl hk'⟩
    rw [Machine.events_stopped, hev, hfol.atEnd_eq hk']
  | @failed r fault _ hg hrun hr =>
    obtain ⟨hfol, hev, hres, hle⟩ := walk_matches hrun hawake hk
    rw [hg, if_neg Bool.false_ne_true]
    generalize walk { w with wake := none } now = a at hfol hev hres hle
    have herr : a.result = .error fault := hres.trans hr
    simp only [herr]
    refine ⟨⟨hfol.listing, hfol.ip, hfol.stack, hfol.wake, rfl, hfol.policy⟩, ?_, rfl, ?_⟩
    · rw [Machine.events_failed]
      exact hev
    · rwa [herr] at hle

end Walker

end TickMachine
