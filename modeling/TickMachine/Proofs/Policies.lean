import TickMachine.Proofs.Atomicity
import TickMachine.Proofs.DepthScan

/-!
# The two policies

The policy is asked at a byte that is no opcode, and nowhere else. So a machine that tolerates such
bytes and one that does not are in step until the first of them skips a byte; at that byte the other
one fails, in the state and with the events that the first had when it came there (`policies_agree`).

What is never executed never matters: if a strict scan finds no unknown byte, none is ever skipped.
-/

namespace TickMachine

/-! ## Skipped bytes -/

/-- The position and the value of a byte that was skipped. -/
def Record.skip? : Record → Option (Nat × UInt8)
  | ignored ip byte => some (ip, byte)
  | _ => none

def Record.skips (rs : List Record) : List (Nat × UInt8) := rs.filterMap skip?

@[simp] theorem Record.skips_append (rs ss : List Record) : skips (rs ++ ss) = skips rs ++ skips ss :=
  List.filterMap_append

/-- The bytes that were skipped, in their order. -/
def Response.skips (r : Response) : List (Nat × UInt8) := Record.skips r.records

/-- The response of a machine that has another policy and does the same. -/
def Response.configure (r : Response) (policy : UnknownPolicy) : Response :=
  { r with machine := r.machine.configure policy }

namespace Machine

def Step.configure (policy : UnknownPolicy) : Step → Step
  | .ended => .ended
  | .continued n rs => .continued (n.configure policy) rs
  | .suspended n rs => .suspended (n.configure policy) rs
  | .failed fault n rs => .failed fault (n.configure policy) rs

/-- The bytes that ticks at the given times skip. -/
def skips (m : Machine) : List Binary64 → List (Nat × UInt8)
  | [] => []
  | now :: times => (m.tick now).skips ++ (m.tick now).machine.skips times

variable {m n k : Machine} {now : Binary64} {rs ss : List Record} {policy : UnknownPolicy} {i : Nat}
  {b : UInt8} {later : List (Nat × UInt8)} {times : List Binary64}

@[simp] theorem skips_heading (m : Machine) : Record.skips m.heading = [] := by
  unfold heading Program.heading
  split <;> rfl

@[simp] theorem skips_waking (m : Machine) : Record.skips m.waking = [] := by
  unfold waking
  cases m.wake <;> rfl

@[simp] theorem skips_closing (m : Machine) : Record.skips m.closing = [] := by
  unfold closing
  split <;> rfl

/-! ## Steps -/

/-- Only an unknown byte asks for the policy. -/
theorem step_configure (hd : ∀ b, m.program.decode m.ip ≠ .unknown b) (policy : UnknownPolicy)
    (now : Binary64) : (m.configure policy).step now = (m.step now).configure policy := by
  have hip : (m.configure policy).program.decode (m.configure policy).ip = m.program.decode m.ip :=
    rfl
  unfold step
  rw [hip]
  cases h : m.program.decode m.ip with
  | ended => rfl
  | unknown b => exact absurd h (hd b)
  | truncated op => rfl
  | instruction i =>
    have hexecute : i.execute (m.configure policy).stack = i.execute m.stack := rfl
    dsimp only
    rw [hexecute]
    cases i.execute m.stack with
    | error fault stack => rfl
    | ok e stack => cases e <;> rfl

/-- A tolerant machine that stops, or notes no skipped byte, met none. -/
theorem decode_ne_unknown (hp : m.policy = .ignore)
    (h : ∀ b, m.step now ≠ .continued { m with ip := m.ip + 1 } [.ignored m.ip b]) (b : UInt8) :
    m.program.decode m.ip ≠ .unknown b := fun hd =>
  h b (step_of_skipped (Program.move_eq_skipped_iff.2 ⟨hd, hp⟩))

/-! ## In step -/

/-- Up to the first skipped byte, another policy leads the same way. -/
theorem Advances.configure (h : m.Advances now rs n) (hp : m.policy = .ignore)
    (hskips : Record.skips rs = []) (policy : UnknownPolicy) :
    (m.configure policy).Advances now rs (n.configure policy) := by
  induction h with
  | refl m => exact .refl _
  | @step m k n rs ss hs h ih =>
    rw [Record.skips_append, List.append_eq_nil_iff] at hskips
    have hd : ∀ b, m.program.decode m.ip ≠ .unknown b := by
      have hnot : ∀ b, m.step now ≠ .continued { m with ip := m.ip + 1 } [.ignored m.ip b] := by
        intro b hskip
        rw [hs] at hskip
        cases hskip
        cases hskips.1
      exact decode_ne_unknown hp hnot
    have hnext : (m.configure policy).step now = .continued (k.configure policy) rs := by
      rw [step_configure hd, hs]
      rfl
    exact .step hnext (ih ((frame_of_continued hs).2.1.trans hp) hskips.2)

theorem Reaches.configure (h : m.Reaches now rs n) (hp : m.policy = .ignore)
    (hskips : Record.skips rs = []) (policy : UnknownPolicy) :
    (m.configure policy).Reaches now rs (n.configure policy) := by
  obtain ⟨ss, rfl, hss⟩ := h.advances
  rw [Record.skips_append, skips_waking] at hskips
  exact ⟨h.faulted, h.gated, ss, rfl, hss.configure hp hskips policy⟩

/-- A step that ends a tolerant run is the same for the other policy. -/
theorem slice_configure_of_stops (hn : n.Stops now) (hp : n.policy = .ignore)
    (policy : UnknownPolicy) : (n.configure policy).slice now = (n.slice now).configure policy := by
  have hstep := step_configure (decode_ne_unknown hp fun b => hn _ _) policy now
  cases hs : n.step now with
  | continued k rs => exact absurd hs (hn k rs)
  | ended =>
    rw [hs] at hstep
    rw [slice_of_ended hs, slice_of_ended hstep]
    rfl
  | suspended k rs =>
    rw [hs] at hstep
    rw [slice_of_suspended hs, slice_of_suspended hstep]
    rfl
  | failed fault k rs =>
    rw [hs] at hstep
    rw [slice_of_failed hs, slice_of_failed hstep]
    rfl

/-- The last step of a run skips nothing. -/
theorem skips_slice_of_stops (hn : n.Stops now) : (n.slice now).skips = [] := by
  have hst := n.stepped now
  unfold Response.skips
  generalize hs : n.step now = s at hst
  cases hst with
  | skipped h | executed h he => exact absurd hs (hn _ _)
  | ended h =>
    rw [slice_of_ended hs]
    exact skips_closing n
  | waited h | restarted h =>
    rw [slice_of_suspended hs, Record.skips_append, Record.skips_append, skips_heading, skips_closing]
    rfl
  | failed h =>
    rw [slice_of_failed hs, Record.skips_append, skips_heading]
    rfl

theorem Reaches.skips_tick (h : m.Reaches now rs n) (hn : n.Stops now) :
    (m.tick now).skips = Record.skips rs := by
  have hlast : Record.skips (n.slice now).records = [] := skips_slice_of_stops hn
  rw [h.tick_eq]
  show Record.skips (rs ++ (n.slice now).records) = Record.skips rs
  rw [Record.skips_append, hlast, List.append_nil]

theorem tick_configure (hp : m.policy = .ignore) (hskips : (m.tick now).skips = [])
    (policy : UnknownPolicy) : (m.configure policy).tick now = (m.tick now).configure policy := by
  rcases m.tick_cases now with hf | ⟨wake, hf, hw, hlt⟩ | ⟨hf, hg⟩
  · rw [tick_of_faulted hf, tick_of_faulted (m := m.configure policy) hf]
    rfl
  · rw [tick_of_gated hf hw hlt, tick_of_gated (m := m.configure policy) hf hw hlt]
    rfl
  obtain ⟨rs, n, hn, hstop⟩ := exists_reaches_stops hf hg
  rw [hn.skips_tick hstop] at hskips
  have hpolicy : n.policy = .ignore := hn.underway.frame.2.1.trans hp
  rw [(hn.configure hp hskips policy).tick_eq, hn.tick_eq,
    slice_configure_of_stops hstop hpolicy policy]
  rfl

/-! ## The first skipped byte -/

theorem Advances.exists_first_skip (h : m.Advances now rs n)
    (hskips : Record.skips rs = (i, b) :: later) :
    ∃ ss k, m.Advances now ss k ∧ Record.skips ss = [] ∧ k.ip = i ∧ k.move = .skipped b := by
  induction h with
  | refl m => cases hskips
  | @step m k n rs ss hs h ih =>
    have hst := m.stepped now
    rw [hs] at hst
    cases hst with
    | skipped hm =>
      obtain ⟨rfl, rfl⟩ := Prod.mk.inj (List.cons.inj hskips).1
      exact ⟨[], m, .refl m, rfl, rfl, hm⟩
    | @executed e ip t hm he =>
      have hrs : Record.skips (m.heading ++ [.event e]) = [] := by
        rw [Record.skips_append, skips_heading]
        rfl
      rw [Record.skips_append, hrs] at hskips
      obtain ⟨ts, j, hj, hts, hrest⟩ := ih hskips
      exact ⟨_, j, .step hs hj, by rw [Record.skips_append, hrs, hts]; rfl, hrest⟩

theorem exists_reaches_first_skip (hskips : (m.tick now).skips = (i, b) :: later) :
    ∃ rs n, m.Reaches now rs n ∧ Record.skips rs = [] ∧ n.ip = i ∧ n.move = .skipped b := by
  rcases m.tick_cases now with hf | ⟨wake, hf, hw, hlt⟩ | ⟨hf, hg⟩
  · rw [tick_of_faulted hf] at hskips
    cases hskips
  · rw [tick_of_gated hf hw hlt] at hskips
    cases hskips
  obtain ⟨rs, n, hn, hstop⟩ := exists_reaches_stops hf hg
  rw [hn.skips_tick hstop] at hskips
  obtain ⟨ss, rfl, hss⟩ := hn.advances
  rw [Record.skips_append, skips_waking] at hskips
  obtain ⟨ts, k, hk, hts, hrest⟩ := hss.exists_first_skip hskips
  exact ⟨m.waking ++ ts, k, ⟨hf, hg, ts, rfl, hk⟩, by rw [Record.skips_append, skips_waking, hts]; rfl,
    hrest⟩

/-- A strict machine fails at the byte that a tolerant one is about to skip. -/
theorem Reaches.tick_configure_of_skipped (h : m.Reaches now rs n) (hp : m.policy = .ignore)
    (hskips : Record.skips rs = []) (hn : n.move = .skipped b) :
    (m.configure .fatal).tick now = ⟨{ n with ip := n.ip + 1, policy := .fatal, faulted := true },
      rs ++ [.faulted (.unknownOpcode n.ip b) (n.ip + 1)], .error (.unknownOpcode n.ip b)⟩ := by
  obtain ⟨hd, -⟩ := Program.move_eq_skipped_iff.1 hn
  obtain ⟨hb, ho⟩ := Program.decode_eq_unknown_iff.1 hd
  have htells : (n.configure .fatal).Tells (.unknownOpcode n.ip b) (n.ip + 1) :=
    .unknown hb (Opcode.ofByte?_eq_none_iff.1 ho) rfl
  have hheading : (n.configure .fatal).heading = [] := by
    show n.program.heading n.ip = []
    rw [Program.heading, hd]
  rw [(h.configure hp hskips .fatal).tick_of_tells htells, hheading]
  rfl

/-! ## Ticks in a row -/

theorem obey_ticks_configure (hp : m.policy = .ignore) (hskips : m.skips times = [])
    (policy : UnknownPolicy) : (m.configure policy).obey (times.map .tick) =
      (m.obey (times.map .tick)).configure policy := by
  induction times generalizing m with
  | nil => rfl
  | cons now times ih =>
    obtain ⟨hnow, hrest⟩ := List.append_eq_nil_iff.1 hskips
    show ((m.configure policy).tick now).machine.obey _ = _
    rw [tick_configure hp hnow]
    exact ih ((m.tick_frame now).2.trans hp) hrest

/-! ## What is never executed -/

/-- The finding is no unknown byte. -/
def NoStray (f : Option Finding) : Prop :=
  ∀ ip byte waits, f ≠ some ⟨.unknownOpcode ip byte, waits⟩

/-- What a tolerant tick preserves while a strict scan finds no unknown byte, here and from the start;
and it skips nothing. -/
theorem skips_tick_of_noStray (hp : m.policy = .ignore)
    (hm : m.faulted = false → NoStray (m.configure .fatal).finding)
    (hstart : NoStray (m.program.scan .fatal)) (now : Binary64) :
    (m.tick now).skips = [] ∧ ((m.tick now).machine.faulted = false →
      NoStray ((m.tick now).machine.configure .fatal).finding) := by
  rcases m.tick_cases now with hf | ⟨wake, hf, hw, hlt⟩ | ⟨hf, hg⟩
  · rw [tick_of_faulted hf]
    exact ⟨rfl, hm⟩
  · rw [tick_of_gated hf hw hlt]
    exact ⟨rfl, hm⟩
  have hfound := hm hf
  have hnext : Foretells (m.program.scan .fatal) ((m.configure .fatal).tick now)
      (m.configure .fatal).finding := tick_foretold (m := m.configure .fatal) hf hg
  have hskips : (m.tick now).skips = [] := by
    cases hskips : (m.tick now).skips with
    | nil => rfl
    | cons skip later =>
      obtain ⟨i, b⟩ := skip
      obtain ⟨rs, n, hn, hrs, rfl, hmove⟩ := exists_reaches_first_skip hskips
      rw [hn.tick_configure_of_skipped hp hrs hmove] at hnext
      generalize (m.configure .fatal).finding = f at hfound hnext
      match f with
      | none => cases hnext.1
      | some ⟨fault, 0⟩ =>
        cases hnext
        exact absurd rfl (hfound n.ip b 0)
      | some ⟨fault, waits + 1⟩ => cases hnext.1
  refine ⟨hskips, fun hnf => ?_⟩
  rw [tick_configure hp hskips] at hnext
  generalize (m.configure .fatal).finding = f at hfound hnext
  match f with
  | none =>
    obtain ⟨-, hnone | hscan⟩ := hnext
    · rw [show ((m.tick now).machine.configure .fatal).finding = none from hnone]
      exact fun _ _ _ h => by cases h
    · rw [show ((m.tick now).machine.configure .fatal).finding = _ from hscan]
      exact hstart
  | some ⟨fault, 0⟩ =>
    have herr : (m.tick now).result = .error fault := hnext
    rw [faulted_tick_iff.2 ⟨fault, herr⟩] at hnf
    cases hnf
  | some ⟨fault, waits + 1⟩ =>
    rw [show ((m.tick now).machine.configure .fatal).finding = _ from hnext.2]
    intro ip byte w h
    cases h
    exact hfound ip byte (waits + 1) rfl

theorem skips_of_noStray (hp : m.policy = .ignore)
    (hm : m.faulted = false → NoStray (m.configure .fatal).finding)
    (hstart : NoStray (m.program.scan .fatal)) (times : List Binary64) : m.skips times = [] := by
  induction times generalizing m with
  | nil => rfl
  | cons now times ih =>
    obtain ⟨hnow, hnext⟩ := skips_tick_of_noStray hp hm hstart now
    obtain ⟨hprogram, hpolicy⟩ := m.tick_frame now
    have hrest := ih (hpolicy.trans hp) hnext (by rw [hprogram]; exact hstart)
    rw [skips, hnow, hrest]
    rfl

/-- **Policies.** Take a machine under either policy, and tick both at the same times. While the
tolerant one skips nothing, they differ in the policy alone, and so do their answers to the next tick.
If the tolerant one then skips bytes, the strict one fails at the first of these: it noted the same up
to there, and is left as the other one was when it came there, but for the pointer behind that byte.
If a strict scan of a program finds no unknown byte, none is ever skipped after a load. -/
theorem policies_agree (m : Machine) :
    (∀ times now,
      let lax := (m.configure .ignore).obey (times.map .tick)
      let strict := (m.configure .fatal).obey (times.map .tick)
      (m.configure .ignore).skips times = [] →
        strict = lax.configure .fatal ∧
        ((lax.tick now).skips = [] → strict.tick now = (lax.tick now).configure .fatal) ∧
        ∀ i b later, (lax.tick now).skips = (i, b) :: later → ∃ rs n,
          lax.Reaches now rs n ∧ Record.skips rs = [] ∧
          n.step now = .continued { n with ip := i + 1 } [.ignored i b] ∧ n.ip = i ∧ n.wake = none ∧
          (strict.tick now).result = .error (.unknownOpcode i b) ∧
          (strict.tick now).events = Record.events rs ∧
          (strict.tick now).machine = { n with ip := i + 1, policy := .fatal, faulted := true }) ∧
    ∀ p : Program, NoStray (p.scan .fatal) →
      ∀ times, ((m.load p).configure .ignore).skips times = [] := by
  refine ⟨?_, ?_⟩
  · intro times now lax strict hskips
    have hstrict : strict = lax.configure .fatal :=
      obey_ticks_configure (m := m.configure .ignore) rfl hskips .fatal
    have hlax : lax.policy = .ignore := (obey_ticks_frame _ times).2
    rw [hstrict]
    refine ⟨rfl, fun hnow => tick_configure hlax hnow .fatal, fun i b later hnow => ?_⟩
    obtain ⟨rs, n, hn, hrs, rfl, hmove⟩ := exists_reaches_first_skip hnow
    have htick := hn.tick_configure_of_skipped hlax hrs hmove
    have hevents : ((lax.configure .fatal).tick now).events = Record.events rs := by
      rw [htick, Response.events, Record.events_append]
      exact List.append_nil _
    exact ⟨rs, n, hn, hrs, step_of_skipped hmove, rfl, hn.underway.frame.2.2.2, by rw [htick],
      hevents, by rw [htick]⟩
  · intro p hp times
    refine skips_of_noStray rfl (fun _ => ?_) hp times
    rw [show (((m.load p).configure .ignore).configure .fatal).finding = p.scan .fatal from
      finding_load (m.configure .fatal) p]
    exact hp

end Machine

end TickMachine
