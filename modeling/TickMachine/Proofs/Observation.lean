import TickMachine.Proofs.Commands

/-!
# What a host can tell apart

A host reads a `View` off a machine: the program, the pointer, the bytes on the stack, the time to
wake, the fault and the policy. The slots above the stack may still hold bytes that were popped, but no
step reads them. So machines of one view answer every command alike and stay of one view
(`perform_alike`): nothing else of their past ever shows.
-/

namespace TickMachine

/-- What a host reads off a machine. -/
structure View where
  program : Program
  ip : Nat
  stack : List UInt8
  wake : Option Binary64
  faulted : Bool
  policy : UnknownPolicy
  deriving DecidableEq

def Machine.view (m : Machine) : View :=
  ⟨m.program, m.ip, m.stack.toList, m.wake, m.faulted, m.policy⟩

/-- Responses that a host cannot tell apart, nor a reader of the log. -/
structure Response.Alike (r q : Response) : Prop where
  view : r.machine.view = q.machine.view
  records : r.records = q.records
  result : r.result = q.result

theorem Response.Alike.after {r q : Response} (h : r.Alike q) (rs : List Record) :
    (r.after rs).Alike (q.after rs) :=
  ⟨h.view, congrArg (rs ++ ·) h.records, h.result⟩

namespace Machine

/-- Steps to the same end, to machines of one view. -/
inductive Step.Alike : Step → Step → Prop where
  | ended : Alike .ended .ended
  | continued {m n : Machine} (rs : List Record) (h : m.view = n.view) :
    Alike (.continued m rs) (.continued n rs)
  | suspended {m n : Machine} (rs : List Record) (h : m.view = n.view) :
    Alike (.suspended m rs) (.suspended n rs)
  | failed {m n : Machine} (fault : Fault) (rs : List Record) (h : m.view = n.view) :
    Alike (.failed fault m rs) (.failed fault n rs)

variable {m n : Machine} {now : Binary64}

/-- Machines of one view differ in their slots alone. -/
theorem exists_eq_of_view_eq (h : m.view = n.view) :
    ∃ s : Stack, n = { m with stack := s } ∧ s.toList = m.stack.toList := by
  obtain ⟨p, ip, stack, wake, faulted, policy⟩ := m
  obtain ⟨p', ip', stack', wake', faulted', policy'⟩ := n
  unfold view at h
  injection h with hp hip hs hw hf hpol
  subst hp hip hw hf hpol
  exact ⟨stack', rfl, hs.symm⟩

/-! ## Alike in every step -/

/-- An event has the same effect on machines of one view. -/
theorem heed_view_eq (h : m.view = n.view) (now : Binary64) (e : Event) :
    (m.heed now e).view = (n.heed now e).view := by
  obtain ⟨s, rfl, hs⟩ := exists_eq_of_view_eq h
  cases e with
  | wait amount | restart =>
    unfold heed view
    rw [hs]
  | _ => exact h

/-- A step reads the bytes on the stack and no other slot. -/
theorem step_alike (h : m.view = n.view) (now : Binary64) : (m.step now).Alike (n.step now) := by
  obtain ⟨s, rfl, hs⟩ := exists_eq_of_view_eq h
  have hmove : ({ m with stack := s } : Machine).move = m.move := by
    unfold move
    rw [hs]
  cases hm : m.move with
  | ended =>
    rw [step_of_ended hm, step_of_ended (hmove.trans hm)]
    exact .ended
  | skipped b =>
    rw [step_of_skipped hm, step_of_skipped (hmove.trans hm)]
    exact .continued _ (by unfold view; rw [hs])
  | failed fault ip =>
    rw [step_of_failed hm, step_of_failed (hmove.trans hm)]
    exact .failed fault _ (by unfold view; rw [hs])
  | executed e ip xs =>
    obtain ⟨t, ht, hstep⟩ := step_of_executed hm now
    obtain ⟨u, hu, hstep'⟩ := step_of_executed (hmove.trans hm) now
    have hview : ({ m with ip, stack := t } : Machine).view =
        ({ m with ip, stack := u } : Machine).view := by
      unfold view
      rw [ht, hu]
    have hheed := heed_view_eq hview now e
    rw [hstep, hstep']
    dsimp only
    generalize heed { m with ip, stack := t } now e = a at hheed ⊢
    generalize heed { m with ip, stack := u } now e = b at hheed ⊢
    obtain ⟨v, rfl, _⟩ := exists_eq_of_view_eq hheed
    split
    · exact .suspended _ hheed
    · exact .continued _ hheed

theorem run_alike (h : m.view = n.view) (now : Binary64) : (m.run now).Alike (n.run now) := by
  induction m using run_induction now generalizing n with
  | step m ih =>
    have hstep := step_alike h now
    generalize hm : m.step now = a at hstep
    generalize hn : n.step now = b at hstep
    cases hstep with
    | ended =>
      rw [run_of_ended hm, run_of_ended hn]
      exact ⟨h, rfl, rfl⟩
    | continued rs hnext =>
      rw [run_of_continued hm, run_of_continued hn]
      exact (ih _ rs hm hnext).after rs
    | suspended rs hnext =>
      rw [run_of_suspended hm, run_of_suspended hn]
      exact ⟨hnext, rfl, rfl⟩
    | failed fault rs hnext =>
      rw [run_of_failed hm, run_of_failed hn]
      exact ⟨hnext, rfl, rfl⟩

theorem closing_eq_of_view_eq (h : m.view = n.view) : m.closing = n.closing := by
  obtain ⟨s, rfl, _⟩ := exists_eq_of_view_eq h
  rfl

theorem slice_alike (h : m.view = n.view) (now : Binary64) : (m.slice now).Alike (n.slice now) := by
  obtain ⟨hview, hrecords, hresult⟩ := run_alike h now
  cases hm : (m.run now).result with
  | ok =>
    have hn : (n.run now).result = .ok () := hresult.symm.trans hm
    rw [slice_of_ok hm, slice_of_ok hn, hrecords, closing_eq_of_view_eq hview]
    exact ⟨hview, rfl, rfl⟩
  | error fault =>
    have hn : (n.run now).result = .error fault := hresult.symm.trans hm
    obtain ⟨s, hs, hlist⟩ := exists_eq_of_view_eq hview
    rw [slice_of_error hm, slice_of_error hn, hrecords, hs]
    exact ⟨by unfold view; rw [hlist], rfl, rfl⟩

theorem tick_alike (h : m.view = n.view) (now : Binary64) : (m.tick now).Alike (n.tick now) := by
  obtain ⟨s, rfl, hs⟩ := exists_eq_of_view_eq h
  rcases m.tick_cases now with hf | ⟨wake, hf, hw, hlt⟩ | ⟨hf, hg⟩
  · rw [tick_of_faulted hf, tick_of_faulted (m := { m with stack := s }) hf]
    exact ⟨h, rfl, rfl⟩
  · rw [tick_of_gated hf hw hlt, tick_of_gated (m := { m with stack := s }) hf hw hlt]
    exact ⟨h, rfl, rfl⟩
  rw [tick_of_ready hf hg, tick_of_ready (m := { m with stack := s }) hf hg]
  have hawake : m.awake.view = ({ m with stack := s } : Machine).awake.view := by
    unfold view awake
    rw [hs]
  exact (slice_alike hawake now).after m.waking

/-- What one command preserves: machines of one view answer it alike, and stay of one view. -/
theorem perform_alike (h : m.view = n.view) (c : Command) : (m.perform c).Alike (n.perform c) := by
  cases c with
  | load p =>
    refine ⟨?_, rfl, rfl⟩
    obtain ⟨s, rfl, _⟩ := exists_eq_of_view_eq h
    rfl
  | configure policy =>
    refine ⟨?_, rfl, rfl⟩
    obtain ⟨s, rfl, hs⟩ := exists_eq_of_view_eq h
    show (m.configure policy).view = (({ m with stack := s } : Machine).configure policy).view
    unfold view configure
    rw [hs]
  | tick now => exact tick_alike h now

/-- A restart leaves nothing but the program and the policy, as a load does. -/
theorem Underway.view_of_restart (h : m.Underway now n)
    (hd : n.program.decode n.ip = .instruction .restart) :
    (m.tick now).machine.view = (m.load m.program).view := by
  obtain ⟨t, ht, hs⟩ := step_of_restart hd now
  obtain ⟨hprogram, hpolicy, hfaulted, hwake⟩ := h.frame
  rw [(h.tick_of_suspended hs).1]
  unfold view load
  simp only [ht, hprogram, hpolicy, hfaulted, hwake, Stack.toList_empty]

end Machine

/-! ## Sessions -/

/-- What a host gets from a command: its result, the events that are new in the log, and what the
machine shows then. -/
structure Reply where
  result : Except Fault Unit
  events : List Event
  view : View

namespace Session

/-- The replies to commands given one after the other. -/
def replies (s : Session EventLog) : List Command → List Reply
  | [] => []
  | c :: cs =>
    let (result, next) := s.perform c
    ⟨result, next.sink.events.toList.drop s.sink.events.size, next.machine.view⟩ :: next.replies cs

/-- Whatever commands follow, a host gets the same from both. -/
def Indistinguishable (s t : Session EventLog) : Prop := ∀ cs, s.replies cs = t.replies cs

/-- A session that began with a policy and a program. -/
def started (log : EventLog) (policy : UnknownPolicy) (p : Program) : Session EventLog :=
  (new log).obey [.configure policy, .load p]

variable {s t : Session EventLog}

theorem replies_cons (s : Session EventLog) (c : Command) (cs : List Command) :
    s.replies (c :: cs) = ⟨(s.machine.perform c).result, (s.machine.perform c).events,
      (s.machine.perform c).machine.view⟩ :: (s.perform c).2.replies cs := by
  have hnew : (s.perform c).2.sink.events.toList.drop s.sink.events.size =
      (s.machine.perform c).events := by
    rw [events_perform, ← Array.length_toList, List.drop_left]
  rw [← hnew]
  rfl

theorem indistinguishable_of_view_eq (h : s.machine.view = t.machine.view) :
    s.Indistinguishable t := by
  intro cs
  induction cs generalizing s t with
  | nil => rfl
  | cons c cs ih =>
    obtain ⟨hview, hrecords, hresult⟩ := Machine.perform_alike h c
    have hrest : (s.perform c).2.replies cs = (t.perform c).2.replies cs := ih hview
    rw [replies_cons, replies_cons, hrest, hview, hresult, Response.events, Response.events,
      hrecords]

/-- The log keeps what it held, and grows by the events of the replies. -/
theorem events_obey (s : Session EventLog) (cs : List Command) :
    (s.obey cs).sink.events.toList =
      s.sink.events.toList ++ (s.replies cs).flatMap Reply.events := by
  induction cs generalizing s with
  | nil => exact (List.append_nil _).symm
  | cons c cs ih =>
    rw [obey_cons, ih, events_perform, replies_cons, List.flatMap_cons, List.append_assoc]

/-- **History.** Sessions whose machines show one view are indistinguishable, and each log only grows
behind what it held. Once a program is loaded, or a restart executed, a session is indistinguishable
from one that began with its policy and its program. -/
theorem history_hidden (s : Session EventLog) :
    (∀ t : Session EventLog, s.machine.view = t.machine.view → s.Indistinguishable t) ∧
      (∀ cs, (s.obey cs).sink.events.toList =
        s.sink.events.toList ++ (s.replies cs).flatMap Reply.events) ∧
      (∀ log p, (s.perform (.load p)).2.Indistinguishable (started log s.machine.policy p)) ∧
      (∀ log now n, s.machine.Underway now n → n.program.decode n.ip = .instruction .restart →
        (s.perform (.tick now)).2.Indistinguishable
          (started log s.machine.policy s.machine.program)) := by
  refine ⟨fun t h => indistinguishable_of_view_eq h, s.events_obey, ?_, ?_⟩
  · intro log p
    apply indistinguishable_of_view_eq
    rfl
  · intro log now n hn hd
    apply indistinguishable_of_view_eq
    exact hn.view_of_restart hd

end Session

end TickMachine
