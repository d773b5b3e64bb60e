import TickMachine.Proofs.Alignment
import TickMachine.Proofs.Fetches
import TickMachine.Proofs.LineText

/-!
# The log as an account of a tick

The records of a tick name the instructions that it came to, in the order of the listing from the
pointer on and without leaving one out. Each record has its place between two others
(`Record.Fits`): the event of an instruction stands right behind its opcode, the suspension right
behind the event that suspends, and the fault is the last word.

`log_accounts` is the whole account, of the written log as well: each record has a line there, and is
read back from it. A fatal byte that is no opcode has no record of its own, since the fault names it;
all other fetches of the tick have one.
-/

namespace TickMachine

/-! ## Opcodes and events -/

/-- The opcode whose instruction reports the event. -/
def Event.opcode? : Event → Option Opcode
  | helloWorld => some .greet
  | set _ => some .set
  | add _ _ _ => some .add
  | printFloat _ .stack => some .printFloat
  | printFloat _ .operand => some .printInline
  | wait _ => some .wait
  | restart => some .restart
  | finished | waiting _ => none

theorem Instruction.Yields.opcode?_eq {i : Instruction} {xs ys : List UInt8} {e : Event}
    (h : i.Yields xs ys e) : e.opcode? = some i.opcode := by
  cases h <;> rfl

/-! ## Starts -/

/-- Where the items of the listing begin, and the stump if there is one. -/
def Listing.starts (l : Listing) : List Nat :=
  (List.range (l.items.length + l.stump.toList.length)).map l.position

theorem Listing.drop_starts {l : Listing} {k : Nat}
    (hk : k < l.items.length + l.stump.toList.length) :
    l.starts.drop k = l.position k :: l.starts.drop (k + 1) := by
  rw [List.drop_eq_getElem_cons (by simpa [starts] using hk)]
  simp [starts]

/-- Where something stands, something begins. -/
theorem Program.lt_length_starts {p : Program} {k : Nat} (hk : k ≤ p.listing.items.length)
    (h : p.listing.position k < p.size) :
    k < p.listing.items.length + p.listing.stump.toList.length := by
  rcases Nat.lt_or_eq_of_le hk with hlt | rfl
  · omega
  · have hd := p.decode_position (Nat.le_refl _)
    cases hs : p.listing.stump with
    | some s => simp
    | none =>
      have hended := hd.trans (Listing.decoded_eq_ended_iff.2 ⟨by simp, hs⟩)
      exact absurd (decode_eq_ended_iff.1 hended) (Nat.not_le.2 h)

namespace Record

/-- The position that a record is about, if it is about what was fetched there. -/
def position? : Record → Option Nat
  | dispatch ip _ | ignored ip _ => some ip
  | _ => none

def positions (rs : List Record) : List Nat := rs.filterMap position?

@[simp] theorem positions_append (rs ss : List Record) :
    positions (rs ++ ss) = positions rs ++ positions ss :=
  List.filterMap_append

/-- Whether the record has its place between its neighbours, in the log of a tick of the machine `m`
with the response `r`. -/
def Fits (m : Machine) (r : Response) (before after : Option Record) : Record → Prop
  | loaded _ => False
  | resuming wake => m.wake = some wake ∧ before = none
  | dispatch ip op => m.program.fetch? ip = some op.byte ∧
    ((∃ e, after = some (.event e) ∧ e.opcode? = some op) ∨
      ∃ fault, r.result = .error fault ∧ after = some (.faulted fault r.machine.ip))
  | ignored ip byte => m.program.fetch? ip = some byte ∧ Opcode.ofByte? byte = none
  | event e => (e = .finished ∧ after = none) ∨
    ∃ ip op, before = some (.dispatch ip op) ∧ e.opcode? = some op ∧
      (e.suspends = true → after = some (.suspended r.machine.ip r.machine.wake))
  | suspended ip wake => ip = r.machine.ip ∧ wake = r.machine.wake ∧
    ∃ e, before = some (.event e) ∧ e.suspends = true
  | faulted fault ip => r.result = .error fault ∧ ip = r.machine.ip ∧ after = none

/-- Each of the records fits between its neighbours; `before` stands in front of the first. -/
def AllFit (m : Machine) (r : Response) (before : Option Record) : List Record → Prop
  | [] => True
  | x :: rs => x.Fits m r before rs.head? ∧ AllFit m r (some x) rs

theorem AllFit.fits {m : Machine} {r : Response} {before : Option Record} {as bs : List Record}
    {x : Record} (h : AllFit m r before (as ++ x :: bs)) :
    x.Fits m r (as.getLast?.or before) bs.head? := by
  induction as generalizing before with
  | nil => exact h.1
  | cons a as ih =>
    have hlast : (a :: as).getLast?.or before = as.getLast?.or (some a) := by
      rw [List.getLast?_cons]
      cases as.getLast? <;> rfl
    rw [hlast]
    exact ih h.2

end Record

namespace Machine

variable {m n : Machine} {now : Binary64} {ps : List Nat} {r : Response} {rs : List Record}
  {k : Nat} {before : Option Record}

/-! ## Fetches in the listing -/

/-- From a step that does not end the run the machine goes on at the next item. -/
theorem position_of_continued (hip : m.ip = m.program.listing.position k)
    (hk : k ≤ m.program.listing.items.length) (hs : m.step now = .continued n rs) :
    k + 1 ≤ m.program.listing.items.length ∧ n.ip = m.program.listing.position (k + 1) := by
  have hdecode := m.program.decode_position hk
  rw [← hip] at hdecode
  have hnext {item : Item} (hi : m.program.listing.items[k]? = some item) :
      k + 1 ≤ m.program.listing.items.length ∧
        m.ip + item.width = m.program.listing.position (k + 1) := by
    rw [Listing.position_succ hi, hip]
    exact ⟨(List.getElem?_eq_some_iff.1 hi).1, rfl⟩
  have hst := m.stepped now
  rw [hs] at hst
  cases hst with
  | skipped h =>
    obtain ⟨hd, -⟩ := Program.move_eq_skipped_iff.1 h
    obtain ⟨ho, hi⟩ := Listing.decoded_eq_unknown (hdecode.symm.trans hd)
    exact hnext hi
  | executed h he =>
    obtain ⟨i, hd, -, rfl⟩ := Program.move_eq_executed_iff.1 h
    rw [if_neg (by rintro rfl; cases he), ← Walker.width_instruction]
    exact hnext (Listing.decoded_eq_instruction (hdecode.symm.trans hd))

theorem Fetches.isPrefix (h : m.Fetches now ps r) (hip : m.ip = m.program.listing.position k)
    (hk : k ≤ m.program.listing.items.length) : ps <+: m.program.listing.starts.drop k := by
  induction h generalizing k with
  | ended hs => exact List.nil_prefix
  | @continued m n rs ps r hs h ih =>
    obtain ⟨hlt, -, hprogram⟩ := lt_of_continued hs
    obtain ⟨hk', hip'⟩ := position_of_continued hip hk hs
    rw [Listing.drop_starts (by omega), hip]
    rw [hprogram] at ih
    exact List.cons_prefix_cons.2 ⟨rfl, ih hip' hk'⟩
  | suspended hs | failed hs =>
    have hlt := lt_size_of_step hs (by simp)
    rw [hip] at hlt
    rw [Listing.drop_starts (Program.lt_length_starts hk hlt), hip]
    exact List.cons_prefix_cons.2 ⟨rfl, List.nil_prefix⟩

/-- What the fault names of the fetches, and the records do not. -/
def unlogged : Except Fault Unit → List Nat
  | .error (.unknownOpcode ip _) => [ip]
  | _ => []

theorem positions_heading_of_executed {e : Event} {xs : List UInt8} {ip : Nat}
    (h : m.move = .executed e ip xs) : ∃ i : Instruction, m.heading = [.dispatch m.ip i.opcode] ∧
      m.program.fetch? m.ip = some i.opcode.byte ∧ e.opcode? = some i.opcode := by
  obtain ⟨i, hd, hy, -⟩ := Program.move_eq_executed_iff.1 h
  refine ⟨i, ?_, Program.fetch?_of_decode hd, hy.opcode?_eq⟩
  rw [heading, Program.heading, hd]

/-- A fault names the byte that no record is about. -/
theorem heading_of_failed {fault : Fault} {ip : Nat} (h : m.move = .failed fault ip) :
    (m.heading = [] ∧ unlogged (.error fault) = [m.ip]) ∨
      ∃ op : Opcode, m.heading = [.dispatch m.ip op] ∧ m.program.fetch? m.ip = some op.byte ∧
        unlogged (.error fault) = [] := by
  rw [heading, Program.heading]
  cases Program.move_eq_failed_iff.1 h with
  | unknown hd hp =>
    rw [hd]
    exact .inl ⟨rfl, rfl⟩
  | @truncated op hd =>
    rw [hd]
    exact .inr ⟨op, rfl, (Program.decode_eq_truncated_iff.1 hd).1, rfl⟩
  | overflow hd hfull =>
    rw [hd]
    exact .inr ⟨_, rfl, Program.fetch?_of_decode hd, rfl⟩
  | underflow hd hlt =>
    rw [hd]
    exact .inr ⟨_, rfl, Program.fetch?_of_decode hd, rfl⟩

/-- All fetches but that of a fatal byte are in the records. -/
theorem Fetches.eq_positions (h : m.Fetches now ps r) :
    ps = Record.positions r.records ++ unlogged r.result := by
  induction h with
  | ended hs => rfl
  | @continued m n rs ps r hs h ih =>
    have hrs : Record.positions rs = [m.ip] := by
      have hst := m.stepped now
      rw [hs] at hst
      cases hst with
      | skipped hm => rfl
      | executed hm he =>
        obtain ⟨i, hi, -⟩ := positions_heading_of_executed hm
        rw [hi]
        rfl
    rw [Response.after, Record.positions_append, hrs, ih]
    rfl
  | @suspended m n rs hs =>
    have hst := m.stepped now
    rw [hs] at hst
    cases hst with
    | waited h | restarted h =>
      obtain ⟨i, hi, -⟩ := positions_heading_of_executed h
      rw [hi]
      rfl
  | @failed m n rs fault hs =>
    have hst := m.stepped now
    rw [hs] at hst
    cases hst with
    | failed hm =>
      obtain ⟨hh, hf⟩ | ⟨op, hh, -, hf⟩ := heading_of_failed hm <;> rw [hh, hf] <;> rfl

/-! ## Neighbours -/

open Record

theorem allFit_closing (n : Machine) : AllFit m r before n.closing := by
  unfold closing
  split
  · exact ⟨.inl ⟨rfl, rfl⟩, trivial⟩
  · trivial

/-- An opcode, its event, and what fits behind an event that does not suspend. -/
theorem allFit_executed {e : Event} {xs : List UInt8} {ip : Nat} (h : n.move = .executed e ip xs)
    (hprogram : n.program = m.program) (hrs : AllFit m r (some (.event e)) rs)
    (he : e.suspends = true → rs.head? = some (.suspended r.machine.ip r.machine.wake)) :
    AllFit m r before (n.heading ++ .event e :: rs) := by
  obtain ⟨i, hi, hb, hop⟩ := positions_heading_of_executed h
  rw [hprogram] at hb
  rw [hi]
  exact ⟨⟨hb, .inl ⟨e, rfl, hop⟩⟩, .inr ⟨_, _, rfl, hop, he⟩, hrs⟩

theorem allFit_slice (n : Machine) (now : Binary64) (hprogram : n.program = m.program)
    (hmachine : (n.slice now).machine = r.machine) (hresult : (n.slice now).result = r.result) :
    AllFit m r before (n.slice now).records := by
  induction n using run_induction now generalizing before with
  | step n ih =>
    have hst := n.stepped now
    generalize hs : n.step now = s at hst
    cases hst with
    | ended h =>
      rw [slice_of_ended hs]
      exact allFit_closing n
    | @skipped b h =>
      rw [slice_of_continued hs] at hmachine hresult ⊢
      obtain ⟨hd, -⟩ := Program.move_eq_skipped_iff.1 h
      obtain ⟨hb, ho⟩ := Program.decode_eq_unknown_iff.1 hd
      rw [hprogram] at hb
      exact ⟨⟨hb, ho⟩, ih _ _ hs hprogram hmachine hresult⟩
    | @executed e ip t h he =>
      rw [slice_of_continued hs] at hmachine hresult ⊢
      rw [Response.after, List.append_assoc]
      refine allFit_executed h hprogram (ih _ _ hs hprogram hmachine hresult) ?_
      rw [he]
      exact fun h => Bool.noConfusion h
    | waited h | restarted h =>
      rw [slice_of_suspended hs] at hmachine ⊢
      rw [List.append_assoc]
      cases r
      cases hmachine
      exact allFit_executed h hprogram ⟨⟨rfl, rfl, _, rfl, rfl⟩, allFit_closing _⟩ fun _ => rfl
    | @failed fault ip h =>
      rw [slice_of_failed hs] at hmachine hresult ⊢
      have hlast : ip = r.machine.ip := congrArg Machine.ip hmachine
      obtain ⟨hh, -⟩ | ⟨op, hh, hb, -⟩ := heading_of_failed h
      · rw [hh]
        exact ⟨⟨hresult.symm, hlast, rfl⟩, trivial⟩
      · rw [hh]
        rw [hprogram] at hb
        exact ⟨⟨hb, .inr ⟨fault, hresult.symm, hlast ▸ rfl⟩⟩, ⟨hresult.symm, hlast, rfl⟩, trivial⟩

/-! ## Ticks -/

theorem records_tick (hf : m.faulted = false) (hg : m.gated now = false) :
    (m.tick now).records = m.waking ++ (m.awake.slice now).records := by
  rw [tick_of_ready hf hg]
  rfl

/-- A tick that runs begins with the wait that is over, if there is one, and fits together. -/
theorem allFit_tick (hf : m.faulted = false) (hg : m.gated now = false) :
    AllFit m (m.tick now) none (m.tick now).records := by
  have hslice (before : Option Record) :
      AllFit m (m.tick now) before (m.awake.slice now).records := by
    rw [tick_of_ready hf hg]
    exact allFit_slice m.awake now rfl rfl rfl
  rw [records_tick hf hg, waking]
  cases hw : m.wake with
  | none => exact hslice none
  | some wake => exact ⟨⟨hw, rfl⟩, hslice _⟩

/-- The last word of a tick on its result. -/
theorem getLast?_records_tick {fault : Fault} (hf : m.faulted = false)
    (hr : (m.tick now).result = .error fault) :
    (m.tick now).records.getLast? = some (.faulted fault (m.tick now).machine.ip) := by
  have ht := m.ticked now
  generalize m.tick now = r at ht hr ⊢
  cases ht with
  | faulted hf' => exact absurd (hf.symm.trans hf') Bool.false_ne_true
  | gated | stopped => cases hr
  | failed hf hg hrun hr' =>
    cases hr
    rw [← List.append_assoc]
    exact List.getLast?_concat

/-- The end of a slice is about no fetch. -/
theorem positions_slice (n : Machine) (now : Binary64) :
    positions (n.slice now).records = positions (n.run now).records ∧
      (n.slice now).result = (n.run now).result := by
  cases hr : (n.run now).result with
  | ok =>
    have hclosing : positions (n.run now).machine.closing = [] := by
      unfold closing
      split <;> rfl
    rw [slice_of_ok hr, positions_append, hclosing, List.append_nil]
    exact ⟨rfl, rfl⟩
  | error fault =>
    rw [slice_of_error hr, positions_append]
    exact ⟨List.append_nil _, rfl⟩

theorem TickFetches.eq_positions (h : m.TickFetches now ps) (hf : m.faulted = false)
    (hg : m.gated now = false) :
    ps = positions (m.tick now).records ++ unlogged (m.tick now).result := by
  have hwaking : positions m.waking = [] := by
    rw [waking]
    cases m.wake <;> rfl
  obtain ⟨hpositions, hresult⟩ := m.awake.positions_slice now
  rw [TickFetches, hf, hg] at h
  rw [records_tick hf hg, positions_append, hwaking, List.nil_append, hpositions,
    tick_of_ready hf hg]
  exact h.eq_positions.trans (by rw [← hresult]; rfl)

/-! ## The trace log -/

/-- A log of all lines holds what is spelled out for the commands. -/
theorem lines_trace_obey (cs : List Command) :
    ((Session.new (TraceLog.empty (.upTo .trace))).obey cs).sink.lines.toList =
      empty.spellings cs := by
  rw [Session.sink_obey, ← map_written_lines]
  exact TraceLog.lines_append_trace _

/-- **The account.** A log of all lines takes in the line of each record of a tick that runs, as it
is spelled out; and each line tells its record and the time of the tick. Each record fits between its
neighbours. The end of a wait comes first, exactly if a wait was pending;
the fault comes last, exactly if the tick fails. The records are about every fetch of the tick but
the one that its fault names. The fetches are the starts of the listing from the pointer on, one
after the other and each once. -/
theorem log_accounts (cs : List Command) (now : Binary64) (hf : (empty.obey cs).faulted = false)
    (hg : (empty.obey cs).gated now = false) :
    let m := empty.obey cs
    let r := m.tick now
    let log := (Session.new (TraceLog.empty (.upTo .trace))).obey cs
    (log.perform (.tick now)).2.sink.lines.toList =
        log.sink.lines.toList ++ r.records.map (·.spelling (some now)) ∧
      (∀ x ∈ r.records, Record.reader.read? (x.spelling (some now)) =
        some (x.level, some now.canonical, x.canonical)) ∧
      (∀ as x bs, r.records = as ++ x :: bs → x.Fits m r as.getLast? bs.head?) ∧
      (∀ wake, r.records.head? = some (.resuming wake) ↔ m.wake = some wake) ∧
      (∀ fault, r.records.getLast? = some (.faulted fault r.machine.ip) ↔
        r.result = .error fault) ∧
      ∃ ps k, m.TickFetches now ps ∧ ps = positions r.records ++ unlogged r.result ∧
        ps.Pairwise (· < ·) ∧ k ≤ m.program.listing.items.length ∧
        m.ip = m.program.listing.position k ∧ ps <+: m.program.listing.starts.drop k := by
  intro m r log
  have hfits (as : List Record) (x : Record) (bs : List Record) (h : r.records = as ++ x :: bs) :
      x.Fits m r as.getLast? bs.head? := by
    have hall : AllFit m r none r.records := allFit_tick hf hg
    rw [h] at hall
    have hx := hall.fits
    rwa [Option.or_none] at hx
  refine ⟨?_, fun x _ => x.read?_spelling (some now), hfits, fun wake => ⟨fun h => ?_, fun h => ?_⟩,
    fun fault => ⟨fun h => ?_, ?_⟩, ?_⟩
  · have hperform : (log.perform (.tick now)).2 =
        (Session.new (TraceLog.empty (.upTo .trace))).obey (cs ++ [.tick now]) := by
      rw [Session.obey_append]
      rfl
    rw [hperform, lines_trace_obey, lines_trace_obey, spellings_append, spellings, spellings,
      List.append_nil]
    rfl
  · obtain ⟨rest, hrest⟩ := List.head?_eq_some_iff.1 h
    exact (hfits [] _ rest hrest).1
  · show (m.tick now).records.head? = _
    rw [records_tick hf hg, waking, h]
    rfl
  · obtain ⟨front, hfront⟩ := List.getLast?_eq_some_iff.1 h
    exact (hfits front _ [] hfront).1
  · exact getLast?_records_tick hf
  · obtain ⟨ps, hps⟩ := m.awake.exists_fetches now
    have hfetches : m.TickFetches now ps := by
      rw [TickFetches, show m.faulted = false from hf, show m.gated now = false from hg]
      exact hps
    have hb : m.program.listing.IsBoundary m.ip :=
      (isBoundary_or_missedOperand cs).resolve_right fun h =>
        Bool.false_ne_true (hf.symm.trans h.1)
    obtain ⟨k, hk, hip⟩ := hb
    exact ⟨ps, k, hfetches, hfetches.eq_positions hf hg, hps.pairwise, hk, hip,
      hps.isPrefix hip hk⟩

/-- Behind a wait an operand is missing: the opcode has a line and then the fault. -/
theorem log_accounts_for_missing_operand :
    let m := empty.obey [.load (.ofList [1, 2, 7, 5, 1]), .tick (.ofNat 0)]
    let r := m.tick (.ofNat 2)
    m.faulted = false ∧ m.gated (.ofNat 2) = false ∧
      r.records = [.resuming (.ofNat 2), .dispatch 4 .set, .faulted (.outOfRange 5 1 5) 5] ∧
      r.records.map (·.spelling (some (.ofNat 2))) =
        ["DEBUG tick\x7bnow=2.0\x7d: bytevm::vm: resuming wake=2.0",
          "TRACE tick\x7bnow=2.0\x7d: bytevm::vm: dispatch ip=4 op=Set",
          "ERROR tick\x7bnow=2.0\x7d: bytevm::vm: machine faulted err=" ++
            "operand of 1 byte(s) at 5 runs past the end of a 5-byte program ip=5"] ∧
      (∀ as x bs, r.records = as ++ x :: bs → x.Fits m r as.getLast? bs.head?) ∧
      ∃ k, m.ip = m.program.listing.position k ∧ [4] <+: m.program.listing.starts.drop k := by
  intro m r
  have hf : m.faulted = false := by decide +kernel
  have hg : m.gated (.ofNat 2) = false := by decide +kernel
  have hr : r.records = [.resuming (.ofNat 2), .dispatch 4 .set,
      .faulted (.outOfRange 5 1 5) 5] := by decide +kernel
  have hresult : r.result = .error (.outOfRange 5 1 5) := by decide +kernel
  have hlines : r.records.map (·.spelling (some (.ofNat 2))) =
      ["DEBUG tick\x7bnow=2.0\x7d: bytevm::vm: resuming wake=2.0",
        "TRACE tick\x7bnow=2.0\x7d: bytevm::vm: dispatch ip=4 op=Set",
        "ERROR tick\x7bnow=2.0\x7d: bytevm::vm: machine faulted err=" ++
          "operand of 1 byte(s) at 5 runs past the end of a 5-byte program ip=5"] := by
    rw [hr]
    decide +kernel
  obtain ⟨-, -, hfits, -, -, ps, k, -, hps, -, -, hip, hstarts⟩ := log_accounts _ _ hf hg
  have hfour : ps = positions r.records ++ unlogged r.result := hps
  rw [hr, hresult] at hfour
  rw [hfour] at hstarts
  exact ⟨hf, hg, hr, hlines, hfits, k, hip, hstarts⟩

end Machine

end TickMachine
