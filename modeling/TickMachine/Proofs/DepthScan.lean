import TickMachine.Proofs.Listing
import TickMachine.Proofs.Schedule

/-!
# Faults read off the listing

Which fault a program meets, and after how many waits, is found by a scan of its listing that knows the
stack by its depth alone. The scan is exact (`fault_iff_scan`): a program in which it finds nothing
never fails, and one in which it finds a fault fails with this fault and no other.

The proof follows the finding of a machine, the scan from where it stands. A tick that is not held back
bears the finding out (`tick_foretold`): it fails with the fault if no wait is left before it, and
counts a wait off otherwise.
-/

namespace TickMachine

/-- The depth of the stack after an opcode, or the fault to which the depth before leads. -/
def Opcode.depthAfter (op : Opcode) (depth : Nat) : Except Fault Nat :=
  match op with
  | .greet | .printInline => .ok depth
  | .set =>
    if depth = stackCapacity then .error (.stackOverflow stackCapacity) else .ok (depth + 1)
  | .add => if depth < 2 then .error (.stackUnderflow 2 depth) else .ok (depth - 1)
  | .printFloat => if depth < 4 then .error (.stackUnderflow 4 depth) else .ok (depth - 4)
  | .wait => if depth < 1 then .error (.stackUnderflow 1 depth) else .ok (depth - 1)
  | .restart => .ok 0

/-- A fault, and the number of waits before it. -/
structure Finding where
  fault : Fault
  waits : Nat
  deriving DecidableEq, Repr

/-- The finding seen from before one more wait. -/
def Finding.later (f : Finding) : Finding := { f with waits := f.waits + 1 }

/-! ## The scan -/

namespace Listing

/-- Scans items that begin at a position of a program of the given size. A restart ends the scan. -/
def scanItems (policy : UnknownPolicy) (size : Nat) (stump : Option Stump) :
    List Item → Nat → Nat → Option Finding
  | [], pos, _ => stump.map fun s => ⟨.outOfRange (pos + 1) s.op.operandWidth size, 0⟩
  | .unknown byte _ :: items, pos, depth =>
    match policy with
    | .ignore => scanItems policy size stump items (pos + 1) depth
    | .fatal => some ⟨.unknownOpcode pos byte, 0⟩
  | .instruction i :: items, pos, depth =>
    match i.opcode.depthAfter depth with
    | .error fault => some ⟨fault, 0⟩
    | .ok after =>
      match i.opcode with
      | .restart => none
      | .wait => (scanItems policy size stump items (pos + i.width) after).map Finding.later
      | _ => scanItems policy size stump items (pos + i.width) after

def scan (l : Listing) (policy : UnknownPolicy) (size pos depth : Nat) : Option Finding :=
  scanItems policy size l.stump l.items pos depth

variable {l : Listing} {policy : UnknownPolicy} {size pos depth after : Nat} {i : Instruction}
  {fault : Fault}

theorem scan_of_depthAfter_error (h : i.opcode.depthAfter depth = .error fault) :
    (l.cons (.instruction i)).scan policy size pos depth = some ⟨fault, 0⟩ := by
  show scanItems policy size l.stump (.instruction i :: l.items) pos depth = _
  rw [scanItems]
  simp only [h]

theorem scan_wait (h : Opcode.wait.depthAfter depth = .ok after) :
    (l.cons (.instruction .wait)).scan policy size pos depth =
      (l.scan policy size (pos + 1) after).map Finding.later := by
  show scanItems policy size l.stump (.instruction .wait :: l.items) pos depth =
    (scanItems policy size l.stump l.items (pos + 1) after).map Finding.later
  rw [scanItems]
  simp only [Instruction.opcode, h]
  rfl

theorem scan_restart : (l.cons (.instruction .restart)).scan policy size pos depth = none := rfl

theorem scan_instruction (h : i.opcode.depthAfter depth = .ok after) (hw : i ≠ .wait)
    (hr : i ≠ .restart) : (l.cons (.instruction i)).scan policy size pos depth =
      l.scan policy size (pos + i.width) after := by
  show scanItems policy size l.stump (.instruction i :: l.items) pos depth =
    scanItems policy size l.stump l.items (pos + i.width) after
  rw [scanItems]
  simp only [h]
  cases i with
  | wait => exact absurd rfl hw
  | restart => exact absurd rfl hr
  | _ => rfl

end Listing

namespace Program

/-- What a scan of the whole program finds, from the empty stack on. -/
def scan (p : Program) (policy : UnknownPolicy) : Option Finding := p.listing.scan policy p.size 0 0

/-- What a scan finds from a position and a depth on. -/
def scanFrom (p : Program) (policy : UnknownPolicy) (pos depth : Nat) : Option Finding :=
  (p.listingFrom pos).scan policy p.size pos depth

theorem scanFrom_start (p : Program) (policy : UnknownPolicy) :
    p.scanFrom policy 0 0 = p.scan policy := rfl

end Program

/-! ## The depth of the stack -/

namespace Instruction

variable {i : Instruction} {xs ys : List UInt8} {e : Event} {depth : Nat}

theorem depthAfter_of_yields (h : i.Yields xs ys e) :
    i.opcode.depthAfter xs.length = .ok ys.length := by
  cases h with
  | greet xs | printInline xs operand | restart xs => rfl
  | set xs v h =>
    show (if xs.length = stackCapacity then _ else _) = _
    rw [if_neg (Nat.ne_of_lt h), List.length_append]
    rfl
  | add | printFloat | wait => simp [opcode, Opcode.depthAfter]

theorem depthAfter_of_lt_need (h : depth < i.need) :
    i.opcode.depthAfter depth = .error (.stackUnderflow i.need depth) := by
  cases i with
  | greet | set _ | printInline _ | restart => exact absurd h (Nat.not_lt_zero depth)
  | add | printFloat | wait => exact if_pos h

end Instruction

/-! ## The scan by the first move -/

namespace Program

variable {p : Program} {policy : UnknownPolicy} {ip next : Nat} {xs ys : List UInt8} {b : UInt8}
  {e : Event} {fault : Fault}

theorem scanFrom_of_ended (h : p.move policy ip xs = .ended) :
    p.scanFrom policy ip xs.length = none := by
  rw [scanFrom, listingFrom_of_ended (move_eq_ended_iff.1 h)]
  rfl

theorem scanFrom_of_skipped (h : p.move policy ip xs = .skipped b) :
    p.scanFrom policy ip xs.length = p.scanFrom policy (ip + 1) xs.length := by
  obtain ⟨hd, rfl⟩ := move_eq_skipped_iff.1 h
  obtain ⟨_, hl⟩ := listingFrom_of_unknown hd
  rw [scanFrom, hl]
  rfl

theorem scanFrom_of_executed (h : p.move policy ip xs = .executed e next ys)
    (hs : e.suspends = false) :
    p.scanFrom policy ip xs.length = p.scanFrom policy next ys.length := by
  obtain ⟨i, hd, hy, hnext⟩ := move_eq_executed_iff.1 h
  have hw : i ≠ .wait := by
    rintro rfl
    cases hy
    cases hs
  have hr : i ≠ .restart := by
    rintro rfl
    cases hy
    cases hs
  rw [if_neg (by rintro rfl; cases hs)] at hnext
  rw [scanFrom, listingFrom_of_instruction hd,
    Listing.scan_instruction (Instruction.depthAfter_of_yields hy) hw hr, hnext]
  rfl

theorem scanFrom_of_waited {amount : UInt8}
    (h : p.move policy ip xs = .executed (.wait amount) next ys) :
    p.scanFrom policy ip xs.length = (p.scanFrom policy next ys.length).map Finding.later := by
  obtain ⟨i, hd, hy, rfl⟩ := move_eq_executed_iff.1 h
  have hdepth := Instruction.depthAfter_of_yields hy
  obtain ⟨rfl, -⟩ := Instruction.yields_wait_iff.1 hy
  rw [scanFrom, listingFrom_of_instruction hd, Listing.scan_wait hdepth]
  rfl

theorem scanFrom_of_restarted (h : p.move policy ip xs = .executed .restart next ys) :
    p.scanFrom policy ip xs.length = none := by
  obtain ⟨i, hd, hy, -⟩ := move_eq_executed_iff.1 h
  obtain ⟨rfl, -⟩ := Instruction.yields_restart_iff.1 hy
  rw [scanFrom, listingFrom_of_instruction hd]
  exact Listing.scan_restart

/-- A missing operand is noticed before the stack is: its opcode is no instruction of the listing. -/
theorem scanFrom_of_failed (h : p.move policy ip xs = .failed fault next)
    (hxs : xs.length ≤ stackCapacity) : p.scanFrom policy ip xs.length = some ⟨fault, 0⟩ := by
  cases move_eq_failed_iff.1 h with
  | unknown hd hp =>
    obtain ⟨_, hl⟩ := listingFrom_of_unknown hd
    rw [scanFrom, hl, hp]
    rfl
  | truncated hd =>
    obtain ⟨s, rfl, hl⟩ := listingFrom_of_truncated hd
    rw [scanFrom, hl]
    rfl
  | @overflow v hd hfull =>
    have hdepth : (Instruction.set v).opcode.depthAfter xs.length =
        .error (.stackOverflow stackCapacity) := if_pos (Nat.le_antisymm hxs hfull)
    rw [scanFrom, listingFrom_of_instruction hd]
    exact Listing.scan_of_depthAfter_error hdepth
  | @underflow i hd hlt =>
    rw [scanFrom, listingFrom_of_instruction hd]
    exact Listing.scan_of_depthAfter_error (Instruction.depthAfter_of_lt_need hlt)

end Program

/-! ## Machines -/

namespace Machine

/-- What a scan finds from where the machine stands. -/
def finding (m : Machine) : Option Finding :=
  m.program.scanFrom m.policy m.ip m.stack.toList.length

/-- What a finding says of the next run: its fault, or a run without one and the finding behind it.
Behind a restart that is the finding from the start. -/
def Foretells (start : Option Finding) (r : Response) : Option Finding → Prop
  | none => r.result = .ok () ∧ (r.machine.finding = none ∨ r.machine.finding = start)
  | some ⟨fault, 0⟩ => r.result = .error fault
  | some ⟨fault, waits + 1⟩ => r.result = .ok () ∧ r.machine.finding = some ⟨fault, waits⟩

/-- The results of ticks at the given times. -/
def results (m : Machine) : List Binary64 → List (Except Fault Unit)
  | [] => []
  | now :: times => (m.tick now).result :: (m.tick now).machine.results times

variable {m : Machine} {now : Binary64} {times : List Binary64} {r q : Response} {fault : Fault}
  {waits : Nat} {start f : Option Finding}

theorem finding_load (m : Machine) (p : Program) : (m.load p).finding = p.scan m.policy :=
  p.scanFrom_start m.policy

/-- Records and faults that happened have no part in a finding. -/
theorem Foretells.congr (h : Foretells start r f) (hresult : q.result = r.result)
    (hfinding : q.machine.finding = r.machine.finding) : Foretells start q f := by
  unfold Foretells at h ⊢
  rw [hresult, hfinding]
  exact h

theorem Runs.foretold (h : Runs now m r) : Foretells (m.program.scan m.policy) r m.finding := by
  induction h with
  | @ended m h =>
    have hm : m.finding = none := Program.scanFrom_of_ended h
    rw [hm]
    exact ⟨rfl, .inl hm⟩
  | @skipped m b r h hr ih =>
    have hm : m.finding = finding { m with ip := m.ip + 1 } := Program.scanFrom_of_skipped h
    rw [hm]
    exact ih.congr rfl rfl
  | @executed m e ip t r h he hr ih =>
    have hm : m.finding = finding { m with ip, stack := t } := Program.scanFrom_of_executed h he
    rw [hm]
    exact ih.congr rfl rfl
  | @waited m amount ip t h =>
    have hm : m.finding = (finding { m with ip, stack := t }).map Finding.later :=
      Program.scanFrom_of_waited h
    rw [hm]
    cases hnext : finding { m with ip, stack := t } with
    | none => exact ⟨rfl, .inl hnext⟩
    | some f => exact ⟨rfl, hnext⟩
  | @restarted m t h =>
    have hm : m.finding = none := Program.scanFrom_of_restarted h
    obtain ⟨i, _, hy, _⟩ := Program.move_eq_executed_iff.1 h
    obtain ⟨-, ht⟩ := Instruction.yields_restart_iff.1 hy
    rw [hm]
    refine ⟨rfl, .inr ?_⟩
    show m.program.scanFrom m.policy 0 t.toList.length = _
    rw [ht]
    exact m.program.scanFrom_start m.policy
  | @failed m fault ip h =>
    have hsize : m.stack.toList.length ≤ stackCapacity := by
      rw [Stack.length_toList]
      exact m.stack.size_le
    have hm : m.finding = some ⟨fault, 0⟩ := Program.scanFrom_of_failed h hsize
    rw [hm]
    rfl

/-- What a tick that is not held back comes to. -/
theorem tick_foretold (hf : m.faulted = false) (hg : m.gated now = false) :
    Foretells (m.program.scan m.policy) (m.tick now) m.finding := by
  have hrun : Foretells (m.program.scan m.policy) (m.awake.run now) m.finding :=
    (m.awake.runs now).foretold
  rw [tick_of_ready hf hg]
  cases hr : (m.awake.run now).result with
  | ok =>
    rw [slice_of_ok hr]
    exact hrun.congr hr.symm rfl
  | error fault =>
    rw [slice_of_error hr]
    exact hrun.congr hr.symm rfl

/-! ## Nothing found -/

/-- What a tick preserves if nothing is found, here and from the start. -/
theorem tick_of_finding_eq_none (hf : m.faulted = false) (hm : m.finding = none)
    (hp : m.program.scan m.policy = none) (now : Binary64) :
    (m.tick now).result = .ok () ∧ (m.tick now).machine.finding = none := by
  cases hg : m.gated now with
  | true =>
    obtain ⟨hmachine, hok⟩ := tick_eq_of_gated hf hg
    rw [hmachine]
    exact ⟨hok, hm⟩
  | false =>
    have hnext := tick_foretold hf hg
    rw [hm, hp] at hnext
    obtain ⟨hok, hnone | hnone⟩ := hnext
    · exact ⟨hok, hnone⟩
    · exact ⟨hok, hnone⟩

theorem results_of_finding_eq_none (hf : m.faulted = false) (hm : m.finding = none)
    (hp : m.program.scan m.policy = none) (times : List Binary64) :
    ∀ result ∈ m.results times, result = .ok () := by
  induction times generalizing m with
  | nil => exact fun _ h => absurd h List.not_mem_nil
  | cons now times ih =>
    obtain ⟨hok, hnone⟩ := tick_of_finding_eq_none hf hm hp now
    obtain ⟨hprogram, hpolicy⟩ := m.tick_frame now
    refine List.forall_mem_cons.2 ⟨hok, ih (faulted_tick_of_ok hok) hnone ?_⟩
    rw [hprogram, hpolicy]
    exact hp

/-! ## A fault found -/

/-- A tick without a fault counts one wait off, if it is not held back. -/
theorem finding_tick_of_ok (hf : m.faulted = false) (hm : m.finding = some ⟨fault, waits⟩)
    (hok : (m.tick now).result = .ok ()) : ∃ left, waits = (if m.gated now then 0 else 1) + left ∧
      (m.tick now).machine.finding = some ⟨fault, left⟩ := by
  cases hg : m.gated now with
  | true =>
    rw [(tick_eq_of_gated hf hg).1]
    exact ⟨waits, (Nat.zero_add waits).symm, hm⟩
  | false =>
    have hnext := tick_foretold hf hg
    rw [hm] at hnext
    cases waits with
    | zero =>
      have herr : (m.tick now).result = .error fault := hnext
      rw [hok] at herr
      cases herr
    | succ left => exact ⟨left, Nat.add_comm left 1, hnext.2⟩

/-- Ticks without a fault count as many waits off as they are not held back. -/
theorem finding_obey_of_ok (hf : m.faulted = false) (hm : m.finding = some ⟨fault, waits⟩)
    (hok : ∀ result ∈ m.results times, result = .ok ()) :
    ∃ left, waits = m.slices times + left ∧
      (m.obey (times.map .tick)).finding = some ⟨fault, left⟩ ∧
        (m.obey (times.map .tick)).faulted = false := by
  induction times generalizing m waits with
  | nil => exact ⟨waits, (Nat.zero_add waits).symm, hm, hf⟩
  | cons now times ih =>
    obtain ⟨hnow, hrest⟩ := List.forall_mem_cons.1 hok
    obtain ⟨after, hwaits, hafter⟩ := finding_tick_of_ok hf hm hnow
    obtain ⟨left, hleft, hlast⟩ := ih (faulted_tick_of_ok hnow) hafter hrest
    refine ⟨left, ?_, hlast⟩
    rw [slices, hwaits, hleft, Nat.add_assoc]

/-- With a fault found, a tick fails if it is not held back and no wait is left, and with this fault. -/
theorem tick_error_iff (hf : m.faulted = false) (hm : m.finding = some ⟨fault, waits⟩) {e : Fault} :
    (m.tick now).result = .error e ↔ m.gated now = false ∧ waits = 0 ∧ e = fault := by
  cases hg : m.gated now with
  | true =>
    rw [(tick_eq_of_gated hf hg).2]
    simp
  | false =>
    have hnext := tick_foretold hf hg
    rw [hm] at hnext
    cases waits with
    | zero =>
      have herr : (m.tick now).result = .error fault := hnext
      rw [herr]
      simp [eq_comm]
    | succ left =>
      rw [hnext.1]
      simp

end Machine

/-! ## What the scan does not see -/

/-- A listing without its operands. -/
structure Outline where
  /-- The opcode of each item, or the byte that is none. -/
  marks : List (Except UInt8 Opcode)
  stump : Option Opcode
  size : Nat

def Item.mark : Item → Except UInt8 Opcode
  | .unknown byte _ => .error byte
  | .instruction i => .ok i.opcode

def Program.outline (p : Program) : Outline :=
  ⟨p.listing.items.map Item.mark, p.listing.stump.map Stump.op, p.size⟩

theorem Instruction.width_eq_of_opcode_eq {i j : Instruction} (h : i.opcode = j.opcode) :
    i.width = j.width := by
  unfold width
  rw [h]

theorem Listing.scanItems_eq_of_marks_eq {policy : UnknownPolicy} {size : Nat}
    {stump stump' : Option Stump} (hstump : stump.map Stump.op = stump'.map Stump.op)
    {items items' : List Item} (h : items.map Item.mark = items'.map Item.mark) (pos depth : Nat) :
    scanItems policy size stump items pos depth = scanItems policy size stump' items' pos depth := by
  induction items generalizing items' pos depth with
  | nil =>
    obtain rfl := List.map_eq_nil_iff.1 h.symm
    have hmap (s : Option Stump) : scanItems policy size s [] pos depth =
        (s.map Stump.op).map fun op => ⟨.outOfRange (pos + 1) op.operandWidth size, 0⟩ := by
      cases s <;> rfl
    rw [hmap, hmap, hstump]
  | cons item items ih =>
    obtain ⟨item', items', rfl, hmark, hmarks⟩ := List.map_eq_cons_iff.1 h.symm
    cases item with
    | unknown b ho =>
      cases item' with
      | instruction j => cases hmark
      | unknown b' ho' =>
        cases hmark
        cases policy with
        | ignore => exact ih hmarks.symm (pos + 1) depth
        | fatal => rfl
    | instruction i =>
      cases item' with
      | unknown b' ho' => cases hmark
      | instruction j =>
        have hop : j.opcode = i.opcode := Except.ok.inj hmark
        unfold scanItems
        rw [hop, Instruction.width_eq_of_opcode_eq hop]
        simp only [ih hmarks.symm]

theorem Program.scan_eq_of_outline_eq {p q : Program} (h : p.outline = q.outline)
    (policy : UnknownPolicy) : p.scan policy = q.scan policy := by
  unfold outline at h
  injection h with hmarks hstump hsize
  unfold scan Listing.scan
  rw [hsize]
  exact Listing.scanItems_eq_of_marks_eq hstump hmarks 0 0

/-! ## All schedules -/

/-- **Faults.** If the scan finds nothing in a program, no tick after a load fails, whatever the times.
If it finds a fault, then behind any ticks without one, the next tick fails exactly if it is not held
back and those before it that were not are as many as the waits before the fault, and it fails with
this fault. The scan is the same for all programs that differ in the values of operands alone. -/
theorem Machine.fault_iff_scan (m : Machine) (p : Program) :
    (p.scan m.policy = none →
      ∀ times, ∀ result ∈ (m.load p).results times, result = .ok ()) ∧
    (∀ fault waits, p.scan m.policy = some ⟨fault, waits⟩ → ∀ times now e,
      (∀ result ∈ (m.load p).results times, result = .ok ()) →
        let n := (m.load p).obey (times.map .tick)
        ((n.tick now).result = .error e ↔
          n.gated now = false ∧ (m.load p).slices times = waits ∧ e = fault)) ∧
    ∀ q : Program, q.outline = p.outline → q.scan m.policy = p.scan m.policy := by
  refine ⟨?_, ?_, fun q hq => Program.scan_eq_of_outline_eq hq m.policy⟩
  · intro hnone times
    exact results_of_finding_eq_none rfl ((m.finding_load p).trans hnone) hnone times
  · intro fault waits hsome times now e hok n
    obtain ⟨left, hwaits, hfinding, hf⟩ :=
      finding_obey_of_ok rfl ((m.finding_load p).trans hsome) hok
    rw [tick_error_iff hf hfinding]
    have hleft : left = 0 ↔ (m.load p).slices times = waits := by omega
    rw [hleft]

/-- An underflow behind one wait: push one, wait, add. -/
example : (Program.ofList [1, 1, 5, 2]).scan .ignore = some ⟨.stackUnderflow 2 0, 1⟩ := by
  decide +kernel

end TickMachine
