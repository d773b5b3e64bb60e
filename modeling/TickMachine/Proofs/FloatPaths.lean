import TickMachine.Proofs.Assembly
import TickMachine.Proofs.Atomicity

/-!
# Two ways to print a number

A number is printed from four bytes on the stack or from four bytes of the program. `paths_agree`:
the bytes that the assembler pushes for a number, most significant first, are printed as this
number, bit for bit, and so is the operand with the same bytes; wherever a tick comes to such code,
it only needs room for the four bytes.

Both are straight code. A tick that comes to instructions in a row, none of which suspends it, does
to the stack what they do one after the other (`Reaches.passes_of_yieldAll`).
-/

namespace TickMachine

/-! ## Code at a position -/

namespace Program

/-- These bytes stand at a position. -/
def HasAt (p : Program) (pos : Nat) (bytes : List UInt8) : Prop := bytes <+: p.toList.drop pos

variable {p : Program} {pos : Nat} {i : Instruction} {xs ys : List UInt8}

theorem hasAt_encode_iff : p.HasAt pos i.encode ↔ p.decode pos = .instruction i :=
  decode_eq_instruction_iff.symm

theorem HasAt.of_append (h : p.HasAt pos (xs ++ ys)) :
    p.HasAt pos xs ∧ p.HasAt (pos + xs.length) ys := by
  obtain ⟨zs, hzs⟩ := h
  rw [List.append_assoc] at hzs
  refine ⟨⟨ys ++ zs, hzs⟩, zs, ?_⟩
  rw [← List.drop_drop, ← hzs, List.drop_left]

end Program

/-! ## Instructions in a row -/

namespace Instruction

/-- The bytes before instructions in a row, the bytes after them and the events they report, none of
which suspends the machine. -/
inductive YieldAll : List Instruction → List UInt8 → List UInt8 → List Event → Prop where
  | nil (xs : List UInt8) : YieldAll [] xs xs []
  | cons {i : Instruction} {is : List Instruction} {xs ys zs : List UInt8} {e : Event}
    {es : List Event} (h : i.Yields xs ys e) (he : e.suspends = false)
    (hrest : YieldAll is ys zs es) : YieldAll (i :: is) xs zs (e :: es)

variable {i : Instruction} {is js : List Instruction} {xs ys zs : List UInt8} {e : Event}
  {es fs : List Event}

theorem YieldAll.append (h : YieldAll is xs ys es) (h' : YieldAll js ys zs fs) :
    YieldAll (is ++ js) xs zs (es ++ fs) := by
  induction h with
  | nil xs => exact h'
  | cons h he hrest ih => exact .cons h he (ih h')

theorem YieldAll.single (h : i.Yields xs ys e) (he : e.suspends = false) :
    YieldAll [i] xs ys [e] :=
  .cons h he (.nil ys)

/-- Bytes for which there is room are pushed on top, the first one lowest. -/
theorem yieldAll_set (bs : List UInt8) (h : xs.length + bs.length ≤ stackCapacity) :
    YieldAll (bs.map set) xs (xs ++ bs) (bs.map .set) := by
  induction bs generalizing xs with
  | nil =>
    rw [List.append_nil]
    exact .nil xs
  | cons b bs ih =>
    rw [List.length_cons] at h
    have hroom : (xs ++ [b]).length + bs.length ≤ stackCapacity := by
      rw [List.length_append, List.length_singleton]
      omega
    rw [List.append_cons]
    exact .cons (.set xs b (by omega)) rfl (ih hroom)

theorem yieldAll_pushFloat {xs : List UInt8} (h : xs.length ≤ 124) (b0 b1 b2 b3 : UInt8) :
    YieldAll ([b0, b1, b2, b3].map set ++ [printFloat]) xs xs
      ([.set b0, .set b1, .set b2, .set b3] ++
        [.printFloat (Binary.ofBytes b0 b1 b2 b3) .stack]) := by
  have hroom : xs.length + [b0, b1, b2, b3].length ≤ stackCapacity := by
    show xs.length + 4 ≤ 128
    omega
  have hprint : YieldAll [printFloat] (xs ++ [b0, b1, b2, b3]) xs _ :=
    .single (.printFloat xs b0 b1 b2 b3) rfl
  exact (yieldAll_set _ hroom).append hprint

@[simp] theorem length_flatMap_encode_set (bs : List UInt8) :
    ((bs.map set).flatMap encode).length = 2 * bs.length := by
  induction bs with
  | nil => rfl
  | cons b bs ih =>
    rw [List.map_cons, List.flatMap_cons, List.length_append, ih, length_encode, List.length_cons]
    show 2 + 2 * bs.length = _
    omega

end Instruction

open Instruction

namespace Assembler

theorem toList_assemble_pushFloat (b0 b1 b2 b3 : UInt8) :
    (assemble [.pushFloat (Binary.ofBytes b0 b1 b2 b3), .printFloat]).toList =
      ([b0, b1, b2, b3].map set ++ [printFloat]).flatMap encode := by
  rw [toList_assemble, Statement.flatMap_encode (by simp [Statement.isRaw])]
  simp only [Statement.written, List.flatMap_cons, Statement.instructions?, Binary.bytes_ofBytes]
  rfl

end Assembler

namespace Machine

/-- From a machine that a tick has reached, the tick gets over so many bytes of the program. It
reports these events on the way, and then has these bytes on the stack. -/
def Passes (m : Machine) (now : Binary64) (rs : List Record) (n : Machine) (width : Nat)
    (es : List Event) (xs : List UInt8) : Prop :=
  ∃ ss t, m.Reaches now (rs ++ ss) { n with ip := n.ip + width, stack := t } ∧
    Record.events ss = es ∧ t.toList = xs ∧ Record.events rs ++ es <+: (m.tick now).events

variable {m n : Machine} {now : Binary64} {rs : List Record} {i : Instruction}
  {is : List Instruction} {b : UInt8} {bs ys : List UInt8} {e : Event} {es : List Event}

theorem exists_advances_of_yieldAll (h : YieldAll is n.stack.toList ys es)
    (hcode : n.program.HasAt n.ip (is.flatMap encode)) (now : Binary64) :
    ∃ rs t, n.Advances now rs { n with ip := n.ip + (is.flatMap encode).length, stack := t } ∧
      Record.events rs = es ∧ t.toList = ys := by
  generalize hxs : n.stack.toList = xs at h
  induction h generalizing n with
  | nil xs => exact ⟨[], n.stack, .refl n, rfl, hxs⟩
  | @cons i is xs ys zs e es h he hrest ih =>
    rw [List.flatMap_cons] at hcode ⊢
    obtain ⟨hi, hcode⟩ := hcode.of_append
    rw [length_encode] at hcode
    have hmove : n.move = .executed e (n.ip + i.width) ys := by
      refine Program.move_eq_executed_iff.2 ⟨i, Program.hasAt_encode_iff.1 hi, hxs ▸ h, ?_⟩
      rw [if_neg (by rintro rfl; cases he)]
    obtain ⟨u, hu, hstep⟩ := step_of_executed_of_not_suspends hmove he now
    -- The rest of the code stands at the pointer of the machine behind the first instruction.
    obtain ⟨rs, t, hadv, hes, ht⟩ :=
      ih (n := { n with ip := n.ip + i.width, stack := u }) hcode hu
    rw [List.length_append, length_encode, ← Nat.add_assoc]
    refine ⟨n.heading ++ [.event e] ++ rs, t, .step hstep hadv, ?_, ht⟩
    rw [Record.events_append, events_heading_append, hes]
    rfl

theorem Reaches.passes_of_yieldAll (hn : m.Reaches now rs n)
    (hcode : n.program.HasAt n.ip (is.flatMap encode)) (h : YieldAll is n.stack.toList ys es) :
    m.Passes now rs n (is.flatMap encode).length es ys := by
  obtain ⟨ss, t, hadv, hes, ht⟩ := exists_advances_of_yieldAll h hcode now
  have hreach := hn.of_advances hadv
  refine ⟨ss, t, hreach, hes, ht, ?_⟩
  rw [hreach.tick_eq, Response.events_after, Record.events_append, hes]
  exact List.prefix_append _ _

theorem Reaches.passes_of_yields (hn : m.Reaches now rs n) (hcode : n.program.HasAt n.ip i.encode)
    (h : i.Yields n.stack.toList ys e) (he : e.suspends = false) :
    m.Passes now rs n i.width [e] ys := by
  have hone : [i].flatMap encode = i.encode := List.flatMap_singleton _ _
  rw [← hone] at hcode
  have hpass := hn.passes_of_yieldAll hcode (.single h he)
  rwa [hone, length_encode] at hpass

/-- A push onto a full stack. -/
theorem tells_of_full (hd : n.program.decode n.ip = .instruction (.set b))
    (hs : n.stack.size = 128) : n.Tells (.stackOverflow 128) (n.ip + 2) :=
  .overflow (Program.fetch?_of_decode hd) (Program.add_width_le_of_decode hd) hs

/-- Of more pushes than there is room for, the first ones fill the stack and the next one fails. -/
theorem Reaches.tick_of_pushes (hn : m.Reaches now rs n)
    (hcode : n.program.HasAt n.ip ((bs.map set).flatMap encode))
    (hlt : 128 < n.stack.size + bs.length) :
    let k := 128 - n.stack.size
    let r := m.tick now
    m.Passes now rs n (2 * k) ((bs.take k).map .set) (n.stack.toList ++ bs.take k) ∧
      r.result = .error (.stackOverflow 128) ∧
      r.events = Record.events rs ++ (bs.take k).map .set ∧
      r.machine.ip = n.ip + 2 * k + 2 ∧ r.machine.stack.toList = n.stack.toList ++ bs.take k := by
  intro k r
  have hsize : n.stack.size ≤ 128 := n.stack.size_le
  have hk : k < bs.length := by omega
  have htake : (bs.take k).length = k := List.length_take_of_le (Nat.le_of_lt hk)
  -- The pushes that have room, the one that fails, and those that the tick does not come to.
  have hbs : bs.map set = (bs.take k).map set ++ set bs[k] :: (bs.drop (k + 1)).map set := by
    rw [← List.map_cons, List.getElem_cons_drop, ← List.map_append, List.take_append_drop]
  rw [hbs, List.flatMap_append, List.flatMap_cons] at hcode
  obtain ⟨hfirst, hnext⟩ := hcode.of_append
  obtain ⟨hnext, -⟩ := hnext.of_append
  rw [length_flatMap_encode_set, htake] at hnext
  have hroom : n.stack.toList.length + (bs.take k).length ≤ stackCapacity := by
    rw [Stack.length_toList, htake]
    show n.stack.size + k ≤ 128
    omega
  have hpass := hn.passes_of_yieldAll hfirst (yieldAll_set _ hroom)
  rw [length_flatMap_encode_set, htake] at hpass
  refine ⟨hpass, ?_⟩
  obtain ⟨ss, t, hreach, hes, ht, -⟩ := hpass
  have hfull : t.size = 128 := by
    rw [← Stack.length_toList, ht, List.length_append, Stack.length_toList, htake]
    omega
  have htick := hreach.tick_of_tells (tells_of_full (Program.hasAt_encode_iff.1 hnext) hfull)
  show (m.tick now).result = _ ∧ Record.events (m.tick now).records = _ ∧
    (m.tick now).machine.ip = _ ∧ (m.tick now).machine.stack.toList = _
  rw [htick]
  refine ⟨rfl, ?_, rfl, ht⟩
  rw [Record.events_append, events_heading_append, Record.events_append, hes]
  exact List.append_nil _

/-! ## Printing -/

/-- **Both ways print the same number.** Let a tick come to a machine `n`, and `b0` to `b3` be the
bytes of a bit pattern, the most significant first. Code that pushes the number and prints it off
the stack reports the four pushes and then this very pattern, with the stack as it was, if there is
room for four bytes; with less room the first push onto the full stack fails. Code with the four
bytes as its operand prints the same pattern and leaves any stack alone, and printing off any stack
with these bytes on top prints it, too. -/
theorem paths_agree (value : Binary32) (b0 b1 b2 b3 : UInt8)
    (hpattern : value.pattern =
      b0.toNat * 0x1000000 + b1.toNat * 0x10000 + b2.toNat * 0x100 + b3.toNat)
    (hn : m.Reaches now rs n) :
    let bs := [b0, b1, b2, b3]
    (n.program.HasAt n.ip (Assembler.assemble [.pushFloat value, .printFloat]).toList →
      (n.stack.size ≤ 124 → m.Passes now rs n 9
        [.set b0, .set b1, .set b2, .set b3, .printFloat value .stack] n.stack.toList) ∧
      (124 < n.stack.size →
        let k := 128 - n.stack.size
        let r := m.tick now
        m.Passes now rs n (2 * k) ((bs.take k).map .set) (n.stack.toList ++ bs.take k) ∧
          r.result = .error (.stackOverflow 128) ∧
          r.events = Record.events rs ++ (bs.take k).map .set ∧
          r.machine.ip = n.ip + 2 * k + 2 ∧
          r.machine.stack.toList = n.stack.toList ++ bs.take k)) ∧
    (n.program.HasAt n.ip (Assembler.assemble [.printInline #v[b0, b1, b2, b3]]).toList →
      m.Passes now rs n 5 [.printFloat value .operand] n.stack.toList) ∧
    (n.program.HasAt n.ip (Assembler.assemble [.printFloat]).toList →
      ∀ xs, n.stack.toList = xs ++ bs →
        m.Passes now rs n 1 [.printFloat value .stack] xs) := by
  obtain rfl : value = Binary.ofBytes b0 b1 b2 b3 := by
    rw [← Binary.ofPattern_pattern value, hpattern]
    rfl
  intro bs
  refine ⟨fun hcode => ⟨fun hroom => ?_, fun hfull => ?_⟩, fun hcode => ?_, fun hcode xs hxs => ?_⟩
  · rw [Assembler.toList_assemble_pushFloat] at hcode
    have hlen : n.stack.toList.length ≤ 124 := by rwa [Stack.length_toList]
    exact hn.passes_of_yieldAll hcode (yieldAll_pushFloat hlen b0 b1 b2 b3)
  · rw [Assembler.toList_assemble_pushFloat, List.flatMap_append] at hcode
    refine hn.tick_of_pushes hcode.of_append.1 ?_
    show 128 < n.stack.size + 4
    omega
  · exact hn.passes_of_yields hcode (.printInline _ #v[b0, b1, b2, b3]) rfl
  · have hyields := Yields.printFloat xs b0 b1 b2 b3
    rw [← hxs] at hyields
    exact hn.passes_of_yields hcode hyields rfl

/-- A signalling NaN, pushed onto an empty stack and onto one with two free slots. -/
theorem paths_agree_of_nan :
    let value : Binary32 := .ofPattern 0x7fa00001
    let m := empty.load
      (Assembler.assemble [.pushFloat value, .printFloat, .printInline #v[0x7f, 0xa0, 0, 1]])
    let full : Machine := { m with stack := ⟨Vector.replicate _ 9, 126, by decide⟩ }
    value.isNaN = true ∧
      m.Passes (.ofNat 0) [] m 9
        [.set 0x7f, .set 0xa0, .set 0, .set 1, .printFloat value .stack] [] ∧
      (m.tick (.ofNat 0)).events = [.set 0x7f, .set 0xa0, .set 0, .set 1,
        .printFloat value .stack, .printFloat value .operand, .finished] ∧
      (full.tick (.ofNat 0)).result = .error (.stackOverflow 128) ∧
      (full.tick (.ofNat 0)).events = [.set 0x7f, .set 0xa0] ∧
      (full.tick (.ofNat 0)).machine.ip = 6 := by
  intro value m full
  have hpattern : value.pattern = (0x7f : UInt8).toNat * 0x1000000 +
      (0xa0 : UInt8).toNat * 0x10000 + (0 : UInt8).toNat * 0x100 + (1 : UInt8).toNat := by
    decide +kernel
  have hm : m.Reaches (.ofNat 0) [] m := ⟨rfl, rfl, [], rfl, .refl m⟩
  have hfull : full.Reaches (.ofNat 0) [] full := ⟨rfl, rfl, [], rfl, .refl full⟩
  have hcode : m.program.HasAt 0 (Assembler.assemble [.pushFloat value, .printFloat]).toList :=
    ⟨[4, 0x7f, 0xa0, 0, 1], by decide +kernel⟩
  obtain ⟨hroom, -⟩ := (paths_agree value 0x7f 0xa0 0 1 hpattern hm).1 hcode
  obtain ⟨-, hover⟩ := (paths_agree value 0x7f 0xa0 0 1 hpattern hfull).1 hcode
  obtain ⟨-, hresult, hevents, hip, -⟩ := hover (show 124 < 126 by decide)
  exact ⟨by decide +kernel, hroom (Nat.zero_le _), by decide +kernel, hresult, hevents, hip⟩

end Machine

end TickMachine
