import Mathlib.Algebra.Ring.Nat
import Mathlib.Data.List.Basic
import TickMachine.Assembler
import TickMachine.Proofs.Walker

/-!
# Assembled programs

A program is assembled from the bytes of its statements in their order (`encode_eq_wire`). If no
statement is raw, the listing of the program is the instructions that were written, and nothing else
(`listing_assemble`): what the assembler lays out is what decoding reads.

So a machine that has loaded the program does, command by command, what a walker of these instructions
does (`accompanies_obey`), and its faults are of the stack alone.
-/

namespace TickMachine

/-! ## The bytes of statements -/

namespace Statement

def isRaw : Statement → Bool
  | raw _ => true
  | _ => false

/-- The bytes of a statement, byte by byte. -/
def wire : Statement → List UInt8
  | greet => [0]
  | set value => [1, value]
  | add => [2]
  | printFloat => [3]
  | pushFloat value =>
    [1, .ofNat (value.pattern / 0x1000000), 1, .ofNat (value.pattern / 0x10000),
      1, .ofNat (value.pattern / 0x100), 1, .ofNat value.pattern]
  | printInline operand => 4 :: operand.toList
  | wait => [5]
  | restart => [6]
  | raw bytes => bytes

/-- The number of bytes of a statement. -/
def width : Statement → Nat
  | greet | add | printFloat | wait | restart => 1
  | set _ => 2
  | pushFloat _ => 8
  | printInline _ => 5
  | raw bytes => bytes.length

theorem encode_eq_wire (s : Statement) : s.encode = s.wire := by
  cases s with
  | printInline operand => exact List.flatMap_singleton _ _
  | _ => rfl

theorem length_wire (s : Statement) : s.wire.length = s.width := by
  cases s with
  | printInline operand => simp [wire, width]
  | _ => rfl

/-- The instructions that statements stand for, in their order. -/
def written (ss : List Statement) : List Instruction := ss.flatMap fun s => s.instructions?.getD []

theorem encode_of_isRaw {s : Statement} (h : s.isRaw = false) :
    s.encode = (s.instructions?.getD []).flatMap Instruction.encode := by
  cases s with
  | raw bytes => cases h
  | _ => rfl

theorem flatMap_encode {ss : List Statement} (h : ∀ s ∈ ss, s.isRaw = false) :
    ss.flatMap encode = (written ss).flatMap Instruction.encode := by
  unfold written
  rw [List.flatMap_assoc]
  exact List.flatMap_congr fun s hs => encode_of_isRaw (h s hs)

end Statement

open Statement

namespace Assembler

theorem size_foldl_emit (ss : List Statement) :
    (ss.foldl emit empty).size = (ss.map Statement.width).sum := by
  have hbytes : (ss.foldl emit empty).bytes.toList = ss.flatMap Statement.encode :=
    toList_assemble ss
  rw [size, ← Array.length_toList, hbytes, List.length_flatMap]
  congr 1
  exact List.map_congr_left fun s _ => by rw [encode_eq_wire, length_wire]

end Assembler

/-! ## The listing -/

/-- Instructions in a row, with no unknown byte and no missing operand. -/
def Listing.ofInstructions (is : List Instruction) : Listing := ⟨is.map .instruction, none⟩

theorem Listing.encode_ofInstructions (is : List Instruction) :
    (ofInstructions is).encode = is.flatMap Instruction.encode := by
  unfold ofInstructions encode
  rw [List.flatMap_map]
  exact List.append_nil _

theorem Listing.ofInstructions_inj {is js : List Instruction} :
    ofInstructions is = ofInstructions js ↔ is = js := by
  constructor
  · intro h
    have hitems : is.map Item.instruction = js.map Item.instruction := congrArg Listing.items h
    exact List.map_injective_iff.2 (fun _ _ => Item.instruction.inj) hitems
  · rintro rfl
    rfl

namespace Assembler

variable {ss ts : List Statement}

theorem listing_assemble (h : ∀ s ∈ ss, s.isRaw = false) :
    (assemble ss).listing = .ofInstructions (written ss) := by
  refine (Listing.encode_eq_iff.1 ?_).symm
  rw [Listing.encode_ofInstructions, toList_assemble, flatMap_encode h]

theorem assemble_eq_iff (hs : ∀ s ∈ ss, s.isRaw = false) (ht : ∀ t ∈ ts, t.isRaw = false) :
    assemble ss = assemble ts ↔ written ss = written ts := by
  constructor
  · intro h
    rw [← Listing.ofInstructions_inj, ← listing_assemble hs, ← listing_assemble ht, h]
  · intro h
    have hbytes : (assemble ss).toList = (assemble ts).toList := by
      rw [toList_assemble, toList_assemble, flatMap_encode hs, flatMap_encode ht, h]
    rw [← Program.ofList_toList (assemble ss), hbytes, Program.ofList_toList]

end Assembler

/-! ## Walking the instructions -/

/-- Faults that come from the bytes of a program alone, and not from the stack. -/
def Fault.ofBytes : Fault → Bool
  | outOfRange _ _ _ | unknownOpcode _ _ => true
  | stackOverflow _ | stackUnderflow _ _ | faulted => false

namespace Walker

/-- A walker before the first item of a listing. -/
def start (l : Listing) (policy : UnknownPolicy) : Walker := ⟨l, 0, [], none, false, policy⟩

/-- Obeys a command. -/
def perform (w : Walker) : Command → Walker
  | .load p => start p.listing w.policy
  | .configure policy => { w with policy }
  | .tick now => (w.tick now).walker

/-- The walker after commands given one after the other. -/
def obey (w : Walker) (cs : List Command) : Walker := cs.foldl perform w

/-- The walker has these instructions alone to walk, and is where the machine is. -/
structure Accompanies (w : Walker) (is : List Instruction) (m : Machine) : Prop where
  follows : w.Follows m
  index_le : w.index ≤ w.listing.items.length
  listing : w.listing = .ofInstructions is

variable {w : Walker} {m : Machine} {now : Binary64} {fault : Fault} {is : List Instruction}
  {c : Command} {cs : List Command}

/-- Instructions fail for want of room or of bytes on the stack. -/
theorem ofBytes_of_walk (hl : w.listing = .ofInstructions is)
    (hr : (w.walk now).result = .error fault) : fault.ofBytes = false := by
  fun_induction w.walk now with
  | case1 | case7 => cases hr
  | case2 w i hi xs e heff hs ih => exact ih hl hr
  | case3 w i hi fault' heff =>
    cases hr
    rcases Instruction.effect_eq_error_iff.1 heff with ⟨v, _, _, rfl⟩ | ⟨_, rfl⟩
    · rfl
    · rfl
  | case4 w b ho hi hp ih => exact ih hl hr
  | case5 w b ho hi hp =>
    rw [hl] at hi
    simp [Listing.ofInstructions] at hi
  | case6 w hi s hs =>
    rw [hl] at hs
    cases hs

theorem ofBytes_of_tick (hl : w.listing = .ofInstructions is)
    (hr : (w.tick now).result = .error fault) : fault.ofBytes = false := by
  unfold tick at hr
  split at hr
  · cases hr
    rfl
  · split at hr
    · cases hr
    · dsimp only at hr
      split at hr
      · next e herr =>
        cases hr
        exact ofBytes_of_walk (w := { w with wake := none }) hl herr
      · cases hr

/-- Walker and machine answer a tick alike, faulted or not. -/
theorem Accompanies.tick_matches (h : w.Accompanies is m) (now : Binary64) :
    (w.tick now).Matches (m.tick now) := by
  cases hf : m.faulted with
  | true =>
    have hwf : w.faulted = true := h.follows.faulted.trans hf
    rw [tick, if_pos hwf, Machine.tick_of_faulted hf]
    exact ⟨h.follows, rfl, rfl, .inl h.index_le⟩
  | false => exact Walker.tick_matches h.follows h.index_le hf now

/-- What a command other than a load preserves: the walker goes with the machine. -/
theorem Accompanies.perform (h : w.Accompanies is m) (hc : c.isLoad = false) :
    (w.perform c).Accompanies is (m.perform c).machine := by
  cases c with
  | load p => cases hc
  | configure policy =>
    obtain ⟨⟨hl, hip, hs, hw, hf, _⟩, hk, hlist⟩ := h
    exact ⟨⟨hl, hip, hs, hw, hf, rfl⟩, hk, hlist⟩
  | tick now =>
    obtain ⟨hfollows, _, _, hle⟩ := h.tick_matches now
    refine ⟨hfollows, ?_, ?_⟩
    · refine hle.resolve_right fun ⟨pos, needed, size, hr⟩ => ?_
      cases ofBytes_of_tick h.listing hr
    · show (w.tick now).walker.listing = _
      rw [hfollows.listing, (m.tick_frame now).1, ← h.follows.listing, h.listing]

theorem Accompanies.obey (h : w.Accompanies is m) (hcs : ∀ c ∈ cs, c.isLoad = false) :
    (w.obey cs).Accompanies is (m.obey cs) := by
  induction cs generalizing w m with
  | nil => exact h
  | cons c cs ih =>
    obtain ⟨hc, hcs⟩ := List.forall_mem_cons.1 hcs
    exact ih (h.perform hc) hcs

end Walker

namespace Assembler

variable {ss : List Statement} {cs : List Command}

/-- From the load of an assembled program on, the walker of what was written goes with the machine. -/
theorem accompanies_obey (hs : ∀ s ∈ ss, s.isRaw = false) (m : Machine)
    (hcs : ∀ c ∈ cs, c.isLoad = false) :
    ((Walker.start (.ofInstructions (written ss)) m.policy).obey cs).Accompanies (written ss)
      ((m.load (assemble ss)).obey cs) := by
  have hload : (Walker.start (.ofInstructions (written ss)) m.policy).Accompanies (written ss)
      (m.load (assemble ss)) :=
    ⟨⟨(listing_assemble hs).symm, (Listing.position_zero _).symm, rfl, rfl, rfl, rfl⟩,
      Nat.zero_le _, rfl⟩
  exact hload.obey hcs

/-- **Assembly.** A program is the bytes of its statements in their order, and so long at each point of
its construction. Without raw bytes it is listed as the instructions that were written, which it
determines; and from a load on, whatever the policy, each tick does what the walker of these
instructions does, and neither lacks an operand nor meets an unknown byte. -/
theorem assemble_matches (ss : List Statement) :
    ((assemble ss).toList = ss.flatMap Statement.wire ∧
      ∀ k, ((ss.take k).foldl emit empty).size = ((ss.take k).map Statement.width).sum) ∧
    ((∀ s ∈ ss, s.isRaw = false) →
      (assemble ss).listing = .ofInstructions (written ss) ∧
      (∀ ts : List Statement, (∀ t ∈ ts, t.isRaw = false) →
        (assemble ss = assemble ts ↔ written ss = written ts)) ∧
      ∀ (m : Machine) (cs : List Command), (∀ c ∈ cs, c.isLoad = false) → ∀ now,
        let w := (Walker.start (.ofInstructions (written ss)) m.policy).obey cs
        let n := (m.load (assemble ss)).obey cs
        (w.tick now).Matches (n.tick now) ∧
          (∀ pos needed size, (n.tick now).result ≠ .error (.outOfRange pos needed size)) ∧
            ∀ ip byte, (n.tick now).result ≠ .error (.unknownOpcode ip byte)) := by
  refine ⟨⟨?_, fun k => size_foldl_emit (ss.take k)⟩, fun hs => ⟨listing_assemble hs, ?_, ?_⟩⟩
  · rw [toList_assemble]
    exact List.flatMap_congr fun s _ => encode_eq_wire s
  · intro ts ht
    exact assemble_eq_iff hs ht
  · intro m cs hcs now w n
    have hacc : w.Accompanies (written ss) n := accompanies_obey hs m hcs
    have hmatch := hacc.tick_matches now
    have hbytes (fault : Fault) (hr : (n.tick now).result = .error fault) :
        fault.ofBytes = false :=
      Walker.ofBytes_of_tick hacc.listing (hmatch.result.trans hr)
    refine ⟨hmatch, ?_, ?_⟩
    · intro pos needed size hr
      cases hbytes _ hr
    · intro ip byte hr
      cases hbytes _ hr

end Assembler

end TickMachine
