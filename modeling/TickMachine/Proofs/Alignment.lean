import Mathlib.Data.List.Induction
import TickMachine.Proofs.Walker

/-!
# Alignment

A machine that has not failed stands between two items of its program's listing, whatever commands
led to it, so a walker can take over from it at any time. A machine stands elsewhere only if, since
the last load, an operand was missing (`isBoundary_or_missedOperand`).
-/

namespace TickMachine.Machine

/-- The walker that takes over from the machine, at the item of an index. -/
def walker (m : Machine) (k : Nat) : Walker :=
  ⟨m.program.listing, k, m.stack.toList, m.wake, m.faulted, m.policy⟩

/-- A tick after the last load failed for want of an operand. -/
def MissedOperand (cs : List Command) : Prop :=
  ∃ as now bs, cs = as ++ .tick now :: bs ∧ (∀ c ∈ bs, c.isLoad = false) ∧
    ∃ pos needed size, ((empty.obey as).tick now).result = .error (.outOfRange pos needed size)

variable {m : Machine} {now : Binary64} {k : Nat} {cs : List Command} {c : Command}

theorem follows_walker (h : m.ip = m.program.listing.position k) : (m.walker k).Follows m :=
  ⟨rfl, h, rfl, rfl, rfl, rfl⟩

/-! ## One command -/

theorem isBoundary_load (m : Machine) (p : Program) :
    (m.load p).program.listing.IsBoundary (m.load p).ip :=
  ⟨0, Nat.zero_le _, (Listing.position_zero _).symm⟩

/-- A tick from a boundary ends at a boundary, unless an operand is missing. -/
theorem isBoundary_tick (hf : m.faulted = false) (hb : m.program.listing.IsBoundary m.ip)
    (now : Binary64) :
    (m.tick now).machine.program.listing.IsBoundary (m.tick now).machine.ip ∨
      ∃ pos needed size, (m.tick now).result = .error (.outOfRange pos needed size) := by
  obtain ⟨k, hk, hip⟩ := hb
  obtain ⟨hfol, -, hres, hle⟩ := Walker.tick_matches (follows_walker hip) hk hf now
  rcases hle with hle | ⟨pos, needed, size, h⟩
  · left
    rw [← hfol.listing]
    exact ⟨_, hle, hfol.ip⟩
  · right
    exact ⟨pos, needed, size, hres.symm.trans h⟩

theorem MissedOperand.concat (h : MissedOperand cs) (hc : c.isLoad = false) :
    MissedOperand (cs ++ [c]) := by
  obtain ⟨as, now, bs, rfl, hbs, hr⟩ := h
  refine ⟨as, now, bs ++ [c], by simp, ?_, hr⟩
  intro d hd
  rcases List.mem_append.1 hd with hd | hd
  · exact hbs d hd
  · rwa [List.mem_singleton.1 hd]

/-! ## Commands in a row -/

/-- What the last command preserves: the machine is aligned, or it failed for want of an operand. -/
theorem isBoundary_or_missedOperand (cs : List Command) :
    (empty.obey cs).program.listing.IsBoundary (empty.obey cs).ip ∨
      (empty.obey cs).faulted = true ∧ MissedOperand cs := by
  induction cs using List.reverseRecOn with
  | nil => exact .inl (isBoundary_load empty .empty)
  | append_singleton cs c ih =>
    rw [obey_append]
    generalize hm : empty.obey cs = m at ih
    rw [obey_cons, obey_nil]
    cases c with
    | load p => exact .inl (isBoundary_load m p)
    | configure policy => exact ih.imp id fun ⟨hf, h⟩ => ⟨hf, h.concat rfl⟩
    | tick now =>
      show (m.tick now).machine.program.listing.IsBoundary (m.tick now).machine.ip ∨
        (m.tick now).machine.faulted = true ∧ _
      cases hf : m.faulted with
      | true =>
        rw [tick_of_faulted hf]
        exact ih.imp id fun ⟨_, h⟩ => ⟨hf, h.concat rfl⟩
      | false =>
        have hb : m.program.listing.IsBoundary m.ip :=
          ih.resolve_right fun ⟨h, _⟩ => Bool.false_ne_true (hf.symm.trans h)
        refine (isBoundary_tick hf hb now).imp id fun ⟨pos, needed, size, hr⟩ => ?_
        refine ⟨faulted_tick_iff.2 ⟨_, hr⟩, cs, now, [], rfl, by simp, pos, needed, size, ?_⟩
        rwa [hm]

/-- **Refinement.** Every program has one listing with its bytes. A machine that has not failed
stands at one of the items of its listing or behind the last, and the walker from there answers every
tick as the machine does. A failed machine stands elsewhere only for want of an operand. -/
theorem refines_listing :
    (∀ p : Program, (∀ l : Listing, l.encode = p.toList ↔ l = p.listing) ∧
        ∀ s ∈ p.listing.stump, s.op = .set ∨ s.op = .printInline) ∧
      ∀ cs : List Command,
        let m := empty.obey cs
        let l := m.program.listing
        (m.faulted = false → ∃ k ≤ l.items.length, m.ip = l.position k ∧
          ∀ now, ((m.walker k).tick now).Matches (m.tick now)) ∧
        (m.faulted = true → ¬ l.IsBoundary m.ip → MissedOperand cs) := by
  refine ⟨fun p => ⟨fun l => Listing.encode_eq_iff, fun s _ => s.op_eq⟩, fun cs => ?_⟩
  intro m l
  have hcs : l.IsBoundary m.ip ∨ m.faulted = true ∧ MissedOperand cs :=
    isBoundary_or_missedOperand cs
  refine ⟨fun hf => ?_, fun _ hb => (hcs.resolve_left hb).2⟩
  obtain ⟨k, hk, hip⟩ := hcs.resolve_right fun ⟨h, _⟩ => Bool.false_ne_true (hf.symm.trans h)
  exact ⟨k, hk, hip, Walker.tick_matches (follows_walker hip) hk hf⟩

end TickMachine.Machine
