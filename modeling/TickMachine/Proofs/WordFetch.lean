import TickMachine.Proofs.Decode

/-!
# Fetching at positions kept in words

A position is a number, and numbers have no end. A position in a word can be so high that the sum of
it and the width of an operand wraps. `fetchNAt?` adds with a check, asks for the range of bytes up to
the sum, and takes what it gets if that is as much as it wants.

As long as words are wide enough to count the bytes of a program, this is the fetch of the numbers
(`fetchNAt?_eq`). `fetch_never_wraps` states it with what follows: when a fetch succeeds, what single
fetches give, and how a fetch splits in two.
-/

namespace TickMachine

-- Powers of natural numbers are the ones of core, whatever other powers are in scope.
attribute [local instance (high)] instPowNat

variable {bits : Nat}

/-- The sum of two words, unless it needs more bits than they have. -/
def checkedSum? (a b : BitVec bits) : Option (BitVec bits) :=
  if BitVec.uaddOverflow a b then none else some (a + b)

theorem checkedSum?_eq_some_iff {a b c : BitVec bits} :
    checkedSum? a b = some c ↔ c.toNat = a.toNat + b.toNat := by
  unfold checkedSum? BitVec.uaddOverflow
  by_cases h : a.toNat + b.toNat < 2 ^ bits
  · rw [if_neg (by simpa using h), Option.some.injEq, ← BitVec.toNat_inj, BitVec.toNat_add_of_lt h,
      eq_comm]
  · have hc := c.isLt
    simp only [ge_iff_le, Nat.le_of_not_lt h, decide_true, ↓reduceIte, reduceCtorEq, false_iff]
    omega

theorem checkedSum?_eq_none_iff {a b : BitVec bits} :
    checkedSum? a b = none ↔ 2 ^ bits ≤ a.toNat + b.toNat := by
  simp [checkedSum?, BitVec.uaddOverflow]

theorem toNat_ofNat_of_lt {k : Nat} (hk : k < 2 ^ bits) : (BitVec.ofNat bits k).toNat = k := by
  rw [BitVec.toNat_ofNat, Nat.mod_eq_of_lt hk]

theorem exists_checkedSum?_eq {pos : BitVec bits} {k : Nat} (h : pos.toNat + k < 2 ^ bits) :
    ∃ next, checkedSum? pos (.ofNat bits k) = some next ∧ next.toNat = pos.toNat + k := by
  have hk : (BitVec.ofNat bits k).toNat = k := toNat_ofNat_of_lt (by omega)
  refine ⟨pos + .ofNat bits k, ?_, ?_⟩
  · rw [checkedSum?_eq_some_iff, BitVec.toNat_add_of_lt (by omega)]
  · rw [BitVec.toNat_add_of_lt (by omega), hk]

namespace Program

/-- The bytes from `start` up to `stop`, if the program has this range. -/
def range? (p : Program) (start stop : BitVec bits) : Option (Array UInt8) :=
  if start ≤ stop ∧ stop.toNat ≤ p.size then some (p.bytes.extract start.toNat stop.toNat) else none

/-- The `n` bytes from a position in a word on, if there are so many. -/
def fetchNAt? (p : Program) (n : Nat) (pos : BitVec bits) : Option (Vector UInt8 n) := do
  let stop ← checkedSum? pos (.ofNat bits n)
  let bytes ← p.range? pos stop
  if h : bytes.size = n then some ⟨bytes, h⟩ else none

/-- The byte so many positions ahead, if a word holds that position and a byte stands there. -/
def fetchAhead? (p : Program) (pos : BitVec bits) (k : Nat) : Option UInt8 := do
  let ahead ← checkedSum? pos (.ofNat bits k)
  p.fetch? ahead.toNat

variable {p : Program} {n k : Nat} {pos : BitVec bits}

/-! ## Fetching at numbers -/

theorem add_le_size_of_fetchN? {pos : Nat} {v : Vector UInt8 n} (h : p.fetchN? n pos = some v) :
    pos + n ≤ p.size := by
  rw [← isSome_fetchN?, h]
  rfl

/-- Bytes are read together or in two parts, the second from where the first ends. -/
theorem fetchN?_add (p : Program) (m n pos : Nat) :
    p.fetchN? (m + n) pos = do
      let front ← p.fetchN? m pos
      let back ← p.fetchN? n (pos + m)
      return front ++ back := by
  by_cases h : pos + (m + n) ≤ p.size
  · obtain ⟨whole, hwhole⟩ := Option.isSome_iff_exists.1 ((isSome_fetchN? p (m + n) pos).2 h)
    obtain ⟨front, hfront⟩ := Option.isSome_iff_exists.1 ((isSome_fetchN? p m pos).2 (by omega))
    obtain ⟨back, hback⟩ :=
      Option.isSome_iff_exists.1 ((isSome_fetchN? p n (pos + m)).2 (by omega))
    have hbytes : whole = front ++ back := by
      apply Vector.ext
      intro k hk
      have hget := fetch?_of_fetchN? hwhole k hk
      rw [Vector.getElem_append]
      split
      · next hlt =>
        rw [fetch?_of_fetchN? hfront k hlt] at hget
        exact (Option.some.inj hget).symm
      · next hge =>
        have hsplit : pos + m + (k - m) = pos + k := by omega
        have hget' := fetch?_of_fetchN? hback (k - m) (by omega)
        rw [hsplit, hget] at hget'
        exact Option.some.inj hget'
    rw [hwhole, hfront, hback, hbytes]
    rfl
  · have hwhole : p.fetchN? (m + n) pos = none := fetchN?_eq_none_iff.2 (by omega)
    have hback : p.fetchN? n (pos + m) = none := fetchN?_eq_none_iff.2 (by omega)
    rw [hwhole, hback]
    cases p.fetchN? m pos <;> rfl

/-! ## Fetching at words -/

/-- A byte that is too far ahead for a word is behind the end of the program as well. -/
theorem fetchAhead?_eq (hp : p.size < 2 ^ bits) (hk : k < 2 ^ bits) :
    p.fetchAhead? pos k = p.fetch? (pos.toNat + k) := by
  have hword : (BitVec.ofNat bits k).toNat = k := toNat_ofNat_of_lt hk
  unfold fetchAhead?
  cases hsum : checkedSum? pos (.ofNat bits k) with
  | some ahead =>
    rw [checkedSum?_eq_some_iff, hword] at hsum
    rw [← hsum]
    rfl
  | none =>
    rw [checkedSum?_eq_none_iff, hword] at hsum
    exact (fetch?_eq_none_iff.2 (by omega)).symm

/-- What is read in words is what the numbers give, however long the program is. -/
theorem fetchN?_of_fetchNAt? {v : Vector UInt8 n} (h : p.fetchNAt? n pos = some v) :
    p.fetchN? n pos.toNat = some v := by
  unfold fetchNAt? at h
  obtain ⟨stop, -, h⟩ := Option.bind_eq_some_iff.1 h
  obtain ⟨bytes, hrange, h⟩ := Option.bind_eq_some_iff.1 h
  unfold range? at hrange
  split at hrange
  · next hin =>
    cases hrange
    split at h
    · next hsize =>
      cases h
      rw [Array.size_extract] at hsize
      have hle : pos.toNat ≤ stop.toNat := hin.1
      have hstop : stop.toNat ≤ p.bytes.size := hin.2
      unfold fetchN?
      rw [dif_pos (by omega), Option.some.injEq]
      apply Vector.ext
      intro k hk
      rw [Vector.getElem_ofFn, Vector.getElem_mk, Array.getElem_extract]
    · cases h
  · cases hrange

/-- Where the bytes are, the words reach them. -/
theorem isSome_fetchNAt?_of_le (hp : p.size < 2 ^ bits) (h : pos.toNat + n ≤ p.size) :
    (p.fetchNAt? n pos).isSome := by
  obtain ⟨stop, hsum, hstop⟩ := exists_checkedSum?_eq (Nat.lt_of_le_of_lt h hp)
  have hrange : p.range? pos stop = some (p.bytes.extract pos.toNat stop.toNat) := by
    unfold range?
    rw [if_pos ⟨by rw [BitVec.le_def, hstop]; omega, by rwa [hstop]⟩]
  have hsize : (p.bytes.extract pos.toNat stop.toNat).size = n := by
    have hle : pos.toNat + n ≤ p.bytes.size := h
    rw [Array.size_extract]
    omega
  unfold fetchNAt?
  simp only [hsum, hrange, Option.bind_eq_bind, Option.bind_some, dif_pos hsize, Option.isSome_some]

/-- A fetch at a word is the fetch at its number. -/
theorem fetchNAt?_eq (hp : p.size < 2 ^ bits) (n : Nat) (pos : BitVec bits) :
    p.fetchNAt? n pos = p.fetchN? n pos.toNat := by
  cases hf : p.fetchNAt? n pos with
  | some v => exact (fetchN?_of_fetchNAt? hf).symm
  | none =>
    symm
    rw [fetchN?_eq_none_iff]
    apply Nat.lt_of_not_le
    intro hle
    have hsome := isSome_fetchNAt?_of_le hp hle
    rw [hf] at hsome
    cases hsome

/-- The bytes that are fetched together are those of single fetches. -/
theorem fetchAhead?_of_fetchNAt? (hp : p.size < 2 ^ bits) {v : Vector UInt8 n}
    (h : p.fetchNAt? n pos = some v) (hk : k < n) : p.fetchAhead? pos k = some v[k] := by
  rw [fetchNAt?_eq hp] at h
  have hle := add_le_size_of_fetchN? h
  rw [fetchAhead?_eq hp (by omega)]
  exact fetch?_of_fetchN? h k hk

/-- Several bytes are missing exactly if one of them is. -/
theorem fetchNAt?_eq_none_iff (hp : p.size < 2 ^ bits) (hn : 0 < n) :
    p.fetchNAt? n pos = none ↔ ∃ k < n, p.fetchAhead? pos k = none := by
  constructor
  · intro h
    rw [fetchNAt?_eq hp, fetchN?_eq_none_iff] at h
    -- The first byte that is missing is the one behind the program, or the first one of all.
    refine ⟨p.size - pos.toNat, by omega, ?_⟩
    rw [fetchAhead?_eq hp (by omega), fetch?_eq_none_iff]
    omega
  · rintro ⟨k, hk, hnone⟩
    cases hf : p.fetchNAt? n pos with
    | none => rfl
    | some v =>
      rw [fetchAhead?_of_fetchNAt? hp hf hk] at hnone
      cases hnone

/-- If the front is there, then so is the word for where the back begins. -/
theorem fetchNAt?_add (hp : p.size < 2 ^ bits) (m n : Nat) (pos : BitVec bits) :
    p.fetchNAt? (m + n) pos = do
      let front ← p.fetchNAt? m pos
      let next ← checkedSum? pos (.ofNat bits m)
      let back ← p.fetchNAt? n next
      return front ++ back := by
  rw [fetchNAt?_eq hp, fetchNAt?_eq hp, fetchN?_add]
  cases hfront : p.fetchN? m pos.toNat with
  | none => rfl
  | some front =>
    have hle := add_le_size_of_fetchN? hfront
    obtain ⟨next, hsum, hnext⟩ := exists_checkedSum?_eq (Nat.lt_of_le_of_lt hle hp)
    simp only [hsum, Option.bind_eq_bind, Option.bind_some, fetchNAt?_eq hp, hnext]

/-- **Fetching never wraps.** Let words be wide enough to count the bytes of the program. Then a fetch
at a word is the fetch at its number, and succeeds exactly if the program reaches as far. Its bytes
are those of single fetches. A fetch of one byte or more fails exactly if one of the single fetches
does, be it for want of a word that high. And a fetch of `m + n` bytes is one of `m` and then one of
`n` from behind these. -/
theorem fetch_never_wraps (p : Program) (hp : p.size < 2 ^ bits) (pos : BitVec bits) :
    (∀ n, p.fetchNAt? n pos = p.fetchN? n pos.toNat) ∧
    (∀ n, (p.fetchNAt? n pos).isSome ↔ pos.toNat + n ≤ p.size) ∧
    (∀ n v, p.fetchNAt? n pos = some v → ∀ k (hk : k < n), p.fetchAhead? pos k = some v[k]) ∧
    (∀ n, 0 < n → (p.fetchNAt? n pos = none ↔ ∃ k < n, p.fetchAhead? pos k = none)) ∧
    ∀ m n, p.fetchNAt? (m + n) pos = do
      let front ← p.fetchNAt? m pos
      let next ← checkedSum? pos (.ofNat bits m)
      let back ← p.fetchNAt? n next
      return front ++ back := by
  refine ⟨fun n => fetchNAt?_eq hp n pos, fun n => ?_, fun n v h k hk => ?_, fun n hn => ?_,
    fun m n => fetchNAt?_add hp m n pos⟩
  · rw [fetchNAt?_eq hp]
    exact isSome_fetchN? p n pos.toNat
  · exact fetchAhead?_of_fetchNAt? hp h hk
  · exact fetchNAt?_eq_none_iff hp hn

/-- Four bytes are there behind the first of five, and none at the last position of a word. -/
theorem fetch_never_wraps_of_five :
    (ofList [1, 2, 3, 4, 5]).size < 2 ^ (64 : Nat) ∧
      ((ofList [1, 2, 3, 4, 5]).fetchNAt? 4 1#64).isSome ∧
        (ofList [1, 2, 3, 4, 5]).fetchNAt? 1 (BitVec.allOnes 64) = none := by
  have hp : (ofList [1, 2, 3, 4, 5]).size < 2 ^ (64 : Nat) := by decide
  refine ⟨hp, ?_, ?_⟩
  · rw [(fetch_never_wraps _ hp 1#64).2.1 4]
    decide
  · rw [(fetch_never_wraps _ hp (BitVec.allOnes 64)).2.2.2.1 1 Nat.one_pos]
    exact ⟨0, Nat.one_pos, by decide⟩

end Program

end TickMachine
