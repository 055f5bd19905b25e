import LinuxTemplates.ReadlineEndOfFile

/-!
# Where `Readline` stores

The loop keeps a byte while `total_read < n - 1` and stores the terminator without a
test of its own. With `n = 0` the difference wraps around and bounds nothing.
-/

namespace LinuxTemplates.ReadlineProgram
open DelimitedStreams

/-- The loop as far as the outcomes `os` take it. -/
def Locals.turns (l : Locals) : List ReadOutcome → Turn
  | [] => .again l
  | o :: os => match l.turn o with
    | .done r => .done r
    | .again l' => l'.turns os

def Turn.stores : Turn → List ℕ
  | .again l => l.buffer.stores
  | .done r => r.buffer.stores

/-- The cells a call has stored to when its reads have yielded `os`. -/
def storedCells (cells : ℕ → UInt8) (n : UInt64) (os : List ReadOutcome) : List ℕ :=
  if n < 0 then [] else ((Locals.enter n ⟨cells, []⟩).turns os).stores

/-! ## The loop at any point of its run -/

section Turns
variable {n : UInt64} {b : Buffer} {bs : List UInt8} {pre rest : List ReadOutcome}
  {o : ReadOutcome}

theorem turns_append (h : ∀ x ∈ pre, x.ends = false) :
    (Locals.after n b bs).turns (pre ++ rest) = (Locals.after n b (bs ++ bytes pre)).turns rest := by
  induction pre generalizing bs with
  | nil => simp
  | cons x pre ih =>
    have hx := h x List.mem_cons_self
    rw [List.cons_append, Locals.turns, turn_of_not_ends hx]
    simp only
    rw [ih (fun y hy => h y (List.mem_cons_of_mem x hy)), List.append_assoc, ← bytes_append]
    rfl

theorem turns_of_not_ends (h : ∀ x ∈ pre, x.ends = false) :
    (Locals.after n b bs).turns pre = .again (Locals.after n b (bs ++ bytes pre)) := by
  have happ : (Locals.after n b bs).turns (pre ++ []) =
      (Locals.after n b (bs ++ bytes pre)).turns [] := turns_append h
  rwa [List.append_nil] at happ

theorem turns_of_ends (h : ∀ x ∈ pre, x.ends = false) (ho : o.ends = true) :
    (Locals.after n b bs).turns (pre ++ o :: rest) =
      .done ((Locals.after n b (bs ++ bytes pre)).conclude o) := by
  rw [turns_append h, Locals.turns, turn_of_ends ho]

end Turns

section Stores
variable (n : UInt64) (cells : ℕ → UInt8) (bs : List UInt8) (os : List ReadOutcome)

theorem stores_after : (Locals.after n ⟨cells, []⟩ bs).buffer.stores =
    List.range (min (n - 1).toNat bs.length) := by
  simp [Locals.after, Buffer.fill]

theorem stores_finish : (Locals.after n ⟨cells, []⟩ bs).finish.buffer.stores =
    List.range (min (n - 1).toNat bs.length + 1) := by
  rw [List.range_succ, ← stores_after n cells]
  simp [Locals.finish, Buffer.store, Locals.after]

/-- Bytes are stored in order, and nothing is when none is delivered. -/
theorem storedCells_eq : storedCells cells n os = List.range (min (n - 1).toNat (delivered os).length) ∨
    (delivered os ≠ [] ∧
      storedCells cells n os = List.range (min (n - 1).toNat (delivered os).length + 1)) := by
  have hneg : ¬ n < 0 := UInt64.not_lt_zero
  simp only [storedCells, hneg, if_false, ← after_nil n]
  rcases split_at_delimiter ReadOutcome.ends os with hall | ⟨pre, o, rest, rfl, hpre, ho⟩
  · left
    rw [turns_of_not_ends hall, delivered_of_not_ends hall, List.nil_append]
    exact stores_after n cells _
  · rw [turns_of_ends hpre ho, delivered_of_ends hpre ho, List.nil_append, bytes_append]
    cases o with
    | data ch =>
      right
      refine ⟨by simp [bytes, ReadOutcome.byte], ?_⟩
      simp only [Turn.stores, Locals.conclude, accept_after]
      exact stores_finish n cells _
    | fail errno =>
      left
      have hnone : bytes [ReadOutcome.fail errno] = [] := rfl
      rw [hnone, List.append_nil]
      exact stores_after n cells _
    | eof =>
      have hnone : bytes [ReadOutcome.eof] = [] := rfl
      simp only [Turn.stores, Locals.conclude, hnone, List.append_nil]
      split
      · left
        exact stores_after n cells _
      · rename_i hz
        right
        refine ⟨fun hnil => hz ?_, stores_finish n cells _⟩
        simp [hnil, Locals.after]

/-- What a call that returns has stored, it has stored by the end of its outcomes. -/
theorem stores_of_returns {n : UInt64} {cells : ℕ → UInt8} {fd : Descriptor} {c : Call}
    (h : readline fd (some ⟨cells, []⟩) n = some c) :
    ∃ b, c.buffer = some b ∧ b.stores = storedCells cells n fd.outcomes := by
  obtain ⟨pre, o, rest, hos, hpre, ho, -, hbuf⟩ := readline_returns h
  have hneg : ¬ n < 0 := UInt64.not_lt_zero
  refine ⟨_, hbuf, ?_⟩
  rw [storedCells, if_neg hneg, ← after_nil n, hos, turns_of_ends hpre ho]
  rfl

theorem storedCells_lt_iff :
    (∀ i ∈ storedCells cells n os, i < n.toNat) ↔ n ≠ 0 ∨ delivered os = [] := by
  constructor
  · intro h
    by_contra hnot
    rw [not_or, not_not] at hnot
    obtain ⟨rfl, hne⟩ := hnot
    have hlen : 0 < (delivered os).length := List.length_pos_iff.mpr hne
    have hroom : 0 < ((0 : UInt64) - 1).toNat := by decide
    have hmem : 0 ∈ storedCells cells 0 os := by
      rcases storedCells_eq 0 cells os with he | ⟨-, he⟩ <;>
        · rw [he, List.mem_range]
          omega
    exact absurd (h 0 hmem) (Nat.not_lt_zero 0)
  · intro h i hi
    rcases h with hn | hnil
    · have hpos : 1 ≤ n.toNat := Nat.one_le_iff_ne_zero.mpr (fun hz => hn (UInt64.toNat_inj.mp hz))
      have hpred : (n - 1).toNat = n.toNat - 1 :=
        UInt64.toNat_sub_of_le n 1 (UInt64.le_iff_toNat_le.mpr hpos)
      rcases storedCells_eq n cells os with he | ⟨-, he⟩ <;>
        · rw [he, List.mem_range, hpred] at hi
          omega
    · rcases storedCells_eq n cells os with he | ⟨hne, -⟩
      · simp [he, hnil] at hi
      · exact absurd hnil hne

/-- Every store stays below `n` as long as `n` is not 0; with `n = 0` it does so only
while there is no byte to store. The stores meant are those of the buffer that a call leaves
behind when it returns. -/
theorem stays_inside_iff :
    ((∀ i ∈ storedCells cells n os, i < n.toNat) ↔ n ≠ 0 ∨ delivered os = []) ∧
    ∀ fd c, fd.outcomes = os → readline fd (some ⟨cells, []⟩) n = some c →
      ∃ b, c.buffer = some b ∧ b.stores = storedCells cells n os := by
  refine ⟨storedCells_lt_iff n cells os, ?_⟩
  rintro fd c rfl h
  exact stores_of_returns h

end Stores

/-- With `n = 0` one byte and its terminator are stored to cells 0 and 1. -/
theorem not_stays_inside :
    storedCells (fun _ => 7) 0 [.data 97, .eof] = [0, 1] ∧
      ¬ ∀ i ∈ storedCells (fun _ => 7) 0 [.data 97, .eof], i < (0 : UInt64).toNat := by
  have hstored : storedCells (fun _ => 7) 0 [.data 97, .eof] = [0, 1] := rfl
  refine ⟨hstored, fun h => ?_⟩
  exact absurd (h 0 (by simp [hstored])) (by decide)

end LinuxTemplates.ReadlineProgram
