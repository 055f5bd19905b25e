import LinuxTemplates.ReadlineReference

/-!
# What 0 means to the callers of `Readline`

The test for an end of file looks at the number of bytes kept. That number is 0 as well
when bytes were read and none of them fitted.
-/

namespace LinuxTemplates.ReadlineProgram
open DelimitedStreams

def Descriptor.outcomes (fd : Descriptor) : List ReadOutcome := fd.pending ++ [fd.last]

/-- 0 stands for an end of file before any byte, and a count for a terminated string. -/
structure ZeroMeansEof (fd : Descriptor) (c : Call) : Prop where
  zero_iff : c.ret = 0 ↔ .eof ∈ consumed fd.outcomes ∧ bytes (consumed fd.outcomes) = []
  terminated : bytes (consumed fd.outcomes) ≠ [] → 0 ≤ c.ret →
    ∃ b, c.buffer = some b ∧ b.cells c.ret.toNat = 0

section Returning
variable {n : UInt64} {b : Buffer} {fd : Descriptor} {c : Call}

/-- A call that returns has met an outcome that ends it. -/
theorem readline_returns (h : readline fd (some b) n = some c) :
    ∃ pre o rest, fd.outcomes = pre ++ o :: rest ∧ (∀ x ∈ pre, x.ends = false) ∧ o.ends = true ∧
      c.ret = ((Locals.after n b (bytes pre)).conclude o).ret ∧
      c.buffer = some ((Locals.after n b (bytes pre)).conclude o).buffer := by
  obtain ⟨pending, last⟩ := fd
  rcases split_at_delimiter ReadOutcome.ends pending with hall | ⟨pre, o, rest, rfl, hpre, ho⟩
  · have hneg : ¬ n < 0 := UInt64.not_lt_zero
    simp only [readline, hneg, if_false, ← after_nil n b] at h
    cases hlast : last.ends with
    | true =>
      rw [readLoop_of_last hall hlast, List.nil_append] at h
      obtain rfl := Option.some.inj h
      exact ⟨pending, last, [], rfl, hall, hlast, rfl, rfl⟩
    | false =>
      have hnone : readLoop (.after n b []) last (pending ++ []) = none := by
        rw [readLoop_append hall, readLoop, turn_of_not_ends hlast]
      rw [List.append_nil] at hnone
      simp [hnone] at h
  · rw [readline_of_ends last hpre ho] at h
    obtain rfl := Option.some.inj h
    exact ⟨pre, o, rest ++ [last], by simp [Descriptor.outcomes], hpre, ho, rfl, rfl⟩

theorem delivery_terminated_at_ret (hn : 2 ≤ n) {line : List UInt8} (hl : line ≠ [])
    (h : 0 ≤ (delivery n b line).ret) :
    (delivery n b line).buffer.cells (delivery n b line).ret.toNat = 0 := by
  have hlt := min_lt_size line.length n
  have hret : (delivery n b line).ret = ssize (min line.length (n.toNat - 1)) := delivery_ret hn b line
  rcases Nat.lt_or_ge SSIZE_MAX (min line.length (n.toNat - 1)) with hgt | hle
  · rw [hret, ssize_of_gt hgt (by omega)] at h
    omega
  · rw [hret, ssize_of_le hle, Int.toNat_natCast]
    exact delivery_terminated hn b hl

/-- With room for a byte, what the call delivered decides. -/
theorem zero_of_delivery (hn : 2 ≤ n) {line : List UInt8}
    (hline : bytes (consumed fd.outcomes) = line) (heof : line = [] → .eof ∈ consumed fd.outcomes)
    (hret : c.ret = (delivery n b line).ret) (hbuf : c.buffer = some (delivery n b line).buffer) :
    ZeroMeansEof fd c := by
  constructor
  · rw [hline, hret, delivery_eq_zero_iff hn]
    exact (and_iff_right_of_imp heof).symm
  · intro hne h0
    rw [hline] at hne
    rw [hret] at h0 ⊢
    exact ⟨_, hbuf, delivery_terminated_at_ret hn hne h0⟩

/-- In a buffer of one byte nothing is kept. -/
theorem ret_finish_one (b : Buffer) (bs : List UInt8) : (Locals.after 1 b bs).finish.ret = 0 := rfl

theorem ret_conclude_one (b : Buffer) (bs : List UInt8) {o : ReadOutcome} (ho : o.ends = true)
    (hf : ∀ e, o ≠ .fail e) : ((Locals.after 1 b bs).conclude o).ret = 0 := by
  cases o with
  | data ch =>
    simp only [Locals.conclude, accept_after]
    exact ret_finish_one b _
  | eof => rfl
  | fail errno => exact absurd rfl (hf errno)

theorem eq_one_of_not_two_le (hn : 1 ≤ n) (h2 : ¬ 2 ≤ n) : n = 1 := by
  have h1 : 1 ≤ n.toNat := UInt64.le_iff_toNat_le.mp hn
  have hlt : ¬ 2 ≤ n.toNat := fun h => h2 (UInt64.le_iff_toNat_le.mpr h)
  apply UInt64.toNat_inj.mp
  change n.toNat = 1
  omega

/-! ### The three ways in which a call ends -/

section Endings
variable {pre rest : List ReadOutcome} (hpre : ∀ x ∈ pre, x.ends = false)
include hpre

/-- A failure is reported as such, whatever the size. -/
theorem zeroMeansEof_fail {errno : ℤ} (ho : (ReadOutcome.fail errno).ends = true)
    (hos : fd.outcomes = pre ++ .fail errno :: rest)
    (hret : c.ret = ((Locals.after n b (bytes pre)).conclude (.fail errno)).ret) :
    ZeroMeansEof fd c := by
  constructor
  · refine iff_of_false (by simp [hret, Locals.conclude]) ?_
    rintro ⟨hmem, -⟩
    rw [hos, consumed_of_ends hpre ho, List.mem_append, List.mem_singleton] at hmem
    rcases hmem with hmem | hmem
    · cases hpre _ hmem
    · cases hmem
  · intro _ h0
    rw [hret] at h0
    exact absurd h0 (by simp [Locals.conclude])

theorem zeroMeansEof_newline_iff (hn : 1 ≤ n)
    (hos : fd.outcomes = pre ++ .data newline :: rest)
    (hret : c.ret = ((Locals.after n b (bytes pre)).conclude (.data newline)).ret)
    (hbuf : c.buffer = some ((Locals.after n b (bytes pre)).conclude (.data newline)).buffer) :
    ZeroMeansEof fd c ↔ 2 ≤ n := by
  have hbytes : bytes (consumed fd.outcomes) = bytes pre ++ [newline] := by
    rw [hos, consumed_of_ends hpre rfl, bytes_append]
    rfl
  constructor
  · intro hz
    by_contra h2
    obtain rfl := eq_one_of_not_two_le hn h2
    have hnil := (hz.zero_iff.mp (hret.trans (ret_conclude_one b _ rfl (by simp)))).2
    simp [hbytes] at hnil
  · intro h2
    rw [conclude_newline] at hret hbuf
    exact zero_of_delivery h2 hbytes (fun hnil => by simp at hnil) hret hbuf

theorem zeroMeansEof_eof_iff (hn : 1 ≤ n) (hos : fd.outcomes = pre ++ .eof :: rest)
    (hret : c.ret = ((Locals.after n b (bytes pre)).conclude .eof).ret)
    (hbuf : c.buffer = some ((Locals.after n b (bytes pre)).conclude .eof).buffer) :
    ZeroMeansEof fd c ↔ 2 ≤ n ∨ bytes pre = [] := by
  have hcons : consumed fd.outcomes = pre ++ [.eof] := hos ▸ consumed_of_ends hpre rfl rest
  have hbytes : bytes (consumed fd.outcomes) = bytes pre := by
    rw [hcons, bytes_append]
    exact List.append_nil _
  have heof : .eof ∈ consumed fd.outcomes := by simp [hcons]
  constructor
  · intro hz
    by_cases h2 : 2 ≤ n
    · exact .inl h2
    · obtain rfl := eq_one_of_not_two_le hn h2
      have hnil := (hz.zero_iff.mp (hret.trans (ret_conclude_one b _ rfl (by simp)))).2
      exact .inr (hbytes.symm.trans hnil)
  · rintro (h2 | hnil)
    · rw [conclude_eof h2] at hret hbuf
      exact zero_of_delivery h2 hbytes (fun _ => heof) hret hbuf
    · have hzero : c.ret = 0 := by
        rw [hret, hnil]
        simp [Locals.conclude, Locals.after]
      exact ⟨iff_of_true hzero ⟨heof, hbytes.trans hnil⟩, fun hne => absurd (hbytes.trans hnil) hne⟩

end Endings

/-- Both callers read 0 as the end of the connection. That is what it means unless the
buffer has room for the terminator only and a line, or its beginning, has been read. -/
theorem zero_means_eof_iff (hn : 1 ≤ n) (h : readline fd (some b) n = some c) :
    ZeroMeansEof fd c ↔ 2 ≤ n ∨ delivered fd.outcomes = [] ∨
      (newline ∉ delivered fd.outcomes ∧
        ∃ e, fd.outcomes.find? ReadOutcome.closes = some (.fail e)) := by
  obtain ⟨pre, o, rest, hos, hpre, ho, hret, hbuf⟩ := readline_returns h
  have hL : delivered fd.outcomes = bytes pre ++ bytes [o] := by
    rw [hos, delivered_of_ends hpre ho, bytes_append]
  cases o with
  | fail errno =>
    refine iff_of_true (zeroMeansEof_fail hpre ho hos hret) (.inr (.inr ⟨?_, errno, ?_⟩))
    · rw [hL]
      simpa [bytes, ReadOutcome.byte] using newline_notMem_bytes hpre
    · rw [hos]
      exact find?_closes (o := .fail errno) hpre ho rest
  | data ch =>
    obtain rfl : ch = newline := by simpa [ReadOutcome.ends] using ho
    have hmem : newline ∈ delivered fd.outcomes := by
      rw [hL]
      exact List.mem_append_right _ (List.mem_singleton_self _)
    rw [zeroMeansEof_newline_iff hpre hn hos hret hbuf]
    refine ⟨.inl, ?_⟩
    rintro (h2 | hnil | ⟨hno, -⟩)
    · exact h2
    · simp [hnil] at hmem
    · exact absurd hmem hno
  | eof =>
    have hL' : delivered fd.outcomes = bytes pre := hL.trans (List.append_nil _)
    rw [zeroMeansEof_eof_iff hpre hn hos hret hbuf, hL']
    refine ⟨fun hor => hor.imp id .inl, ?_⟩
    rintro (h2 | hnil | ⟨-, e, he⟩)
    · exact .inl h2
    · exact .inr hnil
    · rw [hos, find?_closes hpre rfl] at he
      cases he

end Returning

/-- A byte that does not fit makes an unfinished line look like the end of the file. -/
theorem not_zero_means_eof :
    ∃ c, readline ⟨[.data 97], .eof⟩ (some ⟨fun _ => 7, []⟩) 1 = some c ∧
      ¬ ZeroMeansEof ⟨[.data 97], .eof⟩ c := by
  refine ⟨_, rfl, ?_⟩
  intro hz
  have hnil := (hz.zero_iff.mp rfl).2
  cases hnil

theorem zero_means_eof_iff_two :
    ∃ c, readline ⟨[.data 97], .eof⟩ (some ⟨fun _ => 7, []⟩) 2 = some c ∧
      (ZeroMeansEof ⟨[.data 97], .eof⟩ c ↔ (2 : UInt64) ≤ 2 ∨
        delivered (Descriptor.outcomes ⟨[.data 97], .eof⟩) = [] ∨
        (newline ∉ delivered (Descriptor.outcomes ⟨[.data 97], .eof⟩) ∧ ∃ e,
          (Descriptor.outcomes ⟨[.data 97], .eof⟩).find? ReadOutcome.closes = some (.fail e))) :=
  ⟨_, rfl, zero_means_eof_iff (b := ⟨fun _ => 7, []⟩) (by decide) rfl⟩

end LinuxTemplates.ReadlineProgram
