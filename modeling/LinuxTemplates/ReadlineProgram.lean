import LinuxTemplates.DelimitedStreams
import Mathlib.Data.Int.Notation

/-!
# `Readline`

`Readline` reads one byte at a time up to a newline, an end of file or a failure and
keeps at most `n - 1` bytes. A turn of its loop is one outcome of `read`; a descriptor
yields its pending outcomes and then the same last one for ever.
-/

namespace LinuxTemplates.ReadlineProgram
open DelimitedStreams

def EINTR : ℤ := 4

def newline : UInt8 := 10

/-- What a one-byte `read` returns. -/
inductive ReadOutcome | data (ch : UInt8) | fail (errno : ℤ) | eof
  deriving DecidableEq, Repr

/-- Memory from the address `buffer` on; `stores` logs the cells that were written. -/
structure Buffer where
  cells : ℕ → UInt8
  stores : List ℕ

def Buffer.store (b : Buffer) (i : ℕ) (ch : UInt8) : Buffer :=
  ⟨Function.update b.cells i ch, b.stores ++ [i]⟩

/-- The parameters and locals of a call; `buf` is the offset of the pointer. -/
structure Locals where
  n : UInt64
  buffer : Buffer
  buf : ℕ
  totalRead : UInt64

/-- The value returned and the buffer left behind. -/
structure Returned where
  ret : ℤ
  buffer : Buffer

inductive Turn | again (l : Locals) | done (r : Returned)

def Locals.enter (n : UInt64) (b : Buffer) : Locals := ⟨n, b, 0, 0⟩

def Locals.accept (l : Locals) (ch : UInt8) : Locals :=
  if l.totalRead < l.n - 1 then
    { l with totalRead := l.totalRead + 1, buffer := l.buffer.store l.buf ch, buf := l.buf + 1 }
  else l

/-- The exit by `break`; the `size_t` total is returned as a `ssize_t`. -/
def Locals.finish (l : Locals) : Returned :=
  ⟨l.totalRead.toInt64.toInt, l.buffer.store l.buf 0⟩

/-- One turn of the loop. -/
def Locals.turn (l : Locals) : ReadOutcome → Turn
  | .fail errno => if EINTR = errno then .again l else .done ⟨-1, l.buffer⟩
  | .eof => if 0 = l.totalRead then .done ⟨0, l.buffer⟩ else .done l.finish
  | .data ch => if newline = ch then .done (l.accept ch).finish else .again (l.accept ch)

structure Descriptor where
  pending : List ReadOutcome
  last : ReadOutcome

/-- The loop over the outcomes still to come; `none` when it never ends. -/
def readLoop (l : Locals) (last : ReadOutcome) : List ReadOutcome →
    Option (Returned × List ReadOutcome)
  | [] => match l.turn last with
    | .done r => some (r, [])
    | .again _ => none
  | o :: os => match l.turn o with
    | .done r => some (r, os)
    | .again l' => readLoop l' last os

structure Call where
  ret : ℤ
  buffer : Option Buffer
  fd : Descriptor

def readline (fd : Descriptor) (buffer : Option Buffer) (n : UInt64) : Option Call :=
  match buffer with
  | none => some ⟨-1, none, fd⟩
  | some b => if n < 0 then some ⟨-1, buffer, fd⟩
    else (readLoop (.enter n b) fd.last fd.pending).map
      fun (r, rest) => ⟨r.ret, some r.buffer, ⟨rest, fd.last⟩⟩

/-! ## One turn -/

/-- The outcome ends the call. -/
def ReadOutcome.ends : ReadOutcome → Bool
  | .data ch => ch == newline
  | .fail errno => errno != EINTR
  | .eof => true

def ReadOutcome.byte : ReadOutcome → Option UInt8
  | .data ch => some ch
  | _ => none

def bytes (os : List ReadOutcome) : List UInt8 := os.filterMap ReadOutcome.byte

@[simp] theorem bytes_nil : bytes [] = [] := rfl

@[simp] theorem bytes_append (os os' : List ReadOutcome) :
    bytes (os ++ os') = bytes os ++ bytes os' := List.filterMap_append

/-- What a call returns on the outcome that ends it. -/
def Locals.conclude (l : Locals) : ReadOutcome → Returned
  | .data ch => (l.accept ch).finish
  | .fail _ => ⟨-1, l.buffer⟩
  | .eof => if 0 = l.totalRead then ⟨0, l.buffer⟩ else l.finish

theorem turn_of_ends {l : Locals} {o : ReadOutcome} (h : o.ends = true) :
    l.turn o = .done (l.conclude o) := by
  cases o with
  | data ch =>
    obtain rfl : ch = newline := by simpa [ReadOutcome.ends] using h
    simp [Locals.turn, Locals.conclude]
  | fail errno =>
    have hne : errno ≠ EINTR := by simpa [ReadOutcome.ends] using h
    simp [Locals.turn, Locals.conclude, hne.symm]
  | eof => by_cases hz : 0 = l.totalRead <;> simp [Locals.turn, Locals.conclude, hz]

/-- The first bytes of the buffer replaced by those of a list, stored in order. -/
def Buffer.fill (b : Buffer) (bs : List UInt8) : Buffer :=
  ⟨fun i => bs[i]?.getD (b.cells i), b.stores ++ List.range bs.length⟩

@[simp] theorem fill_nil (b : Buffer) : b.fill [] = b := by
  simp [Buffer.fill]

theorem store_fill (b : Buffer) (bs : List UInt8) (ch : UInt8) :
    (b.fill bs).store bs.length ch = b.fill (bs ++ [ch]) := by
  simp only [Buffer.store, Buffer.fill, Buffer.mk.injEq]
  constructor
  · funext i
    rcases Nat.lt_trichotomy i bs.length with hlt | rfl | hgt
    · simp [Function.update_of_ne (Nat.ne_of_lt hlt), List.getElem?_append_left hlt]
    · simp
    · have h1 : bs.length ≤ i := Nat.le_of_lt hgt
      have h2 : (bs ++ [ch]).length ≤ i := by simpa using Nat.succ_le_of_lt hgt
      simp [Function.update_of_ne (Nat.ne_of_gt hgt), List.getElem?_eq_none h1, List.getElem?_eq_none h2]
  · simp [List.range_succ]

/-- The locals after `bs` has been read, of which at most `n - 1` bytes are kept. -/
def Locals.after (n : UInt64) (b : Buffer) (bs : List UInt8) : Locals :=
  ⟨n, b.fill (bs.take (n - 1).toNat), (bs.take (n - 1).toNat).length,
    UInt64.ofNat (bs.take (n - 1).toNat).length⟩

theorem after_nil (n : UInt64) (b : Buffer) : Locals.after n b [] = .enter n b := by
  simp [Locals.after, Locals.enter]

theorem toNat_totalRead (n : UInt64) (b : Buffer) (bs : List UInt8) :
    (Locals.after n b bs).totalRead.toNat = min (n - 1).toNat bs.length := by
  have hlt := (n - 1).toNat_lt
  simp only [Locals.after, UInt64.toNat_ofNat', List.length_take]
  exact Nat.mod_eq_of_lt (by omega)

theorem room_after (n : UInt64) (b : Buffer) (bs : List UInt8) :
    (Locals.after n b bs).totalRead < (Locals.after n b bs).n - 1 ↔
      bs.length < (n - 1).toNat := by
  rw [UInt64.lt_iff_toNat_lt, toNat_totalRead]
  change min (n - 1).toNat bs.length < (n - 1).toNat ↔ _
  omega

theorem accept_after (n : UInt64) (b : Buffer) (bs : List UInt8) (ch : UInt8) :
    (Locals.after n b bs).accept ch = .after n b (bs ++ [ch]) := by
  by_cases hroom : bs.length < (n - 1).toNat
  · have h1 : bs.take (n - 1).toNat = bs := List.take_of_length_le (Nat.le_of_lt hroom)
    have h2 : (bs ++ [ch]).take (n - 1).toNat = bs ++ [ch] :=
      List.take_of_length_le (by simpa using Nat.succ_le_of_lt hroom)
    rw [Locals.accept, if_pos ((room_after n b bs).mpr hroom)]
    simp only [Locals.after, h1, h2, store_fill, List.length_append, List.length_singleton,
      UInt64.ofNat_add, UInt64.ofNat_one]
  · have h1 : (bs ++ [ch]).take (n - 1).toNat = bs.take (n - 1).toNat :=
      List.take_append_of_le_length (by omega)
    rw [Locals.accept, if_neg (fun h => hroom ((room_after n b bs).mp h))]
    simp only [Locals.after, h1]

theorem turn_of_not_ends {n : UInt64} {b : Buffer} {bs : List UInt8} {o : ReadOutcome}
    (h : o.ends = false) :
    (Locals.after n b bs).turn o = .again (.after n b (bs ++ bytes [o])) := by
  cases o with
  | data ch =>
    have hne : ch ≠ newline := by simpa [ReadOutcome.ends] using h
    simp [Locals.turn, hne.symm, accept_after, bytes, ReadOutcome.byte]
  | fail errno =>
    obtain rfl : errno = EINTR := by simpa [ReadOutcome.ends] using h
    have hnil : bytes [.fail EINTR] = [] := rfl
    simp [Locals.turn, hnil]
  | eof => simp [ReadOutcome.ends] at h

/-! ## The loop -/

theorem readLoop_append {n : UInt64} {b : Buffer} {bs : List UInt8} {last : ReadOutcome}
    {os rest : List ReadOutcome} (h : ∀ o ∈ os, o.ends = false) :
    readLoop (.after n b bs) last (os ++ rest) =
      readLoop (.after n b (bs ++ bytes os)) last rest := by
  induction os generalizing bs with
  | nil => simp
  | cons o os ih =>
    have ho := h o List.mem_cons_self
    rw [List.cons_append, readLoop, turn_of_not_ends ho]
    simp only
    rw [ih (fun x hx => h x (List.mem_cons_of_mem o hx)), List.append_assoc, ← bytes_append]
    rfl

/-- The call ends at the first outcome that can end it and leaves the rest. -/
theorem readLoop_of_ends {n : UInt64} {b : Buffer} {bs : List UInt8} {last o : ReadOutcome}
    {os rest : List ReadOutcome} (h : ∀ o ∈ os, o.ends = false) (ho : o.ends = true) :
    readLoop (.after n b bs) last (os ++ o :: rest) =
      some ((Locals.after n b (bs ++ bytes os)).conclude o, rest) := by
  rw [readLoop_append h, readLoop, turn_of_ends ho]

theorem readLoop_of_last {n : UInt64} {b : Buffer} {bs : List UInt8} {last : ReadOutcome}
    {os : List ReadOutcome} (h : ∀ o ∈ os, o.ends = false) (hlast : last.ends = true) :
    readLoop (.after n b bs) last os =
      some ((Locals.after n b (bs ++ bytes os)).conclude last, []) := by
  have happ : readLoop (.after n b bs) last (os ++ []) =
      readLoop (.after n b (bs ++ bytes os)) last [] := readLoop_append h
  rw [List.append_nil] at happ
  rw [happ, readLoop, turn_of_ends hlast]

/-! ## Calls that meet no failure -/

/-- What a call returns after it has read `bs` and met a newline or an end of file. -/
def delivery (n : UInt64) (b : Buffer) (bs : List UInt8) : Returned :=
  if bs = [] then ⟨0, b⟩ else (Locals.after n b bs).finish

theorem conclude_newline (n : UInt64) (b : Buffer) (bs : List UInt8) :
    (Locals.after n b bs).conclude (.data newline) = delivery n b (bs ++ [newline]) := by
  simp [Locals.conclude, accept_after, delivery]

theorem toNat_pred {n : UInt64} (hn : 2 ≤ n) : (n - 1).toNat = n.toNat - 1 :=
  UInt64.toNat_sub_of_le n 1 (UInt64.le_trans (by decide) hn)

/-- With room for a byte, nothing kept means nothing read. -/
theorem conclude_eof {n : UInt64} (hn : 2 ≤ n) (b : Buffer) (bs : List UInt8) :
    (Locals.after n b bs).conclude .eof = delivery n b bs := by
  have ht := toNat_totalRead n b bs
  have h2 : 2 ≤ n.toNat := UInt64.le_iff_toNat_le.mp hn
  have hz : 0 = (Locals.after n b bs).totalRead ↔ bs = [] := by
    rw [← UInt64.toNat_inj, ht, ← List.length_eq_zero_iff, toNat_pred hn]
    simp only [UInt64.toNat_zero]
    omega
  by_cases hbs : bs = []
  · subst hbs
    simp [Locals.conclude, delivery, Locals.after]
  · simp [Locals.conclude, delivery, hz, hbs]

end LinuxTemplates.ReadlineProgram
