import Mathlib.Data.Int.Notation
import Mathlib.Data.List.DropRight
import Mathlib.Logic.Function.Basic

/-!
# Buffered output of processes that fork

Every process has a buffer in front of one file that all of them share. What is printed goes
out at once, at the end of a line or when the buffer is full; a fork copies the buffer, an
orderly exit writes it out and a sudden one drops it.
-/

namespace LinuxTemplates.StdioStreams

universe u v

/-! ## Conversions of `printf` -/

/-- `%d` -/
def decimal (n : ℤ) : String := toString n

/-- `%x` -/
def hexadecimal (n : ℕ) : String := String.ofList (Nat.toDigits 16 n)

/-- `%04X` -/
def hexadecimal4 (n : ℕ) : String :=
  String.ofList (((Nat.toDigits 16 n).map Char.toUpper).leftpad 4 '0')

/-! ## Streams -/

inductive Buffering | unbuffered | lineBuffered | fullyBuffered
  deriving DecidableEq, Repr

structure Settings (α : Type v) where
  buffering : Buffering
  capacity : ℕ
  newline : α → Bool

/-- `inherited`, `ended` and `exits` record what each buffer held at its fork, which processes
are no more and which of these wrote their buffers out, in order; `log` is what was printed. -/
structure Stdio (P : Type u) (α : Type v) where
  pending : P → List α
  file : List α
  log : List (P × List α)
  inherited : P → List α
  ended : List P
  exits : List P

variable {P : Type u} {α : Type v}

/-- Full blocks leave a buffer that is too small. -/
def overflow (capacity : ℕ) (items : List α) : List α × List α :=
  if items.length ≤ capacity then ([], items)
  else items.splitAt (items.length - items.length % capacity)

/-- What leaves the buffer, and what stays in it. -/
def Settings.emit (c : Settings α) (items : List α) : List α × List α :=
  match c.buffering with
  | .unbuffered => (items, [])
  | .lineBuffered =>
    let rest := overflow c.capacity (items.rtakeWhile (fun a => !c.newline a))
    (items.rdropWhile (fun a => !c.newline a) ++ rest.1, rest.2)
  | .fullyBuffered => overflow c.capacity items

def Stdio.start : Stdio P α := ⟨fun _ => [], [], [], fun _ => [], [], []⟩

section Operations
variable [DecidableEq P]

def Stdio.print (c : Settings α) (io : Stdio P α) (p : P) (text : List α) : Stdio P α :=
  { io with
    pending := Function.update io.pending p (c.emit (io.pending p ++ text)).2
    file := io.file ++ (c.emit (io.pending p ++ text)).1
    log := io.log ++ [(p, text)] }

def Stdio.fork (io : Stdio P α) (p q : P) : Stdio P α :=
  { io with
    pending := Function.update io.pending q (io.pending p)
    inherited := Function.update io.inherited q (io.pending p) }

def Stdio.exit (io : Stdio P α) (p : P) : Stdio P α :=
  { io with
    pending := Function.update io.pending p []
    file := io.file ++ io.pending p
    ended := io.ended ++ [p]
    exits := io.exits ++ [p] }

/-- `_exit`, or death by a signal. -/
def Stdio.abort (io : Stdio P α) (p : P) : Stdio P α :=
  { io with pending := Function.update io.pending p [], ended := io.ended ++ [p] }

variable (c : Settings α) (io : Stdio P α) (p q : P)

@[simp] theorem print_log (text : List α) : (io.print c p text).log = io.log ++ [(p, text)] := rfl
@[simp] theorem print_ended (text : List α) : (io.print c p text).ended = io.ended := rfl
@[simp] theorem print_exits (text : List α) : (io.print c p text).exits = io.exits := rfl
@[simp] theorem fork_pending :
    (io.fork p q).pending = Function.update io.pending q (io.pending p) := rfl
@[simp] theorem fork_inherited :
    (io.fork p q).inherited = Function.update io.inherited q (io.pending p) := rfl
@[simp] theorem exit_pending : (io.exit p).pending = Function.update io.pending p [] := rfl
@[simp] theorem exit_ended : (io.exit p).ended = io.ended ++ [p] := rfl
@[simp] theorem exit_exits : (io.exit p).exits = io.exits ++ [p] := rfl
@[simp] theorem abort_pending : (io.abort p).pending = Function.update io.pending p [] := rfl
@[simp] theorem abort_log : (io.abort p).log = io.log := rfl
@[simp] theorem abort_ended : (io.abort p).ended = io.ended ++ [p] := rfl
@[simp] theorem abort_exits : (io.abort p).exits = io.exits := rfl

end Operations

/-- The text ends a line. -/
def Settings.EndsLine (c : Settings α) (text : List α) : Prop :=
  ∃ body last, text = body ++ [last] ∧ c.newline last = true

theorem Settings.endsLine_of_getLast? {c : Settings α} {text : List α} {a : α}
    (h : text.getLast? = some a) (ha : c.newline a = true) : c.EndsLine text := by
  obtain ⟨body, hbody⟩ := List.getLast?_eq_some_iff.mp h
  exact ⟨body, a, hbody, ha⟩

theorem Settings.EndsLine.prepend {c : Settings Char} {rest : String}
    (h : c.EndsLine rest.toList) (text : String) : c.EndsLine (text ++ rest).toList := by
  obtain ⟨body, last, hrest, hlast⟩ := h
  refine ⟨text.toList ++ body, last, ?_, hlast⟩
  rw [String.toList_append, hrest, List.append_assoc]

/-! ## Buffers that are emptied at the end of a line -/

/-- A stream that is not fully buffered passes whole lines on at once. -/
theorem Settings.emit_line {c : Settings α} (hc : c.buffering ≠ .fullyBuffered) {text : List α}
    (h : c.EndsLine text) : c.emit text = (text, []) := by
  obtain ⟨body, last, rfl, hlast⟩ := h
  rw [Settings.emit]
  cases hb : c.buffering with
  | unbuffered => rfl
  | lineBuffered => simp [overflow, hlast]
  | fullyBuffered => exact absurd hb hc

/-- Everything printed is in the file, in the order in which it was printed. -/
structure Immediate (io : Stdio P α) : Prop where
  pending : ∀ p, io.pending p = []
  file : io.file = (io.log.map Prod.snd).flatten

theorem immediate_start : Immediate (Stdio.start : Stdio P α) := ⟨fun _ => rfl, rfl⟩

section Immediate
variable [DecidableEq P] {c : Settings α} {io : Stdio P α}

theorem Immediate.print (h : Immediate io) (hc : c.buffering ≠ .fullyBuffered) (p : P)
    {text : List α} (ht : c.EndsLine text) : Immediate (io.print c p text) := by
  have hemit : c.emit (io.pending p ++ text) = (text, []) := by
    rw [h.pending p, List.nil_append, Settings.emit_line hc ht]
  refine ⟨fun q => ?_, ?_⟩
  · rw [Stdio.print, hemit]
    rcases eq_or_ne q p with rfl | hne
    · exact Function.update_self q [] io.pending
    · exact (Function.update_of_ne hne [] io.pending).trans (h.pending q)
  · simp [Stdio.print, hemit, h.file]

theorem Immediate.update (h : Immediate io) {p q : P} {items : List α} (hitems : items = []) :
    Function.update io.pending p items q = [] := by
  rcases eq_or_ne q p with rfl | hne
  · rw [Function.update_self, hitems]
  · rw [Function.update_of_ne hne, h.pending q]

theorem Immediate.fork (h : Immediate io) (p q : P) : Immediate (io.fork p q) :=
  ⟨fun _ => h.update (h.pending p), h.file⟩

theorem Immediate.exit (h : Immediate io) (p : P) : Immediate (io.exit p) := by
  refine ⟨fun _ => h.update rfl, ?_⟩
  rw [Stdio.exit, h.pending p, List.append_nil]
  exact h.file

theorem Immediate.abort (h : Immediate io) (p : P) : Immediate (io.abort p) :=
  ⟨fun _ => h.update rfl, h.file⟩

end Immediate

/-! ## Buffers that nothing leaves before the end -/

section Deferred
variable [DecidableEq P] {c : Settings α} {io : Stdio P α} {p q : P}

/-- What a process has printed. -/
def Stdio.written (io : Stdio P α) (p : P) : List α :=
  ((io.log.filter (fun entry => entry.1 = p)).map Prod.snd).flatten

/-- How much has been printed in all. -/
def Stdio.volume (io : Stdio P α) : ℕ := ((io.log.map Prod.snd).flatten).length

/-- What a process writes out when it exits. -/
def Stdio.carried (io : Stdio P α) (p : P) : List α := io.inherited p ++ io.written p

/-- The buffers hold all that was printed, and the file what the processes that exited had:
their own text behind the text that was in their buffers when they were forked. -/
structure Deferred (io : Stdio P α) : Prop where
  pending : ∀ p, p ∉ io.ended → io.pending p = io.carried p
  file : io.file = (io.exits.map io.carried).flatten
  exits : ∀ p ∈ io.exits, p ∈ io.ended
  bounded : ∀ p, (io.carried p).length ≤ io.volume

theorem written_print (text : List α) :
    (io.print c p text).written q = io.written q ++ if p = q then text else [] := by
  simp only [Stdio.written, Stdio.print, List.filter_append, List.map_append, List.flatten_append]
  congr 1
  by_cases h : p = q <;> simp [h]

theorem volume_print (text : List α) : (io.print c p text).volume = io.volume + text.length := by
  simp [Stdio.volume, Stdio.print]

theorem carried_print (text : List α) :
    (io.print c p text).carried q = io.carried q ++ if p = q then text else [] := by
  rw [Stdio.carried, written_print, ← List.append_assoc]
  rfl

theorem deferred_start : Deferred (Stdio.start : Stdio P α) :=
  ⟨fun _ _ => rfl, rfl, fun _ hp => absurd hp List.not_mem_nil, fun _ => Nat.zero_le _⟩

theorem Deferred.print (h : Deferred io) (hc : c.buffering = .fullyBuffered) (hp : p ∉ io.ended)
    {text : List α} (hfits : (io.print c p text).volume ≤ c.capacity) :
    Deferred (io.print c p text) := by
  have hlen : (io.pending p ++ text).length ≤ c.capacity := by
    have hle := h.bounded p
    rw [volume_print] at hfits
    rw [List.length_append, h.pending p hp]
    omega
  have hemit : c.emit (io.pending p ++ text) = ([], io.pending p ++ text) := by
    rw [Settings.emit, hc]
    exact if_pos hlen
  refine ⟨fun q hq => ?_, ?_, h.exits, fun q => ?_⟩
  · rw [carried_print]
    rcases eq_or_ne p q with rfl | hne
    · rw [if_pos rfl, ← h.pending p hp, Stdio.print, hemit]
      exact Function.update_self p _ io.pending
    · rw [if_neg hne, List.append_nil, ← h.pending q hq, Stdio.print]
      exact Function.update_of_ne hne.symm _ io.pending
  · have hsame : io.exits.map (io.print c p text).carried = io.exits.map io.carried := by
      apply List.map_congr_left
      intro q hq
      have hne : p ≠ q := fun heq => hp (heq ▸ h.exits q hq)
      rw [carried_print, if_neg hne, List.append_nil]
    rw [Stdio.print, hemit]
    exact (List.append_nil _).trans (h.file.trans (congrArg List.flatten hsame.symm))
  · have hle := h.bounded q
    rw [carried_print, volume_print, List.length_append]
    split
    · omega
    · rw [List.length_nil]
      omega

/-- A fork hands on what the parent has not written out yet. -/
theorem carried_fork (hnew : io.written q = []) (r : P) :
    (io.fork p q).carried r = if r = q then io.pending p else io.carried r := by
  have hwritten : (io.fork p q).written r = io.written r := rfl
  rw [Stdio.carried, fork_inherited, hwritten]
  split
  · rename_i heq
    rw [heq, Function.update_self, hnew, List.append_nil]
  · rename_i hne
    rw [Function.update_of_ne hne, Stdio.carried]

theorem Deferred.fork (h : Deferred io) (hp : p ∉ io.ended) (hq : q ∉ io.ended)
    (hnew : io.written q = []) : Deferred (io.fork p q) := by
  refine ⟨fun r hr => ?_, ?_, h.exits, fun r => ?_⟩
  · rw [carried_fork hnew, fork_pending]
    split
    · rename_i heq
      rw [heq, Function.update_self]
    · rename_i hne
      rw [Function.update_of_ne hne, h.pending r hr]
  · have hsame : io.exits.map (io.fork p q).carried = io.exits.map io.carried := by
      apply List.map_congr_left
      intro r hr
      have hne : r ≠ q := fun heq => hq (heq ▸ h.exits r hr)
      rw [carried_fork hnew, if_neg hne]
    exact h.file.trans (congrArg List.flatten hsame.symm)
  · rw [carried_fork hnew]
    split
    · rw [h.pending p hp]
      exact h.bounded p
    · exact h.bounded r

theorem Deferred.exit (h : Deferred io) (hp : p ∉ io.ended) : Deferred (io.exit p) := by
  have hsame : (io.exit p).carried = io.carried := rfl
  refine ⟨fun q hq => ?_, ?_, fun q hq => ?_, h.bounded⟩
  · rw [exit_ended, List.mem_append, not_or, List.mem_singleton] at hq
    rw [hsame, exit_pending, Function.update_of_ne hq.2, h.pending q hq.1]
  · rw [hsame, Stdio.exit, List.map_append, List.flatten_append, h.file, h.pending p hp]
    simp
  · rcases List.mem_append.mp hq with hq | hq
    · exact List.mem_append_left _ (h.exits q hq)
    · exact List.mem_append_right _ hq

theorem Deferred.abort (h : Deferred io) : Deferred (io.abort p) := by
  have hsame : (io.abort p).carried = io.carried := rfl
  refine ⟨fun q hq => ?_, h.file, fun q hq => List.mem_append_left _ (h.exits q hq), h.bounded⟩
  rw [abort_ended, List.mem_append, not_or, List.mem_singleton] at hq
  rw [hsame, abort_pending, Function.update_of_ne hq.2, h.pending q hq.1]

end Deferred

/-! ## Programs that use such streams -/

section Moves
variable [DecidableEq P] {c : Settings α} {io io' : Stdio P α}

/-- What one step of a program that prints whole lines does to its streams. -/
inductive Moves (c : Settings α) (io io' : Stdio P α) : Prop
  | same (h : io' = io)
  | print (p : P) (text : List α) (hp : p ∉ io.ended) (ht : c.EndsLine text)
      (h : io' = io.print c p text)
  | fork (p q : P) (hp : p ∉ io.ended) (hq : q ∉ io.ended) (hnew : io.written q = [])
      (h : io' = io.fork p q)
  | exit (p : P) (hp : p ∉ io.ended) (h : io' = io.exit p)
  | abort (p : P) (h : io' = io.abort p)

theorem Moves.immediate (h : Moves c io io') (hb : c.buffering ≠ .fullyBuffered)
    (hi : Immediate io) : Immediate io' := by
  cases h with
  | same h => exact h ▸ hi
  | print p text _ ht h => exact h ▸ hi.print hb p ht
  | fork p q _ _ _ h => exact h ▸ hi.fork p q
  | exit p _ h => exact h ▸ hi.exit p
  | abort p h => exact h ▸ hi.abort p

theorem Moves.deferred (h : Moves c io io') (hb : c.buffering = .fullyBuffered)
    (hfits : io'.volume ≤ c.capacity) (hd : Deferred io) : Deferred io' := by
  cases h with
  | same h => exact h ▸ hd
  | print p text hp _ h =>
    subst h
    exact hd.print hb hp hfits
  | fork p q hp hq hnew h => exact h ▸ hd.fork hp hq hnew
  | exit p hp h => exact h ▸ hd.exit hp
  | abort p h => exact h ▸ hd.abort

/-- Text is only added. -/
theorem Moves.volume_le (h : Moves c io io') : io.volume ≤ io'.volume := by
  cases h with
  | print p text _ _ h =>
    rw [h, volume_print]
    exact Nat.le_add_right _ _
  | same h => exact h ▸ le_rfl
  | fork p q _ _ _ h => exact h ▸ le_rfl
  | exit p _ h => exact h ▸ le_rfl
  | abort p h => exact h ▸ le_rfl

/-- A buffer begins with what it held at its fork, and nothing changes that but a fork. -/
theorem Moves.inherited (h : Moves c io io') :
    io'.inherited = io.inherited ∨ ∃ p q, p ∉ io.ended ∧ io' = io.fork p q := by
  cases h with
  | fork p q hp _ _ h => exact .inr ⟨p, q, hp, h⟩
  | same h => exact .inl (h ▸ rfl)
  | print p text _ _ h => exact .inl (h ▸ rfl)
  | exit p _ h => exact .inl (h ▸ rfl)
  | abort p h => exact .inl (h ▸ rfl)

end Moves

end LinuxTemplates.StdioStreams
