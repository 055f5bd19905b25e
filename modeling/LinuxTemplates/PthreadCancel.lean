import LinuxTemplates.TransitionSystems
import Mathlib.Data.Int.Notation
import Mathlib.Data.List.Basic

/-!
# `pthread_cancel.cpp`

A thread counts without end until `main` cancels it. The request takes effect when the thread
calls `sleep`, and it may take effect in a `printf` or while the thread is asleep. `main` joins
the thread and looks at its result.
-/

namespace LinuxTemplates.PthreadCancel
open TransitionSystems

/-- What is printed, by `main` and by `ThreadFunc`. -/
inductive Line
  | createErr | cancelErr | joinErr | canceled | notCanceled | starting | loop (i : Int32)
  deriving DecidableEq, Repr

/-- The result of a thread: PTHREAD_CANCELED, or the NULL behind the loop. -/
inductive Result | null | canceled
  deriving DecidableEq, Repr

/-- Program points of `ThreadFunc`; `sleep` is the call and `asleep` the wait. -/
inductive ThreadPc
  | absent | starting | print (i : Int32) | sleep (i : Int32) | asleep (i : Int32)
  | terminated (result : Result) | joined
  deriving DecidableEq, Repr

inductive MainPc
  | create | sleep | cancel | join | compare (result : Result) | returned (ret : ℤ)
  deriving DecidableEq, Repr

/-- `requested` says that the thread has been asked to end. -/
structure State where
  main : MainPc
  thread : ThreadPc
  requested : Bool
  out : List Line
  deriving DecidableEq, Repr

/-- A message, and the end of `main`. -/
def State.fail (s : State) (line : Line) : State :=
  { s with main := .returned (-1), out := s.out ++ [line] }

/-- One step of `main`; a thread that does not exist cannot be cancelled or joined. -/
def main (s : State) : Option State :=
  match s.main with
  | .create => some { s with main := .sleep, thread := .starting }
  | .sleep => some { s with main := .cancel }
  | .cancel => match s.thread with
    | .absent | .joined => some (s.fail .cancelErr)
    | _ => some { s with main := .join, requested := true }
  | .join => match s.thread with
    | .absent | .joined => some (s.fail .joinErr)
    | .terminated result => some { s with main := .compare result, thread := .joined }
    | _ => none
  | .compare result => some { s with
      main := .returned 0
      out := s.out ++ [if result = .canceled then .canceled else .notCanceled] }
  | .returned _ => none

def createFails (s : State) : Option State :=
  match s.main with
  | .create => some (s.fail .createErr)
  | _ => none

/-- One step of `ThreadFunc`; the counter wraps. -/
def threadFunc (s : State) : Option State :=
  match s.thread with
  | .starting => some { s with thread := .print 0, out := s.out ++ [.starting] }
  | .print i => some { s with thread := .sleep i, out := s.out ++ [.loop i] }
  | .sleep i => some { s with thread := if s.requested then .terminated .canceled else .asleep i }
  | .asleep i => some { s with thread := .print (i + 1) }
  | .absent | .terminated _ | .joined => none

/-- The request takes effect in a `printf` or in the midst of `sleep`. -/
def act (s : State) : Option State :=
  if s.requested = true then
    match s.thread with
    | .starting | .print _ | .asleep _ => some { s with thread := .terminated .canceled }
    | _ => none
  else none

inductive Action | main | createFails | threadFunc | act
  deriving DecidableEq, Repr

def step (s : State) : Action → Option State
  | .main => main s
  | .createFails => createFails s
  | .threadFunc => threadFunc s
  | .act => act s

def start : State := ⟨.create, .absent, false, []⟩

def program : System State Action where
  init s := s = start
  step := step

variable {s s' : State}

/-! ## The lines of the thread -/

/-- The first `n` lines of `ThreadFunc`. -/
def threadLines (n : ℕ) : List Line :=
  (List.range n).map fun k => if k = 0 then .starting else .loop (Int32.ofNat (k - 1))

@[simp] theorem threadLines_zero : threadLines 0 = [] := rfl

theorem threadLines_succ (n : ℕ) : threadLines (n + 1) =
    threadLines n ++ [if n = 0 then .starting else .loop (Int32.ofNat (n - 1))] := by
  rw [threadLines, List.range_succ, List.map_append]
  rfl

@[simp] theorem threadLines_one : threadLines 1 = [.starting] := rfl

/-- How many lines stand behind a thread at each of its program points. -/
def ThreadPc.Behind : ThreadPc → ℕ → Prop
  | .absent, n | .starting, n => n = 0
  | .print i, n => ∃ k, n = k + 1 ∧ i = Int32.ofNat k
  | .sleep i, n | .asleep i, n => ∃ k, n = k + 2 ∧ i = Int32.ofNat k
  | .terminated _, _ | .joined, _ => True

def MainPc.lines : MainPc → List Line
  | .returned _ => [.canceled]
  | _ => []

/-- The thread exists from `create` on, and has been asked to end from `join` on. -/
def MainOk (s : State) : Prop :=
  match s.main with
  | .create => s.thread = .absent ∧ s.requested = false
  | .sleep | .cancel => s.thread ≠ .absent ∧ s.thread ≠ .joined ∧ s.requested = false
  | .join => s.thread ≠ .absent ∧ s.thread ≠ .joined ∧ s.requested = true
  | .compare result => s.thread = .joined ∧ result = .canceled
  | .returned ret => s.thread = .joined ∧ ret = 0

/-- A thread ends only because it has been asked to. -/
def EndsOnRequest (s : State) : Prop :=
  ∀ result, s.thread = .terminated result → result = .canceled ∧ s.requested = true

/-- Either no thread could be created, or the lines are those of the thread and, in the end, the
one of `main`. -/
def Inv (s : State) : Prop :=
  (s.main = .returned (-1) ∧ s.thread = .absent ∧ s.out = [.createErr]) ∨
    (MainOk s ∧ EndsOnRequest s ∧ ∃ n, s.thread.Behind n ∧ s.out = threadLines n ++ s.main.lines)

/-- A living thread moves on. -/
theorem MainOk.threadMoves (h : MainOk s) (ht : s.thread ≠ .absent) (ht' : s.thread ≠ .joined)
    {t : ThreadPc} (hnew : t ≠ .absent) (hnew' : t ≠ .joined) (out : List Line) :
    MainOk { s with thread := t, out := out } := by
  unfold MainOk at h ⊢
  cases hp : s.main <;> simp only [hp] at h ⊢
  case create => exact absurd h.1 ht
  case compare | returned => exact absurd h.1 ht'
  all_goals exact ⟨hnew, hnew', h.2.2⟩

theorem main_inv (h : Inv s) (hs : main s = some s') : Inv s' := by
  rcases h with ⟨hp, -, -⟩ | ⟨hmain, hends, n, hbehind, hout⟩
  · rw [main, hp] at hs
    cases hs
  rw [main] at hs
  cases hp : s.main <;> simp only [hp, MainOk, MainPc.lines] at hs hmain hout
  case create =>
    obtain rfl := Option.some.inj hs
    rw [hmain.1] at hbehind
    exact .inr ⟨⟨by simp, by simp, hmain.2⟩, (fun _ ht => by cases ht), n, hbehind, hout⟩
  case sleep =>
    obtain rfl := Option.some.inj hs
    exact .inr ⟨hmain, hends, n, hbehind, hout⟩
  case cancel =>
    have hjoin : Inv { s with main := .join, requested := true } :=
      .inr ⟨⟨hmain.1, hmain.2.1, rfl⟩, fun result ht => ⟨(hends result ht).1, rfl⟩, n, hbehind, hout⟩
    cases ht : s.thread <;> simp only [ht, Option.some.injEq] at hs hjoin
    case absent => exact absurd ht hmain.1
    case joined => exact absurd ht hmain.2.1
    all_goals exact hs ▸ hjoin
  case join =>
    cases ht : s.thread <;> simp only [ht, reduceCtorEq] at hs
    case absent => exact absurd ht hmain.1
    case joined => exact absurd ht hmain.2.1
    case terminated result =>
      obtain rfl := Option.some.inj hs
      exact .inr ⟨⟨rfl, (hends result ht).1⟩, (fun _ ht' => by cases ht'), n, trivial, hout⟩
  case compare result =>
    obtain rfl := Option.some.inj hs
    rw [List.append_nil] at hout
    refine .inr ⟨⟨hmain.1, rfl⟩, hends, n, hbehind, ?_⟩
    simp [hout, hmain.2, MainPc.lines]
  case returned => cases hs

theorem MainOk.lines_nil (h : MainOk s) (ht : s.thread ≠ .joined) : s.main.lines = [] := by
  unfold MainOk at h
  cases hp : s.main <;> simp only [hp] at h
  case returned => exact absurd h.1 ht
  all_goals rfl

theorem threadFunc_inv (h : Inv s) (hs : threadFunc s = some s') : Inv s' := by
  rcases h with ⟨-, ht, -⟩ | ⟨hmain, -, n, hbehind, hout⟩
  · rw [threadFunc, ht] at hs
    cases hs
  have hnew {t : ThreadPc} {out : List Line} (ht : s.thread ≠ .absent) (ht' : s.thread ≠ .joined)
      (hne : t ≠ .absent) (hne' : t ≠ .joined)
      (hends : ∀ result, t = .terminated result → result = .canceled ∧ s.requested = true)
      {k : ℕ} (hk : t.Behind k) (hlines : out = threadLines k) :
      Inv { s with thread := t, out := out } := by
    refine .inr ⟨hmain.threadMoves ht ht' hne hne' out, hends, k, hk, ?_⟩
    rw [hlines, hmain.lines_nil ht', List.append_nil]
  have hlines (ht' : s.thread ≠ .joined) : s.out = threadLines n := by
    rw [hout, hmain.lines_nil ht', List.append_nil]
  rw [threadFunc] at hs
  cases ht : s.thread <;> simp only [ht, ThreadPc.Behind] at hs hbehind hnew hlines
  case starting =>
    obtain rfl := Option.some.inj hs
    refine hnew (by simp) (by simp) (by simp) (by simp) (by simp) (k := 1) ⟨0, rfl, rfl⟩ ?_
    rw [hlines (by simp), hbehind]
    rfl
  case print i =>
    obtain rfl := Option.some.inj hs
    obtain ⟨k, rfl, rfl⟩ := hbehind
    refine hnew (by simp) (by simp) (by simp) (by simp) (by simp) (k := k + 2) ⟨k, rfl, rfl⟩ ?_
    rw [hlines (by simp), threadLines_succ (k + 1)]
    rfl
  case sleep i =>
    obtain rfl := Option.some.inj hs
    have hout' := hlines (by simp)
    split
    · rename_i hr
      exact hnew (by simp) (by simp) (by simp) (by simp) (fun _ ht => by cases ht; exact ⟨rfl, hr⟩)
        trivial hout'
    · exact hnew (by simp) (by simp) (by simp) (by simp) (by simp) hbehind hout'
  case asleep i =>
    obtain rfl := Option.some.inj hs
    obtain ⟨k, rfl, rfl⟩ := hbehind
    exact hnew (by simp) (by simp) (by simp) (by simp) (by simp) (k := k + 2)
      ⟨k + 1, rfl, (Int32.ofNat_add k 1).symm⟩ (hlines (by simp))
  case absent | terminated | joined => cases hs

theorem act_inv (h : Inv s) (hs : act s = some s') : Inv s' := by
  rw [act, Option.ite_none_right_eq_some] at hs
  obtain ⟨hreq, hs⟩ := hs
  rcases h with ⟨-, ht, -⟩ | ⟨hmain, -, n, -, hout⟩
  · rw [ht] at hs
    cases hs
  · have hnew (ht : s.thread ≠ .absent) (ht' : s.thread ≠ .joined) :
        Inv { s with thread := .terminated .canceled } :=
      .inr ⟨hmain.threadMoves ht ht' (by simp) (by simp) s.out,
        fun _ h => by cases h; exact ⟨rfl, hreq⟩, n, trivial, hout⟩
    cases ht : s.thread <;> simp only [ht, Option.some.injEq, reduceCtorEq] at hs
    all_goals exact hs ▸ hnew (by simp [ht]) (by simp [ht])

theorem inv_invariant : program.Invariant Inv where
  init s := by
    rintro rfl
    exact .inr ⟨⟨rfl, rfl⟩, (fun _ ht => by cases ht), 0, rfl, rfl⟩
  step s a s' h hs := by
    cases a with
    | main => exact main_inv h hs
    | threadFunc => exact threadFunc_inv h hs
    | act => exact act_inv h hs
    | createFails =>
      simp only [program, step, createFails] at hs
      cases hp : s.main <;> simp only [hp, Option.some.injEq, reduceCtorEq] at hs
      subst hs
      rcases h with ⟨hret, -⟩ | ⟨hmain, -, n, hbehind, hout⟩
      · rw [hp] at hret
        cases hret
      · simp only [MainOk, hp] at hmain
        rw [hmain.1, ThreadPc.Behind] at hbehind
        refine .inl ⟨rfl, hmain.1, ?_⟩
        rw [hp, hbehind] at hout
        simp [State.fail, hout, MainPc.lines]

theorem inv_of_reachable (h : program.Reachable s) : Inv s := inv_invariant.reachable h

/-! ## After the request -/

def ThreadPc.weight : ThreadPc → ℕ
  | .starting | .asleep _ => 3
  | .print _ => 2
  | .sleep _ => 1
  | .absent | .terminated _ | .joined => 0

def MainPc.weight : MainPc → ℕ
  | .create | .sleep | .cancel => 0
  | .join => 2
  | .compare _ => 1
  | .returned _ => 0

/-- The thread has been asked to end and `main` waits for it, or for nothing more. -/
def Requested (s : State) : Prop :=
  s.requested = true ∧ s.main ≠ .create ∧ s.main ≠ .sleep ∧ s.main ≠ .cancel

theorem requested_step (h : Requested s) {a : Action} (hs : program.step s a = some s') :
    Requested s' ∧ s'.main.weight + s'.thread.weight < s.main.weight + s.thread.weight := by
  obtain ⟨hreq, hcreate, hsleep, hcancel⟩ := h
  cases a with
  | main =>
    simp only [program, step, main] at hs
    cases hp : s.main <;> simp only [hp, reduceCtorEq] at hs
    case create => exact absurd hp hcreate
    case sleep => exact absurd hp hsleep
    case cancel => exact absurd hp hcancel
    case join =>
      cases ht : s.thread <;> simp only [ht, Option.some.injEq, reduceCtorEq] at hs
      all_goals
        subst hs
        simp [Requested, State.fail, hreq, ht, MainPc.weight, ThreadPc.weight]
    case compare result =>
      obtain rfl := Option.some.inj hs
      simp [Requested, hreq, MainPc.weight]
  | createFails =>
    simp only [program, step, createFails] at hs
    cases hs
  | threadFunc =>
    simp only [program, step, threadFunc] at hs
    cases ht : s.thread <;> simp only [ht, hreq, if_true, Option.some.injEq, reduceCtorEq] at hs
    all_goals
      subst hs
      simp [Requested, hcreate, hsleep, hcancel, ThreadPc.weight]
  | act =>
    simp only [program, step, act, hreq, if_true] at hs
    cases ht : s.thread <;> simp only [ht, Option.some.injEq, reduceCtorEq] at hs
    all_goals
      subst hs
      simp [Requested, hcreate, hsleep, hcancel, ThreadPc.weight]

theorem requested_of_inv (h : Inv s) (hp : s.main = .join) : Requested s := by
  rcases h with ⟨hret, -⟩ | ⟨hmain, -⟩
  · rw [hp] at hret
    cases hret
  · simp only [MainOk, hp] at hmain
    simp [Requested, hmain.2.2, hp]

theorem progress (h : Inv s) (hret : ∀ ret, s.main ≠ .returned ret) :
    program.Enabled s .main ∨ program.Enabled s .threadFunc := by
  rcases h with ⟨hp, -⟩ | ⟨hmain, -⟩
  · exact absurd hp (hret _)
  · cases hp : s.main with
    | create | sleep | compare => exact .inl (by simp [System.Enabled, program, step, main, hp])
    | cancel =>
      refine .inl ?_
      cases ht : s.thread <;> simp [System.Enabled, program, step, main, hp, ht]
    | join =>
      cases ht : s.thread with
      | absent | terminated | joined =>
        exact .inl (by simp [System.Enabled, program, step, main, hp, ht])
      | starting | print | sleep | asleep =>
        exact .inr (by simp [System.Enabled, program, step, threadFunc, ht])
    | returned ret => exact absurd hp (hret ret)

/-- In every run: until `main` returns it or the thread can go on, and once it waits for the thread
there are at most five more steps. A thread ends only by the request, so that `main` says that it
was canceled; no call but `pthread_create` fails. The other lines are the first ones of the thread,
in order and without a gap. -/
theorem thread_canceled (h : program.Reachable s) :
    ((∀ ret, s.main ≠ .returned ret) →
      program.Enabled s .main ∨ program.Enabled s .threadFunc) ∧
    (s.main = .join → ∀ as s', program.run s as = some s' → as.length ≤ 5) ∧
    (∀ result, s.thread = .terminated result → result = .canceled ∧ s.requested = true) ∧
    (∀ ret, s.main = .returned ret → (ret = -1 ∧ s.thread = .absent ∧ s.out = [.createErr]) ∨
      (ret = 0 ∧ s.thread = .joined ∧ ∃ n, s.out = threadLines n ++ [.canceled])) ∧
    ((∀ ret, s.main ≠ .returned ret) → ∃ n, s.out = threadLines n) := by
  have hi := inv_of_reachable h
  refine ⟨progress hi, fun hp as s' hrun => ?_, fun result ht => ?_, fun ret hp => ?_,
    fun hret => ?_⟩
  · have hlen := System.length_run_le (fun _ _ _ h hs => (requested_step h hs).1)
      (fun _ _ _ h hs => (requested_step h hs).2) (requested_of_inv hi hp) hrun
    have hthread : s.thread.weight ≤ 3 := by cases s.thread <;> simp [ThreadPc.weight]
    rw [hp, MainPc.weight] at hlen
    omega
  · rcases hi with ⟨-, habsent, -⟩ | ⟨-, hends, -⟩
    · rw [habsent] at ht
      cases ht
    · exact hends result ht
  · rcases hi with ⟨hret, ht, hout⟩ | ⟨hmain, -, n, -, hout⟩
    · rw [hp, MainPc.returned.injEq] at hret
      exact .inl ⟨hret, ht, hout⟩
    · simp only [MainOk, hp] at hmain
      rw [hp] at hout
      exact .inr ⟨hmain.2, hmain.1, n, hout⟩
  · rcases hi with ⟨hp, -⟩ | ⟨-, -, n, -, hout⟩
    · exact absurd hp (hret _)
    · refine ⟨n, ?_⟩
      cases hp : s.main <;> simp only [hp, MainPc.lines, List.append_nil] at hout
      case returned ret => exact absurd hp (hret ret)
      all_goals exact hout

section Demo

/-- The request comes while the thread is asleep, and takes effect in its next call of `sleep`. -/
def asleepSchedule : List Action :=
  [.main] ++ List.replicate 3 .threadFunc ++ [.main, .main] ++ List.replicate 3 .threadFunc ++
    [.main, .main]

def asleepEnd : State := program.after start asleepSchedule (by decide)

theorem reachable_asleepEnd : program.Reachable asleepEnd :=
  program.reachable_after rfl asleepSchedule (by decide)

theorem thread_canceled_asleep :
    asleepEnd.out = [.starting, .loop 0, .loop 1, .canceled] ∧
      ∃ n, asleepEnd.out = threadLines n ++ [.canceled] := by
  obtain ⟨-, -, -, hreturned, -⟩ := thread_canceled reachable_asleepEnd
  refine ⟨by decide, ?_⟩
  rcases hreturned 0 (by decide) with ⟨hret, -⟩ | ⟨-, -, hlines⟩
  · cases hret
  · exact hlines

end Demo

end LinuxTemplates.PthreadCancel
