import Mathlib.Data.List.Basic

/-!
# Loops over a list that may be left early

The body of such a loop goes on to the next element, leaves the loop or leaves the function
around it. What happens is decided by the first element that does not go on.
-/

namespace LinuxTemplates.ListLoops

universe u v

/-- The ends of a loop body: `continue`, `break` and `return`. -/
inductive Flow
  | next | stop | quit
  deriving DecidableEq, Repr

/-- How a loop ends; a position counts from the start of the list. -/
inductive LoopEnd
  | exhausted | stopped (i : ℕ) | quit (i : ℕ)
  deriving DecidableEq, Repr

variable {C : Type u} {S : Type v}

def forEach (body : ℕ → C → S → Flow × S) : ℕ → List C → S → LoopEnd × S
  | _, [], s => (.exhausted, s)
  | i, c :: cs, s => match body i c s with
    | (.next, s) => forEach body (i + 1) cs s
    | (.stop, s) => (.stopped i, s)
    | (.quit, s) => (.quit i, s)

def Flow.atPosition (i : ℕ) : Flow → LoopEnd
  | .next => .exhausted
  | .stop => .stopped i
  | .quit => .quit i

variable {body : ℕ → C → S → Flow × S}

theorem forEach_cons_next {i : ℕ} {c : C} {cs : List C} {s : S} (h : (body i c s).1 = .next) :
    forEach body i (c :: cs) s = forEach body (i + 1) cs (body i c s).2 := by
  rw [forEach]
  split
  · rename_i heq
    rw [heq]
  · rename_i heq
    rw [heq] at h
    cases h
  · rename_i heq
    rw [heq] at h
    cases h

theorem forEach_cons_leave {i : ℕ} {c : C} {cs : List C} {s : S} (h : (body i c s).1 ≠ .next) :
    forEach body i (c :: cs) s = ((body i c s).1.atPosition i, (body i c s).2) := by
  rw [forEach]
  split
  · rename_i heq
    exact absurd (congrArg Prod.fst heq) h
  · rename_i heq
    rw [heq]
    rfl
  · rename_i heq
    rw [heq]
    rfl

/-- When the element alone decides how a body ends, and bodies that go on keep `I`, the loop
meets its last element with `I`. -/
theorem forEach_cases {flow : C → Flow} {I : S → Prop}
    (hflow : ∀ i c s, (body i c s).1 = flow c)
    (hnext : ∀ i c s, flow c = .next → I s → I (body i c s).2)
    (i : ℕ) (cs : List C) {s : S} (hs : I s) :
    ((∀ c ∈ cs, flow c = .next) ∧ (forEach body i cs s).1 = .exhausted ∧
      I (forEach body i cs s).2) ∨
    ∃ before c after t, cs = before ++ c :: after ∧ (∀ x ∈ before, flow x = .next) ∧
      flow c ≠ .next ∧ I t ∧ forEach body i cs s =
        ((flow c).atPosition (i + before.length), (body (i + before.length) c t).2) := by
  induction cs generalizing i s with
  | nil => exact .inl ⟨fun c hc => absurd hc List.not_mem_nil, rfl, hs⟩
  | cons c cs ih =>
    by_cases hc : flow c = .next
    · rw [forEach_cons_next ((hflow i c s).trans hc)]
      rcases ih (i + 1) (hnext i c s hc hs) with ⟨hall, hend, hI⟩ |
        ⟨before, d, after, t, rfl, hbefore, hd, ht, hrun⟩
      · left
        exact ⟨List.forall_mem_cons.mpr ⟨hc, hall⟩, hend, hI⟩
      · right
        refine ⟨c :: before, d, after, t, rfl, List.forall_mem_cons.mpr ⟨hc, hbefore⟩, hd, ht, ?_⟩
        have hlength : i + (c :: before).length = i + 1 + before.length := by
          rw [List.length_cons]
          omega
        rw [hrun, hlength]
    · right
      refine ⟨[], c, cs, s, rfl, fun x hx => absurd hx List.not_mem_nil, hc, hs, ?_⟩
      rw [forEach_cons_leave (fun h => hc ((hflow i c s).symm.trans h)), hflow]
      rfl

theorem findIdx?_append_cons {ok : C → Bool} {before : List C} {c : C}
    (hbefore : ∀ x ∈ before, ok x = false) (hc : ok c = true) (after : List C) :
    (before ++ c :: after).findIdx? ok = some before.length := by
  rw [List.findIdx?_append, List.findIdx?_eq_none_iff.mpr hbefore, List.findIdx?_cons, hc]
  simp

end LinuxTemplates.ListLoops
