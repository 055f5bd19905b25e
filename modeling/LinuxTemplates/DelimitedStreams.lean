import Mathlib.Data.List.Basic
import Mathlib.Logic.Function.Iterate

/-!
# Streams cut at delimiters

`through p` is the part of a stream up to and including its first delimiter and
`past p` is what follows it. A stream of delimited lines with an undelimited tail is
taken apart by iterating the two.
-/

namespace LinuxTemplates.DelimitedStreams

universe u v

section Cuts
variable {α : Type u} {p : α → Bool}

def through (p : α → Bool) : List α → List α
  | [] => []
  | a :: as => if p a then [a] else a :: through p as

def past (p : α → Bool) : List α → List α
  | [] => []
  | a :: as => if p a then as else past p as

theorem through_append_past (as : List α) : through p as ++ past p as = as := by
  induction as with
  | nil => rfl
  | cons a as ih =>
    by_cases hp : p a = true
    · simp [through, past, hp]
    · simp [through, past, hp, ih]

theorem through_of_forall {as : List α} (h : ∀ a ∈ as, p a = false) : through p as = as := by
  induction as with
  | nil => rfl
  | cons a as ih =>
    simp [through, h a List.mem_cons_self, ih (fun x hx => h x (List.mem_cons_of_mem a hx))]

theorem past_of_forall {as : List α} (h : ∀ a ∈ as, p a = false) : past p as = [] := by
  induction as with
  | nil => rfl
  | cons a as ih =>
    simp [past, h a List.mem_cons_self, ih (fun x hx => h x (List.mem_cons_of_mem a hx))]

theorem through_append {body rest : List α} (h : ∀ a ∈ body, p a = false) :
    through p (body ++ rest) = body ++ through p rest := by
  induction body with
  | nil => rfl
  | cons a body ih =>
    simp [through, h a List.mem_cons_self, ih (fun x hx => h x (List.mem_cons_of_mem a hx))]

theorem past_append {body rest : List α} (h : ∀ a ∈ body, p a = false) :
    past p (body ++ rest) = past p rest := by
  induction body with
  | nil => rfl
  | cons a body ih =>
    simp [past, h a List.mem_cons_self, ih (fun x hx => h x (List.mem_cons_of_mem a hx))]

/-- A stream either has a first delimiter or none. -/
theorem split_at_delimiter (p : α → Bool) (as : List α) :
    (∀ a ∈ as, p a = false) ∨ ∃ body d rest, as = body ++ d :: rest ∧
      (∀ a ∈ body, p a = false) ∧ p d = true := by
  induction as with
  | nil => exact .inl (by simp)
  | cons a as ih =>
    by_cases hp : p a = true
    · exact .inr ⟨[], a, as, rfl, by simp, hp⟩
    · have ha : p a = false := by simpa using hp
      rcases ih with h | ⟨body, d, rest, rfl, hbody, hd⟩
      · exact .inl (by simpa [ha] using h)
      · exact .inr ⟨a :: body, d, rest, rfl, by simpa [ha] using hbody, hd⟩

/-- At most `n` items, up to and including the first delimiter. -/
def firstCut (p : α → Bool) (n : ℕ) (as : List α) : List α := (through p as).take n

/-- Items without a delimiter before the last one. -/
theorem firstCut_self {n : ℕ} {as : List α} (h : ∀ a ∈ as.dropLast, p a = false)
    (hlength : as.length ≤ n) : firstCut p n as = as := by
  have hthrough : through p as = as := by
    rcases List.eq_nil_or_concat as with rfl | ⟨body, a, rfl⟩
    · rfl
    · rw [List.concat_eq_append] at h ⊢
      rw [List.dropLast_concat] at h
      by_cases ha : p a = true <;> simp [through_append h, through, ha]
  rw [firstCut, hthrough, List.take_of_length_le hlength]

/-- Once the cut is complete, more items make no difference. -/
theorem firstCut_append {n : ℕ} {as : List α} (h : ∀ a ∈ as.dropLast, p a = false)
    (hlength : as.length ≤ n) (hfull : as.length = n ∨ ∃ a, as.getLast? = some a ∧ p a = true)
    (more : List α) : firstCut p n (as ++ more) = as := by
  rcases List.eq_nil_or_concat as with rfl | ⟨body, a, rfl⟩
  · rcases hfull with rfl | ⟨a, ha, -⟩
    · rfl
    · cases ha
  · rw [List.concat_eq_append] at h hlength hfull ⊢
    rw [List.dropLast_concat] at h
    rw [firstCut, List.append_assoc, List.singleton_append, through_append h, through]
    by_cases ha : p a = true
    · rw [if_pos ha, List.take_of_length_le hlength]
    · rcases hfull with hfull | ⟨b, hb, hpb⟩
      · rw [if_neg ha, List.append_cons, ← hfull, List.take_left]
      · rw [List.getLast?_concat, Option.some.injEq] at hb
        exact absurd (hb ▸ hpb) ha

end Cuts

section Decoding
variable {α : Type u} {β : Type v} {p : α → Bool} {q : β → Bool} {f : β → Option α}

/-- Cutting commutes with decoding when an item ends the cut as its decoding does. -/
theorem filterMap_through {bs : List β} (h : ∀ b ∈ bs, q b = ((f b).map p).getD false) :
    (through q bs).filterMap f = through p (bs.filterMap f) := by
  induction bs with
  | nil => rfl
  | cons b bs ih =>
    have hb := h b List.mem_cons_self
    have hbs := ih (fun x hx => h x (List.mem_cons_of_mem b hx))
    cases hf : f b with
    | none => simp [through, hb, hf, hbs]
    | some a => by_cases hp : p a = true <;> simp [through, hb, hf, hp, hbs]

theorem filterMap_past {bs : List β} (h : ∀ b ∈ bs, q b = ((f b).map p).getD false) :
    (past q bs).filterMap f = past p (bs.filterMap f) := by
  induction bs with
  | nil => rfl
  | cons b bs ih =>
    have hb := h b List.mem_cons_self
    have hbs := ih (fun x hx => h x (List.mem_cons_of_mem b hx))
    cases hf : f b with
    | none => simp [past, hb, hf, hbs]
    | some a => by_cases hp : p a = true <;> simp [past, hb, hf, hp, hbs]

end Decoding

/-! ## Lines and a tail -/

/-- Items without a delimiter, closed by one. -/
structure Line {α : Type u} (p : α → Bool) where
  body : List α
  stop : α
  body_inner : ∀ a ∈ body, p a = false
  stop_ends : p stop = true

/-- Lines in order and an undelimited, possibly empty tail. -/
structure Text {α : Type u} (p : α → Bool) where
  lines : List (Line p)
  tail : List α
  tail_inner : ∀ a ∈ tail, p a = false

variable {α : Type u} {p : α → Bool}

def Line.items (l : Line p) : List α := l.body ++ [l.stop]

/-- The lines of a text, then its tail. -/
def Text.pieces (t : Text p) : List (List α) := t.lines.map Line.items ++ [t.tail]

def Text.stream (t : Text p) : List α := t.pieces.flatten

theorem cut_text (t : Text p) :
    through p t.stream = t.pieces.headD [] ∧ past p t.stream = t.pieces.tail.flatten := by
  obtain ⟨lines, tail, htail⟩ := t
  cases lines with
  | nil => simp [Text.stream, Text.pieces, through_of_forall htail, past_of_forall htail]
  | cons l lines =>
    simp [Text.stream, Text.pieces, Line.items, through_append l.body_inner,
      past_append l.body_inner, through, past, l.stop_ends]

/-- The `k`-th cut of a text delivers its `k`-th piece, and nothing after the last. -/
theorem cut_iterate (t : Text p) (k : ℕ) :
    through p ((past p)^[k] t.stream) = t.pieces.getD k [] ∧
      (past p)^[k] t.stream = (t.pieces.drop k).flatten := by
  induction k generalizing t with
  | zero =>
    refine ⟨?_, rfl⟩
    rw [Function.iterate_zero, id, (cut_text t).1]
    cases t.pieces <;> rfl
  | succ k ih =>
    rw [Function.iterate_succ_apply, (cut_text t).2]
    obtain ⟨lines, tail, htail⟩ := t
    cases lines with
    | nil =>
      have hnil : (past p)^[k] ([] : List α) = [] := Function.iterate_fixed rfl k
      simp [Text.pieces, hnil, through]
    | cons l lines => simpa [Text.pieces, Text.stream] using ih ⟨lines, tail, htail⟩

end LinuxTemplates.DelimitedStreams
