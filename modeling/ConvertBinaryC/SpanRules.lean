import Mathlib.Tactic

/-! Half-open spans of integers that are handed out by a cursor that never moves
back: they are pairwise disjoint. -/
namespace SpanRules

structure Span where
  lo : ℤ
  hi : ℤ

def Span.Mem (s : Span) (x : ℤ) : Prop := s.lo ≤ x ∧ x < s.hi

def Span.Disjoint (s t : Span) : Prop := ∀ x, ¬(s.Mem x ∧ t.Mem x)

/-- The spans follow each other and end at or before the cursor. -/
structure Below (spans : List Span) (cursor : ℤ) : Prop where
  ordered : spans.Pairwise fun s t => s.hi ≤ t.lo
  le : ∀ s ∈ spans, s.hi ≤ cursor

theorem Below.nil (cursor : ℤ) : Below [] cursor :=
  ⟨List.Pairwise.nil, fun _ h => absurd h List.not_mem_nil⟩

theorem Below.mono {spans : List Span} {c c' : ℤ} (h : Below spans c) (hc : c ≤ c') :
    Below spans c' :=
  ⟨h.ordered, fun s hs => (h.le s hs).trans hc⟩

/-- A span is taken at or after the cursor, which moves to its end or further. -/
theorem Below.append {spans : List Span} {c c' : ℤ} {s : Span} (h : Below spans c)
    (hlo : c ≤ s.lo) (hhi : s.hi ≤ c') (hc : c ≤ c') : Below (spans ++ [s]) c' := by
  refine ⟨List.pairwise_append.mpr ⟨h.ordered, List.pairwise_singleton _ _, ?_⟩, ?_⟩
  · intro t ht u hu
    rw [List.mem_singleton] at hu
    subst hu
    exact (h.le t ht).trans hlo
  · intro t ht
    rcases List.mem_append.mp ht with ht | ht
    · exact (h.le t ht).trans hc
    · rw [List.mem_singleton] at ht
      exact ht ▸ hhi

theorem Below.disjoint {spans : List Span} {c : ℤ} (h : Below spans c) :
    spans.Pairwise Span.Disjoint :=
  h.ordered.imp fun hst x hx => absurd (hx.1.2.trans_le (hst.trans hx.2.1)) (lt_irrefl x)

end SpanRules
