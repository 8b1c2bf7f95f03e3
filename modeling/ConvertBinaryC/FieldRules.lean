import Mathlib.Logic.Basic

/-! Rules for the fields of a record. A field carries the laws of reading and writing, so that what
is proved about it holds for every place of a record that it can be taken from. -/
namespace FieldRules

variable {σ τ α : Type}

structure RecordField (σ α : Type) where
  get : σ → α
  set : σ → α → σ
  get_set : ∀ s a, get (set s a) = a := by intros; rfl
  set_get : ∀ s, set s (get s) = s := by intros; rfl
  set_set : ∀ s a b, set (set s a) b = set s b := by intros; rfl

namespace RecordField

attribute [simp] get_set set_get set_set

/-- Writing what is there changes nothing, and nothing else does. -/
theorem set_eq_self_iff (f : RecordField σ α) {s : σ} {a : α} : f.set s a = s ↔ f.get s = a := by
  constructor
  · intro h
    have hget := f.get_set s a
    rwa [h] at hget
  · intro h
    rw [← h, f.set_get]

/-- A field of a field. -/
def comp (f : RecordField σ τ) (g : RecordField τ α) : RecordField σ α where
  get s := g.get (f.get s)
  set s a := f.set s (g.set (f.get s) a)
  get_set s a := by rw [f.get_set, g.get_set]
  set_get s := by rw [g.set_get, f.set_get]
  set_set s a b := by rw [f.get_set, f.set_set, g.set_set]

end RecordField
end FieldRules
