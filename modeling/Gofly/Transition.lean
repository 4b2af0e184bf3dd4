import Mathlib.Data.List.Basic

/-! Runs of a partial step function, one action at a time. -/
namespace Gofly.Transition

variable {σ α : Type}

def run (step : σ → α → Option σ) : σ → List α → Option σ
  | s,[] => some s
  | s,a :: rest => (step s a).bind fun next => run step next rest

inductive Trace (step : σ → α → Option σ) (allowed : σ → α → Prop) : σ → List α → σ → Prop where
  | done (s : σ) : Trace step allowed s [] s
  | more {s next u : σ} {a : α} {rest : List α}
      (fits : allowed s a) (moved : step s a = some next)
      (later : Trace step allowed next rest u) : Trace step allowed s (a :: rest) u

def Free (_ : σ) (_ : α) : Prop := True
instance (s : σ) (a : α) : Decidable (Free s a) := isTrue trivial


theorem runFree (h : run step s as = some u) : Trace step Free s as u := by
  induction as generalizing s with
  | nil => cases h; exact .done _
  | cons a rest ih =>
    simp only [run,Option.bind_eq_some_iff] at h
    obtain ⟨next,ran,later⟩ := h
    exact .more trivial ran (ih later)

theorem traceAppend (h : Trace step allowed s as t)
    (later : Trace step allowed t bs u) : Trace step allowed s (as ++ bs) u := by
  induction h with
  | done => exact later
  | more fits ran _ ih => exact .more fits ran (ih later)

theorem traceInvariant {P : σ → Prop} (kept : ∀ s a next, P s → allowed s a → step s a = some next → P next)
    (h : Trace step allowed s as u) (first : P s) : P u := by
  induction h with
  | done => exact first
  | more fits ran _ ih => exact ih (kept _ _ _ first fits ran)

def accepts (step : σ → α → Option σ) (allowed : σ → α → Prop) [∀ s a, Decidable (allowed s a)] :
    σ → List α → Bool
  | _,[] => true
  | s,a :: rest =>
    if allowed s a then
      match step s a with
      | none => false
      | some next => accepts step allowed next rest
    else false

theorem acceptedTrace [∀ s a, Decidable (allowed s a)] (ok : accepts step allowed s as = true) :
    ∃ u, run step s as = some u ∧ Trace step allowed s as u := by
  induction as generalizing s with
  | nil => exact ⟨s,rfl,.done s⟩
  | cons a rest ih =>
    simp only [accepts] at ok
    split at ok <;> try contradiction
    rename_i fits
    split at ok <;> try contradiction
    rename_i moved
    obtain ⟨u,ran,trace⟩ := ih ok
    exact ⟨u,by simp only [run,moved,Option.bind_some,ran],.more fits moved trace⟩

end Gofly.Transition
