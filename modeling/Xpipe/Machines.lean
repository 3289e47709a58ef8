import Mathlib.Data.List.Basic
import Mathlib.Tactic

/-!
# Machines that may stop early

A machine reads symbols one at a time; a step gives the next state or stops with
a result. Its run over a list is the monadic fold of the step. The rules below
are the ones a language proof needs: runs over an append and over a list of
chunks, loops that stay in one state, and the invariant that relates the state
to everything read so far.
-/
namespace Machines

variable {α ε σ τ : Type*}

/-- The run of a machine over a list of symbols. -/
def run (step : σ → α → Except ε σ) : σ → List α → Except ε σ
  | s, [] => .ok s
  | s, a :: as =>
    match step s a with
    | .error e => .error e
    | .ok s => run step s as

@[simp] theorem run_nil (step : σ → α → Except ε σ) (s : σ) : run step s [] = .ok s := rfl

theorem run_cons_ok {step : σ → α → Except ε σ} {s t : σ} {a : α} (h : step s a = .ok t)
    (as : List α) : run step s (a :: as) = run step t as := by simp [run, h]

theorem run_cons_error {step : σ → α → Except ε σ} {s : σ} {a : α} {e : ε}
    (h : step s a = .error e) (as : List α) : run step s (a :: as) = .error e := by simp [run, h]

theorem run_cons_ok_iff (step : σ → α → Except ε σ) (s t : σ) (a : α) (as : List α) :
    run step s (a :: as) = .ok t ↔ ∃ m, step s a = .ok m ∧ run step m as = .ok t := by
  cases h : step s a with
  | error e => simp [run, h]
  | ok m => simp [run, h]

theorem run_append (step : σ → α → Except ε σ) (s : σ) (as bs : List α) :
    run step s (as ++ bs) =
      match run step s as with
      | .error e => .error e
      | .ok s' => run step s' bs := by
  induction as generalizing s with
  | nil => rfl
  | cons a as ih =>
    rw [List.cons_append]
    cases h : step s a with
    | error e => rw [run_cons_error h, run_cons_error h]
    | ok s' => rw [run_cons_ok h, run_cons_ok h, ih]

theorem run_append_of_ok {step : σ → α → Except ε σ} {s s' : σ} {as : List α}
    (h : run step s as = .ok s') (bs : List α) : run step s (as ++ bs) = run step s' bs := by
  rw [run_append, h]

theorem run_append_ok_iff (step : σ → α → Except ε σ) (s t : σ) (as bs : List α) :
    run step s (as ++ bs) = .ok t ↔ ∃ m, run step s as = .ok m ∧ run step m bs = .ok t := by
  rw [run_append]
  cases h : run step s as with
  | error e => simp
  | ok m => simp

/-- A run that stops early stops at one of its symbols. -/
theorem run_error_iff (step : σ → α → Except ε σ) (s : σ) (as : List α) (e : ε) :
    run step s as = .error e ↔
      ∃ bs a cs t, as = bs ++ a :: cs ∧ run step s bs = .ok t ∧ step t a = .error e := by
  constructor
  · intro h
    induction as generalizing s with
    | nil => cases h
    | cons a as ih =>
      cases ha : step s a with
      | error e' =>
        rw [run_cons_error ha] at h
        cases h
        exact ⟨[], a, as, s, rfl, rfl, ha⟩
      | ok s' =>
        rw [run_cons_ok ha] at h
        obtain ⟨bs, b, cs, t, rfl, hrun, hb⟩ := ih s' h
        exact ⟨a :: bs, b, cs, t, rfl, by rw [run_cons_ok ha, hrun], hb⟩
  · rintro ⟨bs, a, cs, t, rfl, hrun, ha⟩
    rw [run_append_of_ok hrun, run_cons_error ha]

/-- Symbols that leave the state alone can be skipped. -/
theorem run_stay {step : σ → α → Except ε σ} {s : σ} {as : List α}
    (h : ∀ a ∈ as, step s a = .ok s) : run step s as = .ok s := by
  induction as with
  | nil => rfl
  | cons a as ih =>
    rw [run_cons_ok (h a (by simp))]
    exact ih (fun b hb => h b (by simp [hb]))

/-- The longest run of symbols of a class at the start of a list. -/
theorem exists_span (p : α → Bool) (as : List α) :
    ∃ w rest, as = w ++ rest ∧ (∀ a ∈ w, p a = true) ∧ ∀ a bs, rest = a :: bs → p a = false := by
  induction as with
  | nil => exact ⟨[], [], rfl, by simp, by simp⟩
  | cons a as ih =>
    cases ha : p a with
    | false =>
      refine ⟨[], a :: as, rfl, by simp, fun b bs hb => ?_⟩
      cases hb
      exact ha
    | true =>
      obtain ⟨w, rest, rfl, hw, hrest⟩ := ih
      refine ⟨a :: w, rest, rfl, fun b hb => ?_, hrest⟩
      rcases List.mem_cons.mp hb with rfl | hb
      · exact ha
      · exact hw b hb

/-- The symbols of a class at the start of a list, up to the first one that is not in
it, are determined by the list. -/
theorem span_unique {p : α → Bool} {w w' : List α} {a a' : α} {rest rest' : List α}
    (hw : ∀ x ∈ w, p x = true) (ha : p a = false) (hw' : ∀ x ∈ w', p x = true)
    (ha' : p a' = false) (h : w ++ a :: rest = w' ++ a' :: rest') :
    w = w' ∧ a = a' ∧ rest = rest' := by
  induction w generalizing w' with
  | nil =>
    cases w' with
    | nil => simpa using h
    | cons b w' =>
      obtain ⟨rfl, -⟩ := List.cons.inj h
      rw [hw' a (by simp)] at ha
      cases ha
  | cons b w ih =>
    cases w' with
    | nil =>
      obtain ⟨rfl, -⟩ := List.cons.inj h
      rw [hw b (by simp)] at ha'
      cases ha'
    | cons b' w' =>
      obtain ⟨rfl, htail⟩ := List.cons.inj h
      obtain ⟨rfl, hrest⟩ := ih (fun x hx => hw x (by simp [hx])) (fun x hx => hw' x (by simp [hx])) htail
      exact ⟨rfl, hrest⟩

/-- A relation between the symbols read and the state, kept by every step, holds
at the end of a run. -/
theorem run_relates {step : σ → α → Except ε σ} {R : List α → σ → Prop}
    (hstep : ∀ read s a s', R read s → step s a = .ok s' → R (read ++ [a]) s')
    {read as : List α} {s t : σ} (h : R read s) (hrun : run step s as = .ok t) :
    R (read ++ as) t := by
  induction as generalizing read s with
  | nil =>
    cases hrun
    simpa using h
  | cons a as ih =>
    cases ha : step s a with
    | error e =>
      rw [run_cons_error ha] at hrun
      cases hrun
    | ok s' =>
      rw [run_cons_ok ha] at hrun
      simpa using ih (hstep read s a s' h ha) hrun

end Machines
