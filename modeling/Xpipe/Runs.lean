import Mathlib.Data.List.Basic
import Mathlib.Tactic

/-!
# Properties along a run

A total step function takes a state and an input to the next state; a run is the
fold of the step over a list of inputs. `Along` states a property of every step
of a run, in terms of the state before the step and the input. The rules below
derive such properties, and invariants of the states, from single steps.
-/
namespace Runs

variable {σ ι : Type*} {step : σ → ι → σ}

/-- `P` holds at every step of the run from `s`. -/
def Along (step : σ → ι → σ) (P : σ → ι → Prop) : σ → List ι → Prop
  | _, [] => True
  | s, i :: is => P s i ∧ Along step P (step s i) is

instance decidableAlong (step : σ → ι → σ) (P : σ → ι → Prop) [∀ s i, Decidable (P s i)] :
    (s : σ) → (is : List ι) → Decidable (Along step P s is)
  | _, [] => .isTrue trivial
  | s, i :: is =>
    have := decidableAlong step P (step s i) is
    inferInstanceAs (Decidable (P s i ∧ Along step P (step s i) is))

theorem along_append {P : σ → ι → Prop} {s : σ} {is js : List ι} :
    Along step P s (is ++ js) ↔ Along step P s is ∧ Along step P (is.foldl step s) js := by
  induction is generalizing s with
  | nil => simp [Along]
  | cons i is ih => rw [List.cons_append, Along, ih, Along, and_assoc, List.foldl_cons]

/-- Along a run whose states are seen through a map that follows another step function. -/
theorem along_map {τ : Type*} {step' : τ → ι → τ} {f : τ → σ} {P : σ → ι → Prop}
    (hf : ∀ t i, f (step' t i) = step (f t) i) {t : τ} {is : List ι} :
    Along step' (fun t i => P (f t) i) t is ↔ Along step P (f t) is := by
  induction is generalizing t with
  | nil => exact Iff.rfl
  | cons i is ih =>
    rw [Along, Along, ih, hf]

/-- An invariant kept by every step that meets a condition holds at the end of
every run whose steps all meet it. -/
theorem invariant_foldl {Q : σ → ι → Prop} {I : σ → Prop}
    (hkeep : ∀ s i, I s → Q s i → I (step s i)) {s : σ} {is : List ι} (h : I s)
    (hrun : Along step Q s is) : I (is.foldl step s) := by
  induction is generalizing s with
  | nil => exact h
  | cons i is ih => exact ih (hkeep s i h hrun.1) hrun.2

/-- Under an invariant that the condition keeps, a property and a condition that
agree at every single step agree along every run. The environment `E` is what
the inputs of the run are known to meet. -/
theorem along_iff {E P Q : σ → ι → Prop} {I : σ → Prop}
    (hkeep : ∀ s i, I s → E s i → Q s i → I (step s i))
    (hiff : ∀ s i, I s → E s i → (P s i ↔ Q s i)) {s : σ} {is : List ι} (h : I s)
    (henv : Along step E s is) : Along step P s is ↔ Along step Q s is := by
  induction is generalizing s with
  | nil => exact Iff.rfl
  | cons i is ih =>
    unfold Along
    rw [hiff s i h henv.1]
    exact and_congr_right (fun hq => ih (hkeep s i h henv.1 hq) henv.2)

/-- Under an invariant that the condition keeps, what the condition gives at
every single step it gives along every run. -/
theorem along_mono {P Q : σ → ι → Prop} {I : σ → Prop}
    (hkeep : ∀ s i, I s → Q s i → I (step s i)) (himp : ∀ s i, I s → Q s i → P s i)
    {s : σ} {is : List ι} (h : I s) (hrun : Along step Q s is) : Along step P s is := by
  induction is generalizing s with
  | nil => trivial
  | cons i is ih => exact ⟨himp s i h hrun.1, ih (hkeep s i h hrun.1) hrun.2⟩

theorem along_of_forall {P : σ → ι → Prop} (h : ∀ s i, P s i) (s : σ) (is : List ι) :
    Along step P s is := by
  induction is generalizing s with
  | nil => trivial
  | cons i is ih => exact ⟨h s i, ih _⟩

/-- A kind of step that leaves a lasting mark has not been taken by a run that
ends without the mark. -/
theorem along_not_of_final {E B : σ → ι → Prop} {I W : σ → Prop}
    (hinv : ∀ s i, I s → E s i → I (step s i)) (hmark : ∀ s i, I s → E s i → B s i → W (step s i))
    (hlast : ∀ s i, I s → E s i → W s → W (step s i)) {s : σ} {is : List ι} (h : I s)
    (henv : Along step E s is) (hend : ¬ W (is.foldl step s)) :
    Along step (fun s i => ¬ B s i) s is := by
  induction is generalizing s with
  | nil => trivial
  | cons i is ih =>
    refine ⟨fun hb => hend ?_, ih (hinv s i h henv.1) henv.2 hend⟩
    have hkeep : I (is.foldl step (step s i)) ∧ W (is.foldl step (step s i)) :=
      invariant_foldl (I := fun s => I s ∧ W s)
        (fun s i hs he => ⟨hinv s i hs.1 he, hlast s i hs.1 he hs.2⟩)
        ⟨hinv s i h henv.1, hmark s i h henv.1 hb⟩ henv.2
    exact hkeep.2

/-- A mark that a kind of step leaves, and nothing else: a run ends without it
exactly when it starts without it and takes no such step. -/
theorem not_final_iff {E B : σ → ι → Prop} {I W : σ → Prop}
    (hinv : ∀ s i, I s → E s i → I (step s i))
    (hstep : ∀ s i, I s → E s i → (W (step s i) ↔ W s ∨ B s i)) {s : σ} {is : List ι} (h : I s)
    (henv : Along step E s is) :
    ¬ W (is.foldl step s) ↔ ¬ W s ∧ Along step (fun s i => ¬ B s i) s is := by
  induction is generalizing s with
  | nil => simp [Along]
  | cons i is ih =>
    rw [List.foldl_cons, ih (hinv s i h henv.1) henv.2, hstep s i h henv.1, not_or, and_assoc]
    rfl

/-- In a run that may fail, a mark that some inputs leave and nothing removes is there
at the end exactly when it was there before or one of the inputs leaves it. -/
theorem foldlM_marked_iff {f : σ → ι → Option σ} {W : σ → Prop} {B : ι → Prop}
    (hstep : ∀ s i s', f s i = some s' → (W s' ↔ W s ∨ B i)) {s s' : σ} {is : List ι}
    (h : is.foldlM f s = some s') : W s' ↔ W s ∨ ∃ i ∈ is, B i := by
  induction is generalizing s with
  | nil =>
    cases h
    simp
  | cons i is ih =>
    rw [List.foldlM_cons] at h
    obtain ⟨s₁, hi, his⟩ := Option.bind_eq_some_iff.mp h
    rw [ih his, hstep s i s₁ hi, or_assoc, List.exists_mem_cons_iff]

/-- A step that may fail follows a total one, through a map of the states: under an invariant,
where a condition on the total step is met, it does not fail and the map keeps up. Then so it
is along every run whose steps meet the condition. -/
theorem foldlM_follows {τ : Type*} {f : τ → ι → Option τ} {v : τ → σ} {P : σ → ι → Prop}
    {I : τ → Prop}
    (hkeep : ∀ t i, I t → P (v t) i → ∃ t', f t i = some t' ∧ v t' = step (v t) i ∧ I t')
    {t : τ} {is : List ι} (h : I t) (hrun : Along step P (v t) is) :
    ∃ t', is.foldlM f t = some t' ∧ v t' = is.foldl step (v t) ∧ I t' := by
  induction is generalizing t with
  | nil => exact ⟨t, rfl, rfl, h⟩
  | cons i is ih =>
    obtain ⟨t₁, hi, hview, hinv⟩ := hkeep t i h hrun.1
    rw [List.foldlM_cons, hi, List.foldl_cons, ← hview]
    exact ih hinv (hview ▸ hrun.2)

/-- A run that may fail, up to its last input and from there. -/
theorem foldlM_snoc {f : σ → ι → Option σ} {s s' : σ} {is : List ι} {i : ι} :
    (is ++ [i]).foldlM f s = some s' ↔ ∃ t, is.foldlM f s = some t ∧ f t i = some s' := by
  rw [List.foldlM_append]
  simp [Option.bind_eq_some_iff]

end Runs
