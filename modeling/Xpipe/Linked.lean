import Mathlib.Data.List.Basic
import Mathlib.Tactic

/-!
# Lists through one link field

Nodes are named by values of a type, and a function gives the link of each node.
`Chain next h l` says that following the links from the head `h` visits exactly
the nodes of `l`, in order, and ends. The rules are those for a change of one
link: off the list it changes nothing, at the head it pushes or pops.
-/
namespace Linked

variable {α : Type*}

/-- Following `next` from `h` visits the nodes of `l` and ends. -/
def Chain (next : α → Option α) : Option α → List α → Prop
  | h, [] => h = none
  | h, a :: l => h = some a ∧ Chain next (next a) l

/-- Only the links of the nodes on the list matter. -/
theorem Chain.congr {next next' : α → Option α} {h : Option α} {l : List α}
    (hsame : ∀ a ∈ l, next' a = next a) (hc : Chain next h l) : Chain next' h l := by
  induction l generalizing h with
  | nil => exact hc
  | cons a l ih =>
    refine ⟨hc.1, ?_⟩
    rw [hsame a (by simp)]
    exact ih (fun b hb => hsame b (by simp [hb])) hc.2

/-- A node whose link is set to the head becomes the new head. -/
theorem Chain.push {next next' : α → Option α} {h : Option α} {l : List α} {a : α}
    (hc : Chain next h l) (ha : a ∉ l) (hlink : next' a = h)
    (hsame : ∀ b, b ≠ a → next' b = next b) : Chain next' (some a) (a :: l) := by
  refine ⟨rfl, ?_⟩
  rw [hlink]
  refine hc.congr (fun b hb => hsame b ?_)
  rintro rfl
  exact ha hb

theorem Chain.head_some {next : α → Option α} {a : α} {l : List α} (hc : Chain next (some a) l) :
    ∃ l', l = a :: l' ∧ Chain next (next a) l' := by
  cases l with
  | nil => cases hc
  | cons b l =>
    obtain ⟨hb, hl⟩ := hc
    obtain rfl : a = b := Option.some.inj hb
    exact ⟨l, rfl, hl⟩

theorem Chain.head_none {next : α → Option α} {l : List α} (hc : Chain next none l) : l = [] := by
  cases l with
  | nil => rfl
  | cons b l => cases hc.1

/-- A node that the last one is linked to becomes the new last one. -/
theorem Chain.snoc {next next' : α → Option α} {h : Option α} {l : List α} {a b : α}
    (hc : Chain next h (l ++ [a])) (hlink : next' a = some b) (hend : next' b = none)
    (hsame : ∀ d ∈ l, next' d = next d) : Chain next' h (l ++ [a, b]) := by
  induction l generalizing h with
  | nil => exact ⟨hc.1, hlink, hend⟩
  | cons d l ih =>
    refine ⟨hc.1, ?_⟩
    rw [hsame d (by simp)]
    exact ih hc.2 (fun e he => hsame e (by simp [he]))

/-- From a node on, following the links visits the rest of the list. -/
theorem Chain.suffix {next : α → Option α} {h : Option α} {l : List α} {a : α} {l' : List α}
    (hc : Chain next h (l ++ a :: l')) : Chain next (some a) (a :: l') := by
  induction l generalizing h with
  | nil => exact ⟨rfl, hc.2⟩
  | cons d l ih => exact ih hc.2

/-- Pushing the nodes of a list one after another, each linked to the head
before it, leaves them in reverse order. -/
theorem chain_foldl_push {σ β : Type*} (links : σ → α → Option α) (head : σ → Option α)
    (node : β → α) (push : σ → β → σ) (hhead : ∀ s b, head (push s b) = some (node b))
    (hlink : ∀ s b, links (push s b) (node b) = head s)
    (hsame : ∀ s b a, a ≠ node b → links (push s b) a = links s a)
    {s : σ} {l : List α} (bs : List β) (hc : Chain (links s) (head s) l)
    (hnodup : (bs.map node).Nodup) (hnew : ∀ b ∈ bs, node b ∉ l) :
    Chain (links (bs.foldl push s)) (head (bs.foldl push s)) ((bs.map node).reverse ++ l) := by
  induction bs generalizing s l with
  | nil => exact hc
  | cons b bs ih =>
    rw [List.map_cons, List.nodup_cons] at hnodup
    have hpush : Chain (links (push s b)) (head (push s b)) (node b :: l) := by
      rw [hhead]
      exact hc.push (hnew b (by simp)) (hlink s b) (hsame s b)
    have hrest := ih hpush hnodup.2 (fun d hd => by
      simp only [List.mem_cons, not_or]
      refine ⟨fun heq => hnodup.1 ?_, hnew d (by simp [hd])⟩
      exact heq ▸ List.mem_map_of_mem hd)
    simpa using hrest

end Linked
