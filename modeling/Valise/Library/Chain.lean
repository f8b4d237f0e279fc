import Valise.Library.Outcome

/-!
Append-only stores whose entries link back to the entry written before them, and the walk that
collects a chain from its newest entry.
-/

namespace Chains

open Outcomes

variable {ρ σ ε α β : Type}

structure Link (ρ α : Type) where
  previous : Option ρ
  content : α

/-- The chain from `head` holds these contents, oldest first. -/
inductive Holds (read : ρ → Option (Link ρ α)) : Option ρ → List α → Prop where
  | empty : Holds read none []
  | link {root : ρ} {previous : Option ρ} {content : α} {older : List α} :
      read root = some ⟨previous, content⟩ → Holds read previous older →
        Holds read (some root) (older ++ [content])

/-- Follow the links for at most `fuel` entries and return the contents oldest first. -/
def walk (read : ρ → Option (Link ρ α)) : Nat → Option ρ → Option (List α)
  | _, none => some []
  | 0, some _ => none
  | fuel + 1, some root => do
      let link ← read root
      let older ← walk read fuel link.previous
      return older ++ [link.content]

/-- The walk as a loop: it keeps what it read, newest first, until a root has none before it. A
loop that the fuel does not end counts as one that never comes back. -/
def collect (read : ρ → Outcome ε (Link ρ α)) : Nat → Option ρ → List α → Outcome ε (List α)
  | _, none, newestFirst => .ok newestFirst.reverse
  | 0, some _, _ => .panic
  | fuel + 1, some root, newestFirst => do
      let link ← read root
      collect read fuel link.previous (newestFirst ++ [link.content])

/-- Two chains of one length whose contents tell the same, link by link. -/
def Parallel (same : α → β → Prop) (read : ρ → Option (Link ρ α)) (head : Option ρ)
    (other : σ → Option (Link σ β)) (otherHead : Option σ) (bound : Nat) : Prop :=
  ∃ contents others, Holds read head contents ∧ Holds other otherHead others ∧
    List.Forall₂ same contents others ∧ contents.length ≤ bound

theorem Holds.walk {read : ρ → Option (Link ρ α)} {head : Option ρ} {contents : List α}
    (holds : Holds read head contents) (fuel : Nat) (enough : contents.length ≤ fuel) :
    walk read fuel head = some contents := by
  induction holds generalizing fuel with
  | empty => cases fuel <;> rfl
  | link found _ ih =>
      cases fuel with
      | zero => simp at enough
      | succ fuel =>
          have rest := ih fuel (by simpa using enough)
          simp [Chains.walk, found, rest]

/-- A chain survives whatever else is written, as long as its own entries read the same. -/
theorem Holds.mono {read later : ρ → Option (Link ρ α)}
    (kept : ∀ root link, read root = some link → later root = some link)
    {head : Option ρ} {contents : List α} (holds : Holds read head contents) :
    Holds later head contents := by
  induction holds with
  | empty => exact .empty
  | link found _ ih => exact .link (kept _ _ found) ih

theorem Holds.collect {read : ρ → Outcome ε (Link ρ α)} {head : Option ρ} {contents : List α}
    (holds : Holds (fun root => (read root).toOption) head contents) (fuel : Nat)
    (enough : contents.length ≤ fuel) (newestFirst : List α) :
    collect read fuel head newestFirst = .ok (contents ++ newestFirst.reverse) := by
  induction holds generalizing fuel newestFirst with
  | empty => cases fuel <;> rfl
  | @link root previous content older found _ ih =>
      cases fuel with
      | zero => simp at enough
      | succ fuel =>
          have rest := ih fuel (by simpa using enough) (newestFirst ++ [content])
          rw [Chains.collect, Outcome.toOption_eq_some.mp found, Outcome.ok_bind, rest]
          simp

section Parallel

variable {same : α → β → Prop} {read later : ρ → Option (Link ρ α)}
  {other otherLater : σ → Option (Link σ β)} {head : Option ρ} {otherHead : Option σ} {bound : Nat}

theorem parallel_empty (same : α → β → Prop) (read : ρ → Option (Link ρ α))
    (other : σ → Option (Link σ β)) (bound : Nat) : Parallel same read none other none bound :=
  ⟨[], [], .empty, .empty, .nil, Nat.zero_le _⟩

theorem Parallel.mono {more : Nat} (alike : Parallel same read head other otherHead bound)
    (kept : ∀ root link, read root = some link → later root = some link)
    (otherKept : ∀ root link, other root = some link → otherLater root = some link)
    (grown : bound ≤ more) : Parallel same later head otherLater otherHead more := by
  obtain ⟨contents, others, holds, otherHolds, each, few⟩ := alike
  exact ⟨contents, others, holds.mono kept, otherHolds.mono otherKept, each, Nat.le_trans few grown⟩

/-- A link on each chain, of contents that tell the same. -/
theorem Parallel.link (alike : Parallel same read head other otherHead bound) {root : ρ}
    {otherRoot : σ} {content : α} {otherContent : β} (found : read root = some ⟨head, content⟩)
    (otherFound : other otherRoot = some ⟨otherHead, otherContent⟩)
    (alikeToo : same content otherContent) :
    Parallel same read (some root) other (some otherRoot) (bound + 1) := by
  obtain ⟨contents, others, holds, otherHolds, each, few⟩ := alike
  refine ⟨_, _, .link found holds, .link otherFound otherHolds, ?_, ?_⟩
  · exact List.rel_append each (.cons alikeToo .nil)
  · rw [List.length_append, List.length_singleton]
    omega

end Parallel

end Chains
