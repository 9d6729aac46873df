import SealedMap.Proofs.Reading

/-!
# Streams of values

What a reader makes of items step by step, until it ends or fails: the values
that it came to and how it ended.  There is a stream as long as every step leaves
less to do.
-/

namespace SealedMap
namespace Reading

variable {σ τ ε α : Type} {step : σ -> Reader τ ε (Option (α × σ))}

/-- The values read one after the other, and what follows them or the fault that was met. -/
inductive Streams (step : σ -> Reader τ ε (Option (α × σ))) :
    σ -> List τ -> List α -> Except ε (List τ) -> Prop where
  | fails {s : σ} {items : List τ} {fault : ε} : step s items = .error fault ->
      Streams step s items [] (.error fault)
  | ends {s : σ} {items rest : List τ} : step s items = .ok (none, rest) ->
      Streams step s items [] (.ok rest)
  | next {s s' : σ} {items after : List τ} {a : α} {as : List α} {ending : Except ε (List τ)} :
      step s items = .ok (some (a, s'), after) -> Streams step s' after as ending ->
      Streams step s items (a :: as) ending

def onward (loop : σ -> List α -> Reader τ ε (List α)) (seen : List α) :
    Option (α × σ) -> Reader τ ε (List α)
  | none => give seen.reverse
  | some (a, s) => loop s (a :: seen)

theorem Streams.step_cases {s : σ} {items : List τ} {as : List α} {ending : Except ε (List τ)}
    (h : Streams step s items as ending) :
    match step s items with
    | .error fault => as = [] ∧ ending = .error fault
    | .ok (none, rest) => as = [] ∧ ending = .ok rest
    | .ok (some (a, s'), after) => exists more, as = a :: more ∧
        Streams step s' after more ending := by
  cases h with
  | fails hstep =>
      rw [hstep]
      exact ⟨rfl, rfl⟩
  | ends hstep =>
      rw [hstep]
      exact ⟨rfl, rfl⟩
  | next hstep hrest =>
      rw [hstep]
      exact ⟨_, rfl, hrest⟩

theorem exists_streams (left : σ -> List τ -> Nat)
    (hleft : forall s items a s' after, step s items = .ok (some (a, s'), after) ->
      left s' after < left s items)
    (s : σ) (items : List τ) :
    exists as ending, Streams step s items as ending := by
  induction hn : left s items using Nat.strongRecOn generalizing s items with
  | ind n ih =>
      cases hstep : step s items with
      | error fault => exact ⟨[], _, .fails hstep⟩
      | ok taken =>
          rcases taken with ⟨_ | ⟨a, s'⟩, after⟩
          · exact ⟨[], _, .ends hstep⟩
          · have hless := hleft s items a s' after hstep
            rcases ih _ (hn ▸ hless) s' after rfl with ⟨as, ending, hrest⟩
            exact ⟨a :: as, ending, .next hstep hrest⟩

/-! ## What follows a stream -/

variable {s : σ} {items rest : List τ} {as : List α}

theorem Streams.exists_used (hlocal : forall s, Local (step s))
    (h : Streams step s items as (.ok rest)) :
    exists used, items = used ++ rest ∧
      forall tail, Streams step s (used ++ tail) as (.ok tail) := by
  generalize hending : Except.ok rest = ending at h
  induction h with
  | fails => cases hending
  | ends hstep =>
      cases hending
      rcases hlocal _ _ _ _ hstep with ⟨used, hitems, hused⟩
      exact ⟨used, hitems, fun tail => .ends (hused tail)⟩
  | next hstep _ ih =>
      rcases hlocal _ _ _ _ hstep with ⟨front, rfl, hfront⟩
      rcases ih hending with ⟨back, rfl, hback⟩
      refine ⟨front ++ back, (List.append_assoc front back rest).symm, ?_⟩
      intro tail
      rw [List.append_assoc]
      exact .next (hfront (back ++ tail)) (hback tail)

theorem Streams.exists_used_of_ahead (hahead : forall s, Ahead (step s))
    (hends : forall s items rest, step s items = .ok (none, rest) ->
      exists used, used ≠ [] ∧ items = used ++ rest ∧ Reads (step s) used none)
    (h : Streams step s items as (.ok rest)) :
    exists used, used ≠ [] ∧ items = used ++ rest ∧
      forall tail, Streams step s (used ++ tail) as (.ok tail) := by
  generalize hending : Except.ok rest = ending at h
  induction h with
  | fails => cases hending
  | ends hstep =>
      cases hending
      rcases hends _ _ _ hstep with ⟨used, hne, hitems, hused⟩
      exact ⟨used, hne, hitems, fun tail => .ends (hused tail)⟩
  | next hstep _ ih =>
      rcases hahead _ _ _ _ hstep with ⟨front, rfl, hfront⟩
      rcases ih hending with ⟨back, hne, rfl, hback⟩
      refine ⟨front ++ back, List.append_ne_nil_of_right_ne_nil _ hne,
        (List.append_assoc front back rest).symm, ?_⟩
      intro tail
      rw [List.append_assoc]
      -- The step in front looks at the first item behind it, which is one of this stretch.
      cases back with
      | nil => exact absurd rfl hne
      | cons first back =>
          exact .next (hfront first (back ++ rest) rfl (back ++ tail)) (hback tail)

end Reading
end SealedMap
