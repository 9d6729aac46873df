import Mathlib
import SealedMap.Drawing
import SealedMap.Proofs.KeepingLastBuilds

/-!
# Maps drawn from bytes

However values are drawn, as long as a drawing leaves no more bytes than there
were, a sequence of them ends: the byte that announces an element is one that
there was, because a supply that has run out gives an even one.  So there are no
more elements than bytes.  A builder and a map are drawn from the same pairs, and
the map is what the builder builds when it keeps last values.
-/

namespace SealedMap
namespace Drawing

/-! ## Drawing sequences -/

section Sequences

variable {α : Type} [Drawn α] {supply rest : List UInt8} {elements : List α}

/--
A sequence ends at an even byte, or where no byte is left.  An odd byte is
followed by an element, which may take up any number of bytes, and by the rest.
-/
inductive Draws : List UInt8 -> List α -> List UInt8 -> Prop where
  | exhausted : Draws [] [] []
  | stop {flag : UInt8} {rest : List UInt8} :
      flag % 2 = 0 -> Draws (flag :: rest) [] rest
  | next {flag : UInt8} {supply between rest : List UInt8} {element : α} {more : List α} :
      flag % 2 ≠ 0 -> draw supply = (element, between) -> Draws between more rest ->
      Draws (flag :: supply) (element :: more) rest

/-! ### One step -/

theorem drawNext_of_even {flag : UInt8} (h : flag % 2 = 0) (rest : List UInt8) :
    drawNext (flag :: rest) = ((none : Option α), rest) :=
  if_pos h

theorem drawNext_of_odd {flag : UInt8} (h : flag % 2 ≠ 0) (supply : List UInt8) :
    drawNext (flag :: supply) =
      (some (draw supply : α × List UInt8).1, (draw supply : α × List UInt8).2) :=
  if_neg h

theorem drawSequence_of_none (h : drawNext supply = ((none : Option α), rest)) :
    drawSequence supply = (([] : List α), rest) := by
  rw [drawSequence]
  split
  next _ hnone =>
    rw [h] at hnone
    cases hnone
    rfl
  next _ _ hsome =>
    rw [h] at hsome
    cases hsome

theorem drawSequence_of_some {element : α} (h : drawNext supply = (some element, rest)) :
    drawSequence supply =
      (element :: (drawSequence rest : List α × List UInt8).1,
        (drawSequence rest : List α × List UInt8).2) := by
  rw [drawSequence]
  split
  next _ hnone =>
    rw [h] at hnone
    cases hnone
  next _ _ hsome =>
    rw [h] at hsome
    cases hsome
    rfl

/-! ### The whole sequence -/

theorem draws_drawSequence (supply : List UInt8) :
    Draws supply (drawSequence supply : List α × List UInt8).1
      (drawSequence supply : List α × List UInt8).2 := by
  cases supply with
  | nil =>
      rw [drawSequence_of_none rfl]
      exact .exhausted
  | cons flag supply =>
      by_cases hflag : flag % 2 = 0
      · rw [drawSequence_of_none (drawNext_of_even hflag supply)]
        exact .stop hflag
      · rw [drawSequence_of_some (drawNext_of_odd hflag supply)]
        exact .next hflag rfl (draws_drawSequence (draw supply : α × List UInt8).2)
termination_by supply.length
-- The element may take nothing, so only the byte before it makes the rest shorter.
decreasing_by exact Nat.lt_succ_of_le (Drawn.length_draw_le supply)

theorem Draws.drawSequence_eq (h : Draws supply elements rest) :
    drawSequence supply = (elements, rest) := by
  induction h with
  | exhausted => exact drawSequence_of_none rfl
  | stop hflag => exact drawSequence_of_none (drawNext_of_even hflag _)
  | @next flag supply _ _ _ _ hflag hdraw _ ih =>
      have hnext := drawNext_of_odd (α := α) hflag supply
      rw [hdraw] at hnext
      rw [drawSequence_of_some hnext, ih]

theorem draws_iff :
    Draws supply elements rest ↔ drawSequence supply = (elements, rest) := by
  constructor
  · exact Draws.drawSequence_eq
  · intro h
    have hdraws := draws_drawSequence (α := α) supply
    rw [h] at hdraws
    exact hdraws

theorem Draws.length_le (h : Draws supply elements rest) :
    elements.length + rest.length ≤ supply.length := by
  induction h with
  | exhausted => exact Nat.le_refl 0
  | stop _ =>
      rw [List.length_nil, Nat.zero_add]
      exact Nat.le_succ _
  | @next flag supply between _ element _ _ hdraw _ ih =>
      have hle : between.length ≤ supply.length := by
        have hdrawn := Drawn.length_draw_le (α := α) supply
        rw [hdraw] at hdrawn
        exact hdrawn
      rw [List.length_cons, List.length_cons]
      omega

end Sequences

/-! ## Drawing builders and maps -/

variable {K V : Type} [Drawn K] [Drawn V] [BEq K] [EquivBEq K] [Hashable K] [LawfulHashable K]

/--
Drawing a builder ends, however keys and values are drawn, and gives no more
entries than there are bytes.  A map drawn from the same bytes, the rest of which
is left or given up alike, is the one that the builder builds when it keeps last
values: its keys are distinct, and stand where the builder has them first, with
the values it has for them last.  The hash functions do not matter.
-/
theorem drawn_map_keeps_last (first second : K -> UInt64)
    (hfirst : forall a b, (a == b) = true -> first a = first b)
    (hsecond : forall a b, (a == b) = true -> second a = second b) (supply : List UInt8) :
    exists (pairs : List (K × V)) (rest : List UInt8) (built map : Map K V),
      (forall others left, Draws supply others left ↔ others = pairs ∧ left = rest) ∧
      drawBuilder first supply = (Builder.ofList first pairs, rest) ∧
      drawBuilderFromRest first supply = Builder.ofList first pairs ∧
      (Builder.ofList first pairs).size + rest.length ≤ supply.length ∧
      (Builder.ofList first pairs).buildKeepingLast.outcome = .ok built ∧
      (drawMap second supply).1.outcome = .ok map ∧
      (drawMap second supply : Construction K V × List UInt8).2 = rest ∧
      (drawMapFromRest second supply).outcome = .ok map ∧
      map.entries = built.entries ∧
      map.entries = ((firsts (pairs.map Entry.ofPair)).map
        (updated (pairs.map Entry.ofPair))).toArray ∧
      Distinct map.keys ∧
      forall key, map.get? key = (lastWith? (pairs.map Entry.ofPair) key).map Entry.value := by
  rcases hdrawn : (drawSequence supply : List (K × V) × List UInt8) with ⟨pairs, rest⟩
  have hdraws := draws_iff.mpr hdrawn
  rcases Builder.exists_buildKeepingLast (Builder.ofList first pairs) hfirst rfl with
    ⟨built, hbuilt, hothers⟩
  rcases Builder.exists_buildKeepingLast (Builder.ofList second pairs) hsecond rfl with
    ⟨map, hmap, hpresents⟩
  rw [Builder.entries_ofList] at hothers hpresents
  have hentries : map.entries = _ := hpresents.entries_eq
  refine ⟨pairs, rest, built, map, ?_, ?_, ?_, ?_, hbuilt, ?_, ?_, ?_,
    hentries.trans hothers.entries_eq.symm, hentries, Map.distinct_keys hpresents.exact,
    Map.get?_of_presents_updated hpresents⟩
  · intro others left
    rw [draws_iff, hdrawn, Prod.mk.injEq, eq_comm, eq_comm (a := rest)]
  · rw [drawBuilder, hdrawn]
  · rw [drawBuilderFromRest, hdrawn]
  · rw [Builder.size, Builder.entries_ofList, List.size_toArray, List.length_map]
    exact hdraws.length_le
  · rw [drawMap, hdrawn]
    exact hmap
  · rw [drawMap, hdrawn]
  · rw [drawMapFromRest, hdrawn]
    exact hmap

/--
Two texts are drawn from a supply that has a length at its end for each.  The
second one is cut short within a character, so that what is left of it is taken
for a value, and there is nothing left for a third entry but the byte before it.
-/
theorem drawn_map_keeps_last_cutShort :
    (drawBuilder (fun _ => 0) [1, 97, 5, 1, 97, 195, 7, 2, 1] :
      Builder String UInt8 × List UInt8) =
        (Builder.ofList (fun _ => 0) [("a", 5), ("a", 195), ("", 0)], []) ∧
      exists map : Map String UInt8,
        (drawMap (fun text => UInt64.ofNat text.length)
          [1, 97, 5, 1, 97, 195, 7, 2, 1]).1.outcome = .ok map ∧
        map.entries = #[⟨"a", 195⟩, ⟨"", 0⟩] ∧ map.get? "a" = some 195 := by
  have hdraws : Draws [1, 97, 5, 1, 97, 195, 7, 2, 1]
      [("a", (5 : UInt8)), ("a", 195), ("", 0)] [] :=
    .next (by decide) (by cbv) (.next (by decide) (by cbv)
      (.next (by decide) (by cbv) .exhausted))
  rcases drawn_map_keeps_last (K := String) (V := UInt8) (fun _ => 0)
    (fun text => UInt64.ofNat text.length) (fun _ _ _ => rfl)
    (fun _ _ h => congrArg (fun text => UInt64.ofNat text.length) (eq_of_beq h))
    [1, 97, 5, 1, 97, 195, 7, 2, 1] with
    ⟨pairs, rest, built, map, hall, hbuilder, _, _, _, hmap, _, _, _, hentries, _, hfound⟩
  rcases (hall _ _).mp hdraws with ⟨rfl, rfl⟩
  refine ⟨hbuilder, map, hmap, ?_, ?_⟩
  · rw [hentries]
    cbv
  · rw [hfound]
    cbv

end Drawing
end SealedMap
