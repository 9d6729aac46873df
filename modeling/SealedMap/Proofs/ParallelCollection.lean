import SealedMap.Parallel.Survey
import SealedMap.Proofs.HashIndependence
import SealedMap.Proofs.Resolving

/-!
# Parallel collection

Workers fill builders of their own, each with a hash function of its own, and
neighbours are combined in whatever tree they are scheduled in, with builders
of workers that had nothing to do in between.  What is gathered is what putting
all pairs in order gives, and so is the map that is built from it.
-/

namespace SealedMap

variable {K V : Type}

namespace Builder

/-! ## Combining -/

theorem eq_of_fields {left right : Builder K V} (hentries : left.entries = right.entries)
    (horder : left.order = right.order) (hhash : left.hash = right.hash) :
    left = right := by
  cases left
  cases right
  cases hentries
  cases horder
  cases hhash
  rfl

theorem combine_assoc (a b c : Builder K V) :
    (a.combine b).combine c = a.combine (b.combine c) := by
  apply eq_of_fields
  · simp only [entries_combine, Array.append_assoc]
  · simp only [order_combine]
  · simp only [hash_combine]

theorem combine_empty (hash : K -> UInt64) (builder : Builder K V) :
    builder.combine (empty hash) = builder := by
  apply eq_of_fields
  · rw [entries_combine, entries_empty, Array.append_empty]
  · rw [order_combine]
  · rw [hash_combine]

theorem entries_empty_combine (hash : K -> UInt64) (builder : Builder K V) :
    ((empty hash).combine builder).entries = builder.entries := by
  rw [entries_combine, entries_empty, Array.empty_append]

/-! ## Gathering -/

/-- The builders that workers can come to for some pairs. -/
inductive Gathers : List (K × V) -> Builder K V -> Prop where
  | idle (hash : K -> UInt64) : Gathers [] (empty hash)
  | part (hash : K -> UInt64) (pairs : List (K × V)) :
      Gathers pairs (pairs.foldl (fun builder pair => builder.put pair.1 pair.2) (empty hash))
  | join {front back : List (K × V)} {left right : Builder K V} :
      Gathers front left -> Gathers back right ->
      Gathers (front ++ back) (left.combine right)

theorem gathers_collect (hash : K -> UInt64) (split : Split (K × V)) :
    Gathers split.toList (collect hash split) := by
  induction split with
  | idle => exact .idle hash
  | part pairs => exact .part hash pairs
  | join left right ihl ihr => exact .join ihl ihr

theorem order_foldl_put (pairs : List (K × V)) (builder : Builder K V) :
    (pairs.foldl (fun builder pair => builder.put pair.1 pair.2) builder).order =
      builder.order := by
  induction pairs generalizing builder with
  | nil => rfl
  | cons pair pairs ih =>
      rw [List.foldl_cons, ih]
      rfl

theorem hash_foldl_put (pairs : List (K × V)) (builder : Builder K V) :
    (pairs.foldl (fun builder pair => builder.put pair.1 pair.2) builder).hash =
      builder.hash := by
  induction pairs generalizing builder with
  | nil => rfl
  | cons pair pairs ih =>
      rw [List.foldl_cons, ih]
      rfl

theorem Gathers.entries_eq {pairs : List (K × V)} {builder : Builder K V}
    (h : Gathers pairs builder) :
    builder.entries = (pairs.map Entry.ofPair).toArray := by
  induction h with
  | idle hash => rfl
  | part hash pairs => rw [entries_foldl_put, entries_empty, Array.empty_append]
  | join _ _ ihl ihr => rw [entries_combine, ihl, ihr, List.map_append, List.append_toArray]

theorem Gathers.order_eq {pairs : List (K × V)} {builder : Builder K V}
    (h : Gathers pairs builder) :
    builder.order = none := by
  induction h with
  | idle hash => rfl
  | part hash pairs => rw [order_foldl_put, empty]
  | join _ _ ihl _ => rw [order_combine, ihl]

theorem collect_eq_ofList (hash : K -> UInt64) (split : Split (K × V)) :
    collect hash split = ofList hash split.toList := by
  apply eq_of_fields
  · rw [entries_collect, entries_ofList]
  · rw [(gathers_collect hash split).order_eq]
    rfl
  · induction split with
    | idle => rfl
    | part pairs => exact hash_foldl_put pairs (empty hash)
    | join left right ihl _ => rw [collect, hash_combine, ihl]; rfl

/-! ## Whole collections -/

section Building

variable [BEq K] [Hashable K] [EquivBEq K] [LawfulHashable K]

theorem Gathers.buildKeepingLast_endAlike {pairs : List (K × V)} {builder : Builder K V}
    (h : Gathers pairs builder)
    (hbuilder : forall a b, (a == b) = true -> builder.hash a = builder.hash b)
    {hash : K -> UInt64} (hhash : forall a b, (a == b) = true -> hash a = hash b) :
    builder.buildKeepingLast.EndAlike (Map.ofList hash pairs) := by
  have halike := Construction.construct_endAlike hbuilder hhash (.keepLast : Policy Unit K V)
    none (pairs.map Entry.ofPair).toArray ()
  rw [Map.ofList, buildKeepingLast, buildKeepingLast, buildWith, buildWith, h.order_eq,
    h.entries_eq, entries_ofList]
  exact halike.1

theorem buildKeepingLast_succeeds (builder : Builder K V) :
    builder.buildKeepingLast.Succeeds :=
  Construction.construct_succeeds rfl builder.hash builder.order builder.entries ()

end Building

/--
Whatever builder is gathered for some pairs, its entries are the pairs in their
order, and combining it into another builder appends them and leaves that
builder its order and hash function.  The map built from it keeping the last
entries has the entries of the map of the list, even under another hash
function; and where all workers share one, the constructions are the same.
-/
theorem gathering_is_sequential [BEq K] [Hashable K] [EquivBEq K] [LawfulHashable K]
    {pairs : List (K × V)} {builder : Builder K V} (h : Gathers pairs builder)
    (hbuilder : forall a b, (a == b) = true -> builder.hash a = builder.hash b)
    {hash : K -> UInt64} (hhash : forall a b, (a == b) = true -> hash a = hash b) :
    builder.entries = (pairs.map Entry.ofPair).toArray ∧
      (exists collected sequential,
        builder.buildKeepingLast.outcome = .ok collected ∧
        (Map.ofList hash pairs).outcome = .ok sequential ∧
        collected.entries = sequential.entries) ∧
      (forall base : Builder K V,
        (base.combine builder).entries = base.entries ++ (pairs.map Entry.ofPair).toArray ∧
        (base.combine builder).order = base.order ∧
        (base.combine builder).hash = base.hash) ∧
      (forall split : Split (K × V), split.toList = pairs ->
        Gathers pairs (collect hash split) ∧
        Map.collect hash split = Map.ofList hash pairs ∧
        forall base : Builder K V,
          (base.extendParallel split).entries =
            base.entries ++ (pairs.map Entry.ofPair).toArray ∧
          (base.extendParallel split).order = base.order ∧
          (base.extendParallel split).hash = base.hash) ∧
      (forall a b c : Builder K V, (a.combine b).combine c = a.combine (b.combine c)) ∧
      (forall b : Builder K V, ((empty hash).combine b).entries = b.entries ∧
        (b.combine (empty hash)).entries = b.entries) := by
  refine ⟨h.entries_eq, ?_, ?_, ?_, combine_assoc, ?_⟩
  · rcases buildKeepingLast_succeeds builder with ⟨collected, hcollected⟩
    rcases buildKeepingLast_succeeds (ofList hash pairs) with ⟨sequential, hsequential⟩
    have halike := h.buildKeepingLast_endAlike hbuilder hhash
    exact ⟨collected, sequential, hcollected, hsequential,
      halike.entries_eq hcollected hsequential⟩
  · intro base
    rw [entries_combine, h.entries_eq, order_combine, hash_combine]
    exact ⟨rfl, rfl, rfl⟩
  · intro split hsplit
    subst hsplit
    refine ⟨gathers_collect hash split, ?_, ?_⟩
    · rw [Map.collect, collect_eq_ofList, Map.ofList]
    · intro base
      rw [extendParallel, entries_combine, entries_collect, order_combine, hash_combine]
      exact ⟨rfl, rfl, rfl⟩
  · intro b
    rw [entries_empty_combine, combine_empty]
    exact ⟨rfl, rfl⟩

def gathered : Builder Nat Nat :=
  (((empty fun _ => 0).put 1 10).combine (empty Nat.toUInt64)).combine
    (((empty Nat.toUInt64).put 2 20).put 1 30)

theorem gathering_is_sequential_gathered :
    gathered.entries = #[⟨1, 10⟩, ⟨2, 20⟩, ⟨1, 30⟩] ∧
      exists collected sequential,
        gathered.buildKeepingLast.outcome = .ok collected ∧
        (Map.ofList Nat.toUInt64 [(1, 10), (2, 20), (1, 30)]).outcome = .ok sequential ∧
        collected.entries = sequential.entries := by
  have hleft : Gathers [(1, 10)] ((empty fun _ : Nat => 0).put 1 10) := .part _ [(1, 10)]
  have hright : Gathers [(2, 20), (1, 30)] (((empty Nat.toUInt64).put 2 20).put 1 30) :=
    .part _ [(2, 20), (1, 30)]
  have hgathered : Gathers [(1, 10), (2, 20), (1, 30)] gathered :=
    .join (.join hleft (.idle Nat.toUInt64)) hright
  have hword : forall a b : Nat, (a == b) = true -> Nat.toUInt64 a = Nat.toUInt64 b := by
    intro a b h
    rw [eq_of_beq h]
  have hall := gathering_is_sequential hgathered (fun _ _ _ => rfl) hword
  exact ⟨hall.1, hall.2.1⟩

end Builder

/-! ## The survey -/

namespace Parallel

/-- Nothing that the survey shows depends on the split. -/
theorem survey_eq (hasher : Hashing.Hasher) (before : List (Int64 × Int64))
    {split other : Split (Int64 × Int64)} (h : split.toList = other.toList) :
    survey hasher before split = survey hasher before other := by
  have hcollect : forall hash : Int64 -> UInt64,
      Builder.collect hash split = Builder.collect hash other := by
    intro hash
    rw [Builder.collect_eq_ofList, Builder.collect_eq_ofList, h]
  simp only [survey, Map.collect, Builder.extendParallel, hcollect]

theorem survey_halving (hasher : Hashing.Hasher) (before pairs : List (Int64 × Int64))
    (depth : Nat) :
    survey hasher before (.halving depth pairs) = survey hasher before (.part pairs) :=
  survey_eq hasher before (Split.toList_halving depth pairs)

end Parallel
end SealedMap
