import Mathlib.Data.List.Induction
import SealedMap.Builder
import SealedMap.Proofs.FirstEntries
import SealedMap.Proofs.LeftFolds

/-!
# The calls of a left fold

A left fold over entries calls the combining function once for each entry that
repeats a key, in the order of these entries, with the key as it was put first,
with what it holds by then and with the value of the entry.  The function may use
state.  Without state what a key holds is the fold of its values.
-/

namespace SealedMap

variable {σ K V : Type} [BEq K]

/-! ## What is held, and the calls made -/

section Calls

variable (combine : K -> V -> V -> StateM σ V) (entries : List (Entry K V)) (state : σ)

def heldAfter : List (Entry K V) :=
  ((leftFold combine entries).run state).1

/--
The call made for the entry at a position, if its key stands at an earlier one:
with that key, with what it holds before the position, and with the value there.
-/
def callAt? (pos : Nat) : Option (Builder.Call K V) := do
  let later <- entries[pos]?
  let first <- firstWith? (entries.take pos) later.key
  let held <- firstWith? (heldAfter combine (entries.take pos) state) later.key
  pure ⟨first.key, held.value, later.value⟩

def callsMade : List (Builder.Call K V) :=
  (List.range entries.length).filterMap (callAt? combine entries state)

end Calls

section Steps

variable {combine : K -> V -> V -> StateM σ V} {entries : List (Entry K V)}
  {entry held : Entry K V} {state : σ}

theorem run_leftFold_concat_of_none
    (h : firstWith? (heldAfter combine entries state) entry.key = none) :
    (leftFold combine (entries ++ [entry])).run state =
      (heldAfter combine entries state ++ [entry],
        ((leftFold combine entries).run state).2) := by
  rw [run_leftFold_concat]
  exact run_takeIn_of_new (firstWith?_eq_none_iff.mp h) _

theorem exists_run_leftFold_concat_of_some
    (h : firstWith? (heldAfter combine entries state) entry.key = some held) :
    exists front back, heldAfter combine entries state = front ++ held :: back ∧
      (forall other, other ∈ front -> (other.key == entry.key) = false) ∧
      (leftFold combine (entries ++ [entry])).run state =
        (front ++ ⟨held.key, ((combine held.key held.value entry.value).run
            ((leftFold combine entries).run state).2).1⟩ :: back,
          ((combine held.key held.value entry.value).run
            ((leftFold combine entries).run state).2).2) := by
  rcases exists_split_of_firstWith? h with ⟨hkey, front, back, hheld, hfront⟩
  refine ⟨front, back, hheld, hfront, ?_⟩
  rw [run_leftFold_concat]
  show (takeIn combine entry (heldAfter combine entries state)).run _ = _
  rw [hheld, run_takeIn_of_held hfront hkey]

theorem callsMade_concat :
    callsMade combine (entries ++ [entry]) state =
      callsMade combine entries state ++
        (callAt? combine (entries ++ [entry]) state entries.length).toList := by
  unfold callsMade
  have hbefore : (List.range entries.length).filterMap
      (callAt? combine (entries ++ [entry]) state) =
        (List.range entries.length).filterMap (callAt? combine entries state) := by
    apply List.filterMap_congr
    intro pos hpos
    have hlt := List.mem_range.mp hpos
    rw [callAt?, callAt?, List.getElem?_append_left hlt,
      List.take_append_of_le_length (Nat.le_of_lt hlt)]
  rw [List.length_append, List.length_singleton, List.range_succ, List.filterMap_append, hbefore]
  cases hcall : callAt? combine (entries ++ [entry]) state entries.length <;> simp [hcall]

theorem callAt?_concat (combine : K -> V -> V -> StateM σ V) (entries : List (Entry K V))
    (entry : Entry K V) (state : σ) :
    callAt? combine (entries ++ [entry]) state entries.length =
      (firstWith? entries entry.key).bind fun first =>
        (firstWith? (heldAfter combine entries state) entry.key).map fun held =>
          ⟨first.key, held.value, entry.value⟩ := by
  rw [callAt?, List.getElem?_concat_length, List.take_left, Option.bind_eq_bind, Option.bind_some]
  cases firstWith? entries entry.key with
  | none => rfl
  | some first => cases firstWith? (heldAfter combine entries state) entry.key <;> rfl

end Steps

/-! ## Keys that are held -/

theorem map_key_firstWith? (entries : List (Entry K V)) (key : K) :
    (firstWith? entries key).map Entry.key = (entries.map Entry.key).find? (· == key) := by
  rw [List.find?_map]
  rfl

variable [EquivBEq K]

theorem map_key_heldAfter (combine : K -> V -> V -> StateM σ V) (entries : List (Entry K V))
    (state : σ) :
    (heldAfter combine entries state).map Entry.key = (firsts entries).map Entry.key := by
  induction entries using List.reverseRecOn with
  | nil => rfl
  | append_singleton entries entry ih =>
      have hfirst : (firstWith? (heldAfter combine entries state) entry.key).map Entry.key =
          (firstWith? entries entry.key).map Entry.key := by
        rw [map_key_firstWith?, ih, ← map_key_firstWith?, firstWith?_firsts]
      cases hheld : firstWith? (heldAfter combine entries state) entry.key with
      | none =>
          rw [hheld] at hfirst
          have hnone := Option.map_eq_none_iff.mp hfirst.symm
          rw [heldAfter, run_leftFold_concat_of_none hheld, firsts_concat_of_none hnone,
            List.map_append, List.map_append, ih]
      | some held =>
          rw [hheld] at hfirst
          rcases Option.map_eq_some_iff.mp hfirst.symm with ⟨first, hsome, _⟩
          rcases exists_run_leftFold_concat_of_some hheld with ⟨front, back, heq, _, hrun⟩
          rw [heldAfter, hrun, firsts_concat_of_some hsome, ← ih, heq]
          simp only [List.map_append, List.map_cons]

theorem map_key_firstWith?_heldAfter (combine : K -> V -> V -> StateM σ V)
    (entries : List (Entry K V)) (state : σ) (key : K) :
    (firstWith? (heldAfter combine entries state) key).map Entry.key =
      (firstWith? entries key).map Entry.key := by
  rw [map_key_firstWith?, map_key_heldAfter, ← map_key_firstWith?, firstWith?_firsts]

theorem firstWith?_heldAfter_eq_none_iff (combine : K -> V -> V -> StateM σ V)
    (entries : List (Entry K V)) (state : σ) (key : K) :
    firstWith? (heldAfter combine entries state) key = none ↔ firstWith? entries key = none := by
  rw [← Option.map_eq_none_iff (f := Entry.key), map_key_firstWith?_heldAfter,
    Option.map_eq_none_iff]

theorem callAt?_concat_cases (combine : K -> V -> V -> StateM σ V) (entries : List (Entry K V))
    (entry : Entry K V) (state : σ) :
    (firstWith? (heldAfter combine entries state) entry.key = none ∧
        firstWith? entries entry.key = none ∧
        callAt? combine (entries ++ [entry]) state entries.length = none) ∨
      exists first held, firstWith? entries entry.key = some first ∧
        firstWith? (heldAfter combine entries state) entry.key = some held ∧
        held.key = first.key ∧
        callAt? combine (entries ++ [entry]) state entries.length =
          some ⟨first.key, held.value, entry.value⟩ := by
  have hkey := map_key_firstWith?_heldAfter combine entries state entry.key
  rw [callAt?_concat]
  cases hheld : firstWith? (heldAfter combine entries state) entry.key with
  | none =>
      have hnone := (firstWith?_heldAfter_eq_none_iff combine entries state entry.key).mp hheld
      rw [hnone]
      exact Or.inl ⟨rfl, rfl, rfl⟩
  | some held =>
      rw [hheld] at hkey
      rcases Option.map_eq_some_iff.mp hkey.symm with ⟨first, hfirst, hsame⟩
      rw [hfirst]
      exact Or.inr ⟨first, held, rfl, rfl, hsame.symm, rfl⟩

/-! ## Noting and counting the calls -/

def noting (combine : K -> V -> V -> StateM σ V) (key : K) (earlier later : V) :
    StateM (σ × Array (Builder.Call K V)) V :=
  fun (state, calls) =>
    let (value, after) := (combine key earlier later).run state
    (value, after, calls.push ⟨key, earlier, later⟩)

omit [BEq K] [EquivBEq K] in
theorem run_noting (combine : K -> V -> V -> StateM σ V) (key : K) (earlier later : V)
    (state : σ) (calls : Array (Builder.Call K V)) :
    (noting combine key earlier later).run (state, calls) =
      (((combine key earlier later).run state).1,
        ((combine key earlier later).run state).2, calls.push ⟨key, earlier, later⟩) := rfl

theorem run_leftFold_noting (combine : K -> V -> V -> StateM σ V)
    (entries : List (Entry K V)) (state : σ) :
    (leftFold (noting combine) entries).run (state, #[]) =
      (((leftFold combine entries).run state).1, ((leftFold combine entries).run state).2,
        (callsMade combine entries state).toArray) := by
  induction entries using List.reverseRecOn with
  | nil => rfl
  | append_singleton entries entry ih =>
      rw [run_leftFold_concat, ih, run_leftFold_concat, callsMade_concat]
      rcases callAt?_concat_cases combine entries entry state with
        ⟨hheld, _, hcall⟩ | ⟨first, held, _, hheld, hkey, hcall⟩
      · have hnew := firstWith?_eq_none_iff.mp hheld
        unfold heldAfter at hnew
        rw [hcall, run_takeIn_of_new hnew, run_takeIn_of_new hnew, Option.toList_none,
          List.append_nil]
      · rcases exists_split_of_firstWith? hheld with ⟨hsame, front, back, heq, hfront⟩
        unfold heldAfter at heq
        rw [hcall, heq, run_takeIn_of_held hfront hsame, run_takeIn_of_held hfront hsame,
          run_noting, hkey, Option.toList_some, List.push_toArray]

theorem length_callsMade_add (combine : K -> V -> V -> StateM σ V)
    (entries : List (Entry K V)) (state : σ) :
    (callsMade combine entries state).length + (firsts entries).length = entries.length := by
  induction entries using List.reverseRecOn with
  | nil => rfl
  | append_singleton entries entry ih =>
      rw [callsMade_concat, List.length_append, List.length_append, List.length_singleton]
      rcases callAt?_concat_cases combine entries entry state with
        ⟨_, hfirst, hcall⟩ | ⟨first, held, hfirst, _, _, hcall⟩
      · rw [hcall, firsts_concat_of_none hfirst, List.length_append]
        simp
        omega
      · rw [hcall, firsts_concat_of_some hfirst]
        simp
        omega

theorem length_callsMade (combine : K -> V -> V -> StateM σ V) (entries : List (Entry K V))
    (state : σ) :
    (callsMade combine entries state).length =
      entries.length - distinctCount (entries.map Entry.key) := by
  have hadd := length_callsMade_add combine entries state
  rw [length_firsts] at hadd
  omega

/-! ## Functions without state -/

/-- The first entry with a key, with all values of the key folded into it. -/
def foldedEntry (combine : K -> V -> V -> V) (entries : List (Entry K V))
    (first : Entry K V) : Entry K V :=
  ⟨first.key, (valuesOf entries first.key).tail.foldl (combine first.key) first.value⟩

def foldedCallAt? (combine : K -> V -> V -> V) (entries : List (Entry K V)) (pos : Nat) :
    Option (Builder.Call K V) := do
  let later <- entries[pos]?
  let first <- firstWith? (entries.take pos) later.key
  pure ⟨first.key, (foldedEntry combine (entries.take pos) first).value, later.value⟩

section Stateless

variable {combine : K -> V -> V -> V} {entries : List (Entry K V)} {entry first : Entry K V}

omit [EquivBEq K] in
theorem foldedEntry_concat_of_ne (h : (entry.key == first.key) = false) :
    foldedEntry combine (entries ++ [entry]) first = foldedEntry combine entries first := by
  rw [foldedEntry, foldedEntry, valuesOf_concat_of_ne h]

omit [EquivBEq K] in
theorem foldedEntry_concat_of_eq (hfirst : firstWith? entries first.key = some first)
    (h : (entry.key == first.key) = true) :
    foldedEntry combine (entries ++ [entry]) first =
      ⟨first.key, combine first.key (foldedEntry combine entries first).value entry.value⟩ := by
  rcases exists_valuesOf_eq_cons hfirst with ⟨more, hmore⟩
  rw [foldedEntry, foldedEntry, valuesOf_concat_of_eq h, hmore, List.cons_append, List.tail_cons,
    List.tail_cons, List.foldl_append]
  rfl

theorem foldedEntry_concat_self (h : firstWith? entries entry.key = none) :
    foldedEntry combine (entries ++ [entry]) entry = entry := by
  rw [foldedEntry, valuesOf_concat_of_eq BEq.rfl, valuesOf_eq_nil h]
  rfl

theorem map_foldedEntry_concat {others : List (Entry K V)}
    (h : forall other, other ∈ others -> (other.key == entry.key) = false) :
    others.map (foldedEntry combine (entries ++ [entry])) =
      others.map (foldedEntry combine entries) := by
  apply List.map_congr_left
  intro other hother
  exact foldedEntry_concat_of_ne (beq_comm_false (h other hother))

omit [EquivBEq K] in
theorem map_foldedEntry_key_ne {others : List (Entry K V)} {key : K}
    (h : forall other, other ∈ others -> (other.key == key) = false) :
    forall other, other ∈ others.map (foldedEntry combine entries) ->
      (other.key == key) = false := by
  intro other hother
  rcases List.mem_map.mp hother with ⟨source, hsource, rfl⟩
  exact h source hsource

theorem firstWith?_map_foldedEntry (key : K) :
    firstWith? ((firsts entries).map (foldedEntry combine entries)) key =
      (firstWith? entries key).map (foldedEntry combine entries) := by
  rw [← firstWith?_firsts entries, firstWith?, List.find?_map]
  rfl

end Stateless

theorem heldAfter_pure (combine : K -> V -> V -> V) (entries : List (Entry K V)) (state : σ) :
    heldAfter (fun key earlier later => pure (combine key earlier later)) entries state =
      (firsts entries).map (foldedEntry combine entries) := by
  induction entries using List.reverseRecOn with
  | nil => rfl
  | append_singleton entries entry ih =>
      unfold heldAfter at ih ⊢
      rw [run_leftFold_concat, ih]
      cases hfirst : firstWith? entries entry.key with
      | none =>
          have hnew : forall other, other ∈ firsts entries ->
              (other.key == entry.key) = false := by
            rw [← firstWith?_eq_none_iff, firstWith?_firsts, hfirst]
          rw [run_takeIn_of_new (map_foldedEntry_key_ne hnew), firsts_concat_of_none hfirst,
            List.map_append, map_foldedEntry_concat hnew, List.map_singleton,
            foldedEntry_concat_self hfirst]
      | some first =>
          rcases exists_firsts_split hfirst with ⟨hkey, front, back, heq, hfront, hback⟩
          have hself : firstWith? entries first.key = some first := by
            rw [firstWith?_congr hkey, hfirst]
          have hheld : ((foldedEntry combine entries first).key == entry.key) = true := hkey
          rw [firsts_concat_of_some hfirst, heq, List.map_append, List.map_cons, List.map_append,
            List.map_cons, map_foldedEntry_concat hfront, map_foldedEntry_concat hback,
            foldedEntry_concat_of_eq hself (BEq.symm hkey),
            run_takeIn_of_held (map_foldedEntry_key_ne hfront) hheld]
          rfl

theorem callAt?_pure (combine : K -> V -> V -> V) (entries : List (Entry K V)) (state : σ)
    (pos : Nat) :
    callAt? (fun key earlier later => pure (combine key earlier later)) entries state pos =
      foldedCallAt? combine entries pos := by
  unfold callAt? foldedCallAt?
  congr 1
  funext later
  rw [heldAfter_pure, firstWith?_map_foldedEntry]
  cases firstWith? (entries.take pos) later.key <;> rfl

theorem callsMade_pure (combine : K -> V -> V -> V) (entries : List (Entry K V)) (state : σ) :
    callsMade (fun key earlier later => pure (combine key earlier later)) entries state =
      (List.range entries.length).filterMap (foldedCallAt? combine entries) := by
  unfold callsMade
  congr 1
  funext pos
  exact callAt?_pure combine entries state pos

/-! ## Functions that differ in their state -/

section States

variable {τ : Type} {combine : K -> V -> V -> StateM σ V} {other : K -> V -> V -> StateM τ V}
  {view : σ -> τ}

omit [EquivBEq K] in
theorem run_takeIn_map
    (h : forall key earlier later state, (other key earlier later).run (view state) =
      (((combine key earlier later).run state).1, view ((combine key earlier later).run state).2))
    (entry : Entry K V) (items : List (Entry K V)) (state : σ) :
    (takeIn other entry items).run (view state) =
      (((takeIn combine entry items).run state).1,
        view ((takeIn combine entry items).run state).2) := by
  induction items with
  | nil => rfl
  | cons held rest ih =>
      cases hkey : held.key == entry.key with
      | false => rw [run_takeIn_cons_of_ne hkey, run_takeIn_cons_of_ne hkey, ih]
      | true =>
          have hnone : forall third, third ∈ ([] : List (Entry K V)) ->
              (third.key == entry.key) = false := nofun
          rw [← List.nil_append (held :: rest), run_takeIn_of_held hnone hkey,
            run_takeIn_of_held hnone hkey, h]

omit [EquivBEq K] in
theorem run_leftFold_map
    (h : forall key earlier later state, (other key earlier later).run (view state) =
      (((combine key earlier later).run state).1, view ((combine key earlier later).run state).2))
    (entries : List (Entry K V)) (state : σ) :
    (leftFold other entries).run (view state) =
      (((leftFold combine entries).run state).1,
        view ((leftFold combine entries).run state).2) := by
  induction entries using List.reverseRecOn with
  | nil => rfl
  | append_singleton entries entry ih =>
      rw [run_leftFold_concat, run_leftFold_concat, ih, run_takeIn_map h]

end States

theorem run_leftFold_recording (combine : K -> V -> V -> V) (entries : List (Entry K V)) :
    (leftFold (Builder.recording combine) entries).run #[] =
      ((firsts entries).map (foldedEntry combine entries),
        ((List.range entries.length).filterMap (foldedCallAt? combine entries)).toArray) := by
  have hsame : forall key earlier later (state : Unit × Array (Builder.Call K V)),
      (Builder.recording combine key earlier later).run state.2 =
        (((noting (fun key earlier later => pure (combine key earlier later)) key earlier
            later).run state).1,
          ((noting (fun key earlier later => pure (combine key earlier later)) key earlier
            later).run state).2.2) :=
    fun _ _ _ _ => rfl
  have hmap := run_leftFold_map hsame entries ((), #[])
  rw [run_leftFold_noting, callsMade_pure] at hmap
  rw [hmap, ← heldAfter_pure combine entries ()]
  rfl

/-! ## Policies that resolve repeats -/

theorem run_settled_of_resolves {policy : Policy σ K V} (h : policy.rejects = false)
    (entries : Array (Entry K V)) (state : σ) :
    (settled policy entries).run state =
      (.ok (heldAfter policy.combine entries.toList state).toArray,
        ((leftFold policy.combine entries.toList).run state).2) := by
  have hkept : policy.rejects = true -> repeatsOf entries = [] := by
    intro hrejects
    rw [h] at hrejects
    cases hrejects
  rw [run_settled_of_kept hkept, heldAfter, run_leftFold_toList]

end SealedMap
